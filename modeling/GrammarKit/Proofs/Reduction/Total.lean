import GrammarKit.Proofs.Reduction.Visit

namespace GrammarKit.Reduction

section Taking

variable {ε σ α β : Type}

/-- Going over items that were made of results leads back to these. -/
theorem yields_mapM_map {action : α → ExceptT ε (StateM σ) β} {make : β → α}
    (hmake : ∀ result state, Yields (action (make result)) state result state) (results : List β)
    (state : σ) :
    Yields ((results.map make).mapM action) state results state := by
  induction results with
  | nil => exact yields_pure_iff.2 ⟨rfl, rfl⟩
  | cons result rest ih =>
    rw [List.map_cons, List.mapM_cons]
    exact yields_bind_iff.2 ⟨_, _, hmake result state,
      yields_bind_iff.2 ⟨_, _, ih, yields_pure_iff.2 ⟨rfl, rfl⟩⟩⟩

end Taking

variable {K O C : Type}

/-- A reducer makes what can be taken from its arguments. -/
theorem ofTaking_eq_ok {taking : Arguments.Taking K O O} {values : List (Value K O)} {result : O}
    {after : Arguments K O} (htaking : Yields taking (.ofValues values) result after)
    (context : C) :
    Reducer.ofTaking taking (.ofValues values) context = (.ok result, context) := by
  rw [Reducer.ofTaking, show taking.run.run (.ofValues values) = _ from htaking]

variable [DecidableEq K] [TokenKind K] {grammar : Grammar K (Reducer K O C)}

/-- A node that is not one of an operator has the reducer of its rule. -/
theorem reducer?_eq {label : NodeLabel K} {rule : Rule K (Reducer K O C)}
    (hrule : grammar.rule? label.name label.rule = some rule) (hoperator : label.operator = none) :
    reducer? grammar label = rule.reducer := by
  rw [reducer?, hrule, hoperator]
  rfl

/-- Whether a tree is reduced to a value in every context, which stays as it is,
    so that the value depends on nothing but the tree. -/
def Makes (grammar : Grammar K (Reducer K O C)) (tree : SyntaxTree K) (value : Value K O) : Prop :=
  ∀ context, Yields (visit grammar tree) context value context

theorem makes_leaf (token : Token K) (discarded : Bool) :
    Makes grammar (.leaf token discarded) (.token token) :=
  fun _ => yields_pure_iff.2 ⟨rfl, rfl⟩

theorem makes_absent (shape : Shape) (discarded : Bool) :
    Makes grammar (.absent shape discarded) (emptyOption shape) :=
  fun _ => yields_pure_iff.2 ⟨rfl, rfl⟩

/-- An option has the value of its child. -/
theorem Makes.present {child : SyntaxTree K} {value : Value K O}
    (hchild : Makes grammar child value) (shape : Shape) (discarded : Bool) :
    Makes grammar (.present shape child discarded) (optionValue shape value) :=
  fun context => yields_bind_iff.2 ⟨value, context, hchild context, yields_pure_iff.2 ⟨rfl, rfl⟩⟩

variable {trees : List (SyntaxTree K)} {values : List (Value K O)}

/-- Trees are reduced to their values. -/
theorem yields_visitEach (hvalues : List.Forall₂ (Makes grammar) trees values) (context : C) :
    Yields (visitEach grammar trees) context values context := by
  induction hvalues with
  | nil => exact yields_pure_iff.2 ⟨rfl, rfl⟩
  | cons hvalue _ ih =>
    exact yields_bind_iff.2 ⟨_, _, hvalue context,
      yields_bind_iff.2 ⟨_, _, ih, yields_pure_iff.2 ⟨rfl, rfl⟩⟩⟩

/-- A repetition has the values of its items. -/
theorem makes_many (hvalues : List.Forall₂ (Makes grammar) trees values) (shape : Shape)
    (discarded : Bool) :
    Makes grammar (.many shape trees discarded) (manyValue shape values) :=
  fun context => yields_bind_iff.2 ⟨values, context, yields_visitEach hvalues context,
    yields_pure_iff.2 ⟨rfl, rfl⟩⟩

/-- Discarded trees are passed over. -/
theorem exists_yields_visitShown
    (hvalues : List.Forall₂ (Makes grammar) (trees.filter fun tree => !tree.isDiscarded) values)
    (context : C) :
    ∃ items, items.map Prod.snd = values ∧ Yields (visitShown grammar trees) context
      items context := by
  induction trees generalizing values with
  | nil =>
    obtain rfl := List.forall₂_nil_left_iff.1 hvalues
    exact ⟨[], rfl, yields_pure_iff.2 ⟨rfl, rfl⟩⟩
  | cons tree rest ih =>
    rw [visitShown]
    cases hdiscarded : tree.isDiscarded with
    | true =>
      rw [List.filter_cons_of_neg (by simp [hdiscarded])] at hvalues
      rw [if_pos rfl]
      exact ih hvalues
    | false =>
      rw [List.filter_cons_of_pos (by simp [hdiscarded])] at hvalues
      obtain ⟨value, others, hvalue, hothers, rfl⟩ := List.forall₂_cons_left_iff.1 hvalues
      obtain ⟨items, rfl, hitems⟩ := ih hothers
      rw [if_neg Bool.false_ne_true]
      exact ⟨(tree.name, value) :: items, rfl,
        yields_bind_iff.2 ⟨_, _, hvalue context,
          yields_bind_iff.2 ⟨_, _, hitems, yields_pure_iff.2 ⟨rfl, rfl⟩⟩⟩⟩

/-- A node whose reducer makes something of the values of its shown children is
    reduced to that. -/
theorem makes_node {label : NodeLabel K} {reducer : Reducer K O C} {result : O}
    (hgroup : label.isGroup = false) (hbypass : label.isBypass = false)
    (hreducer : reducer? grammar label = some reducer)
    (hvalues : List.Forall₂ (Makes grammar) (trees.filter fun tree => !tree.isDiscarded) values)
    (hcall : ∀ context, reducer (.ofValues values) context = (.ok result, context)) :
    Makes grammar (.node label trees) (.value result) := by
  intro context
  obtain ⟨items, hitems, hvisit⟩ := exists_yields_visitShown hvalues context
  rw [visit_node_eq hgroup hbypass]
  exact yields_bind_iff.2 ⟨items, context, hvisit,
    yields_callReducer_iff.2 ⟨reducer, result, hreducer, hitems ▸ hcall context, rfl⟩⟩

/-- A tree that is reduced to the result of a reducer has that result as a whole. -/
theorem Makes.yields_reduce {tree : SyntaxTree K} {result : O}
    (htree : Makes grammar tree (.value result)) (context : C) :
    Yields (reduce grammar tree) context result context :=
  yields_bind_iff.2 ⟨_, _, htree context, yields_pure_iff.2 ⟨rfl, rfl⟩⟩

end GrammarKit.Reduction
