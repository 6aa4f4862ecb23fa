import GrammarKit.Reduction
import Mathlib.Data.List.Forall2

namespace GrammarKit

namespace Value

variable {K O : Type}

mutual

/-- The results of reducers in a value. -/
def results : Value K O → List O
  | token _ | tokens _ | tokenOption _ => []
  | value found => [found]
  | values found => found
  | valueOption found => found.toList
  | group items => resultsIn items
  | groups found => resultsInEach found
  | groupOption none => []
  | groupOption (some items) => resultsIn items

/-- The results in named values. -/
def resultsIn : List (String × Value K O) → List O
  | [] => []
  | (_, item) :: rest => results item ++ resultsIn rest

def resultsInEach : List (List (String × Value K O)) → List O
  | [] => []
  | items :: rest => resultsIn items ++ resultsInEach rest

end

theorem resultsIn_eq_flatMap (items : List (String × Value K O)) :
    resultsIn items = items.flatMap fun item => item.2.results := by
  induction items with
  | nil => rfl
  | cons first rest ih => rw [resultsIn, ih, List.flatMap_cons]

theorem resultsInEach_eq_flatMap (groups : List (List (String × Value K O))) :
    resultsInEach groups = groups.flatMap resultsIn := by
  induction groups with
  | nil => rfl
  | cons first rest ih => rw [resultsInEach, ih, List.flatMap_cons]

end Value

namespace Reduction

section Results

variable {K O : Type}

theorem exists_of_mem_right {α β : Type} {related : α → β → Prop} {first : List α} {second : List β}
    (hlists : List.Forall₂ related first second) {b : β} (hb : b ∈ second) :
    ∃ a ∈ first, related a b := by
  induction hlists with
  | nil => cases hb
  | cons hhead _ ih =>
    rcases List.mem_cons.1 hb with rfl | hb
    · exact ⟨_, List.mem_cons_self, hhead⟩
    · obtain ⟨a, ha, hrelated⟩ := ih hb
      exact ⟨a, List.mem_cons_of_mem _ ha, hrelated⟩

/-- An option has the results of its child. -/
theorem results_optionValue (shape : Shape) (value : Value K O) :
    (optionValue shape value).results = value.results := by
  cases shape <;> cases value <;> rfl

/-- The results of a repetition are those of its items. -/
theorem exists_of_mem_results_manyValue {shape : Shape} {values : List (Value K O)} {result : O}
    (hresult : result ∈ (manyValue shape values).results) :
    ∃ value ∈ values, result ∈ value.results := by
  cases shape with
  | token => cases hresult
  | value =>
    obtain ⟨value, hvalue, hsome⟩ := List.mem_filterMap.1 hresult
    cases value with
    | value found =>
      obtain rfl := Option.some.inj hsome
      exact ⟨_, hvalue, List.mem_singleton_self _⟩
    | _ => cases hsome
  | group =>
    rw [manyValue, Value.results, Value.resultsInEach_eq_flatMap] at hresult
    obtain ⟨items, hitems, hresult⟩ := List.mem_flatMap.1 hresult
    obtain ⟨value, hvalue, hsome⟩ := List.mem_filterMap.1 hitems
    cases value with
    | group found =>
      obtain rfl := Option.some.inj hsome
      exact ⟨_, hvalue, hresult⟩
    | _ => cases hsome

end Results

section Yields

variable {ε σ α β : Type}

/-- Whether a computation that can fail succeeds with a result, from one state to another. -/
def Yields (action : ExceptT ε (StateM σ) α) (before : σ) (result : α) (after : σ) : Prop :=
  action.run.run before = (.ok result, after)

variable {before after : σ}

/-- A result that is given succeeds with itself and leaves the state. -/
theorem yields_pure_iff {result found : α} :
    Yields (pure result : ExceptT ε (StateM σ) α) before found after ↔ result = found ∧
    before = after := by
  constructor
  · intro h
    obtain ⟨hresult, hafter⟩ := Prod.mk.inj h
    exact ⟨Except.ok.inj hresult, hafter⟩
  · rintro ⟨rfl, rfl⟩
    rfl

/-- A computation goes on where the one before it ended. -/
theorem run_bind {action : ExceptT ε (StateM σ) α} {next : α → ExceptT ε (StateM σ) β} :
    (action >>= next).run.run before =
      match action.run.run before with
      | (.ok found, between) => (next found).run.run between
      | (.error failure, between) => (.error failure, between) := by
  rw [ExceptT.run_bind, StateT.run_bind]
  obtain ⟨_ | found, between⟩ := action.run.run before <;> rfl

/-- A computation succeeds when both of its parts do, one after the other. -/
theorem yields_bind_iff {action : ExceptT ε (StateM σ) α} {next : α → ExceptT ε (StateM σ) β}
    {result : β} :
    Yields (action >>= next) before result after ↔
      ∃ found between, Yields action before found between ∧
        Yields (next found) between result after := by
  rw [Yields, run_bind]
  rcases hfirst : action.run.run before with ⟨failure | found, between⟩
  · constructor
    · intro h
      cases h
    · rintro ⟨other, middle, hother, -⟩
      cases hfirst.symm.trans hother
  · constructor
    · intro h
      exact ⟨found, between, hfirst, h⟩
    · rintro ⟨other, middle, hother, h⟩
      obtain ⟨heq, rfl⟩ := Prod.mk.inj (hfirst.symm.trans hother)
      obtain rfl := Except.ok.inj heq
      exact h

/-- What fails does not succeed. -/
theorem not_yields_throw {failure : ε} {result : α} :
    ¬ Yields (throw failure : ExceptT ε (StateM σ) α) before result after :=
  nofun

/-- Going over items that all succeed gives a result for each. -/
theorem forall₂_of_yields_mapM {action : α → ExceptT ε (StateM σ) β} {items : List α}
    {results : List β} (hresults : Yields (items.mapM action) before results after) :
    List.Forall₂ (fun item result => ∃ before after, Yields (action item) before result after)
      items results := by
  induction items generalizing before results after with
  | nil =>
    rw [List.mapM_nil] at hresults
    obtain ⟨rfl, -⟩ := yields_pure_iff.1 hresults
    exact .nil
  | cons first rest ih =>
    rw [List.mapM_cons] at hresults
    obtain ⟨result, between, hfirst, hrest⟩ := yields_bind_iff.1 hresults
    obtain ⟨others, _, hothers, hpure⟩ := yields_bind_iff.1 hrest
    obtain ⟨rfl, -⟩ := yields_pure_iff.1 hpure
    exact .cons ⟨before, between, hfirst⟩ (ih hothers)

end Yields

variable {K O C : Type} [DecidableEq K] [TokenKind K]

variable {grammar : Grammar K (Reducer K O C)}

/-- A call applies the reducer to the arguments in the context, and names the
    node when it fails. -/
theorem run_callReducer (label : NodeLabel K) (values : List (Value K O)) (context : C) :
    (callReducer grammar label values).run.run context =
      match reducer? grammar label with
      | none => (.error ⟨label.name, .noReducer label.name⟩, context)
      | some reducer =>
        match reducer (.ofValues values) context with
        | (.ok value, after) => (.ok (.value value), after)
        | (.error reason, after) => (.error ⟨label.name, reason⟩, after) := by
  rw [callReducer]
  cases reducer? grammar label with
  | none => rfl
  | some reducer =>
    have hcall : (modifyGet (reducer (.ofValues values)) :
        Reducing C (Except ReduceError O)).run.run context =
        (.ok (reducer (.ofValues values) context).1, (reducer (.ofValues values) context).2) := rfl
    refine run_bind.trans ?_
    rw [hcall]
    dsimp only
    obtain ⟨_ | value, after⟩ := reducer (.ofValues values) context <;> rfl

/-- A call succeeds with the value that the reducer makes of the arguments. -/
theorem yields_callReducer_iff {label : NodeLabel K} {values : List (Value K O)} {context after : C}
    {value : Value K O} :
    Yields (callReducer grammar label values) context value after ↔
      ∃ reducer result, reducer? grammar label = some reducer ∧
        reducer (.ofValues values) context = (.ok result, after) ∧ value = .value result := by
  rw [callReducer]
  cases reducer? grammar label with
  | none => simpa using not_yields_throw
  | some reducer =>
    rw [yields_bind_iff]
    constructor
    · rintro ⟨outcome, between, houtcome, hvalue⟩
      obtain ⟨heq, rfl⟩ := Prod.mk.inj houtcome
      obtain rfl := Except.ok.inj heq
      cases hcall : (reducer (.ofValues values) context).1 with
      | ok result =>
        rw [hcall] at hvalue
        obtain ⟨rfl, rfl⟩ := yields_pure_iff.1 hvalue
        exact ⟨reducer, result, rfl, Prod.ext hcall rfl, rfl⟩
      | error reason =>
        rw [hcall] at hvalue
        exact absurd hvalue not_yields_throw
    · rintro ⟨_, result, hreducer, hcall, rfl⟩
      obtain rfl := Option.some.inj hreducer
      refine ⟨.ok result, after, ?_, yields_pure_iff.2 ⟨rfl, rfl⟩⟩
      show (Except.ok (reducer (.ofValues values) context).1,
        (reducer (.ofValues values) context).2) = _
      rw [hcall]

/-- A node that is neither a group nor one that only leads on has the value that
    its reducer makes. -/
theorem visit_node_eq {label : NodeLabel K} (hgroup : label.isGroup = false)
    (hbypass : label.isBypass = false) (children : List (SyntaxTree K)) :
    visit grammar (.node label children) =
      visitShown grammar children >>= fun items =>
        callReducer grammar label (items.map Prod.snd) := by
  rw [visit]
  congr
  funext items
  unfold nodeValue
  rw [hgroup, hbypass, if_neg Bool.false_ne_true]

/-- Whether a tree was reduced to a value, whatever the context was before and after it. -/
def Evaluates (grammar : Grammar K (Reducer K O C)) (tree : SyntaxTree K) (value : Value K O) :
    Prop :=
  ∃ context after, Yields (visit grammar tree) context value after

/-- Whether trees were reduced to values, one for each that is not discarded,
    with their names. -/
def EvaluateShown (grammar : Grammar K (Reducer K O C)) (trees : List (SyntaxTree K))
    (items : List (String × Value K O)) :
    Prop :=
  List.Forall₂ (fun tree item => item.1 = tree.name ∧ Evaluates grammar tree item.2)
    (trees.filter fun tree => !tree.isDiscarded) items

/-- A discarded tree has no value. -/
theorem EvaluateShown.hidden {tree : SyntaxTree K} {trees : List (SyntaxTree K)}
    {items : List (String × Value K O)} (hdiscarded : tree.isDiscarded = true)
    (hitems : EvaluateShown grammar (tree :: trees) items) :
    EvaluateShown grammar trees items := by
  rwa [EvaluateShown, List.filter_cons_of_neg (by simp [hdiscarded])] at hitems

/-- The first of the trees that are shown has the first value. -/
theorem EvaluateShown.uncons {tree : SyntaxTree K} {trees : List (SyntaxTree K)}
    {items : List (String × Value K O)} (hshown : tree.isDiscarded = false)
    (hitems : EvaluateShown grammar (tree :: trees) items) :
    ∃ value others, items = (tree.name, value) :: others ∧ Evaluates grammar tree value ∧
      EvaluateShown grammar trees others := by
  rw [EvaluateShown, List.filter_cons_of_pos (by simp [hshown])] at hitems
  obtain ⟨⟨name, value⟩, others, ⟨hname, hvalue⟩, hothers, rfl⟩ :=
    List.forall₂_cons_left_iff.1 hitems
  obtain rfl : name = tree.name := hname
  exact ⟨value, others, rfl, hvalue, hothers⟩

theorem EvaluateShown.eq_nil {items : List (String × Value K O)}
    (hitems : EvaluateShown grammar [] items) : items = [] :=
  List.forall₂_nil_left_iff.1 hitems

/-- A visit of trees that succeeds reduces each. -/
theorem forall₂_of_yields_visitEach {trees : List (SyntaxTree K)} {values : List (Value K O)}
    {context after : C} (hvisit : Yields (visitEach grammar trees) context values after) :
    List.Forall₂ (Evaluates grammar) trees values := by
  induction trees generalizing values context after with
  | nil =>
    obtain ⟨rfl, -⟩ := yields_pure_iff.1 hvisit
    exact .nil
  | cons tree rest ih =>
    obtain ⟨value, between, hvalue, hrest⟩ := yields_bind_iff.1 hvisit
    obtain ⟨others, _, hothers, hpure⟩ := yields_bind_iff.1 hrest
    obtain ⟨rfl, -⟩ := yields_pure_iff.1 hpure
    exact .cons ⟨context, between, hvalue⟩ (ih hothers)

/-- A visit of shown trees that succeeds reduces each that is not discarded. -/
theorem evaluateShown_of_yields {trees : List (SyntaxTree K)} {items : List (String × Value K O)}
    {context after : C} (hvisit : Yields (visitShown grammar trees) context items after) :
    EvaluateShown grammar trees items := by
  induction trees generalizing items context after with
  | nil =>
    obtain ⟨rfl, -⟩ := yields_pure_iff.1 hvisit
    exact .nil
  | cons tree rest ih =>
    rw [visitShown] at hvisit
    unfold EvaluateShown at ih ⊢
    cases hdiscarded : tree.isDiscarded with
    | true =>
      rw [hdiscarded, if_pos rfl] at hvisit
      simpa [hdiscarded] using ih hvisit
    | false =>
      rw [hdiscarded, if_neg Bool.false_ne_true] at hvisit
      obtain ⟨value, between, hvalue, hrest⟩ := yields_bind_iff.1 hvisit
      obtain ⟨others, _, hothers, hpure⟩ := yields_bind_iff.1 hrest
      obtain ⟨rfl, -⟩ := yields_pure_iff.1 hpure
      rw [List.filter_cons_of_pos (by simp [hdiscarded])]
      exact .cons ⟨rfl, context, between, hvalue⟩ (ih hothers)

namespace Evaluates

/-- A token has itself as its value. -/
theorem leaf {token : Token K} {discarded : Bool} {value : Value K O}
    (hvalue : Evaluates grammar (.leaf token discarded) value) : value = .token token := by
  obtain ⟨_, _, h⟩ := hvalue
  exact (yields_pure_iff.1 h).1.symm

/-- An option that is not there has the value of none. -/
theorem absent {shape : Shape} {discarded : Bool} {value : Value K O}
    (hvalue : Evaluates grammar (.absent shape discarded) value) : value = emptyOption shape := by
  obtain ⟨_, _, h⟩ := hvalue
  exact (yields_pure_iff.1 h).1.symm

/-- An option that is there has the value of its child. -/
theorem present {shape : Shape} {child : SyntaxTree K} {discarded : Bool} {value : Value K O}
    (hvalue : Evaluates grammar (.present shape child discarded) value) :
    ∃ inner, Evaluates grammar child inner ∧ value = optionValue shape inner := by
  obtain ⟨context, _, h⟩ := hvalue
  obtain ⟨inner, between, hinner, hpure⟩ := yields_bind_iff.1 h
  exact ⟨inner, ⟨context, between, hinner⟩, (yields_pure_iff.1 hpure).1.symm⟩

/-- A repetition has the values of its items. -/
theorem many {shape : Shape} {children : List (SyntaxTree K)} {discarded : Bool} {value : Value K O}
    (hvalue : Evaluates grammar (.many shape children discarded) value) :
    ∃ items, List.Forall₂ (Evaluates grammar) children items ∧ value = manyValue shape items := by
  obtain ⟨_, _, h⟩ := hvalue
  obtain ⟨items, _, hitems, hpure⟩ := yields_bind_iff.1 h
  exact ⟨items, forall₂_of_yields_visitEach hitems, (yields_pure_iff.1 hpure).1.symm⟩

/-- A group keeps its values, a node that only leads on passes a single value
    on, and all others call a reducer. -/
theorem node {label : NodeLabel K} {children : List (SyntaxTree K)} {value : Value K O}
    (hvalue : Evaluates grammar (.node label children) value) :
    ∃ items, EvaluateShown grammar children items ∧
      (label.isGroup = true ∧ value = .group items ∨
        label.isGroup = false ∧ label.isBypass = true ∧ items.map Prod.snd = [value] ∨
        label.isGroup = false ∧ ∃ reducer context result after,
          reducer? grammar label = some reducer ∧
          reducer (.ofValues (items.map Prod.snd)) context = (.ok result, after) ∧
          value = .value result) := by
  obtain ⟨_, after, h⟩ := hvalue
  obtain ⟨items, between, hitems, hnode⟩ := yields_bind_iff.1 h
  refine ⟨items, evaluateShown_of_yields hitems, ?_⟩
  unfold nodeValue at hnode
  cases hgroup : label.isGroup with
  | true =>
    rw [hgroup, if_pos rfl] at hnode
    exact Or.inl ⟨rfl, (yields_pure_iff.1 hnode).1.symm⟩
  | false =>
    rw [hgroup, if_neg Bool.false_ne_true] at hnode
    right
    split at hnode
    · next hbypass =>
      obtain ⟨rfl, -⟩ := yields_pure_iff.1 hnode
      exact Or.inl ⟨rfl, hbypass, rfl⟩
    · obtain ⟨reducer, result, hreducer, hcall, rfl⟩ := yields_callReducer_iff.1 hnode
      exact Or.inr ⟨rfl, reducer, between, result, after, hreducer, hcall, rfl⟩

end Evaluates

/-- A tree that is reduced to a result has it as its value. -/
theorem evaluates_of_yields_reduce {tree : SyntaxTree K} {context after : C} {result : O}
    (hreduce : Yields (reduce grammar tree) context result after) :
    Evaluates grammar tree (.value result) := by
  obtain ⟨value, between, hvalue, hresult⟩ := yields_bind_iff.1 hreduce
  split at hresult
  · obtain ⟨rfl, -⟩ := yields_pure_iff.1 hresult
    exact ⟨context, between, hvalue⟩
  · exact absurd hresult not_yields_throw

section Keeps

/-- Whether the result of a reducer has a property when all results among its
    arguments have it. -/
def Keeps (holds : O → Prop) (reducer : Reducer K O C) : Prop :=
  ∀ (values : List (Value K O)) (context : C) (result : O) (after : C),
    (∀ value ∈ values, ∀ result ∈ value.results, holds result) →
      reducer (.ofValues values) context = (.ok result, after) → holds result

variable {holds : O → Prop}

mutual

/-- What all reducers keep holds of every result. -/
theorem Evaluates.forall_results
    (hkeeps : ∀ label reducer, reducer? grammar label = some reducer → Keeps holds reducer) :
    ∀ {tree : SyntaxTree K} {value : Value K O}, Evaluates grammar tree value →
      ∀ result ∈ value.results, holds result
  | .leaf .., _, hvalue => by
    rw [hvalue.leaf]
    nofun
  | .absent shape _, _, hvalue => by
    rw [hvalue.absent]
    cases shape <;> nofun
  | .present _ child _, _, hvalue => by
    obtain ⟨inner, hinner, rfl⟩ := hvalue.present
    rw [results_optionValue]
    exact hinner.forall_results hkeeps
  | .many _ children _, _, hvalue => by
    obtain ⟨values, hvalues, rfl⟩ := hvalue.many
    intro result hresult
    obtain ⟨value, hmem, hresult⟩ := exists_of_mem_results_manyValue hresult
    obtain ⟨tree, htree, hvalue⟩ := exists_of_mem_right hvalues hmem
    exact forall_results_of_mem hkeeps htree hvalue result hresult
  | .node label children, value, hvalue => by
    obtain ⟨items, hitems, hnode⟩ := hvalue.node
    have hall : ∀ item ∈ items, ∀ result ∈ item.2.results, holds result := by
      intro item hitem
      obtain ⟨tree, htree, -, hevaluates⟩ := exists_of_mem_right hitems hitem
      exact forall_results_of_mem hkeeps (List.mem_filter.1 htree).1 hevaluates
    rcases hnode with ⟨-, rfl⟩ | ⟨-, -, hsingle⟩ |
      ⟨-, reducer, context, found, after, hreducer, hcall, rfl⟩
    · intro result hresult
      rw [Value.results, Value.resultsIn_eq_flatMap] at hresult
      obtain ⟨item, hitem, hresult⟩ := List.mem_flatMap.1 hresult
      exact hall item hitem result hresult
    · have hmem : value ∈ items.map Prod.snd := by simp [hsingle]
      obtain ⟨item, hitem, rfl⟩ := List.mem_map.1 hmem
      exact hall item hitem
    · intro result hresult
      obtain rfl := List.mem_singleton.1 hresult
      exact hkeeps label reducer hreducer _ context _ after (List.forall_mem_map.2 hall) hcall

theorem forall_results_of_mem
    (hkeeps : ∀ label reducer, reducer? grammar label = some reducer → Keeps holds reducer) :
    ∀ {trees : List (SyntaxTree K)} {tree : SyntaxTree K}, tree ∈ trees → ∀ {value : Value K O},
      Evaluates grammar tree value → ∀ result ∈ value.results, holds result
  | [], _, htree => nomatch htree
  | first :: rest, tree, htree => by
    rcases List.mem_cons.1 htree with heq | htree
    · rw [heq]
      exact Evaluates.forall_results hkeeps
    · exact forall_results_of_mem hkeeps htree

end

end Keeps

end Reduction

end GrammarKit
