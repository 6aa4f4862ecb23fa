import GrammarKit.Proofs.Reduction.Visit
import GrammarKit.Proofs.SyntaxTree.Items

namespace GrammarKit

variable {K O C : Type}

/-- The form of a single value. -/
def Value.form? : Value K O → Option Shape
  | token _ => some .token
  | value _ => some .value
  | group _ => some .group
  | _ => none

/-- Whether a value is a list of this form with exactly these entries. -/
def Shape.Lists (entries : List (Value K O)) (value : Value K O) : Shape → Prop
  | token => ∃ tokens, value = .tokens tokens ∧ entries = tokens.map .token
  | .value => ∃ results, value = .values results ∧ entries = results.map .value
  | group => ∃ groups, value = .groups groups ∧ entries = groups.map .group

namespace Reduction

theorem filter_eq_map_filterMap {α β : Type} {keep : α → Bool} {read : α → Option β} {make : β → α}
    (hkeep : ∀ item, keep item = true → ∃ found, read item = some found ∧ make found = item)
    (hdrop : ∀ item, keep item = false → read item = none) (items : List α) :
    items.filter keep = (items.filterMap read).map make := by
  induction items with
  | nil => rfl
  | cons first rest ih =>
    cases hfirst : keep first with
    | true =>
      obtain ⟨found, hfound, hmake⟩ := hkeep first hfirst
      rw [List.filter_cons_of_pos hfirst, List.filterMap_cons_some hfound, List.map_cons, hmake, ih]
    | false =>
      rw [List.filter_cons_of_neg (by simp [hfirst]), List.filterMap_cons_none (hdrop first hfirst),
        ih]

/-- A repetition keeps the values of its form, in their order. -/
theorem lists_manyValue (shape : Shape) (values : List (Value K O)) :
    shape.Lists (values.filter fun value => value.form? = some shape) (manyValue shape values) := by
  cases shape with
  | token | value | group =>
    refine ⟨_, rfl, filter_eq_map_filterMap ?_ ?_ values⟩
    · rintro (_ | _ | _) <;> simp [Value.form?, Value.asToken?, Value.asValue?, Value.asGroup?]
    · rintro (_ | _ | _) <;> simp [Value.form?, Value.asToken?, Value.asValue?, Value.asGroup?]

/-- The value of an option has the form of its child only where it is passed on. -/
theorem form?_optionValue (shape : Shape) (value : Value K O) :
    (optionValue shape value).form? = if value.form? = some shape then none else value.form? := by
  cases shape <;> cases value <;> rfl

theorem form?_emptyOption (shape : Shape) : (emptyOption shape : Value K O).form? = none := by
  cases shape <;> rfl

theorem form?_manyValue (shape : Shape) (values : List (Value K O)) :
    (manyValue shape values).form? = none := by
  cases shape <;> rfl

end Reduction

/-- A list has only one list of entries. -/
theorem Shape.Lists.unique {shape : Shape} {entries others : List (Value K O)} {value : Value K O}
    (hentries : shape.Lists entries value) (hothers : shape.Lists others value) :
    entries = others := by
  cases shape with
  | token | value | group =>
    obtain ⟨found, rfl, rfl⟩ := hentries
    obtain ⟨same, heq, rfl⟩ := hothers
    cases heq
    rfl

namespace Reduction

variable [DecidableEq K] [TokenKind K] {grammar : Grammar K (Reducer K O C)}

/-- The value of a tree has the form of the tree. -/
theorem Evaluates.form?_eq :
    ∀ {tree : SyntaxTree K} {value : Value K O}, (tree.Everywhere fun label _ => label.Stays) →
    Evaluates grammar tree value → value.form? = tree.form?
  | .leaf .., _, _, hvalue => by
    rw [hvalue.leaf]
    rfl
  | .absent .., _, _, hvalue => by
    rw [hvalue.absent]
    exact form?_emptyOption _
  | .present shape child _, _, hstays, hvalue => by
    obtain ⟨inner, hinner, rfl⟩ := hvalue.present
    rw [form?_optionValue, hinner.form?_eq (SyntaxTree.everywhere_present_iff.1 hstays)]
    rfl
  | .many .., _, _, hvalue => by
    obtain ⟨values, -, rfl⟩ := hvalue.many
    exact form?_manyValue _ _
  | .node label children, _, hstays, hvalue => by
    obtain ⟨⟨hbypass, -⟩, -⟩ := SyntaxTree.everywhere_node_iff.1 hstays
    obtain ⟨items, -, hnode⟩ := hvalue.node
    rcases hnode with ⟨hgroup, rfl⟩ | ⟨-, htrue, -⟩ | ⟨hgroup, _, _, _, _, -, -, rfl⟩
    · simp [Value.form?, SyntaxTree.form?, hgroup]
    · rw [hbypass] at htrue
      cases htrue
    · simp [Value.form?, SyntaxTree.form?, hgroup]

/-- The values of trees have the forms of the trees. -/
theorem map_form?_eq {trees : List (SyntaxTree K)} {values : List (Value K O)}
    (hstays : ∀ tree ∈ trees, tree.Everywhere fun label _ => label.Stays)
    (hvalues : List.Forall₂ (Evaluates grammar) trees values) :
    values.map Value.form? = trees.map SyntaxTree.form? := by
  induction hvalues with
  | nil => rfl
  | cons hvalue _ ih =>
    obtain ⟨htree, hrest⟩ := List.forall_mem_cons.1 hstays
    rw [List.map_cons, List.map_cons, hvalue.form?_eq htree, ih hrest]

/-- What the visit of a repetition makes of its items, begun in a context: every
    item is visited, one after the other, and those whose values have the form
    of the repetition are its entries, in the same order. The others leave no
    trace. -/
structure Collects (grammar : Grammar K (Reducer K O C)) (shape : Shape)
    (items : List (SyntaxTree K)) (discarded : Bool) (context : C) (values : List (Value K O))
    (collected : Value K O) (after : C) : Prop where
  visitEach : Yields (visitEach grammar items) context values after
  visit : Yields (visit grammar (.many shape items discarded)) context collected after
  forms : values.map Value.form? = items.map SyntaxTree.form?
  entries : shape.Lists (values.filter fun value => value.form? = some shape) collected

/-- There is an entry for every item if and only if all items have the form of
    the repetition. -/
theorem Collects.lists_iff {shape : Shape} {items : List (SyntaxTree K)} {discarded : Bool}
    {context after : C} {values : List (Value K O)} {collected : Value K O}
    (hcollects : Collects grammar shape items discarded context values collected after) :
    shape.Lists values collected ↔ ∀ item ∈ items, item.form? = some shape := by
  have hforms := @List.forall_mem_map _ _ Value.form? values (· = some shape)
  rw [hcollects.forms, List.forall_mem_map] at hforms
  rw [hforms]
  constructor
  · intro hlists
    simpa using List.filter_eq_self.1 (hcollects.entries.unique hlists)
  · intro hall
    have hentries := hcollects.entries
    rwa [List.filter_eq_self.2 (by simpa using hall)] at hentries

section Visits

/-- An action begun in one state comes to one result. -/
theorem Yields.unique {ε σ α : Type} {action : ExceptT ε (StateM σ) α} {before after other : σ}
    {result found : α} (hresult : Yields action before result after)
    (hfound : Yields action before found other) :
    result = found ∧ after = other := by
  obtain ⟨heq, hafter⟩ := Prod.mk.inj (hresult.symm.trans hfound)
  exact ⟨Except.ok.inj heq, hafter⟩

/-- Two runs that begin with the same action are in the same context behind it. -/
theorem Yields.exists_behind {ε σ α β : Type} {first : ExceptT ε (StateM σ) α}
    {next other : ExceptT ε (StateM σ) β} {make remake : α → β → β} {before after stop : σ}
    {made remade : β}
    (hnext : Yields (first >>= fun head => next >>= fun tail => pure (make head tail))
      before made after)
    (hother : Yields (first >>= fun head => other >>= fun tail => pure (remake head tail)) before
      remade stop) :
    ∃ between tail rest last, Yields next between tail after ∧ Yields other between rest last := by
  obtain ⟨_, between, hfirst, hmore⟩ := yields_bind_iff.1 hnext
  obtain ⟨tail, _, htail, hpure⟩ := yields_bind_iff.1 hmore
  obtain ⟨-, rfl⟩ := yields_pure_iff.1 hpure
  obtain ⟨_, _, hsame, hbehind⟩ := yields_bind_iff.1 hother
  obtain ⟨rfl, rfl⟩ := hfirst.unique hsame
  obtain ⟨rest, last, hrest, -⟩ := yields_bind_iff.1 hbehind
  exact ⟨between, tail, rest, last, htail, hrest⟩

/-- A visit of trees comes to each of them. -/
theorem exists_yields_of_visitEach {front rest : List (SyntaxTree K)} {child : SyntaxTree K}
    {context between after : C} {firsts values : List (Value K O)}
    (hfront : Yields (visitEach grammar front) context firsts between)
    (hall : Yields (visitEach grammar (front ++ child :: rest)) context values after) :
    ∃ value next, Yields (visit grammar child) between value next := by
  induction front generalizing context firsts values after with
  | nil =>
    obtain ⟨-, rfl⟩ := yields_pure_iff.1 hfront
    obtain ⟨value, next, hvalue, -⟩ := yields_bind_iff.1 hall
    exact ⟨value, next, hvalue⟩
  | cons first front ih =>
    obtain ⟨_, _, _, _, hothers, hrest⟩ := hfront.exists_behind hall
    exact ih hothers hrest

/-- A visit of shown trees comes to each that is not discarded. -/
theorem exists_yields_of_visitShown {front rest : List (SyntaxTree K)} {child : SyntaxTree K}
    {context between after : C} {firsts items : List (String × Value K O)}
    (hshown : child.isDiscarded = false)
    (hfront : Yields (visitShown grammar front) context firsts between)
    (hall : Yields (visitShown grammar (front ++ child :: rest)) context items after) :
    ∃ value next, Yields (visit grammar child) between value next := by
  induction front generalizing context firsts items after with
  | nil =>
    obtain ⟨-, rfl⟩ := yields_pure_iff.1 hfront
    rw [List.nil_append, visitShown, hshown, if_neg Bool.false_ne_true] at hall
    obtain ⟨value, next, hvalue, -⟩ := yields_bind_iff.1 hall
    exact ⟨value, next, hvalue⟩
  | cons first front ih =>
    rw [List.cons_append] at hall
    rw [visitShown] at hfront hall
    cases hdiscarded : first.isDiscarded with
    | true =>
      rw [hdiscarded, if_pos rfl] at hfront hall
      exact ih hfront hall
    | false =>
      rw [hdiscarded, if_neg Bool.false_ne_true] at hfront hall
      obtain ⟨_, _, _, _, hothers, hrest⟩ := hfront.exists_behind hall
      exact ih hothers hrest

/-- Whether the visit of a tree, begun in a context, goes on to one of its
    children, and in which context it does. What stands in front of the child is
    visited before, apart from discarded children. -/
inductive Enters (grammar : Grammar K (Reducer K O C)) : SyntaxTree K → C → SyntaxTree K → C → Prop
  | node {label : NodeLabel K} {front rest : List (SyntaxTree K)} {child : SyntaxTree K}
      {context between : C} {items : List (String × Value K O)} :
      child.isDiscarded = false → Yields (visitShown grammar front) context items between →
        Enters grammar (.node label (front ++ child :: rest)) context child between
  | many {shape : Shape} {front rest : List (SyntaxTree K)} {child : SyntaxTree K}
      {discarded : Bool} {context between : C} {values : List (Value K O)} :
      Yields (visitEach grammar front) context values between →
        Enters grammar (.many shape (front ++ child :: rest) discarded) context child between
  | present {shape : Shape} {child : SyntaxTree K} {discarded : Bool} {context : C} :
      Enters grammar (.present shape child discarded) context child context

/-- Whether the visit of a tree, begun in a context, comes to a part of the
    tree, and in which context it does. -/
inductive Visits (grammar : Grammar K (Reducer K O C)) : SyntaxTree K → C → SyntaxTree K → C → Prop
  | refl (tree : SyntaxTree K) (context : C) : Visits grammar tree context tree context
  | next {tree child part : SyntaxTree K} {context between at' : C} :
      Enters grammar tree context child between → Visits grammar child between part at' →
        Visits grammar tree context part at'

/-- What a visit that succeeds enters is reduced to a value. -/
theorem Enters.exists_yields {tree child : SyntaxTree K} {context between after : C}
    {value : Value K O} (henters : Enters grammar tree context child between)
    (hvalue : Yields (visit grammar tree) context value after) :
    ∃ found next, Yields (visit grammar child) between found next := by
  cases henters with
  | node hshown hfront =>
    obtain ⟨_, _, hall, -⟩ := yields_bind_iff.1 hvalue
    exact exists_yields_of_visitShown hshown hfront hall
  | many hfront =>
    obtain ⟨_, _, hall, -⟩ := yields_bind_iff.1 hvalue
    exact exists_yields_of_visitEach hfront hall
  | present =>
    obtain ⟨found, next, hfound, -⟩ := yields_bind_iff.1 hvalue
    exact ⟨found, next, hfound⟩

/-- What is entered is part of the tree. -/
theorem Enters.nodes_subset {tree child : SyntaxTree K} {context between : C}
    (henters : Enters grammar tree context child between) : child.nodes ⊆ tree.nodes := by
  intro entry hentry
  cases henters with
  | node =>
    exact List.mem_cons_of_mem _ (SyntaxTree.mem_nodesIn.2 ⟨child, by simp, hentry⟩)
  | many => exact SyntaxTree.mem_nodesIn.2 ⟨child, by simp, hentry⟩
  | present => exact hentry

/-- The repetitions in what is entered are those of the tree. -/
theorem Enters.repetitions_subset {tree child : SyntaxTree K} {context between : C}
    (henters : Enters grammar tree context child between) :
    child.repetitions ⊆ tree.repetitions := by
  intro repetition hmem
  cases henters with
  | node => exact SyntaxTree.mem_repetitionsIn.2 ⟨child, by simp, hmem⟩
  | many => exact List.mem_cons_of_mem _ (SyntaxTree.mem_repetitionsIn.2 ⟨child, by simp, hmem⟩)
  | present => exact hmem

namespace Visits

variable {tree part : SyntaxTree K} {context found : C}

/-- Where a whole tree is reduced to a value, all that the visit comes to is. -/
theorem exists_yields (hvisits : Visits grammar tree context part found) {value : Value K O}
    {after : C} (hvalue : Yields (visit grammar tree) context value after) :
    ∃ inner next, Yields (visit grammar part) found inner next := by
  induction hvisits generalizing value after with
  | refl => exact ⟨value, after, hvalue⟩
  | next henters _ ih =>
    obtain ⟨_, _, hchild⟩ := henters.exists_yields hvalue
    exact ih hchild

/-- What a visit comes to is part of the tree. -/
theorem nodes_subset (hvisits : Visits grammar tree context part found) :
    part.nodes ⊆ tree.nodes := by
  induction hvisits with
  | refl => exact fun _ => id
  | next henters _ ih => exact fun _ hentry => henters.nodes_subset (ih hentry)

/-- The repetitions that a visit comes to are those of the tree. -/
theorem repetitions_subset (hvisits : Visits grammar tree context part found) :
    part.repetitions ⊆ tree.repetitions := by
  induction hvisits with
  | refl => exact fun _ => id
  | next henters _ ih => exact fun _ hmem => henters.repetitions_subset (ih hmem)

/-- What the visit comes to where it comes to a repetition. -/
theorem exists_collects {shape : Shape} {items : List (SyntaxTree K)} {discarded : Bool}
    (hvisits : Visits grammar tree context (.many shape items discarded) found)
    (hstays : tree.Everywhere fun label _ => label.Stays) {value : Value K O} {after : C}
    (hvalue : Yields (visit grammar tree) context value after) :
    ∃ values collected next, Collects grammar shape items discarded found values
      collected next := by
  obtain ⟨collected, next, hcollected⟩ := hvisits.exists_yields hvalue
  obtain ⟨values, _, hvalues, hpure⟩ := yields_bind_iff.1 hcollected
  obtain ⟨rfl, rfl⟩ := yields_pure_iff.1 hpure
  have hitems : ∀ item ∈ items, item.Everywhere fun label _ => label.Stays :=
    SyntaxTree.everywhere_many_iff.1 fun entry hentry => hstays entry (hvisits.nodes_subset hentry)
  have hforms := map_form?_eq hitems (forall₂_of_yields_visitEach hvalues)
  exact ⟨values, _, _, hvalues, hcollected, hforms, lists_manyValue shape values⟩

end Visits

end Visits

end Reduction

end GrammarKit
