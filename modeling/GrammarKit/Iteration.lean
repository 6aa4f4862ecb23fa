namespace GrammarKit

/-- Applies `step` until nothing changes, at most `bound` times. -/
def settle {α : Type} [DecidableEq α] (step : α → α) : Nat → α → α
  | 0, a => a
  | bound + 1, a => if step a = a then a else settle step bound (step a)

/-- The loop that applies `step` until nothing changes, however often it takes:
    from `a` it ends in `b`. -/
inductive Settles {α : Type} (step : α → α) : α → α → Prop
  | done {a : α} : step a = a → Settles step a a
  | again {a b : α} : step a ≠ a → Settles step (step a) b → Settles step a b

section Loops

variable {α β : Type} {step : α → α} {holds : α → Prop} {measure : α → Nat}

theorem Settles.fixed {a b : α} (hsettles : Settles step a b) : step b = b := by
  induction hsettles with
  | done hfixed => exact hfixed
  | again _ _ ih => exact ih

/-- What every step keeps holds in the end. -/
theorem Settles.keeps (holds : α → Prop) {a b : α} (hsettles : Settles step a b)
    (hstep : ∀ a, holds a → holds (step a)) (ha : holds a) : holds b := by
  induction hsettles with
  | done => exact ha
  | again _ _ ih => exact ih (hstep _ ha)

/-- When every step that changes something raises a bounded measure, the loop
    ends before it runs out of steps. -/
theorem settles_settle [DecidableEq α] (holds : α → Prop) (measure : α → Nat) (limit : Nat)
    (hstep : ∀ a, holds a → holds (step a))
    (hgrows : ∀ a, holds a → step a ≠ a → measure a < measure (step a))
    (hlimit : ∀ a, holds a → measure a ≤ limit) {bound : Nat} {a : α} (ha : holds a)
    (hbound : limit ≤ measure a + bound) : Settles step a (settle step bound a) := by
  induction bound generalizing a with
  | zero =>
    have hfixed : step a = a := by
      refine Decidable.byContradiction fun hne => ?_
      have hless := hgrows a ha hne
      have hmost := hlimit (step a) (hstep a ha)
      omega
    exact .done hfixed
  | succ bound ih =>
    rw [settle]
    split
    · next hfixed => exact .done hfixed
    · next hne =>
      have hless := hgrows a ha hne
      exact .again hne (ih (hstep a ha) (by omega))

variable {update : α → β → α} {items : List β}

/-- A pass updates something for one item after the other, where later updates
    see what earlier ones did. It keeps what each update keeps. -/
theorem foldl_keeps (holds : α → Prop)
    (hupdate : ∀ a, holds a → ∀ item ∈ items, holds (update a item)) {a : α} (ha : holds a) :
    holds (items.foldl update a) := by
  induction items generalizing a with
  | nil => exact ha
  | cons first rest ih =>
    have hfirst := hupdate a ha first List.mem_cons_self
    exact ih (fun a ha item hitem => hupdate a ha item (List.mem_cons_of_mem _ hitem)) hfirst

/-- When each update that changes something raises a measure, so does a pass in
    which some update changes something. -/
theorem foldl_eq_or_measure_lt (hupdate : ∀ a, holds a → ∀ item ∈ items, holds (update a item))
    (hgrows : ∀ a, holds a → ∀ item ∈ items, update a item ≠ a →
      measure a < measure (update a item))
    {a : α} (ha : holds a) :
    (items.foldl update a = a ∧ ∀ item ∈ items, update a item = a) ∨
    measure a < measure (items.foldl update a) := by
  induction items generalizing a with
  | nil => exact Or.inl ⟨rfl, by simp⟩
  | cons first rest ih =>
    have hrest := @ih (fun a ha item hitem => hupdate a ha item (List.mem_cons_of_mem _ hitem))
      (fun a ha item hitem => hgrows a ha item (List.mem_cons_of_mem _ hitem))
    rw [List.foldl_cons]
    by_cases hfirst : update a first = a
    · rw [hfirst]
      refine (hrest ha).imp_left fun ⟨heq, hall⟩ => ⟨heq, ?_⟩
      exact List.forall_mem_cons.2 ⟨hfirst, hall⟩
    · have hlt := hgrows a ha first List.mem_cons_self hfirst
      rcases hrest (hupdate a ha first List.mem_cons_self) with ⟨heq, -⟩ | hmore
      · exact Or.inr (heq.symm ▸ hlt)
      · exact Or.inr (Nat.lt_trans hlt hmore)

end Loops

end GrammarKit
