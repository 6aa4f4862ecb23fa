import GrammarKit.Proofs.Matching.Depth

namespace GrammarKit.Matching

variable {K R : Type} [DecidableEq K] [TokenKind K]

/-- The furthest mismatch after some more were met. -/
def noted (furthest : Option (Nat × KindSet K)) (mismatches : List (Mismatch K)) :
    Option (Nat × KindSet K) :=
  mismatches.foldl (fun furthest mismatch => further furthest mismatch.position mismatch.expected)
    furthest

/-- A mismatch that was noted before: to note it once more changes nothing. -/
def Covers (furthest : Option (Nat × KindSet K)) (mismatch : Mismatch K) : Prop :=
  further furthest mismatch.position mismatch.expected = furthest

section Furthest

variable {furthest : Option (Nat × KindSet K)}

/-- Mismatches are noted one after the other. -/
theorem noted_append (furthest : Option (Nat × KindSet K)) (first second : List (Mismatch K)) :
    noted furthest (first ++ second) = noted (noted furthest first) second :=
  List.foldl_append

private theorem union_right_comm (a b c : KindSet K) : a ∪ b ∪ c = a ∪ c ∪ b :=
  KindSet.ext fun kind => by simp only [KindSet.mem_union, or_assoc, or_comm (a := kind ∈ b)]

private theorem union_union_self (a b : KindSet K) : a ∪ b ∪ b = a ∪ b :=
  KindSet.ext fun kind => by simp only [KindSet.mem_union, or_assoc, or_self]

/-- The order in which two mismatches are noted is of no importance. -/
theorem further_right_comm (furthest : Option (Nat × KindSet K)) (position place : Nat)
    (expected kinds : KindSet K) :
    further (further furthest position expected) place kinds =
      further (further furthest place kinds) position expected := by
  have hunion (a b : KindSet K) : a ∪ b = b ∪ a :=
    KindSet.ext fun kind => by simp only [KindSet.mem_union, or_comm]
  rcases furthest with _ | ⟨known, set⟩
  · rcases Nat.lt_trichotomy position place with hlt | rfl | hlt
    · simp [further, Nat.ne_of_lt hlt, Nat.ne_of_gt hlt, hlt, Nat.lt_asymm hlt]
    · simp [further, hunion]
    · simp [further, Nat.ne_of_lt hlt, Nat.ne_of_gt hlt, hlt, Nat.lt_asymm hlt]
  · simp only [further]
    grind [union_right_comm]

/-- A mismatch is covered once it was noted. -/
theorem covers_further (furthest : Option (Nat × KindSet K)) (mismatch : Mismatch K) :
    Covers (further furthest mismatch.position mismatch.expected) mismatch := by
  have hself (a : KindSet K) : a ∪ a = a := KindSet.ext fun kind => by
    simp only [KindSet.mem_union, or_self]
  rcases furthest with _ | ⟨known, set⟩
  · simp [Covers, further, hself]
  · simp only [Covers, further]
    grind [union_union_self]

/-- What is covered stays covered. -/
theorem Covers.noted {mismatch : Mismatch K} (hcovers : Covers furthest mismatch)
    (mismatches : List (Mismatch K)) : Covers (noted furthest mismatches) mismatch := by
  induction mismatches generalizing furthest with
  | nil => exact hcovers
  | cons next rest ih =>
    refine ih ?_
    rw [Covers, further_right_comm, hcovers]

/-- All that was noted is covered. -/
theorem covers_noted (furthest : Option (Nat × KindSet K)) {mismatches : List (Mismatch K)}
    {mismatch : Mismatch K} (hmem : mismatch ∈ mismatches) :
    Covers (noted furthest mismatches) mismatch := by
  induction mismatches generalizing furthest with
  | nil => cases hmem
  | cons next rest ih =>
    rcases List.mem_cons.1 hmem with rfl | hmem
    · exact (covers_further furthest mismatch).noted rest
    · exact ih _ hmem

/-- To note again what is covered changes nothing. -/
theorem noted_eq_self {mismatches : List (Mismatch K)}
    (hcovers : ∀ mismatch ∈ mismatches, Covers furthest mismatch) :
    noted furthest mismatches = furthest := by
  induction mismatches with
  | nil => rfl
  | cons next rest ih =>
    have hnext : further furthest next.position next.expected = furthest :=
      hcovers next List.mem_cons_self
    rw [noted, List.foldl_cons, hnext]
    exact ih fun mismatch hmem => hcovers mismatch (List.mem_cons_of_mem _ hmem)

end Furthest

/-- Everything that is kept is what matching without memory gives, and was noted. -/
def Progress.Agrees (descend : Plain.Descent K) (progress : Progress K) : Prop :=
  ∀ table, progress.memo = some table → ∀ name place found, table[(name, place)]? = some found →
    found = (descend name place).value ∧
      ∀ mismatch ∈ (descend name place).mismatches, Covers progress.furthest mismatch

/-- A matcher never fails and finds the value of an outcome, whatever is kept.
    The furthest mismatch becomes what it is after those of the outcome, even
    where these are not met again, and all that is kept still agrees. -/
def Computes {α : Type} (descend : Plain.Descent K) (matcher : Matcher K α)
    (outcome : Outcome K α) : Prop :=
  ∀ progress : Progress K, progress.Agrees descend → ∃ after : Progress K,
    matcher.run progress = .ok (outcome.value, after) ∧ after.Agrees descend ∧
      after.furthest = noted progress.furthest outcome.mismatches

namespace Computes

variable {α β : Type} {descend : Plain.Descent K}

theorem pure (a : α) : Computes descend (Pure.pure a) (Pure.pure a) :=
  fun progress hagrees => ⟨progress, rfl, hagrees, rfl⟩

/-- Matchers that compute outcomes do so one after the other. -/
theorem bind {matcher : Matcher K α} {outcome : Outcome K α} {next : α → Matcher K β}
    {later : α → Outcome K β} (hfirst : Computes descend matcher outcome)
    (hnext : Computes descend (next outcome.value) (later outcome.value)) :
    Computes descend (matcher >>= next) (outcome >>= later) := by
  intro progress hagrees
  obtain ⟨middle, hmiddle, hagrees, hnoted⟩ := hfirst progress hagrees
  obtain ⟨after, hafter, hagrees, hfurthest⟩ := hnext middle hagrees
  refine ⟨after, ?_, hagrees, ?_⟩
  · rw [StateT.run_bind, hmiddle]
    exact hafter
  · rw [hfurthest, hnoted, Outcome.mismatches_bind, noted_append]

theorem map {matcher : Matcher K α} {outcome : Outcome K α}
    (hfirst : Computes descend matcher outcome) (f : α → β) :
    Computes descend (do return f (← matcher)) (do return f (← outcome)) :=
  hfirst.bind (.pure (f outcome.value))

theorem mismatch (position : Nat) (expected : KindSet K) :
    Computes descend (Matching.mismatch position expected) ⟨(), [⟨position, expected⟩]⟩ := by
  intro progress hagrees
  refine ⟨_, rfl, fun table htable name place found hfound => ?_, rfl⟩
  obtain ⟨hvalue, hcovers⟩ := hagrees table htable name place found hfound
  exact ⟨hvalue, fun known hknown => (hcovers known hknown).noted [⟨position, expected⟩]⟩

/-- To look an outcome up is to work it out: its mismatches were noted when it was kept. -/
theorem remembered {name : String} {place : Nat} {work : Matcher K (Option (Found K))}
    (hwork : Computes descend work (descend name place)) :
    Computes descend (Matching.remembered name place work) (descend name place) := by
  intro progress hagrees
  obtain ⟨after, hafter, hagreesAfter, hfurthest⟩ := hwork progress hagrees
  cases hmemo : progress.memo with
  | none =>
    refine ⟨after, ?_, hagreesAfter, hfurthest⟩
    simpa [Matching.remembered, hmemo] using hafter
  | some table =>
    cases hkept : table[(name, place)]? with
    | some found =>
      obtain ⟨rfl, hcovers⟩ := hagrees table hmemo name place found hkept
      refine ⟨progress, ?_, hagrees, (noted_eq_self hcovers).symm⟩
      change _ = Pure.pure ((descend name place).value, progress)
      simp [Matching.remembered, hmemo, hkept]
    | none =>
      refine ⟨{ after with
        memo := after.memo.map fun table => table.insert (name, place) (descend name place).value },
        ?_, ?_, hfurthest⟩
      · simp [Matching.remembered, hmemo, hkept, hafter]
      · intro other hother otherName otherPlace found hfound
        obtain ⟨before, hbefore, rfl⟩ := Option.map_eq_some_iff.1 hother
        rw [Std.HashMap.getElem?_insert] at hfound
        split at hfound
        · next hsame =>
          obtain ⟨rfl, rfl⟩ := Prod.mk.inj (eq_of_beq hsame)
          refine ⟨(Option.some.inj hfound).symm, fun mismatch hmem => ?_⟩
          simpa only [hfurthest] using covers_noted progress.furthest hmem
        · exact hagreesAfter before hbefore otherName otherPlace found hfound

end Computes

end GrammarKit.Matching
