import GrammarKit.Grammar.Diagnosis
import GrammarKit.Proofs.Grammar.Lookup
import Mathlib.Data.Finset.Card
import Mathlib.Logic.Relation

namespace GrammarKit

namespace Cycle

variable {targets : String → List String}

/-- A way of at least one step, on which all names between the first and the
    last are among `inside`. -/
inductive Way (targets : String → List String) (inside : List String) : String → String → Prop
  | step {a b : String} : b ∈ targets a → Way targets inside a b
  | through {a b c : String} : b ∈ targets a → b ∈ inside → Way targets inside b c →
      Way targets inside a c

/-- A way through unseen names avoids the reached ones, or does so from the last
    of them that it visits. -/
theorem Way.avoid (found : List String) {unseen : List String} {a c : String}
    (hway : Way targets unseen a c) :
    Way targets (remaining found unseen) a c ∨
      ∃ b ∈ reached found unseen, Way targets (remaining found unseen) b c := by
  induction hway with
  | step hb => exact Or.inl (.step hb)
  | @through a b c hb hinside _ ih =>
    rcases ih with hway | hreached
    · by_cases hfound : found.contains b = true
      · exact Or.inr ⟨b, List.mem_filter.2 ⟨hinside, hfound⟩, hway⟩
      · exact Or.inl (.through hb (List.mem_filter.2 ⟨hinside, by simpa using hfound⟩) hway)
    · exact Or.inr hreached

/-- A search that ends without a cycle has overlooked none: no way leads from
    its steps to the start. -/
theorem not_way_of_search_eq_none {start : String} {unseen : List String} {stack : List Step}
    (hsearch : search targets start unseen stack = none) :
    ∀ step ∈ stack, ¬ Way targets unseen step.name start := by
  fun_induction search targets start unseen stack with
  | case1 => simp
  | case2 => cases hsearch
  | case3 unseen step stack found hstart steps ih =>
    have hrest := ih hsearch
    have hreached (name : String) (hname : name ∈ reached found unseen) :
        ¬ Way targets (remaining found unseen) name start := by
      refine hrest ⟨name, step.path ++ [name]⟩ ?_
      simp [steps, hname]
    have hblocked (name : String) (hhere : ¬ Way targets (remaining found unseen) name start) :
        ¬ Way targets unseen name start := by
      intro hway
      rcases hway.avoid found with hway | ⟨other, hother, hway⟩
      · exact hhere hway
      · exact hreached other hother hway
    intro other hother
    rcases List.mem_cons.1 hother with rfl | hother
    · refine hblocked other.name fun hway => ?_
      cases hway with
      | step hb => exact hstart (List.contains_iff_mem.2 hb)
      | @through _ b _ hb hinside hway =>
        obtain ⟨hunseen, hnew⟩ := List.mem_filter.1 hinside
        simp [found, hb] at hnew
    · exact hblocked other.name (hrest other (List.mem_append_right _ hother))

end Cycle

namespace Grammar

variable {K R : Type} [DecidableEq K] [TokenKind K]

/-- When no cycle is reported, none was found from any name. -/
theorem cycleFrom_eq_none {grammar : Grammar K R} {nullable : String → Bool} {names : List String}
    (hcycles : grammar.cyclesFrom nullable [] names = []) :
    ∀ name ∈ names, grammar.cycleFrom nullable name = none := by
  induction names with
  | nil => simp
  | cons first rest ih =>
    simp only [cyclesFrom, List.contains_nil, Bool.false_eq_true, if_false] at hcycles
    split at hcycles
    · cases hcycles
    · next hnone =>
      rintro name hname
      rcases List.mem_cons.1 hname with rfl | hname
      · exact hnone
      · exact ih hcycles name hname

theorem mem_names_of_mem_leftmost {grammar : Grammar K R} {nullable : String → Bool}
    {name target : String} (htarget : target ∈ grammar.leftmost nullable name) :
    name ∈ grammar.names := by
  by_contra hname
  simp [leftmost, find?_eq_none_iff.2 hname] at htarget

/-- The second name can be entered from the first before a token is matched. -/
def Enters (grammar : Grammar K R) (name target : String) : Prop :=
  target ∈ grammar.leftmost grammar.nullable.contains name

/-- What is leftmost in a rule is entered from the name of the rule. -/
theorem enters_of_mem_rules {grammar : Grammar K R} {name target : String} {rule : Rule K R}
    (hrule : (name, rule) ∈ grammar.rules)
    (htarget : target ∈ Clause.leftmostOfAll grammar.nullable.contains rule.clauses) :
    grammar.Enters name target := by
  obtain ⟨nonTerminal, hfind, hmem⟩ := mem_rules_iff.1 hrule
  rw [Enters, leftmost, hfind]
  exact List.mem_flatMap.2 ⟨rule, hmem, htarget⟩

/-- Names that are entered one from the other make up a way. -/
theorem way_of_transGen {grammar : Grammar K R} {name target : String}
    (hpath : Relation.TransGen grammar.Enters name target) :
    Cycle.Way (grammar.leftmost grammar.nullable.contains) grammar.names name target := by
  induction hpath using Relation.TransGen.head_induction_on with
  | single hstep => exact .step hstep
  | @head a b hstep hrest ih =>
    have hb : b ∈ grammar.names := by
      cases ih with
      | step h => exact mem_names_of_mem_leftmost h
      | through h => exact mem_names_of_mem_leftmost h
    exact .through hstep hb ih

/-- Without left recursion no non-terminal is entered again before a token is matched. -/
theorem not_transGen_enters {grammar : Grammar K R} (hacyclic : grammar.leftRecursions = [])
    (name : String) :
    ¬ Relation.TransGen grammar.Enters name name := by
  intro hpath
  have hway := way_of_transGen hpath
  have hname : name ∈ grammar.names := by
    cases hway with
    | step h => exact mem_names_of_mem_leftmost h
    | through h => exact mem_names_of_mem_leftmost h
  exact Cycle.not_way_of_search_eq_none (cycleFrom_eq_none hacyclic name hname) ⟨name, [name]⟩
    List.mem_cons_self hway

/-- Numbers for names that get smaller with every name entered before a token is matched. -/
structure Ranking (grammar : Grammar K R) where
  rank : String → Nat
  rank_le : ∀ name, rank name ≤ grammar.nonTerminals.length
  rank_lt : ∀ name, ∀ target ∈ grammar.leftmost grammar.nullable.contains name,
    rank target < rank name

open Classical in
/-- The names that can be entered from a name before a token is matched. -/
noncomputable def entered (grammar : Grammar K R) (name : String) : Finset String :=
  grammar.names.toFinset.filter fun target => Relation.TransGen grammar.Enters name target

/-- A name can be entered when steps lead to it, however many. -/
theorem mem_entered {grammar : Grammar K R} {name target : String} :
    target ∈ grammar.entered name ↔ target ∈ grammar.names ∧
    Relation.TransGen grammar.Enters name target := by
  simp [entered]

/-- Not all names can be entered, for the name itself cannot. -/
theorem entered_card_lt {grammar : Grammar K R} (hacyclic : grammar.leftRecursions = [])
    {name : String} (hname : name ∈ grammar.names) :
    (grammar.entered name).card < grammar.nonTerminals.length := by
  have hsubset : grammar.entered name ⊂ grammar.names.toFinset := by
    refine Finset.ssubset_iff_subset_ne.2 ⟨fun other hother => ?_, fun heq => ?_⟩
    · exact List.mem_toFinset.2 (mem_entered.1 hother).1
    · have hself : name ∈ grammar.entered name := heq ▸ List.mem_toFinset.2 hname
      exact not_transGen_enters hacyclic name (mem_entered.1 hself).2
  refine lt_of_lt_of_le (Finset.card_lt_card hsubset) ?_
  simpa [names] using List.toFinset_card_le grammar.names

/-- From what is entered less can be entered. -/
theorem entered_ssubset {grammar : Grammar K R} (hacyclic : grammar.leftRecursions = [])
    {name target : String} (htarget : target ∈ grammar.names)
    (henters : grammar.Enters name target) :
    grammar.entered target ⊂ grammar.entered name := by
  refine Finset.ssubset_iff_subset_ne.2 ⟨fun other hother => ?_, fun heq => ?_⟩
  · obtain ⟨hmem, hpath⟩ := mem_entered.1 hother
    exact mem_entered.2 ⟨hmem, .head henters hpath⟩
  · have hself : target ∈ grammar.entered target := heq ▸ mem_entered.2 ⟨htarget, .single henters⟩
    exact not_transGen_enters hacyclic target (mem_entered.1 hself).2

/-- Without left recursion, counting the names that can still be entered ranks
    the non-terminals. A name without rules enters nothing, so it comes last. -/
theorem nonempty_ranking {grammar : Grammar K R} (hacyclic : grammar.leftRecursions = []) :
    Nonempty grammar.Ranking := by
  classical
  refine ⟨⟨fun name => if name ∈ grammar.names then (grammar.entered name).card + 1 else 0, ?_, ?_⟩⟩
  · intro name
    split
    · next hname => exact entered_card_lt hacyclic hname
    · exact Nat.zero_le _
  · intro name target htarget
    rw [if_pos (mem_names_of_mem_leftmost htarget)]
    split
    · next hdeclared =>
      exact Nat.succ_lt_succ
        (Finset.card_lt_card (entered_ssubset hacyclic hdeclared htarget))
    · exact Nat.succ_pos _

end Grammar

end GrammarKit
