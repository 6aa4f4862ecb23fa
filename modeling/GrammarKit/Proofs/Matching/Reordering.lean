import GrammarKit.Proofs.Grammar.Reordering
import GrammarKit.Proofs.Matching.Furthest

namespace GrammarKit.Matching

variable {K R : Type} [DecidableEq K] [TokenKind K]

/-- The furthest mismatch is the same for all lists of the same mismatches. -/
theorem noted_congr {first second : List (Mismatch K)}
    (hsame : ∀ mismatch, mismatch ∈ first ↔ mismatch ∈ second) :
    noted none first = noted none second := by
  have happend {some more : List (Mismatch K)} (hmore : ∀ mismatch ∈ more, mismatch ∈ some) :
      noted none (some ++ more) = noted none some := by
    rw [noted_append]
    exact noted_eq_self fun mismatch hmem => covers_noted none (hmore mismatch hmem)
  have hcomm : noted none (first ++ second) = noted none (second ++ first) :=
    List.perm_append_comm.foldl_eq' (fun _ _ _ _ _ => further_right_comm _ _ _ _ _) none
  calc noted none first = noted none (first ++ second) :=
    (happend fun mismatch => (hsame mismatch).2).symm
    _ = noted none (second ++ first) := hcomm
    _ = noted none second := happend fun mismatch => (hsame mismatch).1

/-- Results of outcomes with the same end and the same mismatches differ in
    their trees at most. -/
theorem resultOf_cases (tokens : Array (Token K)) {first second : Outcome K (Option (Found K))}
    (hstop : first.value.map Prod.snd = second.value.map Prod.snd)
    (hsame : ∀ mismatch, mismatch ∈ first.mismatches ↔ mismatch ∈ second.mismatches) :
    (∃ tree twin, resultOf tokens first = .ok tree ∧ resultOf tokens second = .ok twin) ∨
      ∃ failure, resultOf tokens first = .error failure ∧
        resultOf tokens second = .error failure := by
  have hnoted := noted_congr hsame
  unfold resultOf
  cases hfirst : first.value with
  | none =>
    rw [hfirst, Option.map_none] at hstop
    rw [Option.map_eq_none_iff.1 hstop.symm, hnoted]
    exact Or.inr ⟨_, rfl, rfl⟩
  | some found =>
    rw [hfirst, Option.map_some] at hstop
    obtain ⟨other, hsecond, hother⟩ := Option.map_eq_some_iff.1 hstop.symm
    rw [hsecond, hnoted]
    dsimp only
    rw [hother]
    split
    · exact Or.inl ⟨_, _, rfl, rfl⟩
    · exact Or.inr ⟨_, rfl, rfl⟩

namespace Run

theorem stop?_ofName (grammar : Grammar K R) (tokens : Array (Token K)) (name : String)
    (place : Nat) :
    (predictive grammar tokens).stop? (.ofName name) place =
      (Plain.outcome (.predictive tokens) grammar tokens name place).value.map Prod.snd := by
  rw [stop?, outcome, Clause.ofName, Plain.value_nonTerminal_clause, Option.map_map]
  rfl

theorem mismatches_ofName (grammar : Grammar K R) (tokens : Array (Token K)) (name : String)
    (place : Nat) :
    ((predictive grammar tokens).outcome (.ofName name) place).mismatches =
      (Plain.outcome (.predictive tokens) grammar tokens name place).mismatches := by
  rw [outcome, Clause.ofName, Plain.clause, Outcome.mismatches_bind, Outcome.mismatches_pure,
    List.append_nil]
  rfl

section Reordered

variable {grammar other : Grammar K R} {tokens : Array (Token K)}
    (hreorders : grammar.Reorders other) (hanalysed : grammar.IsAnalysed)
    (hagain : other.IsAnalysed)

include hreorders hanalysed hagain

/-- The same rules are tried at a place whatever their order. -/
theorem triesRule_iff {name : String} {place : Nat} {rule : Rule K R} :
    (predictive grammar tokens).TriesRule name place rule ↔
    (predictive other tokens).TriesRule name place rule :=
  and_congr_left fun _ => hreorders.mem_rules_iff hanalysed hagain

/-- What is missed is missed whatever the order. -/
theorem Misses.reordered {goal : Goal K} {mismatch : Mismatch K}
    (hmisses : (predictive grammar tokens).Misses goal mismatch) :
    (predictive other tokens).Misses goal mismatch := by
  cases hmisses with
  | terminal hkind => exact .terminal hkind
  | nonTerminal hfind hnone =>
    obtain ⟨twin, htwin, hleading⟩ := hreorders.exists_find? hanalysed hagain hfind
    rw [← hleading]
    exact .nonTerminal htwin fun rule htries =>
      hnone rule ((triesRule_iff hreorders hanalysed hagain).2 htries)

variable (hends : EndsOnce tokens)

include hends

/-- The same is tried whatever the order. -/
theorem extends_reordered : (predictive grammar tokens).Extends (predictive other tokens) where
  tries := (triesRule_iff hreorders hanalysed hagain).2
  triesRule_of_stop htries _ := (triesRule_iff hreorders hanalysed hagain).1 htries
  limit_le := Nat.le_refl _
  le_of_stop hlast hstop := by
    obtain ⟨tree, hreads⟩ := exists_read hstop
    exact Nat.not_lt.1 (Exhaustive.not_lt_stop_of_reads hends hreads hlast)

variable (hacyclic : grammar.leftRecursions = []) (hagainAcyclic : other.leftRecursions = [])

include hacyclic hagainAcyclic

/-- A clause ends in the same place whatever the order. -/
theorem stop?_reordered (part : Clause K) (place : Nat) :
    (predictive grammar tokens).stop? part place = (predictive other tokens).stop? part place :=
  stop?_congr (extends_reordered hreorders hanalysed hagain hends) hacyclic hagainAcyclic
    ⟨part, place⟩ fun kind discarded place _ => by rw [stop?_terminal, stop?_terminal]; rfl

/-- What is tried next is tried next whatever the order. -/
theorem Tries.reordered {goal next : Goal K}
    (htries : (predictive grammar tokens).Tries goal next) :
    (predictive other tokens).Tries goal next := by
  have hsame := stop?_reordered hreorders hanalysed hagain hends hacyclic hagainAcyclic
  cases htries with
  | rule hrule hclauses hstop =>
    refine .rule ((triesRule_iff hreorders hanalysed hagain).1 hrule) hclauses
      (Eq.trans (Eq.symm ?_) hstop)
    exact stopAll?_congr fun _ part _ stop _ _ => hsame part stop
  | option => exact .option
  | zeroOrMore hlimit => exact .zeroOrMore hlimit
  | again hlimit hstop hlt => exact .again hlimit ((hsame _ _).symm.trans hstop) hlt
  | oneOrMore => exact .oneOrMore
  | more hstop => exact .more ((hsame _ _).symm.trans hstop)

/-- What is missed on the way is missed whatever the order. -/
theorem mem_mismatches_of_mem (goal : Goal K) {mismatch : Mismatch K}
    (hmem : mismatch ∈ ((predictive grammar tokens).outcome goal.clause goal.place).mismatches) :
    mismatch ∈ ((predictive other tokens).outcome goal.clause goal.place).mismatches := by
  obtain ⟨missed, hway, hmisses⟩ := (mem_mismatches_iff hacyclic goal).1 hmem
  refine (mem_mismatches_iff hagainAcyclic goal).2
    ⟨missed, ?_, hmisses.reordered hreorders hanalysed hagain⟩
  exact Relation.ReflTransGen.mono
    (fun _ _ => Tries.reordered hreorders hanalysed hagain hends hacyclic hagainAcyclic) _ _ hway

end Reordered

end Run

/-- The order of the rules of a non-terminal decides between matches that end in
    the same place, and nothing else. What a non-terminal matches at a place
    ends there in any order, tokens are accepted in any order or in none, and
    the error is the same, with or without a memory. -/
theorem parse_reordered {grammar other : Grammar K R} {tokens : Array (Token K)}
    (hreorders : grammar.Reorders other) (hflat : grammar.IsFlat) (hflatAgain : other.IsFlat)
    (hacyclic : grammar.leftRecursions = []) (hacyclicAgain : other.leftRecursions = [])
    (hanalysed : grammar.IsAnalysed) (hanalysedAgain : other.IsAnalysed) (hends : EndsOnce tokens)
    (memoize : Bool) (start : String) :
    (∀ name position, ∃ found twin, ∃ after later : Progress K,
      (nonTerminal grammar tokens (maxDepth grammar tokens) name position).run
          { memo := if memoize then some ∅ else none } = .ok (found, after) ∧
        (nonTerminal other tokens (maxDepth other tokens) name position).run
          { memo := if memoize then some ∅ else none } = .ok (twin, later) ∧
        found.map Prod.snd = twin.map Prod.snd) ∧
      ((∃ tree twin, parse grammar tokens memoize start = .ok tree ∧
        parse other tokens memoize start = .ok twin) ∨
        ∃ failure, parse grammar tokens memoize start = .error failure ∧
          parse other tokens memoize start = .error failure) := by
  have hstop (name : String) (position : Nat) :
      (Plain.outcome (.predictive tokens) grammar tokens name position).value.map Prod.snd =
        (Plain.outcome (.predictive tokens) other tokens name position).value.map Prod.snd := by
    rw [← Run.stop?_ofName, ← Run.stop?_ofName]
    exact Run.stop?_reordered hreorders hanalysed hanalysedAgain hends hacyclic hacyclicAgain _ _
  refine ⟨fun name position => ?_, ?_⟩
  · have hdepth := Nat.le_refl (maxDepth grammar tokens)
    have hdepthAgain := Nat.le_refl (maxDepth other tokens)
    obtain ⟨after, hafter, -⟩ := @run_nonTerminal _ _ _ _ _ _ hflat hacyclic memoize name
      position _ hdepth
    obtain ⟨later, hlater, -⟩ := @run_nonTerminal _ _ _ _ _ _ hflatAgain hacyclicAgain memoize name
      position _ hdepthAgain
    exact ⟨_, _, after, later, hafter, hlater, hstop name position⟩
  · rw [parse_eq_resultOf hflat hacyclic, parse_eq_resultOf hflatAgain hacyclicAgain]
    refine resultOf_cases tokens (hstop start 0) fun mismatch => ?_
    rw [← Run.mismatches_ofName, ← Run.mismatches_ofName]
    constructor
    · exact Run.mem_mismatches_of_mem hreorders hanalysed hanalysedAgain hends hacyclic
        hacyclicAgain ⟨.ofName start, 0⟩
    · exact Run.mem_mismatches_of_mem hreorders.symm hanalysedAgain hanalysed hends
        hacyclicAgain hacyclic ⟨.ofName start, 0⟩

namespace Sample

/-- A word, with two ways to match a blank in front of it. -/
def spaced (first second : Clause (Kind signs)) : Grammar (Kind signs) Unit :=
  (Grammar.empty "text").addAll
    [("text", { clauses := [first, .ofKind word] }),
      ("text", { clauses := [second, .ofKind word] })]

def atMostOne : Clause (Kind signs) := .option (.ofKind blank) false

def anyNumber : Clause (Kind signs) := .zeroOrMore (.ofKind blank) false

def optionFirst : Grammar (Kind signs) Unit := (spaced atMostOne anyNumber).analyse

def optionLast : Grammar (Kind signs) Unit := (spaced anyNumber atMostOne).analyse

/-- The two grammars differ in the order of two rules. -/
theorem reorders_optionFirst : optionFirst.Reorders optionLast := by
  refine Grammar.Reorders.analyse ⟨by decide, fun name => ?_⟩
  rw [spaced, spaced, Grammar.rulesOf_addAll, Grammar.rulesOf_addAll]
  by_cases hname : "text" = name
  · simpa [hname] using (List.Perm.swap _ _ []).append_left _
  · simp [hname]

end Sample

/-- A blank and a word, where both rules end in the same place with trees of their own. -/
theorem parse_reordered_line :
    Sample.optionFirst.Reorders Sample.optionLast ∧ Sample.optionFirst.IsFlat ∧
      Sample.optionLast.IsFlat ∧
      Sample.optionFirst.leftRecursions = [] ∧ Sample.optionLast.leftRecursions = [] ∧
      Sample.optionFirst.IsAnalysed ∧ Sample.optionLast.IsAnalysed ∧ EndsOnce Sample.line ∧
      ((∃ tree twin, parse Sample.optionFirst Sample.line true "text" = .ok tree ∧
          parse Sample.optionLast Sample.line true "text" = .ok twin) ∨
        ∃ failure, parse Sample.optionFirst Sample.line true "text" = .error failure ∧
          parse Sample.optionLast Sample.line true "text" = .error failure) := by
  have hflat : Sample.optionFirst.IsFlat := by decide
  have hflatAgain : Sample.optionLast.IsFlat := by decide
  have hacyclic : Sample.optionFirst.leftRecursions = [] := by decide +kernel
  have hacyclicAgain : Sample.optionLast.leftRecursions = [] := by decide +kernel
  exact ⟨Sample.reorders_optionFirst, hflat, hflatAgain, hacyclic, hacyclicAgain,
    Grammar.isAnalysed_analyse _, Grammar.isAnalysed_analyse _, Sample.endsOnce_line,
    (parse_reordered Sample.reorders_optionFirst hflat hflatAgain hacyclic hacyclicAgain
      (Grammar.isAnalysed_analyse _) (Grammar.isAnalysed_analyse _) Sample.endsOnce_line
      true "text").2⟩

end GrammarKit.Matching
