import GrammarKit.Proofs.Grammar.Leading
import Mathlib.Data.List.Chain

namespace GrammarKit

namespace Clause

variable {K : Type}

/-- Whether `name` occurs in clauses behind the clauses `before`, which are all
    that stands in front of it at any depth. Of a choice only the alternative
    counts in which the name occurs. -/
inductive OccursBehind : List (Clause K) → List (Clause K) → String → Prop
  | here {name : String} {role : Role} {discarded : Bool} {rest : List (Clause K)} :
      OccursBehind [] (.nonTerminal name role discarded :: rest) name
  | group {before members rest : List (Clause K)} {discarded : Bool} {name : String} :
      OccursBehind before members name → OccursBehind before (.group members discarded :: rest) name
  | choice {before members rest : List (Clause K)} {member : Clause K} {discarded : Bool}
      {name : String} : member ∈ members → OccursBehind before [member] name →
        OccursBehind before (.choice members discarded :: rest) name
  | option {before rest : List (Clause K)} {inner : Clause K} {discarded : Bool} {name : String} :
      OccursBehind before [inner] name → OccursBehind before (.option inner discarded :: rest) name
  | zeroOrMore {before rest : List (Clause K)} {inner : Clause K} {discarded : Bool}
      {name : String} : OccursBehind before [inner] name →
        OccursBehind before (.zeroOrMore inner discarded :: rest) name
  | oneOrMore {before rest : List (Clause K)} {inner : Clause K} {discarded : Bool}
      {name : String} : OccursBehind before [inner] name →
        OccursBehind before (.oneOrMore inner discarded :: rest) name
  | behind {before rest : List (Clause K)} {clause : Clause K} {name : String} :
      OccursBehind before rest name → OccursBehind (clause :: before) (clause :: rest) name

/-- What stands behind does not matter. -/
theorem OccursBehind.append {before clauses : List (Clause K)} {name : String}
    (hoccurs : OccursBehind before clauses name) (rest : List (Clause K)) :
    OccursBehind before (clauses ++ rest) name := by
  induction hoccurs with
  | here => exact .here
  | group hmembers => exact .group hmembers
  | choice hmember hoccurs => exact .choice hmember hoccurs
  | option hinner => exact .option hinner
  | zeroOrMore hinner => exact .zeroOrMore hinner
  | oneOrMore hinner => exact .oneOrMore hinner
  | behind _ ih => exact .behind ih

section Leftmost

variable {nullable : String → Bool} {name : String} {clause : Clause K}

/-- What is leftmost in the first clause is leftmost in a row. -/
theorem mem_leftmostOfAll_of_leftmost (hname : name ∈ clause.leftmost nullable)
    (rest : List (Clause K)) :
    name ∈ leftmostOfAll nullable (clause :: rest) := by
  rw [leftmostOfAll]
  split
  · exact List.mem_append_left _ hname
  · exact hname

theorem leftmostOfAll_singleton (nullable : String → Bool) (clause : Clause K) :
    leftmostOfAll nullable [clause] = clause.leftmost nullable := by
  rw [leftmostOfAll, leftmostOfAll, List.append_nil, ite_self]

/-- What is leftmost in an alternative is leftmost in the choice. -/
theorem mem_leftmostOfAny {members : List (Clause K)} :
    name ∈ leftmostOfAny nullable members ↔
      ∃ member ∈ members, name ∈ member.leftmost nullable := by
  induction members with
  | nil => simp [leftmostOfAny]
  | cons first rest ih => simp [leftmostOfAny, ih]

end Leftmost

end Clause

namespace Cycle

variable {targets : String → List String}

/-- The loop of a search, however many rounds it takes: from `stack`, where the
    names in `unseen` were not reached yet, it ends with the result. -/
inductive Searches (targets : String → List String) (start : String) :
    List String → List Step → Nat → Option (List String) → Prop
  | nowhere {unseen : List String} : Searches targets start unseen [] 0 none
  | back {unseen : List String} {step : Step} {stack : List Step} :
      start ∈ targets step.name → Searches targets start unseen (step :: stack) 1
      (some (step.path ++ [start]))
  | on {unseen : List String} {step : Step} {stack : List Step} {rounds : Nat}
      {result : Option (List String)} :
      start ∉ targets step.name →
      Searches targets start (remaining (targets step.name) unseen)
        (((reached (targets step.name) unseen).map fun name =>
          ⟨name, step.path ++ [name]⟩).reverse ++ stack) rounds result →
        Searches targets start unseen (step :: stack) (rounds + 1) result

/-- No name is reached twice, so the loop comes to an end. -/
theorem exists_searches (targets : String → List String) (start : String) (unseen : List String)
    (stack : List Step) :
    ∃ rounds ≤ unseen.length + stack.length,
      Searches targets start unseen stack rounds (search targets start unseen stack) := by
  fun_induction search targets start unseen stack with
  | case1 unseen => exact ⟨0, Nat.zero_le _, .nowhere⟩
  | case2 unseen step stack found hback =>
    exact ⟨1, by rw [List.length_cons]; omega, .back (List.contains_iff_mem.1 hback)⟩
  | case3 unseen step stack found hback steps ih =>
    obtain ⟨rounds, hrounds, hsearches⟩ := ih
    refine ⟨rounds + 1, ?_, .on (mt List.contains_iff_mem.2 hback) hsearches⟩
    have hsplit := length_reached_add_length_remaining found unseen
    simp only [steps, List.length_append, List.length_reverse, List.length_map, List.length_cons]
      at hrounds ⊢
    omega

/-- Whether a path leads from the first name to the last by steps to targets. -/
structure IsPath (targets : String → List String) (first last : String) (path : List String) :
    Prop where
  head : path.head? = some first
  getLast : path.getLast? = some last
  isChain : path.IsChain fun name target => target ∈ targets name

namespace IsPath

variable {first last next : String} {path : List String}

theorem single (targets : String → List String) (name : String) : IsPath targets name name [name] :=
  ⟨rfl, rfl, .singleton name⟩

/-- A path goes on with one more step. -/
theorem concat (hpath : IsPath targets first last path) (hnext : next ∈ targets last) :
    IsPath targets first next (path ++ [next]) where
  head := by rw [List.head?_append, hpath.head, Option.some_or]
  getLast := by rw [List.getLast?_concat]
  isChain := by
    refine List.isChain_append.2 ⟨hpath.isChain, .singleton next,
      fun name hname target htarget => ?_⟩
    obtain rfl := Option.some.inj (hpath.getLast.symm.trans hname)
    obtain rfl := Option.some.inj htarget
    exact hnext

end IsPath

/-- A search that finds something has found a path back to its start. -/
theorem exists_isPath_of_search_eq_some {start : String} {unseen cycle : List String}
    {stack : List Step} (hstack : ∀ step ∈ stack, IsPath targets start step.name step.path)
    (hsearch : search targets start unseen stack = some cycle) :
    ∃ last path, IsPath targets start last path ∧ start ∈ targets last ∧
      cycle = path ++ [start] := by
  fun_induction search targets start unseen stack with
  | case1 => cases hsearch
  | case2 unseen step stack found hback =>
    exact ⟨step.name, step.path, hstack step List.mem_cons_self, List.contains_iff_mem.1 hback,
      (Option.some.inj hsearch).symm⟩
  | case3 unseen step stack found hback steps ih =>
    refine ih (fun later hlater => ?_) hsearch
    rcases List.mem_append.1 hlater with hlater | hlater
    · obtain ⟨name, hname, rfl⟩ := List.mem_map.1 (List.mem_reverse.1 hlater)
      have htarget : name ∈ targets step.name := List.contains_iff_mem.1 (List.mem_filter.1 hname).2
      exact (hstack step List.mem_cons_self).concat htarget
    · exact hstack later (List.mem_cons_of_mem _ hlater)

end Cycle

namespace Grammar

variable {K R : Type} [DecidableEq K] [TokenKind K] {grammar : Grammar K R}

section Occurrences

open Clause

mutual

/-- A name that is found to be leftmost stands behind clauses that yield nothing. -/
theorem exists_occursBehind_of_leftmost {name : String} : ∀ clause : Clause K,
    name ∈ clause.leftmost grammar.nullable.contains →
      ∃ before, OccursBehind before [clause] name ∧ grammar.Yields before []
  | .terminal .., hname => nomatch hname
  | .nonTerminal other _ _, hname => by
    obtain rfl := List.mem_singleton.1 hname
    exact ⟨[], .here, .nil⟩
  | .group members _, hname => by
    obtain ⟨before, hoccurs, hyields⟩ := exists_occursBehind_of_leftmostOfAll members hname
    exact ⟨before, .group hoccurs, hyields⟩
  | .choice members _, hname => by
    obtain ⟨member, hmember, before, hoccurs, hyields⟩ :=
      exists_occursBehind_of_leftmostOfAny members hname
    exact ⟨before, .choice hmember hoccurs, hyields⟩
  | .option inner _, hname => by
    obtain ⟨before, hoccurs, hyields⟩ := exists_occursBehind_of_leftmost inner hname
    exact ⟨before, .option hoccurs, hyields⟩
  | .zeroOrMore inner _, hname => by
    obtain ⟨before, hoccurs, hyields⟩ := exists_occursBehind_of_leftmost inner hname
    exact ⟨before, .zeroOrMore hoccurs, hyields⟩
  | .oneOrMore inner _, hname => by
    obtain ⟨before, hoccurs, hyields⟩ := exists_occursBehind_of_leftmost inner hname
    exact ⟨before, .oneOrMore hoccurs, hyields⟩

theorem exists_occursBehind_of_leftmostOfAll {name : String} : ∀ clauses : List (Clause K),
    name ∈ leftmostOfAll grammar.nullable.contains clauses →
      ∃ before, OccursBehind before clauses name ∧ grammar.Yields before []
  | [], hname => nomatch hname
  | clause :: rest, hname => by
    have hhead (hfirst : name ∈ clause.leftmost grammar.nullable.contains) :
        ∃ before, OccursBehind before (clause :: rest) name ∧ grammar.Yields before [] := by
      obtain ⟨before, hoccurs, hyields⟩ := exists_occursBehind_of_leftmost clause hfirst
      exact ⟨before, hoccurs.append rest, hyields⟩
    rw [leftmostOfAll] at hname
    split at hname
    · next hnullable =>
      rcases List.mem_append.1 hname with hfirst | hrest
      · exact hhead hfirst
      · obtain ⟨before, hoccurs, hyields⟩ := exists_occursBehind_of_leftmostOfAll rest hrest
        exact ⟨clause :: before, .behind hoccurs, (isNullable_iff.1 hnullable).append hyields⟩
    · exact hhead hname

theorem exists_occursBehind_of_leftmostOfAny {name : String} : ∀ members : List (Clause K),
    name ∈ leftmostOfAny grammar.nullable.contains members →
      ∃ member ∈ members, ∃ before, OccursBehind before [member] name ∧ grammar.Yields before []
  | [], hname => nomatch hname
  | member :: rest, hname => by
    rcases List.mem_append.1 hname with hfirst | hrest
    · exact ⟨member, List.mem_cons_self, exists_occursBehind_of_leftmost member hfirst⟩
    · obtain ⟨other, hother, hoccurs⟩ := exists_occursBehind_of_leftmostOfAny rest hrest
      exact ⟨other, List.mem_cons_of_mem _ hother, hoccurs⟩

end

/-- A name behind clauses that yield nothing is found to be leftmost. -/
theorem mem_leftmostOfAll_of_occursBehind {before clauses : List (Clause K)} {name : String}
    (hoccurs : OccursBehind before clauses name) (hyields : grammar.Yields before []) :
    name ∈ leftmostOfAll grammar.nullable.contains clauses := by
  induction hoccurs with
  | here => exact mem_leftmostOfAll_of_leftmost (by simp [Clause.leftmost]) _
  | group _ ih =>
    exact mem_leftmostOfAll_of_leftmost (by simpa only [Clause.leftmost] using ih hyields) _
  | choice hmember _ ih =>
    have hleftmost := ih hyields
    rw [leftmostOfAll_singleton] at hleftmost
    have hany := mem_leftmostOfAny.2 ⟨_, hmember, hleftmost⟩
    exact mem_leftmostOfAll_of_leftmost (by simpa only [Clause.leftmost] using hany) _
  | option _ ih | zeroOrMore _ ih | oneOrMore _ ih =>
    have hleftmost := ih hyields
    rw [leftmostOfAll_singleton] at hleftmost
    exact mem_leftmostOfAll_of_leftmost (by simpa only [Clause.leftmost] using hleftmost) _
  | behind _ ih =>
    obtain ⟨first, rest, hnil, hfirst, hrest⟩ := hyields.uncons
    obtain ⟨rfl, rfl⟩ := List.append_eq_nil_iff.1 hnil.symm
    rw [leftmostOfAll, if_pos (isNullable_iff.2 hfirst)]
    exact List.mem_append_right _ (ih hrest)

end Occurrences

/-- Whether some rule of a name has the target in it with nothing in front of it
    but what can yield nothing. -/
def Exposes (grammar : Grammar K R) (name target : String) : Prop :=
  ∃ rule before, (name, rule) ∈ grammar.rules ∧ Clause.OccursBehind before rule.clauses target ∧
    grammar.Yields before []

/-- A non-terminal is found to be entered exactly where it can be. -/
theorem enters_iff_exposes {name target : String} :
    grammar.Enters name target ↔ grammar.Exposes name target := by
  constructor
  · intro henters
    rw [Enters, leftmost] at henters
    cases hfind : grammar.find? name with
    | none =>
      rw [hfind] at henters
      cases henters
    | some nonTerminal =>
      rw [hfind] at henters
      obtain ⟨rule, hmem, htarget⟩ := List.mem_flatMap.1 henters
      obtain ⟨before, hoccurs, hyields⟩ := exists_occursBehind_of_leftmostOfAll rule.clauses htarget
      exact ⟨rule, before, mem_rules_iff.2 ⟨nonTerminal, hfind, hmem⟩, hoccurs, hyields⟩
  · rintro ⟨rule, before, hrule, hoccurs, hyields⟩
    exact enters_of_mem_rules hrule (mem_leftmostOfAll_of_occursBehind hoccurs hyields)

section Cycles

variable {nullable : String → Bool}

/-- Every reported cycle was found from one of the names. -/
theorem exists_cycleFrom_of_mem {known names cycle : List String}
    (hcycle : cycle ∈ grammar.cyclesFrom nullable known names) :
    ∃ name, grammar.cycleFrom nullable name = some cycle := by
  induction names generalizing known with
  | nil => cases hcycle
  | cons first rest ih =>
    rw [cyclesFrom] at hcycle
    split at hcycle
    · exact ih hcycle
    · split at hcycle
      · next found hfound =>
        rcases List.mem_cons.1 hcycle with rfl | hrest
        · exact ⟨first, hfound⟩
        · exact ih hrest
      · exact ih hcycle

/-- What is found from a name is a path from it and back. -/
theorem exists_isPath_of_cycleFrom {name : String} {cycle : List String}
    (hcycle : grammar.cycleFrom nullable name = some cycle) :
    ∃ last path, Cycle.IsPath (grammar.leftmost nullable) name last path ∧
      name ∈ grammar.leftmost nullable last ∧
      cycle = path ++ [name] := by
  refine Cycle.exists_isPath_of_search_eq_some (fun step hstep => ?_) hcycle
  obtain rfl := List.mem_singleton.1 hstep
  exact .single _ name

/-- A name from which there is a cycle lies on a reported one, unless it lies on
    one that was known before. -/
theorem mem_known_or_mem_cycles {known names : List String} {name : String} (hname : name ∈ names)
    (hcycle : grammar.cycleFrom nullable name ≠ none) :
    name ∈ known ∨ ∃ cycle ∈ grammar.cyclesFrom nullable known names, name ∈ cycle := by
  induction names generalizing known with
  | nil => cases hname
  | cons first rest ih =>
    rw [cyclesFrom]
    by_cases hknown : known.contains first = true
    · rw [if_pos hknown]
      rcases List.mem_cons.1 hname with rfl | hname
      · exact Or.inl (List.contains_iff_mem.1 hknown)
      · exact ih hname
    · rw [if_neg hknown]
      cases hfirst : grammar.cycleFrom nullable first with
      | none =>
        rcases List.mem_cons.1 hname with rfl | hname
        · exact absurd hfirst hcycle
        · exact ih hname
      | some cycle =>
        -- The cycle starts with `first`, and its other names are known from here on.
        dsimp only
        have hnew (hmem : name ∈ cycle) :
            ∃ cycle' ∈ cycle :: grammar.cyclesFrom nullable (known ++ cycle) rest, name ∈ cycle' :=
          ⟨cycle, List.mem_cons_self, hmem⟩
        rcases List.mem_cons.1 hname with rfl | hname
        · obtain ⟨last, path, -, -, rfl⟩ := exists_isPath_of_cycleFrom hfirst
          exact Or.inr (hnew (List.mem_append_right _ (List.mem_singleton_self name)))
        · rcases (ih hname : name ∈ known ++ cycle ∨ _) with hmem | ⟨other, hother, hmem⟩
          · exact (List.mem_append.1 hmem).imp_right hnew
          · exact Or.inr ⟨other, List.mem_cons_of_mem _ hother, hmem⟩

end Cycles

/-- Every left recursion is reported. -/
theorem leftRecursion_mem_problems {cycle : List String} :
    .leftRecursion cycle ∈ grammar.problems ↔ cycle ∈ grammar.leftRecursions := by
  have hstart : .leftRecursion cycle ∉ grammar.startProblem?.toList := by
    rw [startProblem?]
    split <;> simp
  simp [problems, hstart]

/-- A reported cycle ends where it starts, and each of its steps can be taken
    before a token is matched. -/
theorem exists_of_mem_leftRecursions {cycle : List String}
    (hcycle : cycle ∈ grammar.leftRecursions) :
    ∃ name between, cycle = name :: between ++ [name] ∧ cycle.IsChain grammar.Exposes := by
  obtain ⟨name, hfrom⟩ := exists_cycleFrom_of_mem hcycle
  obtain ⟨last, path, hpath, hback, rfl⟩ := exists_isPath_of_cycleFrom hfrom
  obtain ⟨between, rfl⟩ := List.head?_eq_some_iff.1 hpath.head
  exact ⟨name, between, rfl, (hpath.concat hback).isChain.imp fun _ _ => enters_iff_exposes.1⟩

/-- From every name on a cycle the steps lead back to it. -/
theorem transGen_of_mem_cycle {name other : String} {between : List String}
    (hchain : (name :: between ++ [name]).IsChain grammar.Exposes)
    (hother : other ∈ name :: between ++ [name]) :
    Relation.TransGen grammar.Exposes other other := by
  have hpairs := List.isChain_iff_pairwise.1 (hchain.imp fun _ _ => Relation.TransGen.single)
  obtain ⟨hlater, hbetween⟩ := List.pairwise_cons.1 hpairs
  have hwhole : Relation.TransGen grammar.Exposes name name := hlater name (by simp)
  rcases List.mem_cons.1 hother with rfl | hother
  · exact hwhole
  · rcases List.mem_append.1 hother with hinside | hlast
    · have hback := (List.pairwise_append.1 hbetween).2.2 other hinside name
        (List.mem_singleton_self name)
      exact hback.trans (hlater other (List.mem_append_left _ hinside))
    · exact List.mem_singleton.1 hlast ▸ hwhole

/-- A name that leads back to itself lies on a reported cycle. -/
theorem exists_mem_leftRecursions {name : String}
    (hpath : Relation.TransGen grammar.Exposes name name) :
    ∃ cycle ∈ grammar.leftRecursions, name ∈ cycle := by
  have hpath : Relation.TransGen grammar.Enters name name := hpath.lift id fun _ _ =>
    enters_iff_exposes.2
  have hway := way_of_transGen hpath
  have hname : name ∈ grammar.names := by
    cases hway with
    | step h => exact mem_names_of_mem_leftmost h
    | through h => exact mem_names_of_mem_leftmost h
  have hcycle : grammar.cycleFrom grammar.nullable.contains name ≠ none := fun hnone =>
    Cycle.not_way_of_search_eq_none hnone ⟨name, [name]⟩ List.mem_cons_self hway
  exact (mem_known_or_mem_cycles hname hcycle).resolve_left List.not_mem_nil

/-- Left recursion is reported where it is and nowhere else. The search for
    nullable names comes to an end, and the one for a cycle from a name takes at
    most one round for each name and one more. A name lies on a reported cycle
    exactly when it leads back to itself by steps to names that occur in a rule
    behind nothing but what can yield nothing, and the reported cycles consist
    of such steps, although the search skips the names of cycles that it has
    found already. -/
theorem leftRecursions_exact (grammar : Grammar K R) :
    Settles grammar.nullablePass [] grammar.nullable ∧
      (∀ start, ∃ rounds ≤ grammar.names.length + 1,
        Cycle.Searches (grammar.leftmost grammar.nullable.contains) start grammar.names
          [⟨start, [start]⟩] rounds
          (grammar.cycleFrom grammar.nullable.contains start)) ∧
      (∀ name, (∃ cycle, .leftRecursion cycle ∈ grammar.problems ∧ name ∈ cycle) ↔
        Relation.TransGen grammar.Exposes name name) ∧
      ∀ cycle, .leftRecursion cycle ∈ grammar.problems →
        ∃ name between, cycle = name :: between ++ [name] ∧ cycle.IsChain grammar.Exposes := by
  simp only [leftRecursion_mem_problems]
  refine ⟨grammar.settles_nullable, fun start => Cycle.exists_searches _ start grammar.names
    [⟨start, [start]⟩], fun name => ⟨?_, ?_⟩, fun cycle => ?_⟩
  · rintro ⟨cycle, hcycle, hname⟩
    obtain ⟨start, between, rfl, hchain⟩ := exists_of_mem_leftRecursions hcycle
    exact transGen_of_mem_cycle hchain hname
  · exact exists_mem_leftRecursions
  · exact exists_of_mem_leftRecursions

end Grammar

end GrammarKit
