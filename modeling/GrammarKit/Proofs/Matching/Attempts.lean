import GrammarKit.Proofs.Matching.Depth
import Mathlib.Order.Bounds.Basic

namespace GrammarKit.Matching

variable {K R : Type} [DecidableEq K] [TokenKind K]

/-- What is matched against what, with the rules that are tried in front of each token. -/
structure Run (K R : Type) [DecidableEq K] [TokenKind K] where
  grammar : Grammar K R
  tokens : Array (Token K)
  strategy : Strategy K R

/-- A clause that is to be matched at a place. -/
structure Goal (K : Type) where
  clause : Clause K
  place : Nat

namespace Run

variable (run : Run K R)

/-- The outcome of matching a clause at a place. -/
def outcome (part : Clause K) (place : Nat) : Outcome K (Option (Found K)) :=
  Plain.clause run.strategy.limit run.tokens (Plain.outcome run.strategy run.grammar run.tokens)
    part place

/-- Where the match of a clause ends, if there is one. -/
def stop? (part : Clause K) (place : Nat) :
    Option Nat := (run.outcome part place).value.map Prod.snd

/-- Where the match of clauses in a row ends. -/
def stopAll? : List (Clause K) → Nat → Option Nat
  | [], place => some place
  | first :: rest, place => (run.stop? first place).bind (stopAll? rest)

/-- Whether a rule is tried at a place as one of a non-terminal. -/
def TriesRule (name : String) (place : Nat) (rule : Rule K R) : Prop :=
  (name, rule) ∈ run.grammar.rules ∧ run.strategy.tries rule (kindAt run.tokens place) = true

/-- What is tried at once to reach a goal: the clauses of a rule up to the first
    one that fails, or the clause in an option or a repetition. A repetition
    goes on as another one behind each item. -/
inductive Tries : Goal K → Goal K → Prop
  | rule {name : String} {role : Role} {discarded : Bool} {place stop : Nat} {rule : Rule K R}
      {before after : List (Clause K)} {part : Clause K} :
      run.TriesRule name place rule → rule.clauses = before ++ part :: after →
        run.stopAll? before place = some stop →
        Tries ⟨.nonTerminal name role discarded, place⟩ ⟨part, stop⟩
  | option {inner : Clause K} {discarded : Bool} {place : Nat} :
      Tries ⟨.option inner discarded, place⟩ ⟨inner, place⟩
  | zeroOrMore {inner : Clause K} {discarded : Bool} {place : Nat} :
      place < run.strategy.limit → Tries ⟨.zeroOrMore inner discarded, place⟩ ⟨inner, place⟩
  | again {inner : Clause K} {discarded : Bool} {place stop : Nat} :
      place < run.strategy.limit → run.stop? inner place = some stop → place < stop →
        Tries ⟨.zeroOrMore inner discarded, place⟩ ⟨.zeroOrMore inner discarded, stop⟩
  | oneOrMore {inner : Clause K} {discarded : Bool} {place : Nat} :
      Tries ⟨.oneOrMore inner discarded, place⟩ ⟨inner, place⟩
  | more {inner : Clause K} {discarded : Bool} {place stop : Nat} :
      run.stop? inner place = some stop →
        Tries ⟨.oneOrMore inner discarded, place⟩ ⟨.zeroOrMore inner discarded, stop⟩

/-- Whether the clause of a goal itself, and none that it tries, is found missing. -/
inductive Misses : Goal K → Mismatch K → Prop
  | terminal {kind : K} {discarded : Bool} {place : Nat} :
      kindAt run.tokens place ≠ some kind → Misses ⟨.terminal kind discarded, place⟩
      ⟨place, .singleton kind⟩
  | nonTerminal {name : String} {nonTerminal : NonTerminal K R} {role : Role} {discarded : Bool}
      {place : Nat} : run.grammar.find? name = some nonTerminal →
        (∀ rule, ¬ run.TriesRule name place rule) →
        Misses ⟨.nonTerminal name role discarded, place⟩ ⟨place, nonTerminal.leading⟩

/-- Whether a clause is tried at a place in a match of `start` at the beginning. -/
def Tried (start : String) (part : Clause K) (place : Nat) : Prop :=
  Relation.ReflTransGen run.Tries ⟨.ofName start, 0⟩ ⟨part, place⟩

variable {run} {inner part : Clause K} {discarded : Bool} {place stop : Nat}
    {clauses others : List (Clause K)}

section Stops

/-- A token ends behind itself, where it is the one at the place. -/
theorem stop?_terminal (kind : K) (discarded : Bool) (place : Nat) :
    run.stop? (.terminal kind discarded) place =
      if kindAt run.tokens place = some kind then some (place + 1) else none := by
  rw [stop?, outcome, Plain.clause, Plain.terminal, kindAt]
  cases run.tokens[place]? with
  | none => rfl
  | some token => by_cases hkind : token.kind = some kind <;> simp [hkind]

/-- An option ends where its clause does, or where it began. -/
theorem stop?_option (inner : Clause K) (discarded : Bool) (place : Nat) :
    run.stop? (.option inner discarded) place = some ((run.stop? inner place).getD place) := by
  rw [stop?, outcome, Plain.value_option, stop?, outcome]
  cases (Plain.clause run.strategy.limit run.tokens _ inner place).value <;> rfl

/-- A repetition ends where its last item does. -/
theorem stop?_zeroOrMore (inner : Clause K) (discarded : Bool) (place : Nat) :
    run.stop? (.zeroOrMore inner discarded) place =
      if place < run.strategy.limit then
        match run.stop? inner place with
        | some stop =>
          if place < stop then run.stop? (.zeroOrMore inner discarded) stop else some place
        | none => some place
      else some place := by
  rw [stop?, outcome, Plain.value_zeroOrMore, Plain.value_repeated, stop?, outcome]
  cases (Plain.clause run.strategy.limit run.tokens _ inner place).value with
  | none => split <;> rfl
  | some found =>
    obtain ⟨tree, stop⟩ := found
    by_cases hlimit : place < run.strategy.limit <;> by_cases hstop : place < stop <;>
      simp [hlimit, hstop, stop?, outcome, Plain.value_zeroOrMore]

/-- A repetition always ends. -/
theorem exists_stop?_zeroOrMore (run : Run K R) (inner : Clause K) (discarded : Bool)
    (place : Nat) :
    ∃ stop, run.stop? (.zeroOrMore inner discarded) place = some stop := by
  rw [stop?, outcome, Plain.value_zeroOrMore]
  exact ⟨_, rfl⟩

/-- A repetition ends where it does behind its first item. -/
theorem stop?_again (discarded : Bool) (hlimit : place < run.strategy.limit)
    (hinner : run.stop? inner place = some stop) (hlt : place < stop) :
    run.stop? (.zeroOrMore inner discarded) place =
      run.stop? (.zeroOrMore inner discarded) stop := by
  rw [stop?_zeroOrMore, if_pos hlimit, hinner]
  exact if_pos hlt

/-- A repetition that may not be empty goes on as one that may behind its first item. -/
theorem stop?_oneOrMore (inner : Clause K) (discarded : Bool) (place : Nat) :
    run.stop? (.oneOrMore inner discarded) place =
      (run.stop? inner place).bind fun stop => run.stop? (.zeroOrMore inner discarded) stop := by
  rw [stop?, outcome, Plain.value_oneOrMore, stop?, outcome]
  cases (Plain.clause run.strategy.limit run.tokens _ inner place).value <;> rfl

theorem stop?_group (members : List (Clause K)) (discarded : Bool) (place : Nat) :
    run.stop? (.group members discarded) place = none := rfl

theorem stop?_choice (members : List (Clause K)) (discarded : Bool) (place : Nat) :
    run.stop? (.choice members discarded) place = none := rfl

theorem stopAll?_singleton (part : Clause K) (place : Nat) :
    run.stopAll? [part] place = run.stop? part place := by
  rw [stopAll?]
  cases run.stop? part place <;> rfl

/-- Clauses in a row end where the later ones do behind the first ones. -/
theorem stopAll?_append (clauses others : List (Clause K)) (place : Nat) :
    run.stopAll? (clauses ++ others) place = (run.stopAll? clauses place).bind
      (run.stopAll? others) := by
  induction clauses generalizing place with
  | nil => rfl
  | cons first rest ih =>
    rw [List.cons_append, stopAll?, stopAll?, Option.bind_assoc]
    simp only [ih]

/-- Clauses in a row end where their sequence does. -/
theorem stopAll?_eq (clauses : List (Clause K)) (place : Nat) :
    run.stopAll? clauses place =
      (Plain.sequence run.strategy.limit run.tokens
        (Plain.outcome run.strategy run.grammar run.tokens) clauses
        place).value.map Prod.snd := by
  induction clauses generalizing place with
  | nil => rfl
  | cons first rest ih =>
    rw [stopAll?, Plain.value_sequence_cons, stop?, outcome]
    cases (Plain.clause run.strategy.limit run.tokens _ first place).value with
    | none => rfl
    | some found => simp [ih, Function.comp_def]

/-- What a rule that is tried matches ends where its clauses do. -/
theorem exists_tried_iff {name : String} {rule : Rule K R}
    (hrule : (name, rule) ∈ run.grammar.rules) :
    (∃ trees,
      (Plain.tried run.strategy run.tokens (Plain.outcome run.strategy run.grammar run.tokens) place
        rule).value = some (trees, stop)) ↔
      run.TriesRule name place rule ∧ run.stopAll? rule.clauses place = some stop := by
  rw [Plain.tried, stopAll?_eq, TriesRule]
  split
  · next htries => simp [htries, hrule]
  · next htries => simp [htries]

/-- A non-terminal ends where its best candidate does. -/
theorem stop?_nonTerminal_eq (hacyclic : run.grammar.leftRecursions = []) (name : String)
    (role : Role) (discarded : Bool) (place : Nat) :
    run.stop? (.nonTerminal name role discarded) place =
      (Plain.attempt run.strategy run.grammar run.tokens
        (Plain.outcome run.strategy run.grammar run.tokens) name
        place).value.map Prod.snd := by
  rw [stop?, outcome, Plain.value_nonTerminal_clause, Plain.outcome_eq_attempt hacyclic,
    Option.map_map]
  rfl

/-- A non-terminal ends where one of its rules does. -/
theorem exists_rule_of_stop? (hacyclic : run.grammar.leftRecursions = []) {name : String}
    {role : Role} (hstop : run.stop? (.nonTerminal name role discarded) place = some stop) :
    ∃ rule, run.TriesRule name place rule ∧ run.stopAll? rule.clauses place = some stop := by
  rw [stop?_nonTerminal_eq hacyclic] at hstop
  cases hfind : run.grammar.find? name with
  | none =>
    rw [Plain.attempt, hfind] at hstop
    cases hstop
  | some nonTerminal =>
    rw [Plain.value_attempt hfind, Option.map_map, Option.map_eq_some_iff] at hstop
    obtain ⟨chosen, hbest, rfl⟩ := hstop
    obtain ⟨hchosen, -, -⟩ := Plain.best_spec hbest
    obtain ⟨-, hrule, hfound⟩ := Plain.mem_candidates_iff.1 (hchosen.resolve_left (by simp))
    have hmem : (name, chosen.rule) ∈ run.grammar.rules :=
      Grammar.mem_rules_iff.2 ⟨nonTerminal, hfind, List.mem_of_getElem? hrule⟩
    exact ⟨chosen.rule, (exists_tried_iff hmem).1 ⟨_, hfound⟩⟩

/-- A non-terminal ends no earlier than any of its rules. -/
theorem exists_stop?_of_rule (hacyclic : run.grammar.leftRecursions = []) {name : String}
    (role : Role) (discarded : Bool) {rule : Rule K R} (htries : run.TriesRule name place rule)
    (hstop : run.stopAll? rule.clauses place = some stop) :
    ∃ last, run.stop? (.nonTerminal name role discarded) place = some last ∧ stop ≤ last := by
  obtain ⟨nonTerminal, hfind, hmem⟩ := Grammar.mem_rules_iff.1 htries.1
  obtain ⟨trees, hfound⟩ := (exists_tried_iff htries.1).2 ⟨htries, hstop⟩
  obtain ⟨index, hindex⟩ := List.mem_iff_getElem?.1 hmem
  have hcandidate : (⟨index, rule, trees, stop⟩ : Candidate K R) ∈
      (Plain.candidates run.strategy run.tokens
      (Plain.outcome run.strategy run.grammar run.tokens) place 0 nonTerminal.rules).value :=
    Plain.mem_candidates_iff.2 ⟨Nat.zero_le _, hindex, hfound⟩
  obtain ⟨chosen, hbest⟩ := Plain.isSome_best_of_mem hcandidate
  obtain ⟨-, -, hmost⟩ := Plain.best_spec hbest
  refine ⟨chosen.stop, ?_, hmost _ hcandidate⟩
  rw [stop?_nonTerminal_eq hacyclic, Plain.value_attempt hfind, hbest]
  rfl

/-- A non-terminal ends where the rule does that reaches furthest. -/
theorem stop?_nonTerminal (hacyclic : run.grammar.leftRecursions = []) {name : String}
    {role : Role} :
    run.stop? (.nonTerminal name role discarded) place = some stop ↔
      IsGreatest {stop | ∃ rule, run.TriesRule name place rule ∧
        run.stopAll? rule.clauses place = some stop} stop := by
  constructor
  · intro hstop
    refine ⟨exists_rule_of_stop? hacyclic hstop, ?_⟩
    rintro other ⟨rule, htries, hother⟩
    obtain ⟨last, hlast, hle⟩ := exists_stop?_of_rule hacyclic role discarded htries hother
    obtain rfl := Option.some.inj (hstop.symm.trans hlast)
    exact hle
  · rintro ⟨⟨rule, htries, hstop⟩, hmost⟩
    obtain ⟨last, hlast, hle⟩ := exists_stop?_of_rule hacyclic role discarded htries hstop
    rw [hlast, Nat.le_antisymm (hmost (exists_rule_of_stop? hacyclic hlast)) hle]

end Stops

section Reads

/-- A clause that ends somewhere has read the tokens up to there. -/
theorem exists_read (hstop : run.stop? part place = some stop) :
    ∃ tree, Reads run.grammar run.tokens [part] place [tree] stop := by
  obtain ⟨⟨tree, _⟩, hvalue, rfl⟩ := Option.map_eq_some_iff.1 hstop
  exact ⟨tree, Plain.clause_reads Plain.outcome_sound part place tree _ hvalue⟩

/-- Clauses that end somewhere have read the tokens up to there. -/
theorem exists_reads (hstop : run.stopAll? clauses place = some stop) :
    ∃ trees, Reads run.grammar run.tokens clauses place trees stop := by
  rw [stopAll?_eq, Option.map_eq_some_iff] at hstop
  obtain ⟨⟨trees, _⟩, hvalue, rfl⟩ := hstop
  exact ⟨trees, Plain.sequence_reads Plain.outcome_sound hvalue⟩

/-- No clause ends in front of where it begins. -/
theorem le_stop? (hstop : run.stop? part place = some stop) : place ≤ stop := by
  obtain ⟨tree, hreads⟩ := exists_read hstop
  exact hreads.spans.le

theorem le_stopAll? (hstop : run.stopAll? clauses place = some stop) : place ≤ stop := by
  obtain ⟨trees, hreads⟩ := exists_reads hstop
  exact hreads.spans.le

/-- What is tried next is not in front of the goal. -/
theorem Tries.place_le {goal next : Goal K} (htries : run.Tries goal next) :
    goal.place ≤ next.place := by
  cases htries with
  | rule _ _ hstop => exact le_stopAll? hstop
  | option | zeroOrMore | oneOrMore => exact Nat.le_refl _
  | again _ _ hlt => exact Nat.le_of_lt hlt
  | more hstop => exact le_stop? hstop

end Reads

section Induction

/-- What is entered behind clauses that matched is entered by all of the clauses. -/
theorem mayEnter_append (hstop : run.stopAll? clauses place = some stop) {name : String}
    {other : Nat} (henter : MayEnter run.grammar run.tokens [part] stop name other) :
    MayEnter run.grammar run.tokens (clauses ++ part :: others) place name other := by
  induction clauses generalizing place with
  | nil =>
    obtain rfl := Option.some.inj hstop
    exact henter.head
  | cons first rest ih =>
    obtain ⟨middle, hfirst, hrest⟩ := Option.bind_eq_some_iff.1 hstop
    obtain ⟨tree, hreads⟩ := exists_read hfirst
    exact (ih hrest).tail hreads

/-- What a repetition tries comes to an end if what its items try does. -/
theorem acc_zeroOrMore {place : Nat}
    (hinner : ∀ stop, place ≤ stop → (place < stop → stop ≤ run.tokens.size) →
      Acc (fun next goal => run.Tries goal next) ⟨inner, stop⟩) :
    Acc (fun next goal => run.Tries goal next) ⟨.zeroOrMore inner discarded, place⟩ := by
  induction hmeasure : run.tokens.size - place using Nat.strongRecOn generalizing place with
  | _ measure ih =>
    refine ⟨_, fun next hnext => ?_⟩
    cases hnext with
    | zeroOrMore => exact hinner place (Nat.le_refl _) fun hlt => absurd hlt (Nat.lt_irrefl _)
    | @again _ _ _ stop _ hstop hlt =>
      obtain ⟨tree, hreads⟩ := exists_read hstop
      have hsize := hreads.spans.stop_le_size hlt
      exact ih (run.tokens.size - stop) (by omega)
        (fun other hle hother => hinner other (by omega) (by omega)) rfl

/-- What is tried on the way from a clause comes to an end where it does from
    the non-terminals that are entered. -/
theorem acc_of_mayEnter : ∀ (part : Clause K) (place : Nat),
    (∀ name role discarded other, MayEnter run.grammar run.tokens [part] place name other →
      Acc (fun next goal => run.Tries goal next) ⟨.nonTerminal name role discarded, other⟩) →
        Acc (fun next goal => run.Tries goal next) ⟨part, place⟩
  | .terminal .., _, _ => ⟨_, fun _ hnext => nomatch hnext⟩
  | .nonTerminal name role discarded, place, henter =>
    henter name role discarded place (Or.inl ⟨rfl, by simp [Clause.leftmostOfAll, Clause.leftmost]⟩)
  | .option inner _, place, henter => by
    refine ⟨_, fun next hnext => ?_⟩
    cases hnext with
    | option =>
      exact acc_of_mayEnter inner place fun name role discarded other hother =>
        henter name role discarded other (hother.outer (by simp only [Clause.leftmost]))
  | .zeroOrMore inner _, place, henter =>
    acc_zeroOrMore fun stop hle hstop => acc_of_mayEnter inner stop
      fun name role discarded other hother =>
      henter name role discarded other (hother.behind hle hstop (by simp only [Clause.leftmost]))
  | .oneOrMore inner _, place, henter => by
    have hinner (stop : Nat) (hle : place ≤ stop) (hstop : place < stop → stop ≤ run.tokens.size) :
        Acc (fun next goal => run.Tries goal next) ⟨inner, stop⟩ :=
      acc_of_mayEnter inner stop fun name role discarded other hother =>
        henter name role discarded other (hother.behind hle hstop (by simp only [Clause.leftmost]))
    refine ⟨_, fun next hnext => ?_⟩
    cases hnext with
    | oneOrMore => exact hinner place (Nat.le_refl _) fun hlt => absurd hlt (Nat.lt_irrefl _)
    | @more _ _ _ stop hstop =>
      obtain ⟨tree, hreads⟩ := exists_read hstop
      have hle := hreads.spans.le
      have hsize := hreads.spans.stop_le_size
      exact acc_zeroOrMore fun other hother hlt => hinner other (by omega) (by omega)
  | .group .., _, _ => ⟨_, fun _ hnext => nomatch hnext⟩
  | .choice .., _, _ => ⟨_, fun _ hnext => nomatch hnext⟩

/-- What a non-terminal tries comes to an end without left recursion. -/
theorem acc_nonTerminal (ranking : run.grammar.Ranking) (name : String) (role : Role)
    (discarded : Bool) (place : Nat) :
    Acc (fun next goal => run.Tries goal next) ⟨.nonTerminal name role discarded, place⟩ := by
  induction hweight : weight ranking run.tokens name place using Nat.strongRecOn
    generalizing name role discarded place with
  | _ measure ih =>
    refine ⟨_, fun next hnext => ?_⟩
    cases hnext with
    | @rule _ _ _ _ _ rule _ _ _ htries hclauses hstop =>
      refine acc_of_mayEnter _ _ fun other role discarded entered henter =>
        ih _ ?_ other role discarded entered rfl
      have hwhole : MayEnter run.grammar run.tokens rule.clauses place other entered :=
        hclauses ▸ mayEnter_append hstop henter
      exact hweight ▸ hwhole.weight_lt ranking htries.1

/-- Without left recursion something holds of all goals when it holds of each
    one of which it does of what is tried to reach it. So facts about where
    clauses end, and about what is missed before, are proved by induction on
    what is tried. -/
theorem induct (hacyclic : run.grammar.leftRecursions = []) {motive : Goal K → Prop}
    (hstep : ∀ goal, (∀ next, run.Tries goal next → motive next) → motive goal) (goal : Goal K) :
    motive goal := by
  obtain ⟨ranking⟩ := Grammar.nonempty_ranking hacyclic
  have hacc : Acc (fun next goal => run.Tries goal next) goal :=
    acc_of_mayEnter goal.clause goal.place fun name role discarded other _ =>
      acc_nonTerminal ranking name role discarded other
  induction hacc with
  | intro goal _ ih => exact hstep goal ih

end Induction

section Mismatches

variable {mismatch : Mismatch K}

/-- What is missed by clauses in a row is missed by one of them behind those that matched. -/
theorem mem_mismatches_sequence :
    mismatch ∈ (Plain.sequence run.strategy.limit run.tokens
      (Plain.outcome run.strategy run.grammar run.tokens) clauses
        place).mismatches ↔
      ∃ before part after stop, clauses = before ++ part :: after ∧
        run.stopAll? before place = some stop ∧
        mismatch ∈ (run.outcome part stop).mismatches := by
  induction clauses generalizing place with
  | nil => simp [Plain.sequence]
  | cons first rest ih =>
    have hsplit : mismatch ∈ (Plain.sequence run.strategy.limit run.tokens
          (Plain.outcome run.strategy run.grammar run.tokens) (first :: rest) place).mismatches ↔
        mismatch ∈ (run.outcome first place).mismatches ∨ ∃ next,
          run.stop? first place = some next ∧
          mismatch ∈ (Plain.sequence run.strategy.limit run.tokens
            (Plain.outcome run.strategy run.grammar run.tokens) rest next).mismatches := by
      rw [Plain.sequence, Outcome.mismatches_bind, List.mem_append, stop?]
      refine or_congr_right ?_
      rw [← outcome]
      cases (run.outcome first place).value with
      | none => simp
      | some found =>
        simp only [Outcome.mismatches_bind, Outcome.mismatches_pure, List.append_nil,
          Option.map_some, Option.some.injEq, exists_eq_left']
    rw [hsplit]
    constructor
    · rintro (hfirst | ⟨next, hnext, hrest⟩)
      · exact ⟨[], first, rest, place, rfl, rfl, hfirst⟩
      · obtain ⟨before, part, after, stop, rfl, hstop, hmem⟩ := ih.1 hrest
        exact ⟨first :: before, part, after, stop, rfl, by rw [stopAll?, hnext]; exact hstop, hmem⟩
    · rintro ⟨before, part, after, stop, hclauses, hstop, hmem⟩
      cases before with
      | nil =>
        obtain ⟨rfl, rfl⟩ := List.cons.inj hclauses
        obtain rfl := Option.some.inj hstop
        exact Or.inl hmem
      | cons head before =>
        obtain ⟨rfl, rfl⟩ := List.cons.inj hclauses
        obtain ⟨next, hnext, hstop⟩ := Option.bind_eq_some_iff.1 hstop
        exact Or.inr ⟨next, hnext, ih.2 ⟨before, part, after, stop, rfl, hstop, hmem⟩⟩

/-- What is missed by rules is missed by one that is tried. -/
theorem mem_mismatches_candidates {index : Nat} {rules : List (Rule K R)} :
    mismatch ∈ (Plain.candidates run.strategy run.tokens
      (Plain.outcome run.strategy run.grammar run.tokens) place index
        rules).mismatches ↔
      ∃ rule ∈ rules, run.strategy.tries rule (kindAt run.tokens place) = true ∧
        ∃ before part after stop, rule.clauses = before ++ part :: after ∧
          run.stopAll? before place = some stop ∧
          mismatch ∈ (run.outcome part stop).mismatches := by
  induction rules generalizing index with
  | nil => simp [Plain.candidates]
  | cons rule rest ih =>
    have htried : mismatch ∈ (Plain.tried run.strategy run.tokens
          (Plain.outcome run.strategy run.grammar run.tokens) place rule).mismatches ↔
        run.strategy.tries rule (kindAt run.tokens place) = true ∧
          ∃ before part after stop, rule.clauses = before ++ part :: after ∧
            run.stopAll? before place = some stop ∧
            mismatch ∈ (run.outcome part stop).mismatches := by
      rw [Plain.tried, ← mem_mismatches_sequence]
      split
      · next htries => simp [htries]
      · next htries => simp [htries]
    simp only [Plain.candidates, Outcome.mismatches_bind, Outcome.mismatches_pure, List.append_nil,
      List.mem_append, List.mem_cons, exists_eq_or_imp, ih, htried]

/-- What is missed by a non-terminal is missed by a rule, or by itself where none is tried. -/
theorem mem_mismatches_nonTerminal (hacyclic : run.grammar.leftRecursions = []) {name : String}
    {role : Role} :
    mismatch ∈ (run.outcome (.nonTerminal name role discarded) place).mismatches ↔
      run.Misses ⟨.nonTerminal name role discarded, place⟩ mismatch ∨
        ∃ next, run.Tries ⟨.nonTerminal name role discarded, place⟩ next ∧
          mismatch ∈ (run.outcome next.clause next.place).mismatches := by
  have houtcome : (run.outcome (.nonTerminal name role discarded) place).mismatches =
      (Plain.attempt run.strategy run.grammar run.tokens
        (Plain.outcome run.strategy run.grammar run.tokens) name place).mismatches := by
    rw [outcome, Plain.clause, Outcome.mismatches_bind, Outcome.mismatches_pure, List.append_nil,
      Plain.outcome_eq_attempt hacyclic]
  have htries : (∃ next, run.Tries ⟨.nonTerminal name role discarded, place⟩ next ∧
        mismatch ∈ (run.outcome next.clause next.place).mismatches) ↔
      ∃ rule, run.TriesRule name place rule ∧
        ∃ before part after stop, rule.clauses = before ++ part :: after ∧
        run.stopAll? before place = some stop ∧ mismatch ∈ (run.outcome part stop).mismatches := by
    constructor
    · rintro ⟨_, hnext, hmem⟩
      cases hnext with
      | rule htries hclauses hstop => exact ⟨_, htries, _, _, _, _, hclauses, hstop, hmem⟩
    · rintro ⟨rule, htries, before, part, after, stop, hclauses, hstop, hmem⟩
      exact ⟨_, .rule htries hclauses hstop, hmem⟩
  rw [houtcome, htries, Plain.attempt]
  cases hfind : run.grammar.find? name with
  | none =>
    have hnone (rule : Rule K R) : ¬ run.TriesRule name place rule := by
      rintro ⟨hrule, -⟩
      simp [Grammar.mem_rules_iff, hfind] at hrule
    simp only [Outcome.mismatches_pure, List.not_mem_nil, false_iff, not_or, not_exists]
    refine ⟨fun hmisses => ?_, fun rule hrule => hnone rule hrule.1⟩
    cases hmisses with
    | nonTerminal hsome => simp [hfind] at hsome
  | some nonTerminal =>
    have hrule (rule : Rule K R) : run.TriesRule name place rule ↔
        rule ∈ nonTerminal.rules ∧ run.strategy.tries rule (kindAt run.tokens place) = true := by
      simp [TriesRule, Grammar.mem_rules_iff, hfind]
    dsimp only
    split
    · next hany =>
      obtain ⟨rule, hmemRule, htriesRule⟩ := List.any_eq_true.1 hany
      have hmisses : ¬ run.Misses ⟨.nonTerminal name role discarded, place⟩ mismatch := by
        intro hmisses
        cases hmisses with
        | nonTerminal _ hnone => exact hnone rule ((hrule rule).2 ⟨hmemRule, htriesRule⟩)
      rw [Outcome.mismatches_bind, Outcome.mismatches_pure, List.append_nil,
        mem_mismatches_candidates, or_iff_right hmisses]
      simp only [hrule, and_assoc]
    · next hany =>
      have hnone (rule : Rule K R) : ¬ run.TriesRule name place rule := fun htries =>
        hany (List.any_eq_true.2 ⟨rule, (hrule rule).1 htries⟩)
      have hrules : ¬ ∃ rule, run.TriesRule name place rule ∧ ∃ before part after stop,
          rule.clauses = before ++ part :: after ∧ run.stopAll? before place = some stop ∧
            mismatch ∈ (run.outcome part stop).mismatches := by
        rintro ⟨rule, htriesRule, -⟩
        exact hnone rule htriesRule
      rw [or_iff_left hrules, List.mem_singleton]
      constructor
      · rintro rfl
        exact .nonTerminal hfind hnone
      · intro hmisses
        cases hmisses with
        | nonTerminal hsome =>
          obtain rfl := Option.some.inj (hfind.symm.trans hsome)
          rfl

theorem mismatches_zeroOrMore (inner : Clause K) (discarded : Bool) (place : Nat) :
    (run.outcome (.zeroOrMore inner discarded) place).mismatches =
      (Plain.repeated run.strategy.limit (run.outcome inner) place).mismatches :=
  List.append_nil _

/-- What is missed by a repetition is missed by its first item or behind it. -/
theorem mem_mismatches_zeroOrMore :
    mismatch ∈ (run.outcome (.zeroOrMore inner discarded) place).mismatches ↔
      ∃ next, run.Tries ⟨.zeroOrMore inner discarded, place⟩ next ∧
        mismatch ∈ (run.outcome next.clause next.place).mismatches := by
  have hsplit : mismatch ∈ (run.outcome (.zeroOrMore inner discarded) place).mismatches ↔
      place < run.strategy.limit ∧ (mismatch ∈ (run.outcome inner place).mismatches ∨
        ∃ stop, run.stop? inner place = some stop ∧ place < stop ∧
          mismatch ∈ (run.outcome (.zeroOrMore inner discarded) stop).mismatches) := by
    simp only [mismatches_zeroOrMore]
    rw [Plain.repeated, stop?]
    split
    · next hlimit =>
      rw [Outcome.mismatches_bind, List.mem_append]
      simp only [hlimit, true_and]
      refine or_congr_right ?_
      cases (run.outcome inner place).value with
      | none => simp
      | some found =>
        obtain ⟨tree, stop⟩ := found
        by_cases hstop : place < stop
        · simp only [hstop, dite_true, true_and, Outcome.mismatches_bind, Outcome.mismatches_pure,
            List.append_nil, Option.map_some, Option.some.injEq, exists_eq_left']
        · simp [hstop]
    · next hlimit => simp [hlimit]
  rw [hsplit]
  constructor
  · rintro ⟨hlimit, hinner | ⟨stop, hstop, hlt, hmem⟩⟩
    · exact ⟨_, .zeroOrMore hlimit, hinner⟩
    · exact ⟨_, .again hlimit hstop hlt, hmem⟩
  · rintro ⟨_, hnext, hmem⟩
    cases hnext with
    | zeroOrMore hlimit => exact ⟨hlimit, Or.inl hmem⟩
    | again hlimit hstop hlt => exact ⟨hlimit, Or.inr ⟨_, hstop, hlt, hmem⟩⟩

/-- What is missed by a repetition that may not be empty is missed by its first
    item or behind it. -/
theorem mem_mismatches_oneOrMore :
    mismatch ∈ (run.outcome (.oneOrMore inner discarded) place).mismatches ↔
      ∃ next, run.Tries ⟨.oneOrMore inner discarded, place⟩ next ∧
        mismatch ∈ (run.outcome next.clause next.place).mismatches := by
  have hsplit : mismatch ∈ (run.outcome (.oneOrMore inner discarded) place).mismatches ↔
      mismatch ∈ (run.outcome inner place).mismatches ∨ ∃ stop, run.stop? inner place = some stop ∧
        mismatch ∈ (run.outcome (.zeroOrMore inner discarded) stop).mismatches := by
    simp only [mismatches_zeroOrMore]
    rw [outcome, Plain.clause, ← outcome, Outcome.mismatches_bind, List.mem_append, stop?]
    refine or_congr_right ?_
    cases (run.outcome inner place).value with
    | none => simp
    | some found =>
      simp only [Outcome.mismatches_bind, Outcome.mismatches_pure, List.append_nil, Option.map_some,
        Option.some.injEq, exists_eq_left']
      rfl
  rw [hsplit]
  constructor
  · rintro (hinner | ⟨stop, hstop, hmem⟩)
    · exact ⟨_, .oneOrMore, hinner⟩
    · exact ⟨_, .more hstop, hmem⟩
  · rintro ⟨_, hnext, hmem⟩
    cases hnext with
    | oneOrMore => exact Or.inl hmem
    | more hstop => exact Or.inr ⟨_, hstop, hmem⟩

/-- What is missed on the way to a goal is missed by itself or by what is tried to reach it. -/
theorem mem_mismatches_step (hacyclic : run.grammar.leftRecursions = []) (part : Clause K)
    (place : Nat) :
    mismatch ∈ (run.outcome part place).mismatches ↔ run.Misses ⟨part, place⟩ mismatch ∨
      ∃ next, run.Tries ⟨part, place⟩ next ∧
        mismatch ∈ (run.outcome next.clause next.place).mismatches := by
  cases part with
  | nonTerminal => exact mem_mismatches_nonTerminal hacyclic
  | zeroOrMore =>
    rw [mem_mismatches_zeroOrMore, or_iff_right]
    intro hmisses
    cases hmisses
  | oneOrMore =>
    rw [mem_mismatches_oneOrMore, or_iff_right]
    intro hmisses
    cases hmisses
  | terminal kind discarded =>
    have hmisses : run.Misses ⟨.terminal kind discarded, place⟩ mismatch ↔
        kindAt run.tokens place ≠ some kind ∧ mismatch = ⟨place, .singleton kind⟩ := by
      constructor
      · rintro (hkind | _)
        exact ⟨hkind, rfl⟩
      · rintro ⟨hkind, rfl⟩
        exact .terminal hkind
    have hnone : ¬ ∃ next, run.Tries ⟨.terminal kind discarded, place⟩ next ∧
        mismatch ∈ (run.outcome next.clause next.place).mismatches := by
      rintro ⟨_, hnext, -⟩
      cases hnext
    rw [or_iff_left hnone, hmisses, outcome, Plain.clause, Plain.terminal, kindAt]
    cases run.tokens[place]? with
    | none => simp
    | some token => by_cases hkind : token.kind = some kind <;> simp [hkind]
  | option inner discarded =>
    have hinner : (run.outcome (.option inner discarded) place).mismatches =
        (run.outcome inner place).mismatches :=
      List.append_nil _
    rw [hinner]
    constructor
    · exact fun hmem => Or.inr ⟨_, .option, hmem⟩
    · rintro (hmisses | ⟨_, hnext, hmem⟩)
      · cases hmisses
      · cases hnext with
        | option => exact hmem
  | group | choice =>
    refine iff_of_false List.not_mem_nil ?_
    rintro (hmisses | ⟨_, hnext, -⟩)
    · cases hmisses
    · cases hnext

/-- What is missed on the way to a goal is missed by something that is tried on the way. -/
theorem mem_mismatches_iff (hacyclic : run.grammar.leftRecursions = []) (goal : Goal K) :
    mismatch ∈ (run.outcome goal.clause goal.place).mismatches ↔
      ∃ other, Relation.ReflTransGen run.Tries goal other ∧ run.Misses other mismatch := by
  refine induct (motive := fun goal => mismatch ∈ (run.outcome goal.clause goal.place).mismatches ↔
    ∃ other, Relation.ReflTransGen run.Tries goal other ∧ run.Misses other mismatch) hacyclic
      (fun goal ih => ?_) goal
  rw [mem_mismatches_step hacyclic]
  constructor
  · rintro (hmisses | ⟨next, hnext, hmem⟩)
    · exact ⟨goal, .refl, hmisses⟩
    · obtain ⟨other, hother, hmisses⟩ := (ih next hnext).1 hmem
      exact ⟨other, hother.head hnext, hmisses⟩
  · rintro ⟨other, hother, hmisses⟩
    rcases hother.cases_head with rfl | ⟨next, hnext, hother⟩
    · exact Or.inl hmisses
    · exact Or.inr ⟨next, hnext, (ih next hnext).2 ⟨other, hother, hmisses⟩⟩

end Mismatches

end Run

end GrammarKit.Matching
