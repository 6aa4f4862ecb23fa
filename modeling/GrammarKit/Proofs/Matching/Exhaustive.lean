import GrammarKit.Proofs.Matching.Completeness

namespace GrammarKit.Matching

variable {K R : Type} [DecidableEq K] [TokenKind K]

namespace Exhaustive

/-- A result that matching comes to, or none when a count runs out before. -/
abbrev Counted (α : Type) := Option α

/-- Of two candidates the one that reaches further, and the first one when they
    reach equally far. -/
def furthest : Option (Candidate K R) → Option (Candidate K R) → Option (Candidate K R)
  | none, second => second
  | some first, none => some first
  | some first, some second => if first.stop < second.stop then some second else some first

/-- Matches a token. -/
def terminal (tokens : Array (Token K)) (kind : K) (discarded : Bool) (position : Nat) :
    Option (Found K) :=
  tokens[position]?.bind fun token =>
    if token.kind = some kind then some (.leaf token discarded, position + 1) else none

/-- Goes on wherever a match takes a token, `limit` times at most. -/
def repeated (once : Nat → Counted (Option (Found K))) :
    Nat → Nat → Counted (List (SyntaxTree K) × Nat)
  | 0, _ => none
  | limit + 1, position => do
    match ← once position with
    | some (tree, next) =>
      if position < next then
        let (items, stop) ← repeated once limit next
        return (tree :: items, stop)
      else return ([], position)
    | none => return ([], position)

/-- Matches a clause, whatever the next token is. -/
def clause (tokens : Array (Token K)) (limit : Nat)
    (descend : String → Nat → Counted (Option (Found K))) :
    Clause K → Nat → Counted (Option (Found K))
  | .terminal kind discarded, position => return terminal tokens kind discarded position
  | .nonTerminal name _ discarded, position => do
    match ← descend name position with
    | some (tree, stop) => return some (tree.setDiscarded discarded, stop)
    | none => return none
  | .option inner discarded, position => do
    match ← clause tokens limit descend inner position with
    | some (tree, stop) => return some (.present inner.shape tree discarded, stop)
    | none => return some (.absent inner.shape discarded, position)
  | .zeroOrMore inner discarded, position => do
    let (items, stop) ← repeated (clause tokens limit descend inner) limit position
    return some (.many inner.shape items discarded, stop)
  | .oneOrMore inner discarded, position => do
    match ← clause tokens limit descend inner position with
    | some (tree, next) =>
      let (items, stop) ← repeated (clause tokens limit descend inner) limit next
      return some (.many inner.shape (tree :: items) discarded, stop)
    | none => return none
  | .group .., _ => return none
  | .choice .., _ => return none

/-- Matches clauses one after the other. -/
def sequence (tokens : Array (Token K)) (limit : Nat)
    (descend : String → Nat → Counted (Option (Found K))) :
    List (Clause K) → Nat → Counted (Option (List (SyntaxTree K) × Nat))
  | [], position => return some ([], position)
  | first :: rest, position => do
    match ← clause tokens limit descend first position with
    | some (tree, next) =>
      match ← sequence tokens limit descend rest next with
      | some (trees, stop) => return some (tree :: trees, stop)
      | none => return none
    | none => return none

/-- Tries all rules, of which the first one is at `index`. -/
def bestRule (tokens : Array (Token K)) (limit : Nat)
    (descend : String → Nat → Counted (Option (Found K))) (position index : Nat) :
    List (Rule K R) → Counted (Option (Candidate K R))
  | [] => return none
  | rule :: rest => do
    let found ← sequence tokens limit descend rule.clauses position
    let later ← bestRule tokens limit descend position (index + 1) rest
    return furthest (found.map fun (children, stop) => ⟨index, rule, children, stop⟩) later

/-- Matches a non-terminal without looking anything up: every rule is tried
    wherever it is entered, and a repetition goes on until its clause fails or
    takes no token. Nothing in that ends by itself, so there are at most `limit`
    items in a row and `depth` non-terminals inside each other. -/
def nonTerminal (grammar : Grammar K R) (tokens : Array (Token K)) (limit : Nat) :
    Nat → String → Nat → Counted (Option (Found K))
  | 0, _, _ => none
  | depth + 1, name, position => do
    match grammar.find? name with
    | some found =>
      let best ← bestRule tokens limit (nonTerminal grammar tokens limit depth)
        position 0 found.rules
      return best.map fun candidate => candidate.found name
    | none => return none

/-- The choice among three candidates does not depend on which two are compared first. -/
theorem furthest_better (first second : Candidate K R) (third : Option (Candidate K R)) :
    furthest (some (better (some first) second)) third = furthest (some first)
      (furthest (some second) third) := by
  cases third with
  | none =>
    simp only [furthest, better]
    split <;> rfl
  | some third =>
    simp only [furthest, better]
    by_cases hsecond : first.stop < second.stop <;> by_cases hthird : second.stop < third.stop <;>
      simp only [hsecond, hthird, if_true, if_false]
    · rw [if_pos (by omega)]
    · rw [if_neg (by omega)]

/-- The best candidate is the better of the first one and the best of the others. -/
theorem best_some (first : Candidate K R) (candidates : List (Candidate K R)) :
    Plain.best (some first) candidates = furthest (some first) (Plain.best none candidates) := by
  induction candidates generalizing first with
  | nil => rfl
  | cons second rest ih =>
    calc Plain.best (some first) (second :: rest)
        = Plain.best (some (better (some first) second)) rest := rfl
      _ = furthest (some (better (some first) second)) (Plain.best none rest) := ih _
      _ = furthest (some first) (furthest (some second) (Plain.best none rest)) :=
        furthest_better ..
      _ = furthest (some first) (Plain.best none (second :: rest)) := by rw [← ih second]; rfl

variable {grammar : Grammar K R} {tokens : Array (Token K)} {descend : Plain.Descent K}

/-- From the last token on there is nothing to take. -/
theorem not_lt_stop_of_reads (hends : EndsOnce tokens) {clauses : List (Clause K)}
    {position stop : Nat} {trees : List (SyntaxTree K)}
    (hreads : Reads grammar tokens clauses position trees stop)
    (hlast : ¬ position < tokens.size - 1) : ¬ position < stop := by
  intro hlt
  have hsize := hreads.spans.stop_le_size hlt
  have hstop := hreads.stop_lt_size hends (by omega)
  omega

/-- A rule that matches can start with the token at its place, so to try only
    such rules misses none. -/
theorem value_tried_eq_sequence (hanalysed : grammar.IsAnalysed) (hends : EndsOnce tokens)
    (hsound : descend.Sound grammar tokens) {name : String} {rule : Rule K R}
    (hrule : (name, rule) ∈ grammar.rules) (position : Nat) :
    (Plain.tried (.predictive tokens) tokens descend position rule).value =
      (Plain.sequence (tokens.size - 1) tokens descend rule.clauses position).value := by
  rw [Plain.tried_predictive]
  split
  · rfl
  · next hstart =>
    cases hvalue : (Plain.sequence (tokens.size - 1) tokens descend rule.clauses position).value
      with
    | none => rfl
    | some found =>
      exact absurd ((Plain.sequence_reads hsound hvalue).canStartWith hanalysed hends hrule) hstart

section Agreement

variable {limit : Nat} {counted : String → Nat → Counted (Option (Found K))}

/-- A token is matched alike. -/
theorem clause_terminal (kind : K) (discarded : Bool) (position : Nat) :
    clause tokens limit counted (.terminal kind discarded) position =
      some (Plain.terminal tokens kind discarded position).value := by
  rw [clause, terminal, Plain.terminal]
  cases tokens[position]? with
  | none => rfl
  | some token =>
    by_cases hkind : token.kind = some kind <;> simp [hkind]

/-- To go on after the last token changes nothing, and each item but the last takes a token. -/
theorem repeated_eq (hends : EndsOnce tokens) (hsound : descend.Sound grammar tokens)
    {inner : Clause K} {position : Nat} (hlimit : tokens.size - position < limit)
    {once : Nat → Counted (Option (Found K))}
    (honce : ∀ place, position ≤ place → (position < place → place ≤ tokens.size) →
      once place = some (Plain.clause (tokens.size - 1) tokens descend inner place).value) :
    repeated once limit position =
      some (Plain.repeated (tokens.size - 1) (Plain.clause (tokens.size - 1) tokens descend inner)
        position).value := by
  induction limit generalizing position with
  | zero => exact absurd hlimit (Nat.not_lt_zero _)
  | succ limit ih =>
    have hfirst := honce position (Nat.le_refl _) fun hlt => absurd hlt (Nat.lt_irrefl _)
    rw [repeated, hfirst, Plain.value_repeated]
    cases hfound : (Plain.clause (tokens.size - 1) tokens descend inner position).value with
    | none => simp
    | some found =>
      obtain ⟨tree, stop⟩ := found
      have hreads := Plain.clause_reads hsound inner position tree stop hfound
      by_cases hlast : position < tokens.size - 1
      · by_cases hstop : position < stop
        · have hsize := hreads.spans.stop_le_size hstop
          have hrest : repeated once limit stop =
              some (Plain.repeated (tokens.size - 1)
                (Plain.clause (tokens.size - 1) tokens descend inner) stop).value :=
            ih (by omega) fun place hle hplace => honce place (by omega) (by omega)
          simp [hlast, hstop, hrest]
        · simp [hlast, hstop]
      · simp [hlast, not_lt_stop_of_reads hends hreads hlast]

/-- A clause is matched alike if non-terminals are. -/
theorem clause_eq (hends : EndsOnce tokens) (hsound : descend.Sound grammar tokens)
    (hlimit : tokens.size < limit) :
    ∀ (part : Clause K) (position : Nat),
      (∀ name place, MayEnter grammar tokens [part] position name place →
        counted name place = some (descend name place).value) →
          clause tokens limit counted part position =
            some (Plain.clause (tokens.size - 1) tokens descend part position).value
  | .terminal kind discarded, position, _ => clause_terminal kind discarded position
  | .nonTerminal name _ _, position, henter => by
    rw [clause,
      henter name position (Or.inl ⟨rfl, by simp [Clause.leftmostOfAll, Clause.leftmost]⟩),
      Plain.value_nonTerminal_clause]
    cases (descend name position).value <;> rfl
  | .option inner _, position, henter => by
    have hinner := clause_eq hends hsound hlimit inner position
      fun name place hplace => henter name place (hplace.outer (by simp only [Clause.leftmost]))
    rw [clause, hinner, Plain.value_option]
    cases (Plain.clause (tokens.size - 1) tokens descend inner position).value <;> rfl
  | .zeroOrMore inner _, position, henter => by
    have hinner (stop : Nat) (hle : position ≤ stop) (hstop : position < stop →
        stop ≤ tokens.size) : clause tokens limit counted inner stop =
          some (Plain.clause (tokens.size - 1) tokens descend inner stop).value :=
      clause_eq hends hsound hlimit inner stop
        fun name place hplace => henter name place
        (hplace.behind hle hstop (by simp only [Clause.leftmost]))
    rw [clause, repeated_eq hends hsound (by omega) hinner, Plain.value_zeroOrMore]
    rfl
  | .oneOrMore inner _, position, henter => by
    have hinner (stop : Nat) (hle : position ≤ stop) (hstop : position < stop →
        stop ≤ tokens.size) : clause tokens limit counted inner stop =
          some (Plain.clause (tokens.size - 1) tokens descend inner stop).value :=
      clause_eq hends hsound hlimit inner stop
        fun name place hplace => henter name place
        (hplace.behind hle hstop (by simp only [Clause.leftmost]))
    rw [clause, hinner position (Nat.le_refl _) fun hlt => absurd hlt (Nat.lt_irrefl _),
      Plain.value_oneOrMore]
    cases hfound : (Plain.clause (tokens.size - 1) tokens descend inner position).value with
    | none => rfl
    | some found =>
      obtain ⟨tree, next⟩ := found
      have hspans := (Plain.clause_reads hsound inner position tree next hfound).spans
      have hle := hspans.le
      have hsize := hspans.stop_le_size
      have hrest : repeated (clause tokens limit counted inner) limit next =
          some (Plain.repeated (tokens.size - 1)
            (Plain.clause (tokens.size - 1) tokens descend inner) next).value :=
        repeated_eq hends hsound (by omega) fun place hplace hnext =>
          hinner place (hle.trans hplace) (by omega)
      simp [hrest]
  | .group .., _, _ => by rw [clause]; rfl
  | .choice .., _, _ => by rw [clause]; rfl

/-- Clauses in a row are matched alike if non-terminals are. -/
theorem sequence_eq (hends : EndsOnce tokens) (hsound : descend.Sound grammar tokens)
    (hlimit : tokens.size < limit) {clauses : List (Clause K)} {position : Nat}
    (henter : ∀ name place, MayEnter grammar tokens clauses position name place →
      counted name place = some (descend name place).value) :
    sequence tokens limit counted clauses position =
      some (Plain.sequence (tokens.size - 1) tokens descend clauses position).value := by
  induction clauses generalizing position with
  | nil =>
    rw [sequence]
    rfl
  | cons part rest ih =>
    have hpart := clause_eq hends hsound hlimit part position fun name place hplace =>
      henter name place hplace.head
    rw [sequence, hpart, Plain.value_sequence_cons]
    cases hfound : (Plain.clause (tokens.size - 1) tokens descend part position).value with
    | none => rfl
    | some found =>
      obtain ⟨tree, next⟩ := found
      have hreads := Plain.clause_reads hsound part position tree next hfound
      have hrest := ih fun name place hplace => henter name place (hplace.tail hreads)
      simp only [Option.pure_def, Option.bind_eq_bind, Option.bind_some, hrest]
      cases (Plain.sequence (tokens.size - 1) tokens descend rest next).value <;> rfl

/-- To try all rules and to try those that can start lead to the same candidate. -/
theorem bestRule_eq (hanalysed : grammar.IsAnalysed) (hends : EndsOnce tokens)
    (hsound : descend.Sound grammar tokens) (hlimit : tokens.size < limit) {name : String}
    {position : Nat} (index : Nat) {rules : List (Rule K R)}
    (hrules : ∀ rule ∈ rules, (name, rule) ∈ grammar.rules)
    (henter : ∀ rule ∈ rules, ∀ other place, MayEnter grammar tokens rule.clauses position other
      place → counted other place = some (descend other place).value) :
    bestRule tokens limit counted position index rules =
      some (Plain.best none (Plain.candidates (.predictive tokens) tokens descend position index
        rules).value) := by
  induction rules generalizing index with
  | nil =>
    rw [bestRule]
    rfl
  | cons rule rest ih =>
    have hfirst := sequence_eq hends hsound hlimit (henter rule List.mem_cons_self)
    have hrest := ih (index + 1) (fun other hother => hrules other (List.mem_cons_of_mem _ hother))
      fun other hother => henter other (List.mem_cons_of_mem _ hother)
    rw [bestRule, hfirst, hrest, Plain.candidates, Outcome.value_bind,
      value_tried_eq_sequence hanalysed hends hsound (hrules rule List.mem_cons_self)]
    cases (Plain.sequence (tokens.size - 1) tokens descend rule.clauses position).value with
    | none => rfl
    | some found => exact congrArg some (best_some _ _).symm

/-- A non-terminal is matched alike, with as much nesting as its weight. -/
theorem nonTerminal_eq (hacyclic : grammar.leftRecursions = []) (ranking : grammar.Ranking)
    (hanalysed : grammar.IsAnalysed) (hends : EndsOnce tokens) (hlimit : tokens.size < limit)
    {depth : Nat} {name : String} {position : Nat}
    (hdepth : weight ranking tokens name position < depth) :
    nonTerminal grammar tokens limit depth name position =
      some (Plain.outcome (.predictive tokens) grammar tokens name position).value := by
  induction depth generalizing name position with
  | zero => exact absurd hdepth (Nat.not_lt_zero _)
  | succ depth ih =>
    rw [nonTerminal, Plain.outcome_eq_attempt hacyclic]
    cases hfind : grammar.find? name with
    | none => simp [Plain.attempt, hfind]
    | some found =>
      have hrules (rule : Rule K R) (hrule : rule ∈ found.rules) : (name, rule) ∈ grammar.rules :=
        Grammar.mem_rules_iff.2 ⟨found, hfind, hrule⟩
      have henter (rule : Rule K R) (hrule : rule ∈ found.rules) (other : String) (place : Nat)
          (henter : MayEnter grammar tokens rule.clauses position other place) :
          nonTerminal grammar tokens limit depth other place =
            some (Plain.outcome (.predictive tokens) grammar tokens other place).value := by
        have hlt := henter.weight_lt ranking (hrules rule hrule)
        exact ih (by omega)
      have hbest := bestRule_eq hanalysed hends Plain.outcome_sound hlimit 0 hrules henter
      simp [hbest, Plain.value_attempt hfind]

end Agreement

end Exhaustive

/-- To pass over rules that cannot start, and to end repetitions in front of the
    last token, changes no match, with or without a memory: what a non-terminal
    matches at a place is what it matches when everything is tried, however far
    the counts go beyond what the tokens and the names allow. -/
theorem nonTerminal_eq_exhaustive {grammar : Grammar K R} {tokens : Array (Token K)}
    (hflat : grammar.IsFlat) (hacyclic : grammar.leftRecursions = [])
    (hanalysed : grammar.IsAnalysed) (hends : EndsOnce tokens) (memoize : Bool) (name : String)
    (position : Nat) {limit depth deeper : Nat} (hlimit : tokens.size < limit)
    (hdepth : maxDepth grammar tokens ≤ depth) (hdeeper : maxDepth grammar tokens ≤ deeper) :
    ∃ found, ∃ after : Progress K,
      (nonTerminal grammar tokens depth name position).run
          { memo := if memoize then some ∅ else none } =
        .ok (found, after) ∧
        Exhaustive.nonTerminal grammar tokens limit deeper name position = some found := by
  obtain ⟨after, hrun, _⟩ := run_nonTerminal hflat hacyclic memoize name hdepth
  obtain ⟨ranking⟩ := Grammar.nonempty_ranking hacyclic
  have hweight := @weight_lt_maxDepth _ _ _ _ grammar tokens ranking name position
  exact ⟨_, after, hrun, Exhaustive.nonTerminal_eq hacyclic ranking hanalysed hends
    hlimit (by omega)⟩

/-- A gap in front of the last token, where the rules that can match nothing are tried. -/
theorem nonTerminal_eq_exhaustive_looseText :
    Sample.looseText.IsFlat ∧ Sample.looseText.leftRecursions = [] ∧ Sample.looseText.IsAnalysed ∧
      EndsOnce Sample.line ∧ Sample.line.size < 4 ∧ ∃ found, ∃ after : Progress (Kind Sample.signs),
        (nonTerminal Sample.looseText Sample.line
            (maxDepth Sample.looseText Sample.line) "text" 2).run
            { memo := some ∅ } = .ok (found, after) ∧
          Exhaustive.nonTerminal Sample.looseText Sample.line 4
            (maxDepth Sample.looseText Sample.line) "text" 2 = some found :=
  ⟨Sample.isFlat_text _, Sample.leftRecursions_looseText, Grammar.isAnalysed_analyse _,
    Sample.endsOnce_line, by
      decide, nonTerminal_eq_exhaustive (Sample.isFlat_text _) Sample.leftRecursions_looseText
      (Grammar.isAnalysed_analyse _) Sample.endsOnce_line true "text" 2 (by decide) (Nat.le_refl _)
      (Nat.le_refl _)⟩

end GrammarKit.Matching
