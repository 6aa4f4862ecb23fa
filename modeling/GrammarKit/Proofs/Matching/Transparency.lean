import GrammarKit.Proofs.Grammar.Prepared
import GrammarKit.Proofs.Matching.Memory

namespace GrammarKit.Matching

variable {K R : Type} [DecidableEq K] [TokenKind K]

namespace Computes

variable {grammar : Grammar K R} {tokens : Array (Token K)} {descend answers : Plain.Descent K}
  {call : String → Nat → Matcher K (Option (Found K))}

/-- A mismatch in front of a value that is known. -/
theorem mismatched {α : Type} (position : Nat) (expected : KindSet K) (a : α) :
    Computes answers (do Matching.mismatch position expected; return a)
      ⟨a, [⟨position, expected⟩]⟩ :=
  show Computes answers _ ((⟨(), [⟨position, expected⟩]⟩ : Outcome K Unit) >>= fun _ => Pure.pure a)
    from (Computes.mismatch position expected).bind (.pure a)

/-- A token is matched with a memory as without one. -/
theorem terminal (kind : K) (discarded : Bool) (position : Nat) :
    Computes answers (Matching.terminal tokens kind discarded position)
      (Plain.terminal tokens kind discarded position) := by
  unfold Matching.terminal Plain.terminal
  cases tokens[position]? with
  | none => exact mismatched position (.singleton kind) none
  | some token =>
    by_cases hkind : token.kind = some kind
    · simp only [hkind, if_true]
      exact Computes.pure _
    · simp only [hkind, if_false]
      exact mismatched position (.singleton kind) none

/-- A repetition is matched with a memory as without one if its items are. -/
theorem repeated {once : Nat → Matcher K (Option (Found K))}
    {again : Nat → Outcome K (Option (Found K))} {size position : Nat}
    (hagain : ∀ place tree stop, (again place).value = some (tree, stop) →
      place < stop → stop ≤ size)
    (honce : ∀ place, position ≤ place → (position < place → place ≤ size) →
      Computes answers (once place) (again place)) :
    Computes answers (Matching.repeated size once position)
      (Plain.repeated (size - 1) again position) := by
  induction hmeasure : size - position using Nat.strongRecOn generalizing position with
  | _ measure ih =>
    rw [Matching.repeated, Plain.repeated]
    by_cases hlimit : position + 1 < size
    · rw [dif_pos hlimit, dif_pos (show position < size - 1 by omega)]
      refine (honce position (Nat.le_refl _) fun hlt => absurd hlt (Nat.lt_irrefl _)).bind ?_
      cases hfound : (again position).value with
      | none => exact .pure _
      | some found =>
        obtain ⟨tree, stop⟩ := found
        by_cases hstop : position < stop
        · simp only [dif_pos hstop]
          have hsize := hagain position tree stop hfound hstop
          refine (ih (size - stop) (by omega) (fun place hle hplace =>
            honce place (by omega) (by omega)) rfl).bind ?_
          exact .pure _
        · simp only [dif_neg hstop]
          exact .pure _
    · rw [dif_neg hlimit, dif_neg (show ¬ position < size - 1 by omega)]
      exact .pure _

/-- A clause is matched with a memory as without one. Non-terminals are asked
    for only where the clause may enter them, which is what keeps the bound on
    the nesting out of the result. -/
theorem clause (hsound : descend.Sound grammar tokens) : ∀ (part : Clause K) (position : Nat),
    part.isFlat = true →
      (∀ name place, MayEnter grammar tokens [part] position name place →
        Computes answers (call name place) (descend name place)) →
          Computes answers (Matching.clause tokens call part position)
            (Plain.clause (tokens.size - 1) tokens descend part position)
  | .terminal kind discarded, position, _, _ => .terminal kind discarded position
  | .nonTerminal name _ _, position, _, hcall => by
    rw [Matching.clause, Plain.clause]
    refine (hcall name position
      (Or.inl ⟨rfl, by simp [Clause.leftmostOfAll, Clause.leftmost]⟩)).bind ?_
    cases (descend name position).value with
    | none => exact .pure _
    | some found => exact .pure _
  | .option inner _, position, hflat, hcall => by
    have hinner := clause hsound inner position hflat
      fun name place henter => hcall name place (henter.outer (by simp only [Clause.leftmost]))
    rw [Matching.clause, Plain.clause]
    refine hinner.bind ?_
    cases (Plain.clause (tokens.size - 1) tokens descend inner position).value with
    | none => exact .pure _
    | some found => exact .pure _
  | .zeroOrMore inner _, position, hflat, hcall => by
    have hinner (stop : Nat) (hle : position ≤ stop) (hstop : position < stop →
        stop ≤ tokens.size) : Computes answers (Matching.clause tokens call inner stop)
          (Plain.clause (tokens.size - 1) tokens descend inner stop) :=
      clause hsound inner stop hflat
        fun name place henter => hcall name place
        (henter.behind hle hstop (by simp only [Clause.leftmost]))
    rw [Matching.clause, Plain.clause]
    exact (repeated (Plain.clause_stop_le_size hsound inner) hinner).bind (.pure _)
  | .oneOrMore inner _, position, hflat, hcall => by
    have hinner (stop : Nat) (hle : position ≤ stop) (hstop : position < stop →
        stop ≤ tokens.size) : Computes answers (Matching.clause tokens call inner stop)
          (Plain.clause (tokens.size - 1) tokens descend inner stop) :=
      clause hsound inner stop hflat
        fun name place henter => hcall name place
        (henter.behind hle hstop (by simp only [Clause.leftmost]))
    rw [Matching.clause, Plain.clause]
    refine (hinner position (Nat.le_refl _) fun hlt => absurd hlt (Nat.lt_irrefl _)).bind ?_
    cases hfound : (Plain.clause (tokens.size - 1) tokens descend inner position).value with
    | none => exact .pure _
    | some found =>
      obtain ⟨tree, stop⟩ := found
      have hspans := (Plain.clause_reads hsound inner position tree stop hfound).spans
      have hle := hspans.le
      have hsize := hspans.stop_le_size
      exact (repeated (Plain.clause_stop_le_size hsound inner)
        fun place hplace hnext => hinner place (by omega) (by omega)).bind (.pure _)
  | .group .., _, hflat, _ => by simp [Clause.isFlat] at hflat
  | .choice .., _, hflat, _ => by simp [Clause.isFlat] at hflat

/-- Clauses in a row are matched with a memory as without one. -/
theorem sequence (hsound : descend.Sound grammar tokens) {clauses : List (Clause K)}
    {position : Nat} (hflat : ∀ clause ∈ clauses, clause.isFlat = true)
    (hcall : ∀ name place, MayEnter grammar tokens clauses position name place →
      Computes answers (call name place) (descend name place)) :
    Computes answers (Matching.sequence tokens call clauses position)
      (Plain.sequence (tokens.size - 1) tokens descend clauses position) := by
  induction clauses generalizing position with
  | nil => exact .pure _
  | cons part rest ih =>
    have hpart := clause hsound part position (hflat part List.mem_cons_self)
      fun name place henter => hcall name place henter.head
    rw [Matching.sequence, Plain.sequence]
    refine hpart.bind ?_
    cases hfound : (Plain.clause (tokens.size - 1) tokens descend part position).value with
    | none => exact .pure _
    | some found =>
      obtain ⟨tree, stop⟩ := found
      have hreads := Plain.clause_reads hsound part position tree stop hfound
      refine (ih (fun clause hclause => hflat clause (List.mem_cons_of_mem _ hclause))
        fun name place henter => hcall name place (henter.tail hreads)).bind ?_
      cases (Plain.sequence (tokens.size - 1) tokens descend rest stop).value with
      | none => exact .pure _
      | some later => exact .pure _

/-- Rules are compared as they match, which is as good as to compare all that
    matched in the end. -/
theorem bestRule {rules : List (Rule K R)} {position : Nat} (best : Option (Candidate K R))
    (index : Nat)
    (hsequence : ∀ rule ∈ rules, Computes answers (Matching.sequence tokens call rule.clauses
      position) (Plain.sequence (tokens.size - 1) tokens descend rule.clauses position)) :
    Computes answers (Matching.bestRule tokens call position best index rules) (do
      let found ← Plain.candidates (.predictive tokens) tokens descend position index rules
      return Plain.best best found) := by
  induction rules generalizing best index with
  | nil => exact .pure _
  | cons rule rest ih =>
    have hrest (best : Option (Candidate K R)) :=
      ih best (index + 1) fun other hother => hsequence other (List.mem_cons_of_mem _ hother)
    rw [Matching.bestRule, Plain.candidates, Plain.tried_predictive]
    simp only [bind_assoc, pure_bind]
    by_cases hstart : rule.canStartWith (kindAt tokens position) = true
    · rw [if_pos hstart, if_pos hstart]
      refine (hsequence rule List.mem_cons_self).bind ?_
      cases (Plain.sequence (tokens.size - 1) tokens descend rule.clauses position).value with
      | none => exact hrest best
      | some found => exact hrest _
    · rw [if_neg hstart, if_neg hstart, pure_bind]
      exact hrest best

/-- A non-terminal is matched by its rules with a memory as without one. -/
theorem attempt (hflat : grammar.IsFlat) (ranking : grammar.Ranking)
    (hsound : descend.Sound grammar tokens) {owner : String} {position : Nat}
    (hcall : ∀ name place, weight ranking tokens name place < weight ranking tokens owner position →
      Computes answers (call name place) (descend name place)) :
    Computes answers (Matching.attempt grammar tokens call owner position)
      (Plain.attempt (.predictive tokens) grammar tokens descend owner position) := by
  cases hfind : grammar.find? owner with
  | none =>
    simp only [Matching.attempt, Plain.attempt, hfind]
    exact .pure _
  | some nonTerminal =>
    have hsequence (rule : Rule K R) (hrule : rule ∈ nonTerminal.rules) :
        Computes answers (Matching.sequence tokens call rule.clauses position)
          (Plain.sequence (tokens.size - 1) tokens descend rule.clauses position) := by
      have hmem : (owner, rule) ∈ grammar.rules :=
        Grammar.mem_rules_iff.2 ⟨nonTerminal, hfind, hrule⟩
      refine sequence hsound (hflat _ hmem) fun name place henter => ?_
      exact hcall name place (henter.weight_lt ranking hmem)
    simp only [Matching.attempt, hfind, Plain.attempt_predictive hfind]
    split
    · have hbest := (bestRule none 0 hsequence).map fun best => best.map fun candidate =>
        candidate.found owner
      simpa only [bind_assoc, pure_bind] using hbest
    · exact mismatched position nonTerminal.leading none

/-- A non-terminal is matched with a memory as without one, as long as its weight allows for. -/
theorem nonTerminal (hflat : grammar.IsFlat) (hacyclic : grammar.leftRecursions = [])
    (ranking : grammar.Ranking) {depth : Nat} {name : String} {position : Nat}
    (hdepth : weight ranking tokens name position < depth) :
    Computes (Plain.outcome (.predictive tokens) grammar tokens)
      (Matching.nonTerminal grammar tokens depth name position)
      (Plain.outcome (.predictive tokens) grammar tokens name position) := by
  induction depth generalizing name position with
  | zero => exact absurd hdepth (Nat.not_lt_zero _)
  | succ depth ih =>
    refine .remembered ?_
    rw [Plain.outcome_eq_attempt hacyclic name position]
    refine .attempt hflat ranking Plain.outcome_sound fun other place hweight => ?_
    exact ih (by omega)

end Computes

variable {grammar : Grammar K R} {tokens : Array (Token K)}

/-- The result that an outcome stands for: a tree when all tokens but the last
    one were matched. -/
def resultOf (tokens : Array (Token K)) (outcome : Outcome K (Option (Found K))) :
    Except (Failure K) (SyntaxTree K) :=
  match outcome.value with
  | some (tree, stop) =>
    if tokens.size - 1 ≤ stop then .ok tree
    else .error (failureAt tokens (noted none outcome.mismatches) stop)
  | none => .error (failureAt tokens (noted none outcome.mismatches) 0)

/-- With as much nesting as there may be, or more, matching ends with what is
    found without a memory, and with the furthest of all mismatches that are met
    without one. -/
theorem run_nonTerminal (hflat : grammar.IsFlat) (hacyclic : grammar.leftRecursions = [])
    (memoize : Bool) (name : String) {position depth : Nat}
    (hdepth : maxDepth grammar tokens ≤ depth) :
    ∃ after : Progress K,
      (nonTerminal grammar tokens depth name position).run
          { memo := if memoize then some ∅ else none } =
        .ok ((Plain.outcome (.predictive tokens) grammar tokens name position).value, after) ∧
        after.furthest = noted none (Plain.outcome (.predictive tokens) grammar tokens name
          position).mismatches := by
  obtain ⟨ranking⟩ := Grammar.nonempty_ranking hacyclic
  have hweight : weight ranking tokens name position < depth :=
    Nat.lt_of_lt_of_le (weight_lt_maxDepth ranking name position) hdepth
  have hagrees : Progress.Agrees (Plain.outcome (.predictive tokens) grammar tokens)
      { memo := if memoize then some ∅ else none } := by
    intro table htable name place found hfound
    cases memoize with
    | false => cases htable
    | true =>
      obtain rfl := Option.some.inj htable
      simp at hfound
  obtain ⟨after, hafter, _, hfurthest⟩ :=
    Computes.nonTerminal hflat hacyclic ranking hweight _ hagrees
  exact ⟨after, hafter, hfurthest⟩

/-- A parse comes to the result of what is found without a memory. -/
theorem parse_eq_resultOf (hflat : grammar.IsFlat) (hacyclic : grammar.leftRecursions = [])
    (memoize : Bool) (start : String) :
    parse grammar tokens memoize start =
      resultOf tokens (Plain.outcome (.predictive tokens) grammar tokens start 0) := by
  have hdepth := Nat.le_refl (maxDepth grammar tokens)
  obtain ⟨after, hafter, hfurthest⟩ := @run_nonTerminal _ _ _ _ _ _ hflat hacyclic memoize
    start 0 _ hdepth
  unfold parse resultOf
  simp only [hafter]
  cases hvalue : (Plain.outcome (.predictive tokens) grammar tokens start 0).value with
  | none => simp only [hfurthest]
  | some found => simp only [hfurthest]

/-- To remember outcomes changes no result: neither the tree, nor the token at
    which matching fails and what was expected there. -/
theorem parse_memoize_eq (hflat : grammar.IsFlat) (hacyclic : grammar.leftRecursions = [])
    (start : String) :
    parse grammar tokens true start = parse grammar tokens false start := by
  rw [parse_eq_resultOf hflat hacyclic, parse_eq_resultOf hflat hacyclic]

namespace Sample

def signs : Alphabet := ⟨["BLANK", "WORD"], by decide⟩

def blank : Kind signs := ⟨(0 : Fin 2)⟩

def word : Kind signs := ⟨(1 : Fin 2)⟩

/-- Any number of words with gaps in front of them. -/
def text (gap : Clause (Kind signs)) : Grammar (Kind signs) Unit :=
  Grammar.analyse <| Grammar.flatten <| Grammar.addAll (.empty "text")
    [("text", { clauses := [.zeroOrMore gap false, .ofKind word, .ofName "text"] }),
      ("text", { clauses := [] })]

/-- Words with gaps whose parts may all be missing. -/
def looseText : Grammar (Kind signs) Unit := text (.group [.option (.ofKind blank) false] false)

/-- A gap and a word. -/
def line : Array (Token (Kind signs)) :=
  #[.ofSpan blank " " ⟨0, 0, 0⟩, .ofSpan word "a" ⟨1, 0, 1⟩, .endOfStream ⟨2, 0, 2⟩]

theorem isFlat_text (gap : Clause (Kind signs)) : (text gap).IsFlat :=
  (Grammar.isFlat_flatten _).analyse

/-- The sample is not left recursive. -/
theorem leftRecursions_looseText : looseText.leftRecursions = [] :=
  (Grammar.leftRecursions_analyse _).trans (by decide +kernel)

end Sample

theorem parse_memoize_eq_looseText :
    Sample.looseText.IsFlat ∧ Sample.looseText.leftRecursions = [] ∧
      parse Sample.looseText Sample.line true "text" =
        parse Sample.looseText Sample.line false "text" :=
  ⟨Sample.isFlat_text _, Sample.leftRecursions_looseText,
    parse_memoize_eq (Sample.isFlat_text _) Sample.leftRecursions_looseText "text"⟩

end GrammarKit.Matching
