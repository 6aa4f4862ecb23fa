import GrammarKit.Proofs.Matching.Transparency

namespace GrammarKit.Matching

variable {K : Type}

/-- The last token marks the end, and no other one does. -/
structure EndsOnce (tokens : Array (Token K)) : Prop where
  size_pos : 0 < tokens.size
  isEndOfStream_iff : ∀ (position : Nat) (hposition : position < tokens.size),
    tokens[position].isEndOfStream = true ↔ position + 1 = tokens.size

namespace EndsOnce

variable {tokens : Array (Token K)} {start stop : Nat} {leaves : List (Token K)}

/-- Tokens with kinds and one without behind them end once. -/
theorem concat {kinded : List (Token K)} {last : Token K}
    (hkinds : ∀ token ∈ kinded, token.kind.isSome = true) (hlast : last.isEndOfStream = true) :
    EndsOnce (kinded ++ [last]).toArray := by
  refine ⟨by simp, fun position hposition => ?_⟩
  rw [List.getElem_toArray, List.size_toArray, List.length_append, List.length_singleton]
  by_cases hlt : position < kinded.length
  · have hkind := hkinds _ (List.getElem_mem hlt)
    rw [List.getElem_append_left hlt, Token.isEndOfStream, ← Option.not_isSome, hkind]
    simp only [Bool.not_true, Bool.false_eq_true, false_iff]
    omega
  · obtain rfl : position = kinded.length := by
      rw [List.size_toArray, List.length_append, List.length_singleton] at hposition
      omega
    simp [hlast]

/-- The tokens are those in front of the last one, and that one. -/
theorem dropLast_append (hends : EndsOnce tokens) :
    ∃ last, tokens.toList = tokens.toList.dropLast ++ [last] ∧ last.kind = none := by
  have hlast : tokens.size - 1 < tokens.size := Nat.sub_lt hends.size_pos Nat.one_pos
  refine ⟨tokens[tokens.size - 1], ?_, ?_⟩
  · have hne : tokens.toList ≠ [] := by
      intro hnil
      have hsize := hends.size_pos
      rw [← Array.length_toList, hnil] at hsize
      exact Nat.lt_irrefl 0 hsize
    rw [← Array.getElem_toList hlast]
    simpa only [List.getLast_eq_getElem, Array.length_toList]
      using (List.dropLast_append_getLast hne).symm
  · have hmark := (hends.isEndOfStream_iff _ hlast).2 (Nat.sub_add_cancel hends.size_pos)
    simpa only [Token.isEndOfStream, Option.isNone_iff_eq_none] using hmark

/-- A token that has a kind stands in front of the last one. -/
theorem lt_of_kindAt (hends : EndsOnce tokens) {position : Nat} {kind : K}
    (hkind : kindAt tokens position = some kind) :
    position < tokens.size - 1 := by
  obtain ⟨token, htoken, hkind⟩ := Option.bind_eq_some_iff.1 hkind
  obtain ⟨hlt, rfl⟩ := Array.getElem?_eq_some_iff.1 htoken
  have hmark := hends.isEndOfStream_iff position hlt
  simp only [Token.isEndOfStream, hkind, Option.isNone_some, Bool.false_eq_true, false_iff] at hmark
  omega

/-- Tokens with kinds end in front of the last token. -/
theorem stop_lt_size (hends : EndsOnce tokens) (hspans : Spans tokens start leaves stop)
    (hkinds : ∀ token ∈ leaves, token.kind.isSome = true) (hstart : start < tokens.size) :
    stop < tokens.size := by
  rcases Nat.eq_or_lt_of_le hspans.le with rfl | hstop
  · exact hstart
  rcases Nat.lt_or_eq_of_le (hspans.stop_le_size hstop) with hlt | rfl
  · exact hlt
  · obtain ⟨last, htokens, hkind⟩ := hends.dropLast_append
    have hdrop := hspans.drop_eq
    rw [List.drop_eq_nil_of_le (Nat.le_of_eq Array.length_toList), List.append_nil] at hdrop
    have hmem : last ∈ leaves := by
      rw [← hdrop, htokens, List.drop_append_of_le_length (by simp; omega)]
      exact List.mem_append_right _ (List.mem_singleton_self last)
    have hsome := hkinds last hmem
    simp [hkind] at hsome

end EndsOnce

variable {R : Type} [DecidableEq K] [TokenKind K] {grammar : Grammar K R} {tokens : Array (Token K)}

/-- A match ends in front of the last token, which has no kind. -/
theorem Reads.stop_lt_size (hends : EndsOnce tokens) {clauses : List (Clause K)} {start stop : Nat}
    {trees : List (SyntaxTree K)} (hreads : Reads grammar tokens clauses start trees stop)
    (hstart : start < tokens.size) : stop < tokens.size :=
  hends.stop_lt_size hreads.spans hreads.derives.isSome_kind hstart

/-- All mismatches are at places of tokens. -/
def Outcome.Within {α : Type} (size : Nat) (outcome : Outcome K α) : Prop :=
  ∀ mismatch ∈ outcome.mismatches, mismatch.position < size

namespace Outcome.Within

variable {α β : Type} {size : Nat}

theorem pure (a : α) : Within size (Pure.pure a : Outcome K α) := by
  simp [Within]

/-- What is missed first and what is missed later are at places of tokens. -/
theorem bind {outcome : Outcome K α} {next : α → Outcome K β} (hfirst : outcome.Within size)
    (hnext : (next outcome.value).Within size) : (outcome >>= next).Within size := by
  intro mismatch hmem
  exact (List.mem_append.1 hmem).elim (hfirst mismatch) (hnext mismatch)

theorem mismatch {position : Nat} (hposition : position < size) (a : α) (expected : KindSet K) :
    Within size (⟨a, [⟨position, expected⟩]⟩ : Outcome K α) := by
  simpa [Within] using hposition

end Outcome.Within

namespace Plain

/-- Non-terminals that start at the place of a token are missed at places of tokens. -/
def Descent.Within (tokens : Array (Token K)) (descend : Descent K) : Prop :=
  ∀ name position, position < tokens.size → (descend name position).Within tokens.size

variable {descend : Descent K} {limit : Nat}

theorem terminal_within {position : Nat} (hposition : position < tokens.size) (kind : K)
    (discarded : Bool) :
    (terminal tokens kind discarded position).Within tokens.size := by
  unfold terminal
  split
  · split
    · exact .pure _
    · exact .mismatch hposition _ _
  · exact .mismatch hposition _ _

/-- A repetition is missed at places of tokens. -/
theorem repeated_within {once : Nat → Outcome K (Option (Found K))} {size position : Nat}
    (hstays : ∀ place tree stop, (once place).value = some (tree, stop) →
      place < size → stop < size)
    (honce : ∀ place, place < size → (once place).Within size) (hposition : position < size) :
    (repeated limit once position).Within size := by
  induction hmeasure : limit - position using Nat.strongRecOn generalizing position with
  | _ measure ih =>
    rw [repeated]
    split
    · refine (honce position hposition).bind ?_
      split
      · next tree stop hfound =>
        split
        · exact (ih (limit - stop) (by omega) (hstays _ _ _ hfound hposition) rfl).bind (.pure _)
        · exact .pure _
      · exact .pure _
    · exact .pure _

/-- A clause is missed at places of tokens. -/
theorem clause_within (hends : EndsOnce tokens) (hsound : descend.Sound grammar tokens)
    (hdescend : descend.Within tokens) :
    ∀ (part : Clause K) (position : Nat), position < tokens.size →
      (clause limit tokens descend part position).Within tokens.size
  | .terminal kind discarded, _, hposition => terminal_within hposition kind discarded
  | .nonTerminal name _ _, position, hposition => (hdescend name position hposition).bind (.pure _)
  | .option inner _, position, hposition =>
    (clause_within hends hsound hdescend inner position hposition).bind (.pure _)
  | .zeroOrMore inner _, position, hposition => by
    refine (repeated_within ?_ (clause_within hends hsound hdescend inner) hposition).bind (.pure _)
    exact fun place tree stop hfound =>
      (clause_reads hsound inner place tree stop hfound).stop_lt_size hends
  | .oneOrMore inner _, position, hposition => by
    have hstays (place : Nat) (tree : SyntaxTree K) (stop : Nat)
        (hfound : (clause limit tokens descend inner place).value = some (tree, stop)) :
        place < tokens.size → stop < tokens.size :=
      (clause_reads hsound inner place tree stop hfound).stop_lt_size hends
    refine (clause_within hends hsound hdescend inner position hposition).bind ?_
    split
    · next tree stop hfound =>
      refine (repeated_within hstays (clause_within hends hsound hdescend inner) ?_).bind (.pure _)
      exact hstays _ _ _ hfound hposition
    · exact .pure _
  | .group .., _, _ => .pure _
  | .choice .., _, _ => .pure _

/-- Clauses in a row are missed at places of tokens. -/
theorem sequence_within (hends : EndsOnce tokens) (hsound : descend.Sound grammar tokens)
    (hdescend : descend.Within tokens) (clauses : List (Clause K)) {position : Nat}
    (hposition : position < tokens.size) :
    (sequence limit tokens descend clauses position).Within tokens.size := by
  induction clauses generalizing position with
  | nil => exact .pure _
  | cons part rest ih =>
    refine (clause_within hends hsound hdescend part position hposition).bind ?_
    split
    · next tree stop hfound =>
      have hreads := clause_reads hsound part position tree stop hfound
      exact (ih (hreads.stop_lt_size hends hposition)).bind (.pure _)
    · exact .pure _

/-- Rules are missed at places of tokens. -/
theorem candidates_within {strategy : Strategy K R} (hends : EndsOnce tokens)
    (hsound : descend.Sound grammar tokens) (hdescend : descend.Within tokens)
    (rules : List (Rule K R)) (index : Nat) {position : Nat} (hposition : position < tokens.size) :
    (candidates strategy tokens descend position index rules).Within tokens.size := by
  induction rules generalizing index with
  | nil => exact .pure _
  | cons rule rest ih =>
    have htried : (tried strategy tokens descend position rule).Within tokens.size := by
      unfold tried
      split
      · exact sequence_within hends hsound hdescend rule.clauses hposition
      · exact .pure _
    exact htried.bind ((ih (index + 1)).bind (.pure _))

/-- A non-terminal is missed at places of tokens if those below it are. -/
theorem attempt_within {strategy : Strategy K R} (hends : EndsOnce tokens)
    (hsound : descend.Sound grammar tokens) (hdescend : descend.Within tokens) :
    Descent.Within tokens (attempt strategy grammar tokens descend) := by
  intro name position hposition
  unfold attempt
  split
  · exact .pure _
  · split
    · exact (candidates_within hends hsound hdescend _ 0 hposition).bind (.pure _)
    · exact .mismatch hposition _ _

/-- Nothing is missed behind the token that marks the end. -/
theorem nonTerminal_within (strategy : Strategy K R) (hends : EndsOnce tokens) (depth : Nat) :
    Descent.Within tokens (nonTerminal strategy grammar tokens depth) := by
  induction depth with
  | zero => exact fun _ _ _ => .pure _
  | succ depth ih => exact attempt_within hends (nonTerminal_sound strategy grammar tokens depth) ih

end Plain

/-- The furthest mismatch is at a place of one that was noted. -/
theorem noted_lt_size {size : Nat} {furthest : Option (Nat × KindSet K)}
    {mismatches : List (Mismatch K)}
    (hfurthest : ∀ place kinds, furthest = some (place, kinds) → place < size)
    (hmismatches : ∀ mismatch ∈ mismatches, mismatch.position < size) :
    ∀ place kinds, noted furthest mismatches = some (place, kinds) → place < size := by
  induction mismatches generalizing furthest with
  | nil => exact hfurthest
  | cons next rest ih =>
    have hnext := hmismatches next List.mem_cons_self
    refine ih (fun place kinds hfurther => ?_) fun mismatch hmem =>
      hmismatches mismatch (List.mem_cons_of_mem _ hmem)
    rcases furthest with _ | ⟨known, set⟩
    · obtain ⟨rfl, _⟩ := Prod.mk.inj (Option.some.inj hfurther)
      exact hnext
    · have hknown := hfurthest known set rfl
      simp only [further] at hfurther
      grind

/-- A failure at the place of a token is no fault. -/
theorem failureAt_ne_fault {furthest : Option (Nat × KindSet K)} {position : Nat}
    (hfurthest : ∀ place kinds, furthest = some (place, kinds) → place < tokens.size)
    (hposition : position < tokens.size) (fault : Fault) :
    failureAt tokens furthest position ≠ .fault fault := by
  unfold failureAt
  rcases furthest with _ | ⟨known, set⟩
  · simp [Array.getElem?_eq_getElem hposition]
  · by_cases hbefore : position ≤ known
    · simp [hbefore, Array.getElem?_eq_getElem (hfurthest known set rfl)]
    · simp [hbefore, Array.getElem?_eq_getElem hposition]

/-- A result is a tree or a mismatch: every place that is looked at, when there
    is no match, is that of a token. -/
theorem parse_ne_fault (hflat : grammar.IsFlat) (hacyclic : grammar.leftRecursions = [])
    (hends : EndsOnce tokens) (memoize : Bool) (start : String) (fault : Fault) :
    parse grammar tokens memoize start ≠ .error (.fault fault) := by
  have hwithin : (Plain.outcome (.predictive tokens) grammar tokens start 0).Within tokens.size :=
    Plain.nonTerminal_within _ hends _ start 0 hends.size_pos
  have hfurthest : ∀ place kinds,
      noted none (Plain.outcome (.predictive tokens) grammar tokens start 0).mismatches =
        some (place, kinds) →
        place < tokens.size :=
    noted_lt_size (by simp) hwithin
  rw [parse_eq_resultOf hflat hacyclic, resultOf]
  split
  · next tree stop hfound =>
    have hreads := Plain.outcome_sound start 0 tree stop hfound
    split
    · simp
    · simpa using failureAt_ne_fault hfurthest (hreads.stop_lt_size hends hends.size_pos) fault
  · simpa using failureAt_ne_fault hfurthest hends.size_pos fault

/-- Matching a grammar without groups, choices and left recursion meets no
    fault, with or without a memory. And it ends: however much nesting is
    allowed for beyond the bound, it finds the same and misses the same. -/
theorem parse_faultless (hflat : grammar.IsFlat) (hacyclic : grammar.leftRecursions = [])
    (hends : EndsOnce tokens) (memoize : Bool) (start : String) :
    (∀ fault, parse grammar tokens memoize start ≠ .error (.fault fault)) ∧
      ∃ found furthest, ∀ depth, maxDepth grammar tokens ≤ depth → ∃ after : Progress K,
        (nonTerminal grammar tokens depth start 0).run
            { memo := if memoize then some ∅ else none } =
          .ok (found, after) ∧
          after.furthest = furthest :=
  ⟨parse_ne_fault hflat hacyclic hends memoize start, _, _,
    fun _ => run_nonTerminal hflat hacyclic memoize start⟩

theorem Sample.endsOnce_line : EndsOnce line := ⟨by decide, by decide⟩

theorem parse_faultless_looseText :
    Sample.looseText.IsFlat ∧ Sample.looseText.leftRecursions = [] ∧ EndsOnce Sample.line ∧
      (∀ fault, parse Sample.looseText Sample.line true "text" ≠ .error (.fault fault)) :=
  ⟨Sample.isFlat_text _, Sample.leftRecursions_looseText, Sample.endsOnce_line,
    (parse_faultless (Sample.isFlat_text _) Sample.leftRecursions_looseText Sample.endsOnce_line
      true "text").1⟩

end GrammarKit.Matching
