import GrammarKit.Proofs.Matching.Faultless

namespace GrammarKit.Matching

variable {K R : Type} [DecidableEq K] [TokenKind K] {grammar : Grammar K R}
    {tokens : Array (Token K)}

/-- A tree that results was read from the beginning, and at most one token behind it is left. -/
theorem reads_of_parse_eq_ok (hflat : grammar.IsFlat) (hacyclic : grammar.leftRecursions = [])
    {memoize : Bool} {start : String} {tree : SyntaxTree K}
    (hparse : parse grammar tokens memoize start = .ok tree) :
    ∃ stop, tokens.size - 1 ≤ stop ∧ Reads grammar tokens [.ofName start] 0 [tree] stop := by
  rw [parse_eq_resultOf hflat hacyclic, resultOf] at hparse
  cases hvalue : (Plain.outcome (.predictive tokens) grammar tokens start 0).value with
  | none =>
    rw [hvalue] at hparse
    cases hparse
  | some found =>
    obtain ⟨other, stop⟩ := found
    rw [hvalue] at hparse
    dsimp only at hparse
    split at hparse
    · next hle =>
      obtain rfl := Except.ok.inj hparse
      exact ⟨stop, hle, Plain.outcome_sound start 0 other stop hvalue⟩
    · cases hparse

/-- A tree results when the start matches all tokens but the one that marks the end. -/
theorem parse_eq_ok_iff (hflat : grammar.IsFlat) (hacyclic : grammar.leftRecursions = [])
    (hends : EndsOnce tokens) {memoize : Bool} {start : String} {tree : SyntaxTree K} :
    parse grammar tokens memoize start = .ok tree ↔
      (Plain.outcome (.predictive tokens) grammar tokens start 0).value =
        some (tree, tokens.size - 1) := by
  rw [parse_eq_resultOf hflat hacyclic, resultOf]
  cases hvalue : (Plain.outcome (.predictive tokens) grammar tokens start 0).value with
  | none => simp
  | some found =>
    obtain ⟨other, stop⟩ := found
    have hstop := (Plain.outcome_sound start 0 other stop hvalue).stop_lt_size hends hends.size_pos
    dsimp only
    split
    · next hle =>
      obtain rfl : stop = tokens.size - 1 := by omega
      simp
    · next hlt =>
      have hne : stop ≠ tokens.size - 1 := by omega
      simp [hne]

/-- A tree that results is a derivation of the start, and its leaves are the
    tokens in front of the last one. -/
theorem derives_of_parse_eq_ok (hflat : grammar.IsFlat) (hacyclic : grammar.leftRecursions = [])
    (hends : EndsOnce tokens) {memoize : Bool} {start : String} {tree : SyntaxTree K}
    (hparse : parse grammar tokens memoize start = .ok tree) :
    grammar.Derives [.ofName start] [tree] ∧ tree.leaves = tokens.toList.dropLast := by
  have hreads := Plain.outcome_sound start 0 tree _
    ((parse_eq_ok_iff hflat hacyclic hends).1 hparse)
  exact ⟨hreads.derives, by simpa using hreads.spans.eq_dropLast⟩

theorem derives_of_parse_looseText :
    Sample.looseText.IsFlat ∧ Sample.looseText.leftRecursions = [] ∧ EndsOnce Sample.line ∧
      ∃ tree, parse Sample.looseText Sample.line false "text" = .ok tree ∧
        Sample.looseText.Derives [.ofName "text"] [tree] ∧
        tree.leaves = Sample.line.toList.dropLast := by
  have hok : (parse Sample.looseText Sample.line false "text").isOk = true := by decide +kernel
  obtain ⟨tree, hparse⟩ : ∃ tree, parse Sample.looseText Sample.line false "text" = .ok tree := by
    cases hparse : parse Sample.looseText Sample.line false "text" with
    | ok tree => exact ⟨tree, rfl⟩
    | error failure =>
      rw [hparse] at hok
      cases hok
  exact ⟨Sample.isFlat_text _, Sample.leftRecursions_looseText, Sample.endsOnce_line, tree, hparse,
    derives_of_parse_eq_ok (Sample.isFlat_text _) Sample.leftRecursions_looseText
      Sample.endsOnce_line hparse⟩

end GrammarKit.Matching
