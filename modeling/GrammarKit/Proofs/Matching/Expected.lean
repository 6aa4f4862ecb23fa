import GrammarKit.Proofs.Grammar.Leading
import GrammarKit.Proofs.Grammar.Rewriting
import GrammarKit.Proofs.Matching.Furthest

namespace GrammarKit

/-- The kinds in front of a place and those from there on are all kinds. -/
theorem filterMap_take_append_kindsFrom {K : Type} (tokens : Array (Token K)) (place : Nat) :
    (tokens.toList.take place).filterMap Token.kind ++ kindsFrom tokens place =
      kindsFrom tokens 0 := by
  rw [kindsFrom, kindsFrom, ← List.filterMap_append, List.take_append_drop, List.drop_zero]

variable {K R : Type} [DecidableEq K] [TokenKind K]

/-- Whether a word stands first in something that a non-terminal can be rewritten to. -/
def Grammar.Opens (grammar : Grammar K R) (start : String) (word : List K) : Prop :=
  ∃ form, grammar.RewritesTo [.ofName start] form ∧ word.map some <+: form.map Clause.kind?

namespace Matching

namespace Run

variable {run : Run K R} {start : String} {part : Clause K} {place : Nat}

/-- What is tried next stands behind what matched before in something that the
    clause expands to. -/
theorem Tries.exists_expands {goal next : Goal K} (htries : run.Tries goal next) :
    ∃ before after, run.grammar.Expands goal.clause (before ++ next.clause :: after) ∧
      run.stopAll? before goal.place = some next.place := by
  cases htries with
  | @rule name role discarded place stop rule before after part hrule hclauses hstop =>
    have hexpands : run.grammar.Expands (.nonTerminal name role discarded) rule.clauses :=
      .nonTerminal hrule.1
    exact ⟨before, after, hclauses ▸ hexpands, hstop⟩
  | option => exact ⟨[], [], .present, rfl⟩
  | zeroOrMore => exact ⟨[], _, .again, rfl⟩
  | again _ hstop => exact ⟨[_], [], .again, (stopAll?_singleton _ _).trans hstop⟩
  | oneOrMore => exact ⟨[], _, .oneOrMore, rfl⟩
  | more hstop => exact ⟨[_], [], .oneOrMore, (stopAll?_singleton _ _).trans hstop⟩

/-- A clause that is tried stands behind the tokens in front of its place in
    something that the start can be rewritten to. -/
theorem exists_rewritesTo_of_tries {goal : Goal K}
    (hway : Relation.ReflTransGen run.Tries ⟨.ofName start, 0⟩ goal) :
    ∃ before after, run.grammar.RewritesTo [.ofName start] (before ++ goal.clause :: after) ∧
      before.map Clause.kind? = ((run.tokens.toList.take goal.place).filterMap Token.kind).map
        some := by
  induction hway with
  | refl => exact ⟨[], [], .refl, rfl⟩
  | @tail goal next _ htries ih =>
    obtain ⟨before, after, hform, hbefore⟩ := ih
    obtain ⟨inside, behind, hexpands, hinside⟩ := htries.exists_expands
    obtain ⟨trees, hreads⟩ := exists_reads hinside
    obtain ⟨word, hyields, hkinds, -⟩ := hreads.yields
    obtain ⟨spelt, hspelt, hword⟩ := hyields.spells
    have htaken : (run.tokens.toList.take goal.place).filterMap Token.kind ++ word =
        (run.tokens.toList.take next.place).filterMap Token.kind := by
      refine List.append_left_injective (kindsFrom run.tokens next.place) ?_
      dsimp only
      rw [filterMap_take_append_kindsFrom, List.append_assoc, ← hkinds,
        filterMap_take_append_kindsFrom]
    refine ⟨before ++ spelt, behind ++ after, hform.trans ?_, ?_⟩
    · have hinner : run.grammar.RewritesTo (inside ++ next.clause :: behind)
          (spelt ++ next.clause :: behind) :=
        hspelt.append .refl
      have hclause : run.grammar.RewritesTo (goal.clause :: after)
          (spelt ++ next.clause :: behind ++ after) :=
        .head (.head hexpands) (hinner.append .refl)
      simpa using Grammar.RewritesTo.append (.refl (a := before)) hclause
    · rw [List.map_append, hbefore, hword, ← List.map_append, htaken]

/-- What is missing could have been there: a clause begins with all kinds that
    are expected where it is missed. -/
theorem Misses.begins (hanalysed : run.grammar.IsAnalysed) {goal : Goal K} {mismatch : Mismatch K}
    (hmisses : run.Misses goal mismatch) {kind : K} (hkind : kind ∈ mismatch.expected) :
    run.grammar.Begins [goal.clause] kind := by
  cases hmisses with
  | terminal =>
    obtain rfl := KindSet.mem_singleton.1 hkind
    exact .terminal
  | nonTerminal hfind =>
    exact Grammar.begins_nonTerminal_iff.2 (Grammar.begins_nonTerminal_iff.1
      ((hanalysed.mem_leading_iff hfind).1 hkind))

/-- Something is expected wherever something is missed. -/
theorem Misses.exists_mem_expected (hanalysed : run.grammar.IsAnalysed) (hflat : run.grammar.IsFlat)
    (hacyclic : run.grammar.leftRecursions = []) (hclosed : run.grammar.IsClosed)
    (htries : ∀ rule kind, run.strategy.tries rule kind = rule.canStartWith kind) {goal : Goal K}
    (hgoal : Goal.IsClosed run.grammar goal) {mismatch : Mismatch K}
    (hmisses : run.Misses goal mismatch) :
    ∃ kind, kind ∈ mismatch.expected := by
  cases hmisses with
  | @terminal kind => exact ⟨kind, KindSet.mem_singleton.2 rfl⟩
  | @nonTerminal name _ _ _ place hfind hnone =>
    have hdeclared := hgoal.2 name (by simp [Clause.references])
    refine hanalysed.exists_mem_leading hfind hflat hacyclic hclosed hdeclared
      (kindAt run.tokens place) fun rule hrule => Bool.eq_false_iff.2 fun hstart =>
        hnone rule ⟨hrule, ?_⟩
    rw [htries, hstart]

section Rejection

variable {grammar : Grammar K R} {tokens : Array (Token K)} {expected : KindSet K}

/-- The tokens in front of the place of a report, followed by a kind that is
    expected there, open something that the start can be rewritten to. -/
theorem Reports.opens (hanalysed : grammar.IsAnalysed)
    (hreports : (predictive grammar tokens).Reports start place expected) {kind : K}
    (hkind : kind ∈ expected) :
    grammar.Opens start ((tokens.toList.take place).filterMap Token.kind ++ [kind]) := by
  obtain ⟨part, mismatch, htried, hmisses, hmem⟩ := (hreports.mem_expected_iff kind).1 hkind
  obtain ⟨before, after, hform, hbefore⟩ := exists_rewritesTo_of_tries htried
  obtain ⟨discarded, rest, hpart⟩ := (hmisses.begins hanalysed hmem).heads
  refine ⟨before ++ (.terminal kind discarded :: rest ++ after), hform.trans ?_,
    (rest ++ after).map Clause.kind?, ?_⟩
  · exact Grammar.RewritesTo.append .refl (hpart.append .refl)
  · rw [List.map_append, List.map_append, List.map_append, hbefore]
    simp [Clause.kind?, predictive]

/-- Where nothing is expected, the start ends. -/
theorem Reports.stop?_eq (hanalysed : grammar.IsAnalysed) (hflat : grammar.IsFlat)
    (hacyclic : grammar.leftRecursions = []) (hclosed : grammar.IsClosed)
    (hstart : grammar.rulesOf start ≠ [])
    (hreports : (predictive grammar tokens).Reports start place ∅) :
    (predictive grammar tokens).stop? (.ofName start) 0 = some place := by
  rcases hreports.reached with hstop | ⟨part, mismatch, htried, hmisses⟩
  · exact hstop
  · have hgoal := (hreports.bounds hacyclic hflat hclosed hstart htried).1
    obtain ⟨kind, hkind⟩ := hmisses.exists_mem_expected hanalysed hflat hacyclic hclosed
      (fun _ _ => rfl) hgoal
    have hmem := (hreports.mem_expected_iff kind).2 ⟨part, mismatch, htried, hmisses, hkind⟩
    exact absurd hmem (KindSet.not_mem_empty kind)

end Rejection

end Run

/-- Every kind that an error expects could go on from the tokens in front of it,
    as far as these are concerned: the start can be rewritten to something that
    begins with them and that kind. Where nothing is expected, the tokens in
    front of the error are a match of the start. -/
theorem parse_error_opens {grammar : Grammar K R} {tokens : Array (Token K)}
    (hflat : grammar.IsFlat) (hacyclic : grammar.leftRecursions = [])
    (hanalysed : grammar.IsAnalysed) (hclosed : grammar.IsClosed) (hends : EndsOnce tokens)
    {start : String} (hstart : grammar.rulesOf start ≠ []) {memoize : Bool} {failure : Failure K}
    (hparse : parse grammar tokens memoize start = .error failure) :
    ∃ place token expected, failure = .unexpected token expected ∧ tokens[place]? = some token ∧
      IsGreatest ((Run.exhaustive grammar tokens tokens.size).reached start) place ∧
        (∀ kind ∈ expected, grammar.Opens start
          ((tokens.toList.take place).filterMap Token.kind ++ [kind])) ∧
          (expected = ∅ → ∃ tree, ∃ after : Progress K,
            (nonTerminal grammar tokens (maxDepth grammar tokens) start 0).run
              { memo := if memoize then some ∅ else none } = .ok (some (tree, place), after)) := by
  obtain ⟨place, token, expected, hfailure, htoken, hreports⟩ :=
    Run.exists_reports hflat hacyclic hclosed hends hstart hparse
  refine ⟨place, token, expected, hfailure, htoken, ?_, fun kind => hreports.opens hanalysed, ?_⟩
  · exact hreports.isGreatest hflat hacyclic hanalysed hclosed hends hstart (Nat.sub_le _ _)
  · rintro rfl
    have hstop := hreports.stop?_eq hanalysed hflat hacyclic hclosed hstart
    rw [Run.stop?_start, Option.map_eq_some_iff] at hstop
    obtain ⟨⟨tree, _⟩, hvalue, rfl⟩ := hstop
    obtain ⟨after, hrun, -⟩ := run_nonTerminal hflat hacyclic memoize start
      (Nat.le_refl (maxDepth grammar tokens))
    exact ⟨tree, after, hvalue ▸ hrun⟩

namespace Sample

/-- A word with a gap behind it, which may be missing. -/
def spacedWord : Grammar (Kind signs) Unit :=
  Grammar.analyse <| Grammar.flatten <| Grammar.addAll (.empty "text")
    [("text", { clauses := [.ofKind word, .ofName "gap"] }),
      ("gap", { clauses := [.ofKind blank] }), ("gap", { clauses := [] })]

def twoWords : Array (Token (Kind signs)) :=
  #[.ofSpan word "a" ⟨0, 0, 0⟩, .ofSpan word "b" ⟨1, 0, 1⟩, .endOfStream ⟨2, 0, 2⟩]

theorem isFlat_spacedWord : spacedWord.IsFlat := (Grammar.isFlat_flatten _).analyse

theorem leftRecursions_spacedWord : spacedWord.leftRecursions = [] := by decide +kernel

theorem isClosed_spacedWord : spacedWord.IsClosed := by decide

theorem rulesOf_spacedWord : spacedWord.rulesOf "text" ≠ [] := by decide

theorem endsOnce_twoWords : EndsOnce twoWords := ⟨by decide, by decide⟩

theorem parse_twoWords :
    parse spacedWord twoWords false "text" = .error (.unexpected (.ofSpan word "b" ⟨1, 0, 1⟩) ∅) :=
  rfl

theorem twoWords_eq_some :
    ∀ {place : Nat}, twoWords[place]? = some (.ofSpan word "b" ⟨1, 0, 1⟩) → place = 1
  | 0, htoken | 2, htoken => absurd htoken (by decide)
  | 1, _ => rfl
  | place + 3, htoken => by simp [twoWords] at htoken

end Sample

/-- A word is missed behind the gap, and nothing behind the first of two words. -/
theorem parse_error_opens_gap :
    (Sample.looseText.IsFlat ∧ Sample.looseText.leftRecursions = [] ∧ Sample.looseText.IsAnalysed ∧
      Sample.looseText.IsClosed ∧ EndsOnce Sample.gap ∧ Sample.looseText.rulesOf "text" ≠ [] ∧
        parse Sample.looseText Sample.gap true "text" =
            .error (.unexpected (.endOfStream ⟨1, 0, 1⟩) (.singleton Sample.word)) ∧
          Sample.looseText.Opens "text" [Sample.blank, Sample.word]) ∧
      (Sample.spacedWord.IsFlat ∧ Sample.spacedWord.leftRecursions = [] ∧
        Sample.spacedWord.IsAnalysed ∧
        Sample.spacedWord.IsClosed ∧ EndsOnce Sample.twoWords ∧
          Sample.spacedWord.rulesOf "text" ≠ [] ∧
          parse Sample.spacedWord Sample.twoWords false "text" =
              .error (.unexpected (.ofSpan Sample.word "b" ⟨1, 0, 1⟩) ∅) ∧
            ∃ tree, ∃ after : Progress (Kind Sample.signs),
              (nonTerminal Sample.spacedWord Sample.twoWords
                (maxDepth Sample.spacedWord Sample.twoWords) "text" 0).run
                { memo := none } = .ok (some (tree, 1), after)) := by
  refine ⟨⟨Sample.isFlat_text _, Sample.leftRecursions_looseText, Grammar.isAnalysed_analyse _,
    Sample.isClosed_looseText, Sample.endsOnce_gap, Sample.rulesOf_looseText, Sample.parse_gap, ?_⟩,
    ⟨Sample.isFlat_spacedWord, Sample.leftRecursions_spacedWord, Grammar.isAnalysed_analyse _,
      Sample.isClosed_spacedWord, Sample.endsOnce_twoWords, Sample.rulesOf_spacedWord,
        Sample.parse_twoWords, ?_⟩⟩
  · obtain ⟨place, token, expected, hfailure, htoken, -, hopens, -⟩ :=
      parse_error_opens (Sample.isFlat_text _) Sample.leftRecursions_looseText
        (Grammar.isAnalysed_analyse _) Sample.isClosed_looseText Sample.endsOnce_gap
        Sample.rulesOf_looseText Sample.parse_gap
    obtain ⟨rfl, rfl⟩ := Failure.unexpected.inj hfailure
    obtain rfl := Sample.gap_eq_some htoken
    exact hopens Sample.word (KindSet.mem_singleton.2 rfl)
  · obtain ⟨place, token, expected, hfailure, htoken, -, -, hmatches⟩ :=
      parse_error_opens Sample.isFlat_spacedWord Sample.leftRecursions_spacedWord
        (Grammar.isAnalysed_analyse _) Sample.isClosed_spacedWord Sample.endsOnce_twoWords
        Sample.rulesOf_spacedWord Sample.parse_twoWords
    obtain ⟨rfl, rfl⟩ := Failure.unexpected.inj hfailure
    obtain rfl := Sample.twoWords_eq_some htoken
    exact hmatches rfl

end Matching

end GrammarKit
