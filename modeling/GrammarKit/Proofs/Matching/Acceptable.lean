import GrammarKit.Proofs.Matching.Expected

namespace GrammarKit.Matching

variable {K R : Type} [DecidableEq K] [TokenKind K]

namespace Run

/-- Whether a kind could go on at a place without being missed there: a
    non-terminal begins with it that may be left out, or the item of a
    repetition in front of the last token does. -/
inductive PassesOver (grammar : Grammar K R) (tokens : Array (Token K)) (start : String)
    (place : Nat) (kind : K) : Prop
  | nonTerminal {name : String} {role : Role} {discarded : Bool} :
      (predictive grammar tokens).Tried start (.nonTerminal name role discarded) place →
        grammar.Yields [.ofName name] [] → grammar.Begins [.ofName name] kind →
        PassesOver grammar tokens start place kind
  | item {inner : Clause K} {discarded : Bool} :
      (predictive grammar tokens).Tried start (.zeroOrMore inner discarded) place →
        place + 1 = tokens.size →
        grammar.Begins [inner] kind → PassesOver grammar tokens start place kind

variable {grammar : Grammar K R} {tokens others : Array (Token K)} {start : String} {place : Nat}
    {expected : KindSet K} {clauses : List (Clause K)} {kind : K}

variable (hflat : grammar.IsFlat) (hacyclic : grammar.leftRecursions = [])
    (hanalysed : grammar.IsAnalysed)

/-- A token ends in the same place in two runs with the same kind there. -/
theorem stop?_terminal_congr {run other : Run K R} {discarded : Bool}
    (hiff : kindAt run.tokens place = some kind ↔ kindAt other.tokens place = some kind) :
    run.stop? (.terminal kind discarded) place = other.stop? (.terminal kind discarded) place := by
  rw [stop?_terminal, stop?_terminal]
  exact if_congr hiff rfl rfl

section Rows

variable {run : Run K R} {part first : Clause K}

/-- Whether clauses in a row are tried at a place, each one behind others that
    take nothing there. -/
def TriesRow (run : Run K R) (start : String) (clauses : List (Clause K)) (place : Nat) : Prop :=
  ∀ before part after, clauses = before ++ part :: after → run.stopAll? before place = some place →
    run.Tried start part place

/-- A clause that is tried is tried as a row of one. -/
theorem Tried.row (htried : run.Tried start part place) : run.TriesRow start [part] place := by
  rintro (_ | ⟨first, before⟩) other after hsplit -
  · obtain ⟨rfl, -⟩ := List.cons_eq_cons.1 hsplit
    exact htried
  · simp at hsplit

/-- The clauses of a rule that is tried are tried as a row. -/
theorem Tried.rule_row {name : String} {role : Role} {discarded : Bool} {rule : Rule K R}
    (htried : run.Tried start (.nonTerminal name role discarded) place)
    (htries : run.TriesRule name place rule) :
    run.TriesRow start rule.clauses place :=
  fun _ _ _ hsplit hbefore => htried.tail (.rule htries hsplit hbefore)

/-- The first clause of a row is tried. -/
theorem TriesRow.head (hrow : run.TriesRow start (first :: clauses) place) :
    run.Tried start first place :=
  hrow [] first clauses rfl rfl

/-- Behind a clause that takes nothing the others are tried. -/
theorem TriesRow.tail (hrow : run.TriesRow start (first :: clauses) place)
    (hstop : run.stop? first place = some place) :
    run.TriesRow start clauses place := by
  intro before part after hsplit hbefore
  refine hrow (first :: before) part after (hsplit ▸ rfl) ?_
  rw [stopAll?, hstop]
  exact hbefore

end Rows

section Nullable

include hflat hacyclic hanalysed

/-- Clauses that yield nothing match everywhere. -/
theorem exists_stopAll?_of_yields_nil (hyields : grammar.Yields clauses [])
    (hclauses : ∀ clause ∈ clauses, clause.isFlat = true) (place : Nat) :
    ∃ stop, (predictive grammar tokens).stopAll? clauses place = some stop := by
  have hcons {first : Clause K} {rest : List (Clause K)}
      (hfirst : ∀ place, ∃ stop, (predictive grammar tokens).stop? first place = some stop)
      (hrest : ∀ place, ∃ stop, (predictive grammar tokens).stopAll? rest place = some stop)
      (place : Nat) :
      ∃ stop, (predictive grammar tokens).stopAll? (first :: rest) place = some stop := by
    obtain ⟨middle, hmiddle⟩ := hfirst place
    obtain ⟨stop, hstop⟩ := hrest middle
    exact ⟨stop, by rw [stopAll?, hmiddle]; exact hstop⟩
  generalize hword : ([] : List K) = word at hyields
  induction hyields generalizing place with
  | nil => exact ⟨place, rfl⟩
  | terminal => cases hword
  | @nonTerminal name role discarded rule _ _ _ hrule hfirst _ ihFirst ihRest =>
    obtain ⟨rfl, rfl⟩ := List.append_eq_nil_iff.1 hword.symm
    refine hcons (fun place => ?_) (ihRest (List.forall_mem_cons.1 hclauses).2 · rfl) place
    have hempty : rule.mayBeEmpty = true := (hanalysed.mayBeEmpty_eq hrule).trans hfirst.allNullable
    have htries : (predictive grammar tokens).TriesRule name place rule :=
      ⟨hrule, by simp [predictive, Strategy.predictive, Rule.canStartWith, hempty]⟩
    obtain ⟨stop, hstop⟩ := ihFirst (hflat _ hrule) place rfl
    obtain ⟨last, hlast, -⟩ := exists_stop?_of_rule hacyclic role discarded htries hstop
    exact ⟨last, hlast⟩
  | group | choice => simp [Clause.isFlat] at hclauses
  | absent _ ihRest =>
    exact hcons (fun place => ⟨_, stop?_option _ _ place⟩)
      (ihRest (List.forall_mem_cons.1 hclauses).2 · hword) place
  | present _ _ _ ihRest =>
    obtain ⟨rfl, rfl⟩ := List.append_eq_nil_iff.1 hword.symm
    exact hcons (fun place => ⟨_, stop?_option _ _ place⟩)
      (ihRest (List.forall_mem_cons.1 hclauses).2 · rfl) place
  | zeroOrMore _ _ _ ihRest =>
    obtain ⟨-, rfl⟩ := List.append_eq_nil_iff.1 hword.symm
    exact hcons (exists_stop?_zeroOrMore _ _ _) (ihRest (List.forall_mem_cons.1 hclauses).2 · rfl)
      place
  | @oneOrMore inner discarded _ items _ hne _ _ ihItems ihRest =>
    obtain ⟨hitems, rfl⟩ := List.append_eq_nil_iff.1 hword.symm
    obtain ⟨hinner, hrest⟩ := List.forall_mem_cons.1 hclauses
    refine hcons (fun place => ?_) (ihRest hrest · rfl) place
    obtain ⟨item, hitem⟩ := List.exists_mem_of_ne_nil items hne
    obtain ⟨stop, hstop⟩ := ihItems item hitem (by simpa [Clause.isFlat] using hinner) place
      (List.flatten_eq_nil_iff.1 hitems item hitem).symm
    obtain ⟨last, hlast⟩ := exists_stop?_zeroOrMore (predictive grammar tokens) inner discarded stop
    exact ⟨last, by rw [stop?_oneOrMore, ← stopAll?_singleton, hstop]; exact hlast⟩

end Nullable

section Report

variable (hclosed : grammar.IsClosed) (hstart : grammar.rulesOf start ≠ [])
  (hreports : (predictive grammar tokens).Reports start place expected)

include hflat hacyclic hanalysed hclosed hstart hreports

/-- What is tried at the place of a report does not begin with the token there,
    which would have been taken. -/
theorem Reports.not_begins (hends : EndsOnce tokens) (hkind : kindAt tokens place = some kind)
    (hrow : (predictive grammar tokens).TriesRow start clauses place) :
    ¬ grammar.Begins clauses kind := by
  intro hbegins
  have hbounds {part : Clause K} (htried : (predictive grammar tokens).Tried start part place) :=
    hreports.bounds hacyclic hflat hclosed hstart htried
  induction hbegins with
  | terminal =>
    have hle := (hbounds hrow.head).2.2 (place + 1)
      ((stop?_terminal _ _ place).trans (if_pos hkind))
    omega
  | @nonTerminal _ _ _ rule _ kind hrule hbegins ih =>
    have hleading : kind ∈ rule.leading := hanalysed.leading_eq hrule ▸ hbegins.mem_firstOfAll
    exact ih hkind (hrow.head.rule_row
      ⟨hrule, by simp [predictive, Strategy.predictive, Rule.canStartWith, hkind, hleading]⟩)
  | group | choice => cases (hbounds hrow.head).1.1
  | option _ ih => exact ih hkind (Tried.row (hrow.head.tail .option))
  | zeroOrMore _ ih =>
    exact ih hkind (Tried.row (hrow.head.tail (.zeroOrMore (hends.lt_of_kindAt hkind))))
  | oneOrMore _ ih => exact ih hkind (Tried.row (hrow.head.tail .oneOrMore))
  | skip hnone _ ih =>
    -- What yields nothing matches, and it takes nothing at this place, so the rest is
    -- tried here as well.
    obtain ⟨stop, hstop⟩ := exists_stopAll?_of_yields_nil hflat hacyclic hanalysed hnone
      (by simpa using (hbounds hrow.head).1.1) place
    rw [stopAll?_singleton] at hstop
    obtain rfl : stop = place := Nat.le_antisymm ((hbounds hrow.head).2.2 stop hstop)
      (le_stop? hstop)
    exact ih hkind (hrow.tail hstop)

/-- What is overlooked at the place of a report is expected there, unless it was
    passed over without a miss. -/
theorem Reports.mem_expected_or_passesOver (hends : EndsOnce tokens) (hplace : place < tokens.size)
    (hoverlooks : Overlooks grammar tokens start clauses place)
    (hbegins : grammar.Begins clauses kind) :
    kind ∈ expected ∨ PassesOver grammar tokens start place kind := by
  cases hoverlooks with
  | item htried hlast => exact Or.inr (.item htried (by omega) hbegins)
  | @rule name role discarded rule _ htried hrule hidle =>
    have hname : grammar.Begins [.ofName name] kind :=
      Grammar.begins_nonTerminal_iff.2 ⟨rule, hrule, hbegins⟩
    by_cases hother : ∃ other, (predictive grammar tokens).TriesRule name place other
    · obtain ⟨other, htries⟩ := hother
      refine Or.inr (.nonTerminal htried ?_ hname)
      have hempty : other.mayBeEmpty = true := by
        refine (Bool.or_eq_true_iff.1 htries.2).resolve_right fun hleading => ?_
        obtain ⟨next, hnext, hmem⟩ := (Option.any_eq_true _ _).1 hleading
        have hfirst : next ∈ other.first grammar.nullable.contains grammar.leadingTable.get :=
          hanalysed.leading_eq htries.1 ▸ of_decide_eq_true hmem
        exact hreports.not_begins hflat hacyclic hanalysed hclosed hstart hends hnext
          (htried.rule_row htries) (Grammar.begins_of_mem_firstOfAll
            Grammar.begins_of_mem_leadingTable _ _ hfirst)
      have hnullable := (hanalysed.mayBeEmpty_eq htries.1).symm.trans hempty
      exact Grammar.yields_nonTerminal_iff.2 ⟨other, htries.1, Grammar.allNullable_iff.1 hnullable⟩
    · obtain ⟨nonTerminal, hfind, -⟩ := Grammar.mem_rules_iff.1 hrule
      have hmisses : (predictive grammar tokens).Misses ⟨.nonTerminal name role discarded, place⟩
          ⟨place, nonTerminal.leading⟩ := .nonTerminal hfind (not_exists.1 hother)
      exact Or.inl ((hreports.mem_expected_iff kind).2
        ⟨_, _, htried, hmisses, (hanalysed.mem_leading_iff hfind).2 hname⟩)

variable (hends : EndsOnce tokens) {limit : Nat} (hlimit : tokens.size - 1 ≤ limit)

include hends hlimit

/-- What is tried at the place of a report if nothing is passed over does not
    begin with the token there either. -/
theorem Reports.not_begins_of_exhaustive (hkind : kindAt tokens place = some kind) {part : Clause K}
    (htried : (exhaustive grammar tokens limit).Tried start part place) :
    ¬ grammar.Begins [part] kind := by
  intro hbegins
  rcases tried_or_overlooks hanalysed hends hlimit hacyclic htried with htried |
    ⟨clauses, hoverlooks, hsub⟩
  · exact hreports.not_begins hflat hacyclic hanalysed hclosed hstart hends hkind htried.row hbegins
  · exact hoverlooks.not_begins hanalysed hends hkind (hsub kind hbegins)

/-- When other tokens are accepted that have a kind at the place of a report and
    the same kinds in front of it, that kind is looked for there if nothing is
    passed over: else both would end in the same place. -/
theorem Reports.exists_tried_terminal (hlater : EndsOnce others) (hothers : others.size - 1 ≤ limit)
    (hagree : ∀ index < place, kindAt others index = kindAt tokens index)
    (hkind : kindAt others place = some kind)
    (haccepted : (predictive grammar others).stop? (.ofName start) 0 = some (others.size - 1)) :
    ∃ discarded, (exhaustive grammar tokens limit).Tried start
      (.terminal kind discarded) place := by
  by_contra hnone
  have hextends : (exhaustive grammar tokens limit).Extends (exhaustive grammar others limit) :=
    { tries := id
      triesRule_of_stop := fun htries _ => ⟨htries.1, rfl⟩
      limit_le := Nat.le_refl _
      le_of_stop := fun hlast => (exhaustive_extends hanalysed hends hlimit).le_of_stop fun hlt =>
        hlast (Nat.lt_of_lt_of_le hlt hlimit) }
  have hsame := stop?_congr hextends hacyclic hacyclic ⟨.ofName start, 0⟩
    fun other discarded index hway => by
    have hle := hreports.le_place hflat hacyclic hanalysed hclosed hends hstart hlimit hway
    refine stop?_terminal_congr ?_
    rcases Nat.lt_or_eq_of_le hle with hlt | rfl
    · exact iff_of_eq (congrArg (· = some other) (hagree index hlt).symm)
    · refine iff_of_false (fun htoken => ?_) fun htoken => ?_
      · exact hreports.not_begins_of_exhaustive hflat hacyclic hanalysed hclosed hstart hends hlimit
          htoken hway .terminal
      · obtain rfl := Option.some.inj (hkind.symm.trans htoken)
        exact hnone ⟨discarded, hway⟩
  rw [stop?_exhaustive hanalysed hends hlimit hacyclic,
    stop?_exhaustive hanalysed hlater hothers hacyclic, haccepted] at hsame
  have hle := hreports.stop_le _ hsame
  have hlt := hlater.lt_of_kindAt hkind
  omega

end Report

end Run

/-- Every kind with which tokens go on to be accepted behind those in front of
    an error is expected there, or it belongs to what was passed over: something
    that may be left out, or the next item of a repetition in front of the
    end. -/
theorem parse_error_acceptable {grammar : Grammar K R} {tokens : Array (Token K)}
    (hflat : grammar.IsFlat) (hacyclic : grammar.leftRecursions = [])
    (hanalysed : grammar.IsAnalysed) (hclosed : grammar.IsClosed) (hends : EndsOnce tokens)
    {start : String} (hstart : grammar.rulesOf start ≠ []) {memoize : Bool} {failure : Failure K}
    (hparse : parse grammar tokens memoize start = .error failure) :
    ∃ place token expected, failure = .unexpected token expected ∧ tokens[place]? = some token ∧
      IsGreatest ((Run.exhaustive grammar tokens tokens.size).reached start) place ∧
        ∀ kind others tree, EndsOnce others →
          (∀ index < place, kindAt others index = kindAt tokens index) →
          kindAt others place = some kind → parse grammar others memoize start = .ok tree →
            kind ∈ expected ∨ Run.PassesOver grammar tokens start place kind := by
  obtain ⟨place, token, expected, hfailure, htoken, hreports⟩ :=
    Run.exists_reports hflat hacyclic hclosed hends hstart hparse
  refine ⟨place, token, expected, hfailure, htoken, ?_,
    fun kind others tree hlater hagree hkind haccepted => ?_⟩
  · exact hreports.isGreatest hflat hacyclic hanalysed hclosed hends hstart (Nat.sub_le _ _)
  have hlimit : tokens.size - 1 ≤ max tokens.size others.size := by omega
  have hothers : others.size - 1 ≤ max tokens.size others.size := by omega
  have hstop : (Run.predictive grammar others).stop? (.ofName start) 0 =
      some (others.size - 1) := by
    rw [Run.stop?_start, (parse_eq_ok_iff hflat hacyclic hlater).1 haccepted]
    rfl
  obtain ⟨discarded, htried⟩ := hreports.exists_tried_terminal hflat hacyclic hanalysed hclosed
    hstart hends hlimit hlater hothers hagree hkind hstop
  have hmissed : kindAt tokens place ≠ some kind := fun hsame =>
    hreports.not_begins_of_exhaustive hflat hacyclic hanalysed hclosed hstart hends hlimit hsame
      htried .terminal
  rcases Run.tried_or_overlooks hanalysed hends hlimit hacyclic htried with htried |
    ⟨clauses, hoverlooks, hsub⟩
  · exact Or.inl ((hreports.mem_expected_iff kind).2
      ⟨_, _, htried, .terminal hmissed, KindSet.mem_singleton.2 rfl⟩)
  · obtain ⟨hplace, -⟩ := Array.getElem?_eq_some_iff.1 htoken
    exact hreports.mem_expected_or_passesOver hflat hacyclic hanalysed hclosed hstart hends
      hplace hoverlooks (hsub kind .terminal)

namespace Sample

def wordAndGap : Array (Token (Kind signs)) :=
  #[.ofSpan word "a" ⟨0, 0, 0⟩, .ofSpan blank " " ⟨1, 0, 1⟩, .endOfStream ⟨2, 0, 2⟩]

theorem endsOnce_wordAndGap : EndsOnce wordAndGap := ⟨by decide, by decide⟩

theorem exists_parse_wordAndGap : ∃ tree, parse spacedWord wordAndGap false "text" = .ok tree := by
  have hok : (parse spacedWord wordAndGap false "text").isOk = true := by decide
  cases hparse : parse spacedWord wordAndGap false "text" with
  | ok tree => exact ⟨tree, rfl⟩
  | error failure =>
    rw [hparse] at hok
    cases hok

end Sample

/-- The gap behind the word is passed over. -/
theorem parse_error_acceptable_wordAndGap :
    Sample.spacedWord.IsFlat ∧ Sample.spacedWord.leftRecursions = [] ∧
      Sample.spacedWord.IsAnalysed ∧
      Sample.spacedWord.IsClosed ∧ EndsOnce Sample.twoWords ∧
        Sample.spacedWord.rulesOf "text" ≠ [] ∧
        parse Sample.spacedWord Sample.twoWords false "text" =
            .error (.unexpected (.ofSpan Sample.word "b" ⟨1, 0, 1⟩) ∅) ∧
          EndsOnce Sample.wordAndGap ∧ (∀ index < 1,
            kindAt Sample.wordAndGap index = kindAt Sample.twoWords index) ∧
            kindAt Sample.wordAndGap 1 = some Sample.blank ∧
              (∃ tree, parse Sample.spacedWord Sample.wordAndGap false "text" = .ok tree) ∧
                Run.PassesOver Sample.spacedWord Sample.twoWords "text" 1 Sample.blank := by
  obtain ⟨tree, haccepted⟩ := Sample.exists_parse_wordAndGap
  have hagree : ∀ index < 1, kindAt Sample.wordAndGap index = kindAt Sample.twoWords index := by
    decide
  have hkind : kindAt Sample.wordAndGap 1 = some Sample.blank := by decide
  obtain ⟨place, token, expected, hfailure, htoken, -, hkinds⟩ :=
    parse_error_acceptable Sample.isFlat_spacedWord Sample.leftRecursions_spacedWord
      (Grammar.isAnalysed_analyse _) Sample.isClosed_spacedWord Sample.endsOnce_twoWords
      Sample.rulesOf_spacedWord Sample.parse_twoWords
  obtain ⟨rfl, rfl⟩ := Failure.unexpected.inj hfailure
  obtain rfl := Sample.twoWords_eq_some htoken
  have hblank := hkinds Sample.blank Sample.wordAndGap tree Sample.endsOnce_wordAndGap hagree
    hkind haccepted
  have hpasses := hblank.resolve_left (KindSet.not_mem_empty _)
  exact ⟨Sample.isFlat_spacedWord, Sample.leftRecursions_spacedWord, Grammar.isAnalysed_analyse _,
    Sample.isClosed_spacedWord, Sample.endsOnce_twoWords, Sample.rulesOf_spacedWord,
      Sample.parse_twoWords,
    Sample.endsOnce_wordAndGap, hagree, hkind, ⟨tree, haccepted⟩, hpasses⟩

/-- Not every kind that could have stood at an error is expected there: a gap
    behind the first of two words is not. -/
theorem exists_acceptable_not_expected :
    ¬ ∀ (grammar : Grammar (Kind Sample.signs) Unit)
      (tokens others : Array (Token (Kind Sample.signs))) (memoize : Bool)
      (start : String) (place : Nat) (token : Token (Kind Sample.signs))
      (expected : KindSet (Kind Sample.signs))
      (kind : Kind Sample.signs) (tree : SyntaxTree (Kind Sample.signs)),
      grammar.IsFlat → grammar.leftRecursions = [] → grammar.IsAnalysed → grammar.IsClosed →
        grammar.rulesOf start ≠ [] →
        EndsOnce tokens → parse grammar tokens memoize start = .error (.unexpected token expected) →
          tokens[place]? = some token → EndsOnce others →
            (∀ index < place, kindAt others index = kindAt tokens index) →
              kindAt others place = some kind →
              parse grammar others memoize start = .ok tree → kind ∈ expected := by
  intro hcomplete
  obtain ⟨tree, haccepted⟩ := Sample.exists_parse_wordAndGap
  refine KindSet.not_mem_empty Sample.blank ?_
  exact hcomplete Sample.spacedWord Sample.twoWords Sample.wordAndGap false "text" 1 _ ∅
    Sample.blank tree Sample.isFlat_spacedWord Sample.leftRecursions_spacedWord
    (Grammar.isAnalysed_analyse _) Sample.isClosed_spacedWord
    Sample.rulesOf_spacedWord Sample.endsOnce_twoWords Sample.parse_twoWords rfl
    Sample.endsOnce_wordAndGap
    (by decide) (by decide) haccepted

end GrammarKit.Matching
