import GrammarKit.Proofs.Lexer.Spacing
import GrammarKit.Proofs.Matching.Completeness
import GrammarKit.Proofs.Matching.Furthest
import GrammarKit.Proofs.RuleText.Reading
import GrammarKit.Proofs.RuleText.Values

namespace GrammarKit.RuleText

section Words

/-- The kinds that can stand behind the parts of a rule. -/
def follow : String → KindSet RuleToken :=
  let afterClause (kind : RuleToken) : Bool := kind.isOpening || kind = .closeParen
  LeadingTable.get
    [("clause", .ofPred afterClause), ("atom", .ofPred fun kind => kind.isMark || afterClause kind),
     ("modifier", .ofPred fun kind => kind = .discard || afterClause kind),
     ("alternative", .ofPred fun kind => kind = .or || kind = .closeBracket)]

/-- In rule notation the next token always decides. -/
theorem isFollowed_grammar : grammar.IsFollowed follow where
  separated := by decide
  nullable := by decide
  leading_disjoint := by decide
  nullable_unique := by decide

theorem Production.yields {name : String} {clauses : List (Clause RuleToken)} {taking : Taking Part}
    {kinds : List RuleToken} (hproduction : Production name clauses taking)
    (hyields : grammar.Yields clauses kinds) :
    grammar.Yields [.nonTerminal name .rule false] kinds := by
  obtain ⟨rule, hrule, rfl⟩ := hproduction.exists_rule
  exact Grammar.yields_nonTerminal_iff.2 ⟨rule, hrule, hyields⟩

/-- A mark for discarding may be there or not. -/
theorem yields_discards (discarded : Bool) :
    grammar.Yields [.option (.terminal .discard false) false]
      ((discards discarded).map Prod.fst) := by
  cases discarded with
  | false => exact .absent .nil
  | true => exact .present (.terminal .nil) .nil

/-- Marks stand behind a clause in the order modifier, mark for discarding. -/
theorem yields_marks (modifier : Option Modifier) (discarded : Bool) :
    grammar.Yields [.option (.nonTerminal "modifier" .rule false) false,
      .option (.terminal .discard false) false]
      ((marks modifier discarded).map Prod.fst) := by
  cases modifier with
  | none => exact .absent (yields_discards discarded)
  | some modifier =>
    have hmodifier := (Production.modifier modifier).yields (.terminal .nil)
    exact .present hmodifier (yields_discards discarded)

/-- What can be marked is a clause together with its marks. -/
theorem yields_marked {kinds : List RuleToken}
    (hatom : grammar.Yields [.nonTerminal "atom" .rule false] kinds) (modifier : Option Modifier)
    (discarded : Bool) :
    grammar.Yields [.nonTerminal "clause" .rule false]
      (kinds ++ (marks modifier discarded).map Prod.fst) :=
  Production.clause.yields (hatom.append (yields_marks modifier discarded))

/-- Alternatives are names with bars in front. -/
theorem yields_alternatives (names : List String) :
    ∃ items : List (List RuleToken), (∀ item ∈ items,
      grammar.Yields [.nonTerminal "alternative" .rule false] item) ∧
      (names.flatMap fun name => [sign .or, nameWord name]).map Prod.fst = items.flatten := by
  induction names with
  | nil => exact ⟨[], nofun, rfl⟩
  | cons name rest ih =>
    obtain ⟨items, hitems, hkinds⟩ := ih
    have hname := Production.alternative.yields (.terminal (.terminal .nil))
    exact ⟨_ :: items, List.forall_mem_cons.2 ⟨hname, hitems⟩,
      by rw [List.flatMap_cons, List.map_append, hkinds]; rfl⟩

mutual

/-- The words of a clause are of kinds that the grammar has in this order. -/
theorem ClauseText.IsProper.yields : ∀ {clause : ClauseText}, clause.IsProper →
    grammar.Yields [.nonTerminal "clause" .rule false] (clause.words.map Prod.fst)
  | .name _ modifier discarded, _ => yields_marked (Production.name.yields (.terminal .nil))
      modifier discarded
  | .group clauses modifier discarded, hproper => by
    obtain ⟨items, hlength, hitems, hkinds⟩ := AreProper.exists_items hproper.2
    have hne : items ≠ [] := by
      rw [← List.length_pos_iff, hlength]
      exact List.length_pos_iff.2 hproper.1
    have hgroup := Production.group.yields (.terminal (.oneOrMore hne hitems (.terminal .nil)))
    simpa [ClauseText.words, hkinds] using yields_marked hgroup modifier discarded
  | .choice names modifier discarded, hproper => by
    obtain ⟨first, rest, rfl⟩ := List.exists_cons_of_ne_nil hproper
    obtain ⟨items, hitems, hkinds⟩ := yields_alternatives rest
    have hchoice := Production.choice.yields
      (.terminal (.terminal (.zeroOrMore hitems (.terminal .nil))))
    simpa [ClauseText.words, alternatives, hkinds] using yields_marked hchoice modifier discarded

theorem AreProper.exists_items : ∀ {clauses : List ClauseText}, AreProper clauses →
    ∃ items : List (List RuleToken), items.length = clauses.length ∧
      (∀ item ∈ items, grammar.Yields [.nonTerminal "clause" .rule false] item) ∧
        (wordsOfAll clauses).map Prod.fst = items.flatten
  | [], _ => ⟨[], rfl, nofun, rfl⟩
  | clause :: rest, hproper => by
    obtain ⟨items, hlength, hitems, hkinds⟩ := AreProper.exists_items hproper.2
    exact ⟨_ :: items, congrArg (· + 1) hlength,
      List.forall_mem_cons.2 ⟨ClauseText.IsProper.yields hproper.1, hitems⟩,
      by rw [wordsOfAll, List.map_append, hkinds, List.flatten_cons]⟩

end

/-- The words of a rule are of kinds that the grammar of rule notation has in this order. -/
theorem RuleSyntax.IsProper.yields {rule : RuleSyntax} (hproper : rule.IsProper) :
    grammar.Yields [.ofName "rule"] (rule.words.map Prod.fst) := by
  obtain ⟨items, -, hitems, hkinds⟩ := AreProper.exists_items hproper
  have hrule := Production.rule.yields (.terminal (.terminal (.zeroOrMore hitems .nil)))
  simpa [RuleSyntax.words, hkinds, Clause.ofName] using hrule

end Words

section Tokens

variable {text : String} {words : List Word} {found tokens : List (Token RuleToken)}
    {last : Token RuleToken}

/-- The words of tokens are told by what the tokens say. -/
theorem wordsOf_eq_of_content (hcontent : tokens.map Token.content = found.map Token.content) :
    wordsOf tokens = wordsOf found := by
  have hwords (tokens : List (Token RuleToken)) :
      wordsOf tokens = (tokens.map Token.content).filterMap fun content => content.1.map fun kind =>
        (kind, content.2.2) := by
    rw [List.filterMap_map]
    rfl
  rw [hwords, hwords, hcontent]

/-- The kinds of the words are those of the tokens. -/
theorem map_fst_wordsOf (tokens : List (Token RuleToken)) :
    (wordsOf tokens).map Prod.fst = tokens.filterMap Token.kind := by
  simp [wordsOf, List.map_filterMap, Option.map_map, Function.comp_def]

/-- The tokens that are matched are those of the text, with one behind them that
    marks the end. -/
theorem exists_tokens (hfound : tokensFrom .start text.toList = .ok found) :
    ∃ tokens last, parser.tokens text = .ok (tokens ++ [last]) ∧
      Matching.EndsOnce (tokens ++ [last]).toArray ∧
      wordsOf tokens = wordsOf found := by
  obtain ⟨-, hplain⟩ := tokenizes_of_tokensFrom hfound
  have hcontent : (Parser.numbered found).map Token.content = found.map Token.content := by
    rw [Lexer.seen_numbered, Lexer.seen, List.filter_eq_self.2 fun token htoken => by
      simp [(hplain token htoken).1]]
  have hkinds := Lexer.isSome_kind_of_mem_numbered fun token htoken => (hplain token htoken).2
  have htokenize : parser.lexer.tokenize text = .ok (withEndOfStream found) :=
    congrArg (fun scanned => Except.mapError TokenizeError.lexical
      (Except.map withEndOfStream scanned)) hfound
  obtain ⟨last, htokens, hend, -⟩ := Lexer.exists_tokens_of_tokenize htokenize
  exact ⟨_, last, htokens, .concat hkinds hend, wordsOf_eq_of_content hcontent⟩

/-- Every word of a text is written as the words of its kind are. -/
theorem Tokenizes.areSpelled {chars : List Char} (htext : Tokenizes chars words) :
    AreSpelled words := by
  induction htext with
  | nil => exact nofun
  | blank _ _ ih => exact ih
  | @word kind word _ _ hlongest _ ih =>
    refine List.forall_mem_cons.2 ⟨?_, ih⟩
    have hmatch := hlongest.isMatch
    rw [RuleToken.Matches] at hmatch
    rw [spelled]
    split at hmatch
    · next text htext => rw [htext, hmatch, String.ofList_toList, Option.getD_some]
    · next htext => rw [htext, Option.getD_none]

/-- No text is made of different words. -/
theorem Tokenizes.unique {chars : List Char} {others : List Word} (hwords : Tokenizes chars words)
    (hothers : Tokenizes chars others) : words = others := by
  obtain ⟨tokens, htokens, rfl⟩ := hwords.exists_tokensFrom .start
  obtain ⟨found, hfound, rfl⟩ := hothers.exists_tokensFrom .start
  rw [Except.ok.inj (htokens.symm.trans hfound)]

end Tokens

section Reading

variable {text : String} {tree : SyntaxTree RuleToken} {rule : RuleSyntax}
    {tokens : List (Token RuleToken)} {last : Token RuleToken}

theorem isClosed_grammar : grammar.IsClosed := by decide

theorem rulesOf_grammar : grammar.rulesOf "rule" ≠ [] := by
  obtain ⟨rule, hrule, -⟩ := Production.rule.exists_rule
  exact List.ne_nil_of_mem (Grammar.mem_rules_iff_mem_rulesOf.1 hrule)

theorem contains_grammar : grammar.contains "rule" = true := by
  rw [Grammar.contains, Option.isSome_iff_ne_none, Ne, Grammar.find?_eq_none_iff, not_not]
  exact not_imp_comm.1 Grammar.rulesOf_eq_nil rulesOf_grammar

/-- A text that is not cut into tokens has no tree. -/
theorem syntaxTree_eq_error {error : LexicalError}
    (htokens : parser.tokens text = .error (.lexical error)) :
    parser.syntaxTree text = .error (.lexical error) := by
  have hstart : parser.grammar.contains parser.grammar.start = true := contains_grammar
  rw [Parser.syntaxTree, Parser.syntaxTreeFrom, if_pos hstart, htokens]
  rfl

/-- Tokens that are not matched have no tree. -/
theorem syntaxTree_eq_failure {failure : Matching.Failure RuleToken}
    (htokens : parser.tokens text = .ok tokens)
    (hparse : Matching.parse grammar tokens.toArray parser.options.memoize "rule" =
      .error failure) :
    parser.syntaxTree text = .error (.ofFailure failure) := by
  have hstart : parser.grammar.contains parser.grammar.start = true := contains_grammar
  have hfailure : Matching.parse parser.grammar tokens.toArray parser.options.memoize
      parser.grammar.start = .error failure := hparse
  rw [Parser.syntaxTree, Parser.syntaxTreeFrom, if_pos hstart, htokens]
  simp only [hfailure]

/-- Tokens that are matched have a tree. -/
theorem syntaxTree_eq_ok (htokens : parser.tokens text = .ok tokens)
    (hparse : Matching.parse grammar tokens.toArray parser.options.memoize "rule" = .ok tree) :
    parser.syntaxTree text = .ok (tree.normalize grammar) := by
  have hstart : parser.grammar.contains parser.grammar.start = true := contains_grammar
  have htree : Matching.parse parser.grammar tokens.toArray parser.options.memoize
      parser.grammar.start = .ok tree := hparse
  rw [Parser.syntaxTree, Parser.syntaxTreeFrom, if_pos hstart, htokens]
  simp only [htree]
  rfl

/-- A text without a tree is not read. -/
theorem readSyntax_eq_error {error : ParseError RuleToken}
    (htree : parser.syntaxTree text = .error error) :
    readSyntax text = .error (.invalid text error) := by
  rw [Parser.syntaxTree] at htree
  rw [readSyntax, Parser.parse, Parser.parseWith, Parser.parseFrom, htree]

/-- A text whose tree is reduced to a rule is read as this rule. -/
theorem readSyntax_eq_ok (htree : parser.syntaxTree text = .ok tree)
    (hmakes : Reduction.Makes grammar tree (.value (.rule rule))) : readSyntax text = .ok rule := by
  have hreduce : (Reduction.reduce parser.grammar tree).run.run default =
      (.ok (.rule rule), default) :=
    hmakes.yields_reduce default
  rw [Parser.syntaxTree] at htree
  rw [readSyntax, Parser.parse, Parser.parseWith, Parser.parseFrom, htree]
  simp only [hreduce]

/-- A tree that is found is reduced to a rule whose words are those of the tokens. -/
theorem exists_rule_of_parse {memoize : Bool} (hends : Matching.EndsOnce (tokens ++ [last]).toArray)
    (hspelled : AreSpelled (wordsOf tokens))
    (hparse : Matching.parse grammar (tokens ++ [last]).toArray memoize "rule" = .ok tree) :
    tree.normalize grammar = tree ∧ ∃ rule : RuleSyntax, rule.IsProper ∧
      rule.words = wordsOf tokens ∧
      Reduction.Makes grammar tree (.value (.rule rule)) := by
  have hvalue := (Matching.parse_eq_ok_iff isFlat_grammar leftRecursions_grammar hends).1 hparse
  have hreads := Matching.Plain.outcome_sound _ _ _ _ hvalue
  have hleaves : SyntaxTree.leavesIn [tree] = tokens := by simpa using hreads.spans.eq_dropLast
  have hplain (entry : String × Rule RuleToken PartReducer) (hentry : entry ∈ grammar.rules) :=
    exists_production hentry
  have hnormal := hreads.derives.normalizeEach_eq (fun entry hentry => (hplain entry hentry).2.1)
    fun entry hentry => (hplain entry hentry).2.2.1
  obtain _ | ⟨hrepresents, _⟩ := represents_of_derives hreads.derives
    (by simp [isSimple, Clause.ofName]) (hleaves ▸ hspelled)
  obtain ⟨-, part, hmakes, hpart, hwords⟩ := hrepresents.exists_part
  obtain ⟨rule, rfl, hproper⟩ := hpart.exists_rule
  rw [SyntaxTree.leavesIn_singleton] at hleaves
  exact ⟨(List.cons.inj hnormal).1, rule, hproper, by rw [← hleaves, hwords]; rfl, hmakes⟩

/-- Tokens whose words are those of a rule are matched. -/
theorem exists_parse_of_isProper {memoize : Bool}
    (hends : Matching.EndsOnce (tokens ++ [last]).toArray) (hproper : rule.IsProper)
    (hwords : rule.words = wordsOf tokens) :
    ∃ tree, Matching.parse grammar (tokens ++ [last]).toArray memoize "rule" = .ok tree := by
  rw [Matching.exists_parse_eq_ok_iff isFlat_grammar leftRecursions_grammar hends]
  have hkinds : kindsFrom (tokens ++ [last]).toArray 0 = rule.words.map Prod.fst := by
    rw [hends.kindsFrom_zero, hwords, map_fst_wordsOf, List.dropLast_concat]
  have hlength : (rule.words.map Prod.fst).length = (tokens ++ [last]).toArray.size - 1 := by
    rw [← hends.length_kinds, ← hends.kindsFrom_zero, hkinds]
  have hreaches := Matching.Plain.reaches_of_yields isFlat_grammar (Grammar.isAnalysed_analyse _)
    isFollowed_grammar.isLL1 hends Matching.Plain.outcome_sound
    (fun name position _ => Matching.Plain.outcome_eq_attempt leftRecursions_grammar name position)
    hproper.yields (by simp [Clause.ofName, Clause.isFlat]) .start .nil hends.size_pos
    (by rw [hkinds, List.append_nil])
  rwa [hlength, Nat.zero_add] at hreaches

/-- A text is read as the rule whose words it consists of, or it is rejected and
    there is none. -/
theorem readSyntax_cases (text : String) :
    (∃ rule, readSyntax text = .ok rule ∧ rule.IsProper ∧ Tokenizes text.toList rule.words) ∨
      (¬ ∃ rule : RuleSyntax, rule.IsProper ∧ Tokenizes text.toList rule.words) ∧
        ∃ error, readSyntax text = .error (.invalid text error) ∧
          ((∃ failure, error = .lexical failure) ∨ ∃ token expected,
            error = .unexpectedToken token expected) := by
  cases hfound : tokensFrom .start text.toList with
  | error failure =>
    refine Or.inr ⟨?_, .lexical failure, readSyntax_eq_error (syntaxTree_eq_error ?_),
      Or.inl ⟨failure, rfl⟩⟩
    · rintro ⟨rule, -, htext⟩
      obtain ⟨tokens, htokens, -⟩ := htext.exists_tokensFrom .start
      cases hfound.symm.trans htokens
    · exact congrArg (fun scanned =>
        Except.map Parser.numbered (Except.mapError TokenizeError.lexical
          (Except.map withEndOfStream scanned))) hfound
  | ok found =>
    obtain ⟨htext, -⟩ := tokenizes_of_tokensFrom hfound
    obtain ⟨tokens, last, htokens, hends, hwords⟩ := exists_tokens hfound
    rw [← hwords] at htext
    cases hparse : Matching.parse grammar (tokens ++ [last]).toArray parser.options.memoize "rule"
      with
    | ok tree =>
      obtain ⟨hnormal, rule, hproper, hrule, hmakes⟩ :=
        exists_rule_of_parse hends htext.areSpelled hparse
      have htree := syntaxTree_eq_ok htokens hparse
      rw [hnormal] at htree
      exact Or.inl ⟨rule, readSyntax_eq_ok htree hmakes, hproper, hrule ▸ htext⟩
    | error failure =>
      obtain ⟨_, token, expected, rfl, -⟩ :=
        Matching.Run.exists_reports isFlat_grammar leftRecursions_grammar
        isClosed_grammar hends rulesOf_grammar hparse
      refine Or.inr ⟨?_, .unexpectedToken token expected,
        readSyntax_eq_error (syntaxTree_eq_failure htokens hparse), Or.inr ⟨token, expected, rfl⟩⟩
      rintro ⟨rule, hproper, hsame⟩
      obtain ⟨tree, htree⟩ := exists_parse_of_isProper hends hproper (hsame.unique htext)
      cases hparse.symm.trans htree

/-- What is read is a rule that has groups and choices with members only and
    consists of the words of the text, and no other rule does. -/
theorem readSyntax_eq_ok_iff_tokenizes {text : String} :
    readSyntax text = .ok rule ↔ rule.IsProper ∧ Tokenizes text.toList rule.words := by
  rcases readSyntax_cases text with ⟨other, hread, hother, htext⟩ | ⟨hnone, error, hread, -⟩
  · rw [hread, Except.ok.injEq]
    constructor
    · rintro rfl
      exact ⟨hother, htext⟩
    · rintro ⟨hproper, hsame⟩
      exact RuleSyntax.eq_of_words_eq hother hproper (htext.unique hsame)
  · rw [hread]
    exact iff_of_false nofun fun hrule => hnone ⟨rule, hrule⟩

/-- Exactly the texts that consist of the words of a rule are read, as the only
    rule with these words. Every other text is rejected with an error that names
    a character or a token that does not belong there. -/
theorem readSyntax_accepts (text : String) :
    (∀ rule, readSyntax text = .ok rule ↔ rule.IsProper ∧ Tokenizes text.toList rule.words) ∧
      (∀ rule other : RuleSyntax, rule.IsProper → other.IsProper → rule.words = other.words →
        rule = other) ∧
        ((¬ ∃ rule : RuleSyntax, rule.IsProper ∧ Tokenizes text.toList rule.words) →
          ∃ problem, readSyntax text = .error problem ∧ problem.diagnostic.level = .error ∧
            problem.diagnostic.code = .ruleParsing ∧
            ∃ error, problem = .invalid text error ∧
              ((∃ failure, error = .lexical failure) ∨ ∃ token expected,
                error = .unexpectedToken token expected)) := by
  refine ⟨fun rule => readSyntax_eq_ok_iff_tokenizes, fun _ _ => RuleSyntax.eq_of_words_eq,
    fun hnone => ?_⟩
  rcases readSyntax_cases text with ⟨rule, -, hrule⟩ | ⟨-, error, hread, herror⟩
  · exact absurd ⟨rule, hrule⟩ hnone
  · exact ⟨_, hread, rfl, rfl, error, rfl, herror⟩

end Reading

end GrammarKit.RuleText
