import GrammarKit.Proofs.Lexer.Kinds
import GrammarKit.Proofs.Lexer.Spacing
import GrammarKit.Proofs.Matching.Faultless
import GrammarKit.Proofs.Parser.Built

namespace GrammarKit.Parser

variable {K O C : Type} [DecidableEq K] [TokenKind K] {lexemes : List (K × Lexer.Declaration K)}
    {lexing : LexerOptions} {lexer : Lexer K} {declarations : List (Declaration K O C)}
    {operations : List (Operation K (Reducer K O C))} {options : ParserOptions} {start : String}
    {parser : Parser K O C}

/-- A parser has the lexer that it was built with. -/
theorem lexer_of_build
    (hbuild : (build lexer declarations operations options start).value = some parser) :
    parser.lexer = lexer := by
  obtain ⟨hparser, -⟩ := BuildResult.of_value_eq_some hbuild
  obtain rfl := Option.some.inj hparser
  rfl

/-- The tokens that are matched have kinds, up to the last one. -/
theorem endsOnce_tokens (hlexer : (Lexer.build lexemes lexing).value = some parser.lexer)
    (hleaves : Lexer.LeavesKinds (lexemes.filterMap Lexer.Declaration.family?) lexing)
    {source : String} {tokens : List (Token K)} (htokens : parser.tokens source = .ok tokens) :
    Matching.EndsOnce tokens.toArray := by
  obtain ⟨scanned, hscanned, -⟩ := Lexer.exists_of_map_eq_ok htokens
  obtain ⟨found, rfl, hkinds⟩ := Lexer.exists_kinded_of_tokenize hlexer hleaves hscanned
  obtain ⟨last, hnumbered, hend, -⟩ := Lexer.exists_tokens_of_tokenize hscanned
  obtain rfl := Except.ok.inj (htokens.symm.trans hnumbered)
  exact .concat (Lexer.isSome_kind_of_mem_numbered hkinds) hend

/-- Reading a text ends with its tree, or with a token that does not belong
    where it is, with a character that belongs to no token, or with a literal
    that an extension has led to and that cannot be cut. It never ends because
    non-terminals are nested too deeply, because the grammar is not flat, or
    because there is no token at some place. -/
theorem syntaxTreeFrom_ne_fault (hlexer : (Lexer.build lexemes lexing).value = some lexer)
    (hleaves : Lexer.LeavesKinds (lexemes.filterMap Lexer.Declaration.family?) lexing)
    (hbuild : (build lexer declarations operations options start).value = some parser)
    (source first : String) (fault : Matching.Fault) :
    parser.syntaxTreeFrom source first ≠ .error (.fault fault) := by
  obtain ⟨operand, hbuilt⟩ := exists_isBuilt hbuild
  obtain rfl := lexer_of_build hbuild
  unfold syntaxTreeFrom
  split
  · split
    · next error herror => cases error <;> exact nofun
    · next tokens htokens =>
      have hends := endsOnce_tokens hlexer hleaves htokens
      have hmatched := Matching.parse_ne_fault hbuilt.isFlat hbuilt.leftRecursions_eq hends
        parser.options.memoize first
      split
      · next failure hfailure =>
        cases failure with
        | unexpected token expected => exact nofun
        | fault cause => exact absurd hfailure (hmatched cause)
      · exact nofun
  · exact nofun

/-- Nor does a text lack a value for such a reason. An action that fails is
    reported as a failure of the reduction. -/
theorem parseFrom_ne_fault (hlexer : (Lexer.build lexemes lexing).value = some lexer)
    (hleaves : Lexer.LeavesKinds (lexemes.filterMap Lexer.Declaration.family?) lexing)
    (hbuild : (build lexer declarations operations options start).value = some parser)
    (source first : String) (context : C) (fault : Matching.Fault) :
    (parser.parseFrom source first context).1 ≠ .error (.fault fault) := by
  have htree := syntaxTreeFrom_ne_fault hlexer hleaves hbuild source first fault
  unfold parseFrom
  split
  · next error herror =>
    rw [herror] at htree
    exact fun heq => htree (congrArg _ (Except.error.inj heq))
  · split <;> exact nofun

end GrammarKit.Parser
