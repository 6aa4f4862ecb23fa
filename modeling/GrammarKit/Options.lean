import GrammarKit.CharRange
import GrammarKit.Text.Record

namespace GrammarKit

/-- The shape of identifiers: which characters can begin one, and which can follow. -/
inductive IdentifierShape where
  | alpha
  | alphaNumeric
  | alphaNumericDash
  | custom (start rest : List CharRange)
  deriving DecidableEq, Repr

namespace IdentifierShape

def startRanges : IdentifierShape → List CharRange
  | alpha | alphaNumeric => [('a', 'z'), ('A', 'Z')]
  | alphaNumericDash => [('a', 'z'), ('A', 'Z'), ('_', '_')]
  | custom start _ => start

def restRanges : IdentifierShape → List CharRange
  | alpha => [('a', 'z'), ('A', 'Z')]
  | alphaNumeric => [('a', 'z'), ('A', 'Z'), ('0', '9')]
  | alphaNumericDash => [('a', 'z'), ('A', 'Z'), ('0', '9'), ('_', '_'), ('-', '-')]
  | custom _ rest => rest

/-- Whether the whole text is one identifier. -/
def accepts (shape : IdentifierShape) : List Char → Bool
  | first :: rest => inRanges shape.startRanges first && rest.all (inRanges shape.restRanges)
  | [] => false

private def showRanges (ranges : List CharRange) : String :=
  Text.showList (ranges.map fun (first, last) =>
    Text.showTuple [Text.quoteChar first, Text.quoteChar last])

def inspect : IdentifierShape → String
  | alpha => "Alpha"
  | alphaNumeric => "AlphaNumeric"
  | alphaNumericDash => "AlphaNumericDash"
  | custom start rest =>
    Text.showRecord "Custom" [("start", showRanges start), ("rest", showRanges rest)]

end IdentifierShape

/-- What a lexer skips between tokens, and how it reads words and numbers. -/
structure LexerOptions where
  ignoreWhitespace : Bool := true
  whitespace : List Char := [' ', '\t']
  ignoreEol : Bool := true
  keywordIgnoreCase : Bool := false
  identifier : IdentifierShape := .alphaNumeric
  decimalSeparator : Char := '.'
  deriving DecidableEq, Repr, Inhabited

/-- Whether rule texts are plain productions or may use groups, choices and repetition. -/
inductive Dialect where
  | bnf
  | ebnf
  deriving DecidableEq, Repr

def Dialect.inspect : Dialect → String
  | bnf => "Bnf"
  | ebnf => "Ebnf"

structure ParserOptions where
  dialect : Dialect := .ebnf
  expressionRoot : String := "expressions"
  memoize : Bool := true
  deriving DecidableEq, Repr, Inhabited

def ParserOptions.inspect (options : ParserOptions) : String :=
  Text.showRecord "ParserOptions"
    [("parser_type", options.dialect.inspect),
     ("expression_root", Text.quoteString options.expressionRoot),
     ("memoize", Text.showBool options.memoize)]

end GrammarKit
