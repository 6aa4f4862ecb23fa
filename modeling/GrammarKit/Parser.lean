import GrammarKit.Lexer
import GrammarKit.Matching
import GrammarKit.Options
import GrammarKit.Reduction
import GrammarKit.SyntaxTree.Normal

namespace GrammarKit

/-- Why a text is not parsed. -/
inductive ParseError (K : Type) [DecidableEq K] [TokenKind K] where
  | lexical (error : LexicalError)
  | miscut (cause : Miscut)
  /-- A token where one of the `expected` kinds could have stood, or only the
      end of the text. -/
  | unexpectedToken (token : Token K) (expected : KindSet K)
  | reduction (failure : ReductionFailure)
  | unknownStart (name : String)
  | fault (fault : Matching.Fault)

namespace ParseError

variable {K : Type} [DecidableEq K] [TokenKind K]

def position? : ParseError K → Option Position
  | lexical error => some error.position
  | unexpectedToken token _ => some token.position
  | miscut _ | reduction _ | unknownStart _ | fault _ => none

def ofTokenize : TokenizeError → ParseError K
  | .lexical error => lexical error
  | .miscut cause => miscut cause

def ofFailure : Matching.Failure K → ParseError K
  | .unexpected token expected => unexpectedToken token expected
  | .fault cause => fault cause

private def foundText (token : Token K) : String :=
  match token.kind with
  | some kind => s!"{TokenKind.name kind} '{token.value}'"
  | none => "end of stream"

private def expectedText (expected : KindSet K) : String :=
  if expected.toList.isEmpty then "end of input" else ", ".intercalate expected.names

def message : ParseError K → String
  | lexical error => error.message
  | miscut cause => s!"cut inside a character of {Text.quoteString cause.text}"
  | unexpectedToken token expected =>
    s!"unexpected {foundText token} at {token.position.describe}, expecting {expectedText expected}"
  | reduction failure => failure.message
  | unknownStart name => s!"no non terminal named {name}"
  | fault .tooDeep => "non terminals are nested too deeply"
  | fault .notFlat => "the grammar has groups or choices without a name"
  | fault (.outOfRange index) => s!"no token at index {index}"

end ParseError

/-- A lexer and a flat, analysed grammar. -/
structure Parser (K O C : Type) [DecidableEq K] [TokenKind K] where
  lexer : Lexer K
  grammar : Grammar K (Reducer K O C)
  options : ParserOptions

namespace Parser

variable {K O C : Type} [DecidableEq K] [TokenKind K]

/-- Drops comments and numbers what is left. -/
def numbered (tokens : List (Token K)) : List (Token K) :=
  (tokens.filter fun token => !token.isComment).mapIdx fun index token =>
    { token with streamIndex := index }

/-- The tokens that are matched against the grammar. -/
def tokens (parser : Parser K O C) (source : String) : Except TokenizeError (List (Token K)) :=
  (parser.lexer.tokenize source).map numbered

/-- The normal tree of a text that is read as the non-terminal `start`. -/
def syntaxTreeFrom (parser : Parser K O C) (source start : String) :
    Except (ParseError K) (SyntaxTree K) :=
  if parser.grammar.contains start then
    match parser.tokens source with
    | .error error => .error (.ofTokenize error)
    | .ok tokens =>
      match Matching.parse parser.grammar tokens.toArray parser.options.memoize start with
      | .error failure => .error (.ofFailure failure)
      | .ok tree => .ok (tree.normalize parser.grammar)
  else .error (.unknownStart start)

def syntaxTree (parser : Parser K O C) (source : String) : Except (ParseError K) (SyntaxTree K) :=
  parser.syntaxTreeFrom source parser.grammar.start

/-- The value of a text that is read as the non-terminal `start`, and the
    context after all actions that were run. -/
def parseFrom (parser : Parser K O C) (source start : String) (context : C) :
    Except (ParseError K) O × C :=
  match parser.syntaxTreeFrom source start with
  | .error error => (.error error, context)
  | .ok tree =>
    match (Reduction.reduce parser.grammar tree).run.run context with
    | (.ok value, after) => (.ok value, after)
    | (.error failure, after) => (.error (.reduction failure), after)

def parseWith (parser : Parser K O C) (source : String) (context : C) :
    Except (ParseError K) O × C :=
  parser.parseFrom source parser.grammar.start context

/-- The value of a text, where actions begin with the default context. -/
def parse [Inhabited C] (parser : Parser K O C) (source : String) : Except (ParseError K) O :=
  (parser.parseWith source default).1

def inspect (parser : Parser K O C) : String :=
  Text.showRecord "Parser"
    [("configuration", parser.grammar.inspect), ("options", parser.options.inspect)]

end Parser

end GrammarKit
