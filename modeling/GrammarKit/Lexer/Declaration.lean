import GrammarKit.Lexer.PatternLexer
import GrammarKit.Lexer.Tokens
import GrammarKit.Pattern.Reader

namespace GrammarKit.Lexer

variable {K : Type}

/-- How a kind of token is recognised. -/
inductive Declaration (K : Type) where
  | pattern (declared : PatternDeclaration)
  | family (declared : Family K)

namespace Declaration

def pattern? : K × Declaration K → Option (K × PatternDeclaration)
  | (kind, pattern declared) => some (kind, declared)
  | (_, family _) => none

def family? : K × Declaration K → Option (K × Family K)
  | (kind, family declared) => some (kind, declared)
  | (_, pattern _) => none

end Declaration

variable [DecidableEq K] [TokenKind K]

private def noLexeme : Diagnostic where
  level := .fatal
  code := .lexerEmpty
  message := "no lexeme declared"

private def mixedStyles (kinds : List K) : Diagnostic where
  level := .fatal
  code := .lexerMixedStyles
  message :=
    let names := ", ".intercalate (kinds.map TokenKind.name)
    s!"regex lexemes ({names}) cannot be mixed with generic lexemes"

/-- Builds the lexer that a list of declarations describes, either from families
    or from regular expressions; the two cannot be mixed. -/
def build (declarations : List (K × Declaration K)) (options : LexerOptions) :
    BuildResult (Lexer K) :=
  let patterns := declarations.filterMap Declaration.pattern?
  let families := declarations.filterMap Declaration.family?
  if declarations.isEmpty then .failed [noLexeme]
  else if patterns.isEmpty then
    (FamilyLexer.build families options).map fun lexer => ⟨lexer.tokenize⟩
  else if families.isEmpty then
    (PatternLexer.build Pattern.compile? patterns).map fun lexer =>
      ⟨fun source => (lexer.tokenize source).mapError .lexical⟩
  else .failed [mixedStyles (patterns.map Prod.fst)]

end GrammarKit.Lexer
