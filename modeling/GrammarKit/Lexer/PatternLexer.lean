import GrammarKit.Diagnostic
import GrammarKit.Lexer
import GrammarKit.Text.Occurrence

namespace GrammarKit.Lexer

variable {K : Type}

/-- How a kind is recognised by an expression, whether its matches are dropped,
    and whether they move on to the next line. -/
structure PatternDeclaration where
  pattern : String
  skip : Bool := false
  lineEnding : Bool := false
  deriving DecidableEq, Repr

/-- A declared kind with the finder that its expression was compiled to. -/
structure Lexeme (K : Type) where
  kind : K
  find : Finder
  skip : Bool
  lineEnding : Bool

structure PatternLexer (K : Type) where
  lexemes : List (Lexeme K)

/-- The better of what was found before and what a lexeme finds: everything up
    to the end of the match, which must be longer, and not empty. -/
def Lexeme.improve (text : List Char) (best : Option (Lexeme K × List Char)) (lexeme : Lexeme K) :
    Option (Lexeme K × List Char) :=
  match lexeme.find text with
  | some occurrence =>
    if byteSize occurrence.upToEnd = 0 then best
    else if best.all fun (_, other) => byteSize other < byteSize occurrence.upToEnd then
      some (lexeme, occurrence.upToEnd)
    else best
  | none => best

/-- The position after a match. -/
def Lexeme.advance (lexeme : Lexeme K) (position : Position) (matched : List Char) : Position :=
  if lexeme.lineEnding then ⟨position.index + byteSize matched, position.line + 1, 0⟩
  else position.advanceOver matched

namespace PatternLexer

/-- The longest match of all lexemes at the start of a text and the lexeme it
    belongs to, of several the one declared first; empty matches do not
    count. -/
def longestMatch (lexer : PatternLexer K) (text : List Char) : Option (Lexeme K × List Char) :=
  lexer.lexemes.foldl (Lexeme.improve text) none

/-- The longest match takes something. -/
theorem longestMatch_ne_nil {lexer : PatternLexer K} {text : List Char} {lexeme : Lexeme K}
    {matched : List Char} (h : lexer.longestMatch text = some (lexeme, matched)) :
    matched ≠ [] := by
  have hfold (lexemes : List (Lexeme K)) (best : Option (Lexeme K × List Char))
      (hbest : ∀ found ∈ best, found.2 ≠ []) :
      ∀ found ∈ lexemes.foldl (Lexeme.improve text) best, found.2 ≠ [] := by
    induction lexemes generalizing best with
    | nil => exact hbest
    | cons lexeme rest ih =>
      refine ih _ fun found hfound => ?_
      unfold Lexeme.improve at hfound
      split at hfound
      · split at hfound
        · exact hbest found hfound
        · next hne =>
          split at hfound
          · obtain rfl := Option.mem_some.1 hfound
            exact fun hnil => hne (congrArg byteSize hnil)
          · exact hbest found hfound
      · exact hbest found hfound
  exact hfold lexer.lexemes none (by simp) _ h

/-- The tokens of a text that starts at `position`, without the end of the stream. -/
def tokensFrom (lexer : PatternLexer K) (position : Position) (text : List Char) :
    Except LexicalError (List (Token K)) :=
  match text with
  | [] => .ok []
  | c :: rest =>
    match _hmatch : lexer.longestMatch (c :: rest) with
    | none => .error ⟨c, position⟩
    | some (lexeme, matched) =>
      let later := lexer.tokensFrom (lexeme.advance position matched)
        ((c :: rest).drop matched.length)
      if lexeme.skip then later
      else later.map fun tokens => .ofSpan lexeme.kind (String.ofList matched) position :: tokens
termination_by text.length
decreasing_by
  have hpos := List.length_pos_iff.2 (longestMatch_ne_nil _hmatch)
  simp only [List.length_drop, List.length_cons]
  omega

def tokenize (lexer : PatternLexer K) (source : String) : Except LexicalError (List (Token K)) :=
  (lexer.tokensFrom .start source.toList).map withEndOfStream

/-- The expression is compiled inside a group that is tied to the start of the text. -/
def anchored (pattern : String) : List Char :=
  "^(?:".toList ++ pattern.toList ++ [')']

/-- The lexeme of a declaration, unless its expression is not one. -/
def lexeme? (compile : List Char → Option Finder) (kind : K) (declaration : PatternDeclaration) :
    Option (Lexeme K) :=
  (compile (anchored declaration.pattern)).map fun find =>
    ⟨kind, find, declaration.skip, declaration.lineEnding⟩

variable [DecidableEq K] [TokenKind K]

def invalid (kind : K) (declaration : PatternDeclaration) : Diagnostic where
  level := .fatal
  code := .lexerInvalidRegex
  message := s!"pattern {Text.quoteString declaration.pattern} for {TokenKind.name kind} is invalid"

/-- Compiles all expressions; every one that cannot be compiled is reported. -/
def build (compile : List Char → Option Finder) (declarations : List (K × PatternDeclaration)) :
    BuildResult (PatternLexer K) :=
  let lexemes := declarations.filterMap fun (kind, declaration) => lexeme? compile kind declaration
  let problems := declarations.filterMap fun (kind, declaration) =>
    if (lexeme? compile kind declaration).isSome then none else some (invalid kind declaration)
  .of (some ⟨lexemes⟩) problems

end PatternLexer

end GrammarKit.Lexer
