import GrammarKit.Diagnostic
import GrammarKit.Lexer.Family
import GrammarKit.Text.Alphanumeric

namespace GrammarKit.Lexer

/-- What is wrong with a list of declarations. -/
inductive Problem (K : Type) where
  | duplicateFamily (first second : K) (family : String)
  | duplicateDelimiter (delimiter : Char) (first second : K)
  | letterDelimiter (delimiter : Char) (kind : K)
  | letterSugar (text : String) (kind : K)
  | delimiterSugar (text : String) (kind : K)
  | duplicateSugar (text : String)
  | letterComment (marker : String) (kind : K)
  | keywordShape (word : String) (kind : K) (shape : IdentifierShape)
  | extension (kind : K) (error : Automaton.UnknownMark)
  | assembly (error : Automaton.UnknownMark)
  | commentTaken (marker : String) (kind : K)

namespace Problem

variable {K : Type}

def code : Problem K → Code
  | duplicateFamily .. => .lexerDuplicateFamily
  | duplicateDelimiter .. => .lexerDuplicateDelimiter
  | letterDelimiter .. => .lexerLetterDelimiter
  | letterSugar .. => .lexerLetterDelimiter
  | delimiterSugar .. => .lexerSugarConflict
  | duplicateSugar .. => .lexerDuplicateSugar
  | letterComment .. => .lexerLetterDelimiter
  | keywordShape .. => .lexerKeywordNotIdentifier
  | extension .. => .lexerExtension
  | assembly .. => .lexerAssembly
  | commentTaken .. => .lexerSugarConflict

variable [DecidableEq K] [TokenKind K]

open TokenKind Text in
def message : Problem K → String
  | duplicateFamily first second family =>
    s!"{name first} and {name second} are both declared as {family}"
  | duplicateDelimiter delimiter first second =>
    s!"delimiter {quoteChar delimiter} is used by both {name first} and {name second}"
  | letterDelimiter delimiter kind =>
    s!"delimiter {quoteChar delimiter} of {name kind} starts like an identifier"
  | letterSugar text kind => s!"sugar {quoteString text} of {name kind} must start with a symbol"
  | delimiterSugar text kind =>
    s!"sugar {quoteString text} of {name kind} starts with a string delimiter"
  | duplicateSugar text => s!"sugar {quoteString text} is declared more than once"
  | letterComment marker kind =>
    s!"comment marker {quoteString marker} of {name kind} must start with a symbol"
  | keywordShape word kind shape =>
    s!"keyword {quoteString word} of {name kind} is not a valid {shape.inspect} identifier"
  | extension kind error => s!"extension for {name kind} failed: {error.message}"
  | assembly error => s!"lexer FSM could not be assembled: {error.message}"
  | commentTaken marker kind =>
    s!"comment marker {quoteString marker} of {name kind} is already a token"

def diagnostic (problem : Problem K) : Diagnostic where
  level := .fatal
  code := problem.code
  message := problem.message

end Problem

variable {K : Type}

/-- Whether a text begins like a word or a number, or is empty. -/
def lacksSymbol (text : String) : Bool :=
  match text.toList.head? with
  | some c => Text.isAlphanumeric c
  | none => true

/-- The kind that declared a delimiter last, among those declared so far. -/
def ownerOf? (declared : List (K × Char × Char)) (delimiter : Char) : Option K :=
  (declared.reverse.find? fun entry => entry.2.1 = delimiter).map Prod.fst

/-- The problems with delimiters, where `before` holds the literals declared earlier. -/
def delimiterProblems (before : List (K × Char × Char)) : List (K × Char × Char) → List (Problem K)
  | [] => []
  | (kind, delimiter, escape) :: rest =>
    ((ownerOf? before delimiter).map fun first =>
        Problem.duplicateDelimiter delimiter first kind).toList ++
      (if Text.isAlphanumeric delimiter then [.letterDelimiter delimiter kind] else []) ++
      delimiterProblems (before ++ [(kind, delimiter, escape)]) rest

/-- The problems with sugars, where `before` holds the texts declared earlier. -/
def sugarProblems (delimiters : List Char) (before : List String) :
    List (K × String) → List (Problem K)
  | [] => []
  | (kind, text) :: rest =>
    (if lacksSymbol text then [Problem.letterSugar text kind] else []) ++
      (if text.toList.head?.any delimiters.contains then [.delimiterSugar text kind] else []) ++
      (if before.contains text then [.duplicateSugar text] else []) ++
      sugarProblems delimiters (before ++ [text]) rest

def commentProblems (comments : List (K × String × CommentEnd)) : List (Problem K) :=
  comments.filterMap fun (kind, marker, _) =>
    if lacksSymbol marker then some (.letterComment marker kind) else none

def keywordProblems (shape : IdentifierShape) (keywords : List (K × String)) : List (Problem K) :=
  keywords.filterMap fun (kind, word) =>
    if shape.accepts word.toList then none else some (.keywordShape word kind shape)

/-- The problems that show before anything is built. Each is fatal, but finding
    one does not keep others from being found. -/
def Families.problems (families : Families K) (options : LexerOptions) : List (Problem K) :=
  let literals := families.strings ++ families.chars
  delimiterProblems [] literals ++
    sugarProblems (literals.map fun entry => entry.2.1) [] families.sugars ++
    commentProblems families.comments ++
    keywordProblems options.identifier families.keywords

end GrammarKit.Lexer
