namespace GrammarKit

/-- How bad a problem in a declaration is. Only warnings leave the result usable. -/
inductive Level where
  | fatal
  | error
  | warn
  deriving DecidableEq, Repr

namespace Level

def name : Level → String
  | fatal => "FATAL"
  | error => "ERROR"
  | warn => "WARN"

def all : List Level := [fatal, error, warn]

def ofName? (text : String) : Option Level :=
  all.find? fun level => level.name == text

def severity : Level → Nat
  | fatal => 0
  | error => 1
  | warn => 2

/-- The most severe level first. -/
def sort (levels : List Level) : List Level :=
  levels.mergeSort fun a b => a.severity ≤ b.severity

end Level

/-- The kinds of problems that building a lexer or a parser can find. -/
inductive Code where
  | lexerMixedStyles
  | lexerEmpty
  | lexerDuplicateDelimiter
  | lexerLetterDelimiter
  | lexerSugarConflict
  | lexerDuplicateSugar
  | lexerInvalidRegex
  | lexerKeywordNotIdentifier
  | lexerExtension
  | lexerAssembly
  | lexerDuplicateFamily
  | ruleParsing
  | ebnfInBnfGrammar
  | undeclaredNonTerminal
  | unreachableNonTerminal
  | missingStartRule
  | missingOperand
  | leftRecursion
  | mixedChoice
  deriving DecidableEq, Repr

namespace Code

def name : Code → String
  | lexerMixedStyles => "LexerMixedStyles"
  | lexerEmpty => "LexerEmpty"
  | lexerDuplicateDelimiter => "LexerDuplicateDelimiter"
  | lexerLetterDelimiter => "LexerLetterDelimiter"
  | lexerSugarConflict => "LexerSugarConflict"
  | lexerDuplicateSugar => "LexerDuplicateSugar"
  | lexerInvalidRegex => "LexerInvalidRegex"
  | lexerKeywordNotIdentifier => "LexerKeywordNotIdentifier"
  | lexerExtension => "LexerExtension"
  | lexerAssembly => "LexerAssembly"
  | lexerDuplicateFamily => "LexerDuplicateFamily"
  | ruleParsing => "RuleParsing"
  | ebnfInBnfGrammar => "EbnfInBnfGrammar"
  | undeclaredNonTerminal => "UndeclaredNonTerminal"
  | unreachableNonTerminal => "UnreachableNonTerminal"
  | missingStartRule => "MissingStartRule"
  | missingOperand => "MissingOperand"
  | leftRecursion => "LeftRecursion"
  | mixedChoice => "MixedChoice"

def all : List Code :=
  [lexerMixedStyles, lexerEmpty, lexerDuplicateDelimiter, lexerLetterDelimiter, lexerSugarConflict,
    lexerDuplicateSugar, lexerInvalidRegex, lexerKeywordNotIdentifier, lexerExtension,
      lexerAssembly,
    lexerDuplicateFamily, ruleParsing, ebnfInBnfGrammar, undeclaredNonTerminal,
      unreachableNonTerminal,
    missingStartRule, missingOperand, leftRecursion, mixedChoice]

def ofName? (text : String) : Option Code :=
  all.find? fun code => code.name == text

end Code

/-- A single problem found while building a lexer or a parser. -/
structure Diagnostic where
  level : Level
  code : Code
  message : String
  deriving DecidableEq, Repr

namespace Diagnostic

def isBlocking (diagnostic : Diagnostic) : Bool :=
  diagnostic.level != .warn

def describe (diagnostic : Diagnostic) : String :=
  s!"{diagnostic.level.name} [{diagnostic.code.name}]: {diagnostic.message}"

end Diagnostic

/-- The outcome of a build: everything that was found on the way and, unless
    some of it blocks, the value that was built. -/
structure BuildResult (α : Type) where
  value : Option α
  diagnostics : List Diagnostic
  value_none_of_blocking : diagnostics.any Diagnostic.isBlocking = true → value = none

namespace BuildResult

variable {α β : Type}

/-- The value, unless a diagnostic blocks it. -/
def of (value : Option α) (diagnostics : List Diagnostic) : BuildResult α where
  value := if diagnostics.any Diagnostic.isBlocking then none else value
  diagnostics := diagnostics
  value_none_of_blocking h := by simp [h]

def failed (diagnostics : List Diagnostic) : BuildResult α where
  value := none
  diagnostics := diagnostics
  value_none_of_blocking _ := rfl

def isOk (result : BuildResult α) : Bool := result.value.isSome

def isError (result : BuildResult α) : Bool := result.value.isNone

def warnings (result : BuildResult α) : List Diagnostic :=
  result.diagnostics.filter fun diagnostic => diagnostic.level == .warn

def map (f : α → β) (result : BuildResult α) : BuildResult β where
  value := result.value.map f
  diagnostics := result.diagnostics
  value_none_of_blocking h := by simp [result.value_none_of_blocking h]

def toExcept (result : BuildResult α) : Except (List Diagnostic) α :=
  match result.value with
  | some value => .ok value
  | none => .error result.diagnostics

end BuildResult

end GrammarKit
