import GrammarKit.Diagnostic
import GrammarKit.Options.Decode

namespace GrammarKit.Document

def isNull : Json → Bool
  | .null => true
  | _ => false

/-- A member that is neither absent nor null. -/
def given? (value : Json) (key : String) : Option Json :=
  (value.get? key).filter fun found => !isNull found

/-- A member that is a text. -/
def text? (value : Json) (key : String) : Option String := (value.get? key).bind Json.asString?

/-- A member that is false unless it is given. -/
def flag (value : Json) (key : String) : Bool := ((value.get? key).bind Json.asBool?).getD false

/-- The items of a member that is empty unless it is given. -/
def items (value : Json) (key : String) :
    List Json := ((given? value key).bind Json.asArray?).getD []

/-- The document of a value that may be missing. -/
def optional {α : Type} (write : α → Json) (value : Option α) : Json := (value.map write).getD .null

/-- Reads a value that may be null. -/
def optional? {α : Type} (read : Json → Option α) : Json → Option (Option α)
  | .null => some none
  | value => (read value).map some

def text (value : Option String) : Json := optional Json.string value

def texts (values : List String) : Json := .array (values.map .string)

def number (n : Nat) : Json := .integer n

def ofChar (c : Char) : Json := .string c.toString

def toChar? (value : Json) : Option Char := do
  match (← value.asString?).toList with
  | [c] => some c
  | _ => none

/-- A member that is a single character. -/
def char? (value : Json) (key : String) : Option Char := (value.get? key).bind toChar?

def toChars? (value : Json) : Option (List Char) := do (← value.asArray?).mapM toChar?

def toRange? : Json → Option CharRange
  | .array [first, last] => return (← toChar? first, ← toChar? last)
  | _ => none

def toRanges? (value : Json) : Option (List CharRange) := do (← value.asArray?).mapM toRange?

def ofRanges (ranges : List CharRange) : Json := .array (ranges.map CharRange.toJson)

/-- A position as its three numbers. -/
def ofPosition (pos : Position) :
    Json := .array [number pos.index, number pos.line, number pos.column]

def toPosition? : Json → Option Position
  | .array [index, line, column] => return ⟨← index.asNat?, ← line.asNat?, ← column.asNat?⟩
  | _ => none

def ofDiagnostic (diagnostic : Diagnostic) : Json :=
  .object
    [("level", .string diagnostic.level.name), ("code", .string diagnostic.code.name),
     ("message", .string diagnostic.message)]

def ofDiagnostics (diagnostics : List Diagnostic) : Json := .array (diagnostics.map ofDiagnostic)

def toDiagnostic? : Json → Option Diagnostic
  | .array [.string level, .string code, .string message] =>
    return ⟨← Level.ofName? level, ← Code.ofName? code, message⟩
  | _ => none

end GrammarKit.Document
