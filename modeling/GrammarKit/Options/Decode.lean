import GrammarKit.Json.Reader
import GrammarKit.Options
import GrammarKit.Position
import GrammarKit.Yaml.Reader

namespace GrammarKit

/-- The parts of a record: members by name, or fields in order, which stand for
    its first ones. -/
inductive Fields (D : Type) where
  | named (members : List (String × D))
  | positional (items : List D)

namespace Fields

variable {D : Type}

/-- The field called `name`, which is the `place`-th of its record. Fails on a repeated name. -/
def find (fields : Fields D) (place : Nat) (name : String) : Option (Option D) :=
  match fields with
  | named members =>
    match members.filter fun member => member.1 == name with
    | [] => some none
    | [(_, value)] => some (some value)
    | _ => none
  | positional items => some items[place]?

/-- Reads a field, or takes its default. Unknown fields are not looked at, and a
    known one may be given only once. -/
def getD {α : Type} (fields : Fields D) (place : Nat) (name : String) (read : D → Option α)
    (default : α) :
    Option α :=
  match fields.find place name with
  | some (some value) => read value
  | some none => some default
  | none => none

def get {α : Type} (fields : Fields D) (place : Nat) (name : String) (read : D → Option α) :
    Option α :=
  match fields.find place name with
  | some (some value) => read value
  | _ => none

/-- Whether the record has no more than `count` fields in order. -/
def fits (fields : Fields D) (count : Nat) : Bool :=
  match fields with
  | named _ => true
  | positional items => items.length ≤ count

end Fields

/-- How a kind of document spells truth values, texts, lists, records and alternatives. -/
structure DocumentFormat (D : Type) where
  bool? : D → Option Bool
  text? : D → Option String
  items? : D → Option (List D)
  fields? : D → Option (Fields D)
  /-- The name of an alternative and its payload. -/
  variant? : D → Option (String × Option D)
  /-- Whether a payload says nothing. -/
  isUnit : D → Bool
  /-- The fields of a payload. -/
  payload? : D → Option (Fields D)

namespace Json

private def memberFields? : Json → Option (Fields Json)
  | object members => some (.named members)
  | _ => none

private def recordFields? : Json → Option (Fields Json)
  | array items => some (.positional items)
  | value => memberFields? value

private def isNull : Json → Bool
  | null => true
  | _ => false

private def variant? : Json → Option (String × Option Json)
  | string name => some (name, none)
  | object [(name, payload)] => some (name, some payload)
  | _ => none

/-- Options inside a document that was read already. Payloads have named fields. -/
def valueFormat : DocumentFormat Json where
  bool? := asBool?
  text? := asString?
  items? := asArray?
  fields? := recordFields?
  variant? := variant?
  isUnit := isNull
  payload? := memberFields?

/-- Options in a text of their own. Payloads may list their fields as well. -/
def textFormat : DocumentFormat Json :=
  { valueFormat with payload? := recordFields? }

end Json

namespace Yaml

private def bool? : Yaml → Option Bool
  | scalar _ true text =>
    if ["true", "True", "TRUE"].contains text then some true
    else if ["false", "False", "FALSE"].contains text then some false
    else none
  | _ => none

private def text? : Yaml → Option String
  | scalar _ _ text => some text
  | _ => none

private def items? : Yaml → Option (List Yaml)
  | sequence _ items => some items
  | scalar _ true "" => some []
  | _ => none

private def member? (entry : Yaml × Yaml) : Option (String × Yaml) :=
  (text? entry.1).map fun name => (name, entry.2)

private def fields? : Yaml → Option (Fields Yaml)
  | mapping _ entries => (entries.mapM member?).map .named
  | sequence _ items => some (.positional items)
  | scalar _ true "" => some (.named [])
  | _ => none

private def variant? (node : Yaml) : Option (String × Option Yaml) :=
  match node.tag with
  | some tag => some (tag, some node)
  | none => (text? node).map fun name => (name, none)

private def isUnit : Yaml → Bool
  | scalar _ true text => ["", "~", "null", "Null", "NULL"].contains text
  | _ => false

def format : DocumentFormat Yaml where
  bool? := bool?
  text? := text?
  items? := items?
  fields? := fields?
  variant? := variant?
  isUnit := isUnit
  payload? := fields?

end Yaml

namespace DocumentFormat

variable {D : Type} (format : DocumentFormat D)

def char? (value : D) : Option Char := do
  match (← format.text? value).toList with
  | [c] => some c
  | _ => none

def list? {α : Type} (read : D → Option α) (value : D) : Option (List α) := do
  (← format.items? value).mapM read

def charRange? (value : D) : Option CharRange := do
  match ← format.items? value with
  | [first, last] => return (← format.char? first, ← format.char? last)
  | _ => none

/-- An alternative without fields, named by its own text. -/
private def unit? {α : Type} (shape : α) : Option D → Option α
  | none => some shape
  | some payload => if format.isUnit payload then some shape else none

def identifierShape? (value : D) : Option IdentifierShape := do
  match ← format.variant? value with
  | ("alpha", payload) => unit? format .alpha payload
  | ("alpha_numeric", payload) => unit? format .alphaNumeric payload
  | ("alpha_numeric_dash", payload) => unit? format .alphaNumericDash payload
  | ("custom", some payload) =>
    let fields ← format.payload? payload
    let start ← fields.get 0 "start" (format.list? format.charRange?)
    let rest ← fields.get 1 "rest" (format.list? format.charRange?)
    if fields.fits 2 then return .custom start rest else none
  | _ => none

def dialect? (value : D) : Option Dialect := do
  match ← format.variant? value with
  | ("bnf", payload) => unit? format .bnf payload
  | ("ebnf", payload) => unit? format .ebnf payload
  | _ => none

def lexerOptions? (value : D) : Option LexerOptions := do
  let fields ← format.fields? value
  let default : LexerOptions := {}
  let ignoreWhitespace ← fields.getD 0 "ignore_whitespace" format.bool? default.ignoreWhitespace
  let whitespace ← fields.getD 1 "whitespace" (format.list? format.char?) default.whitespace
  let ignoreEol ← fields.getD 2 "ignore_eol" format.bool? default.ignoreEol
  let keywordIgnoreCase ← fields.getD 3 "keyword_ignore_case" format.bool? default.keywordIgnoreCase
  let identifier ← fields.getD 4 "identifier" format.identifierShape? default.identifier
  let decimalSeparator ← fields.getD 5 "decimal_separator" format.char? default.decimalSeparator
  if fields.fits 6 then
    return { ignoreWhitespace, whitespace, ignoreEol, keywordIgnoreCase, identifier,
             decimalSeparator }
  else none

def parserOptions? (value : D) : Option ParserOptions := do
  let fields ← format.fields? value
  let default : ParserOptions := {}
  let dialect ← fields.getD 0 "parser_type" format.dialect? default.dialect
  let expressionRoot ← fields.getD 1 "expression_root" format.text? default.expressionRoot
  let memoize ← fields.getD 2 "memoize" format.bool? default.memoize
  if fields.fits 3 then return { dialect, expressionRoot, memoize } else none

end DocumentFormat

private def index? : Json → Option Nat
  | .integer (.ofNat value) => some value
  | _ => none

/-- Reads a position from a document; all three numbers have to be given. -/
def Position.ofJson? (value : Json) : Option Position := do
  let fields ← Json.valueFormat.fields? value
  let index ← fields.get 0 "index" index?
  let line ← fields.get 1 "line" index?
  let column ← fields.get 2 "column" index?
  if fields.fits 3 then return ⟨index, line, column⟩ else none

def Position.toJson (pos : Position) : Json :=
  .object [("index", .integer pos.index), ("line", .integer pos.line),
    ("column", .integer pos.column)]

/-- Why options could not be read. -/
inductive OptionsError where
  | invalidJson
  | invalidYaml
  deriving DecidableEq, Repr

def OptionsError.message : OptionsError → String
  | invalidJson => "Invalid JSON options"
  | invalidYaml => "Invalid YAML options"

private def ofJsonText {α : Type} (decode : Json → Option α) (text : String) :
    Except OptionsError α :=
  match (Json.read? text).bind decode with
  | some options => .ok options
  | none => .error .invalidJson

private def ofYamlText {α : Type} (decode : Yaml → Option α) (text : String) :
    Except OptionsError α :=
  match (Yaml.read? text).bind decode with
  | some options => .ok options
  | none => .error .invalidYaml

namespace LexerOptions

def ofJson (text : String) : Except OptionsError LexerOptions :=
  ofJsonText Json.textFormat.lexerOptions? text

def ofYaml (text : String) : Except OptionsError LexerOptions :=
  ofYamlText Yaml.format.lexerOptions? text

end LexerOptions

namespace ParserOptions

def ofJson (text : String) : Except OptionsError ParserOptions :=
  ofJsonText Json.textFormat.parserOptions? text

def ofYaml (text : String) : Except OptionsError ParserOptions :=
  ofYamlText Yaml.format.parserOptions? text

end ParserOptions

private def charJson (c : Char) : Json := .string c.toString

def CharRange.toJson (range : CharRange) : Json := .array [charJson range.1, charJson range.2]

def IdentifierShape.toJson : IdentifierShape → Json
  | alpha => .string "alpha"
  | alphaNumeric => .string "alpha_numeric"
  | alphaNumericDash => .string "alpha_numeric_dash"
  | custom start rest =>
    .object [("custom", .object
      [("start", .array (start.map CharRange.toJson)),
        ("rest", .array (rest.map CharRange.toJson))])]

def LexerOptions.toJson (options : LexerOptions) : Json :=
  .object
    [("ignore_whitespace", .bool options.ignoreWhitespace),
     ("whitespace", .array (options.whitespace.map charJson)),
     ("ignore_eol", .bool options.ignoreEol),
     ("keyword_ignore_case", .bool options.keywordIgnoreCase),
     ("identifier", options.identifier.toJson),
     ("decimal_separator", charJson options.decimalSeparator)]

def Dialect.toJson : Dialect → Json
  | bnf => .string "bnf"
  | ebnf => .string "ebnf"

def ParserOptions.toJson (options : ParserOptions) : Json :=
  .object
    [("parser_type", options.dialect.toJson),
     ("expression_root", .string options.expressionRoot),
     ("memoize", .bool options.memoize)]

end GrammarKit
