import GrammarKit.Json
import GrammarKit.Reduction

namespace GrammarKit.Reduction

variable {K : Type} [DecidableEq K] [TokenKind K]

/-- The form in which an argument is taken, or any. -/
structure Pick where
  form : Option Variant
  index : Nat
  deriving DecidableEq, Repr

inductive Unary where
  | neg
  | inc
  deriving DecidableEq, Repr

inductive Binary where
  | add
  | sub
  | mul
  | div
  | pow
  deriving DecidableEq, Repr

/-- What a reducer that is given as data computes: a document, from its
    arguments and the names declared so far. -/
inductive Action where
  /-- A description of all arguments, under a label if one is given. -/
  | describe (label : Option String)
  /-- Descriptions of some arguments. -/
  | take (picks : List Pick)
  /-- The number that a token spells. -/
  | int (index : Nat)
  /-- The bit pattern of the number that a token spells, or null. -/
  | double (index : Nat)
  | text (index : Nat)
  | value (index : Nat)
  | const (value : Json)
  | fail (message : String)
  /-- The number of arguments. -/
  | length
  /-- The sum of a list of values. -/
  | sum (index : Nat)
  /-- Arithmetic on integers of 64 bits. -/
  | unary (operation : Unary) (index : Nat)
  | binary (operation : Binary) (left right : Nat)
  /-- Literal texts and texts of arguments, one after the other. -/
  | concat (parts : List (String ⊕ Pick))
  /-- Declares the name that a token spells, which must be new. The value is the
      number of names. -/
  | declare (index : Nat)

structure Context where
  names : List String := []
  log : List Json := []

abbrev ActionReducer (K : Type) := Reducer K Json Context

def describeToken (token : Token K) : Json :=
  .array [((token.kind.map TokenKind.name).map Json.string).getD .null, .string token.value]

mutual

/-- What a value holds, as a document. -/
def content : Value K Json → Json
  | .token token => describeToken token
  | .value value => value
  | .group items => describeItems items
  | .tokens tokens => .array (tokens.map describeToken)
  | .values values => .array values
  | .groups groups => .array (describeGroups groups)
  | .tokenOption none => .null
  | .tokenOption (some token) => describeToken token
  | .valueOption none => .null
  | .valueOption (some value) => .object [("some", value)]
  | .groupOption none => .null
  | .groupOption (some items) => describeItems items

def describeItems (items : List (String × Value K Json)) : Json := .array (itemsContent items)

def itemsContent : List (String × Value K Json) → List Json
  | [] => []
  | (name, value) :: rest =>
    .array [.string name, .array [.string value.variant.name, content value]] :: itemsContent rest

def describeGroups : List (List (String × Value K Json)) → List Json
  | [] => []
  | items :: rest => describeItems items :: describeGroups rest

end

/-- The form of a value and what it holds. -/
def describe (value : Value K Json) : Json :=
  .array [.string value.variant.name, content value]

/-- Takes an argument in the form asked for. -/
def Pick.take (pick : Pick) : Arguments.Taking K Json (Value K Json) := do
  match pick.form with
  | none => Arguments.take pick.index
  | some form =>
    Arguments.takeAs form (fun value => if value.variant = form then some value
      else none) pick.index

private def custom {α : Type} (message : String) : Arguments.Taking K Json α :=
  throw (.custom message)

def asInteger (value : Json) : Arguments.Taking K Json Int :=
  match value with
  | .integer n => if Number.fitsInt64 n then return n else custom "not an integer"
  | _ => custom "not an integer"

/-- A result, which has to fit in 64 bits. -/
def checked (n : Int) : Arguments.Taking K Json Int :=
  if Number.fitsInt64 n then return n else custom "overflow"

/-- A power; `none` when it is certain not to fit in 64 bits or the exponent is
    not a natural number of 32 bits. -/
def power? (base exponent : Int) : Option Int :=
  if exponent < 0 || 0x100000000 ≤ exponent then none
  else if base.natAbs ≤ 1 then
    some (if exponent = 0 then 1 else if base = -1 && exponent % 2 = 0 then 1 else base)
  else if exponent < 64 then some (Int.pow base exponent.toNat)
  else none

def Unary.apply (operation : Unary) (a : Int) : Arguments.Taking K Json Int :=
  match operation with
  | neg => checked (-a)
  | inc => checked (a + 1)

/-- Division rounds toward zero. -/
def Binary.apply (operation : Binary) (a b : Int) : Arguments.Taking K Json Int :=
  match operation with
  | add => checked (a + b)
  | sub => checked (a - b)
  | mul => checked (a * b)
  | div => if b = 0 then custom "division by zero" else checked (a.tdiv b)
  | pow =>
    match power? a b with
    | some n => checked n
    | none => custom "overflow"

/-- Takes a value that has to be an integer. -/
def takeInteger (index : Nat) : Arguments.Taking K Json Int := do
  asInteger (← Arguments.takeValue index)

private def addInteger (total : Int) (value : Json) : Arguments.Taking K Json Int := do
  checked (total + (← asInteger value))

/-- The text of a part: that of a token, a value that is a string, or else a description. -/
def partText (part : String ⊕ Pick) : Arguments.Taking K Json String := do
  match part with
  | .inl text => return text
  | .inr pick =>
    match ← pick.take with
    | .token token => return token.value
    | .value (.string text) => return text
    | other => return (describe other).render

/-- The names after `name` was declared. -/
def declareName (names : List String) (name : String) : Except ReduceError (List String) :=
  if names.contains name then .error (.custom s!"{name} is already defined")
  else .ok (names ++ [name])

/-- The value that an action computes. Only a declaration looks at the names. -/
def Action.compute (names : List String) : Action → Arguments.Taking K Json (Json × List String)
  | describe label => do
    let arguments := Json.array ((← get).slots.filterMap fun slot => slot.map Reduction.describe)
    match label with
    | some title => return (.object [("is", .string title), ("args", arguments)], names)
    | none => return (arguments, names)
  | take picks => do
    let taken ← picks.mapM Pick.take
    return (.array (taken.map Reduction.describe), names)
  | int index => do
    match (← Arguments.takeToken index).intValue? with
    | some n => return (.integer n, names)
    | none => custom "integer out of range"
  | double index => do
    match (← Arguments.takeToken index).doubleValue? with
    | some x => return (.string (if x.isNaN then "nan" else x.hex), names)
    | none => return (.null, names)
  | text index => do return (.string (← Arguments.takeToken index).value, names)
  | value index => do return (← Arguments.takeValue index, names)
  | const document => return (document, names)
  | fail message => custom message
  | length => do return (.integer (← get).length, names)
  | sum index => do
    let summands ← Arguments.takeValues index
    return (.integer (← summands.foldlM addInteger 0), names)
  | unary operation index => do
    return (.integer (← operation.apply (← takeInteger index)), names)
  | binary operation left right => do
    let a ← takeInteger left
    let b ← takeInteger right
    return (.integer (← operation.apply a b), names)
  | concat parts => do
    let texts ← parts.mapM partText
    return (.string (String.join texts), names)
  | declare index => do
    match declareName names (← Arguments.takeToken index).span with
    | .ok names => return (.integer names.length, names)
    | .error error => throw error

/-- The reducer of an action. What it logs is logged before anything else. -/
def Action.reducer (action : Action) (log : Option Json) :
    ActionReducer K := fun arguments context =>
  let context := { context with log := context.log ++ log.toList }
  match ((action.compute context.names).run.run arguments).1 with
  | .ok (result, names) => (.ok result, { context with names })
  | .error error => (.error error, context)

end GrammarKit.Reduction
