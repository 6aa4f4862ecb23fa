import GrammarKit.Document.Grammar
import GrammarKit.Parser
import GrammarKit.Reduction.Action

namespace GrammarKit.Document

open Reduction (Action Pick)

variable {K : Type} [DecidableEq K] [TokenKind K]

def manyName : Shape → String
  | .token => "Tokens"
  | .value => "Values"
  | .group => "Groups"

def optionName : Shape → String
  | .token => "Token"
  | .value => "Value"
  | .group => "Group"

private def shapes : List Shape := [.token, .value, .group]

def toShape? (name : Shape → String) (text : String) : Option Shape :=
  shapes.find? fun shape => name shape = text

private def treeDocument (members : List (String × Json)) (discarded : Bool) : Json :=
  .object (members ++ if discarded then [("d", .bool true)] else [])

private def labelMembers (label : NodeLabel K) : List (String × Json) :=
  [("node", .string label.name), ("rule", number label.rule), ("bypass", .bool label.isBypass),
   ("group", .bool label.isGroup), ("expr", .bool label.isExpression),
   ("operation", optional ofOperator label.operator)]

mutual

/-- A syntax tree with its labels and tokens. -/
def ofTree : SyntaxTree K → Json
  | .leaf token discarded =>
    treeDocument
      [("leaf", .array [optional ofKind token.kind, .string token.value, number token.streamIndex])]
      discarded
  | .node label children =>
    treeDocument (("children", .array (ofTrees children)) :: labelMembers label) label.discarded
  | .many shape children discarded =>
    treeDocument [("many", .string (manyName shape)), ("children", .array (ofTrees children))]
      discarded
  | .present shape child discarded =>
    treeDocument [("option", .string (optionName shape)), ("children", .array [ofTree child])]
      discarded
  | .absent shape discarded =>
    treeDocument [("option", .string (optionName shape)), ("children", .array [])] discarded

def ofTrees : List (SyntaxTree K) → List Json
  | [] => []
  | tree :: rest => ofTree tree :: ofTrees rest

end

private def forms : List Variant :=
  [.token, .value, .group, .tokens, .values, .groups, .tokenOption, .valueOption, .groupOption]

/-- The form in which an argument is taken; the words of its name are joined by underscores. -/
def toForm? (name : String) : Option (Option Variant) :=
  if name = "any" || name = "take" then some none
  else (forms.find? fun form => form.name.map (fun c => if c = ' ' then '_' else c) = name).map some

def toPick? : Json → Option Pick
  | .array [.string what, index] => return ⟨← toForm? what, ← index.asNat?⟩
  | _ => none

def toPart? : Json → Option (String ⊕ Pick)
  | .string text => some (.inl text)
  | part => (toPick? part).map .inr

def toUnary? : String → Option Reduction.Unary
  | "neg" => some .neg
  | "inc" => some .inc
  | _ => none

def toBinary? : String → Option Reduction.Binary
  | "add" => some .add
  | "sub" => some .sub
  | "mul" => some .mul
  | "div" => some .div
  | "pow" => some .pow
  | _ => none

private def toArithmetic? (name : String) : List Json → Option Action
  | [index] => return .unary (← toUnary? name) (← index.asNat?)
  | [left, right] => return .binary (← toBinary? name) (← left.asNat?) (← right.asNat?)
  | _ => none

/-- The member that says what is computed decides. -/
def toAction? (value : Json) : Option Action := do
  let index := ((value.get? "i").bind Json.asNat?).getD 0
  match (text? value "do").getD "describe" with
  | "describe" => some (.describe (text? value "label"))
  | "take" => return .take (← (items value "calls").mapM toPick?)
  | "int" => some (.int index)
  | "double" => some (.double index)
  | "text" => some (.text index)
  | "value" => some (.value index)
  | "const" => some (.const ((value.get? "value").getD .null))
  | "fail" => return .fail (← text? value "message")
  | "len" => some .length
  | "sum" => some (.sum index)
  | "arith" => toArithmetic? (← text? value "fn") (items value "args")
  | "cat" => return .concat (← (items value "parts").mapM toPart?)
  | "declare" => some (.declare index)
  | _ => none

/-- The reducer of a rule or an operator, which describes its arguments unless
    another action is given. -/
def toReducer? (value : Json) : Option (Reduction.ActionReducer K) :=
  match given? value "reduce" with
  | none => some ((Action.describe none).reducer none)
  | some action => return (← toAction? action).reducer (action.get? "log")

def toOperation? (value : Json) : Option (Operation K (Reduction.ActionReducer K)) := do
  return { toOperator := ← toOperator? value, reducer := ← toReducer? value }

private def reduceErrorMembers : ReduceError → List (String × Json)
  | .missingArgument index => [("error", .string "MissingArgument"), ("index", number index)]
  | .unexpectedArgument index expected found =>
    [("error", .string "UnexpectedArgument"), ("index", number index),
      ("expected", .string expected.name), ("found", .string found.name)]
  | .noReducer rule => [("error", .string "NoReducer"), ("rule", .string rule)]
  | .custom _ => [("error", .string "Custom")]

def ofReduceError (error : ReduceError) : Json :=
  .object (("message", .string error.message) :: reduceErrorMembers error)

private def parseErrorMembers : ParseError K → List (String × Json)
  | .lexical error => [("error", .string "Lexical"), ("char", ofChar error.character)]
  | .unexpectedToken token expected =>
    [("error", .string "UnexpectedToken"), ("kind", optional ofKind token.kind),
     ("value", .string token.value), ("expected", ofKinds expected)]
  | .reduction failure =>
    [("error", .string "Reduction"), ("non_terminal", .string failure.nonTerminal),
     ("reason", ofReduceError failure.reason)]
  | .unknownStart name => [("error", .string "UnknownStartRule"), ("name", .string name)]
  | .miscut _ => [("error", .string "Miscut")]
  | .fault _ => [("error", .string "Fault")]

/-- The error of a parse with all that it tells. -/
def ofParseError (error : ParseError K) : Json :=
  .object (parseErrorMembers error ++
    [("pos", optional ofPosition error.position?), ("message", .string error.message)])

end GrammarKit.Document
