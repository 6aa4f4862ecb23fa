import GrammarKit.Number.Binary64

namespace GrammarKit

/-- A JSON document. The members of an object are kept in the order in which
    they were written, repeated keys included. -/
inductive Json where
  | null
  | bool (value : Bool)
  | integer (value : Int)
  | decimal (value : Number.Binary64)
  | string (value : String)
  | array (items : List Json)
  | object (members : List (String × Json))
  deriving Inhabited

namespace Json

/-- The value of the last member with this key. -/
def get? : Json → String → Option Json
  | object members, key => (members.reverse.find? fun member => member.1 == key).map Prod.snd
  | _, _ => none

def asString? : Json → Option String
  | string value => some value
  | _ => none

def asBool? : Json → Option Bool
  | bool value => some value
  | _ => none

def asArray? : Json → Option (List Json)
  | array items => some items
  | _ => none

def asInteger? : Json → Option Int
  | integer value => some value
  | _ => none

def asNat? : Json → Option Nat
  | integer (.ofNat value) => some value
  | _ => none

private def fourHexDigits (n : Nat) : List Char :=
  let digits := Nat.toDigits 16 n
  List.replicate (4 - digits.length) '0' ++ digits

private def escaped (c : Char) : List Char :=
  if c = '"' then ['\\', '"']
  else if c = '\\' then ['\\', '\\']
  else if c = '\n' then ['\\', 'n']
  else if c = '\r' then ['\\', 'r']
  else if c = '\t' then ['\\', 't']
  else if c = '\x08' then ['\\', 'b']
  else if c = '\x0c' then ['\\', 'f']
  else if c.toNat < 32 then '\\' :: 'u' :: fourHexDigits c.toNat
  else [c]

def renderString (text : String) : String :=
  "\"" ++ String.ofList (text.toList.flatMap escaped) ++ "\""

/-- Puts a member into a list sorted by key; a member with the same key is replaced. -/
private def insertMember (member : String × String) :
    List (String × String) → List (String × String)
  | [] => [member]
  | other :: rest =>
    if member.1 < other.1 then member :: other :: rest
    else if member.1 = other.1 then member :: rest
    else other :: insertMember member rest

private def renderMembers (members : List (String × String)) : String :=
  let sorted := members.foldl (fun sorted member => insertMember member sorted) []
  "\x7b" ++ ",".intercalate (sorted.map fun (key, value) => renderString key ++ ":" ++ value) ++
    "\x7d"

mutual

/-- The compact text of a document: no blanks, and members sorted by key. -/
def render : Json → String
  | null => "null"
  | bool value => if value then "true" else "false"
  | integer value => toString value
  | decimal value => if value.isNaN || value.isInfinite then "null" else value.render
  | string value => renderString value
  | array items => "[" ++ ",".intercalate (renderItems items) ++ "]"
  | object members => renderMembers (renderValues members)

private def renderItems : List Json → List String
  | [] => []
  | item :: rest => render item :: renderItems rest

private def renderValues : List (String × Json) → List (String × String)
  | [] => []
  | (key, value) :: rest => (key, render value) :: renderValues rest

end

end Json

end GrammarKit
