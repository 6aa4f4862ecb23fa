import GrammarKit.Token

namespace GrammarKit

/-- What the children of a node are reduced to: tokens, the results of reducers,
    groups of named values, lists of these, or at most one of them. -/
inductive Value (K O : Type) where
  | token (token : Token K)
  | value (value : O)
  | group (items : List (String × Value K O))
  | tokens (tokens : List (Token K))
  | values (values : List O)
  | groups (groups : List (List (String × Value K O)))
  | tokenOption (token : Option (Token K))
  | valueOption (value : Option O)
  | groupOption (items : Option (List (String × Value K O)))

/-- The values of a group, each named by the kind or the non-terminal that it comes from. -/
abbrev Group (K O : Type) := List (String × Value K O)

/-- The forms that a value can take. -/
inductive Variant where
  | token
  | value
  | group
  | tokens
  | values
  | groups
  | tokenOption
  | valueOption
  | groupOption
  deriving DecidableEq, Repr

def Variant.name : Variant → String
  | token => "token"
  | value => "value"
  | group => "group"
  | tokens => "tokens"
  | values => "values"
  | groups => "groups"
  | tokenOption => "token option"
  | valueOption => "value option"
  | groupOption => "group option"

variable {K O : Type}

namespace Value

def variant : Value K O → Variant
  | token _ => .token
  | value _ => .value
  | group _ => .group
  | tokens _ => .tokens
  | values _ => .values
  | groups _ => .groups
  | tokenOption _ => .tokenOption
  | valueOption _ => .valueOption
  | groupOption _ => .groupOption

def asToken? : Value K O → Option (Token K)
  | token found => some found
  | _ => none

def asValue? : Value K O → Option O
  | value found => some found
  | _ => none

def asGroup? : Value K O → Option (Group K O)
  | group found => some found
  | _ => none

def asTokens? : Value K O → Option (List (Token K))
  | tokens found => some found
  | _ => none

def asValues? : Value K O → Option (List O)
  | values found => some found
  | _ => none

def asGroups? : Value K O → Option (List (Group K O))
  | groups found => some found
  | _ => none

def asTokenOption? : Value K O → Option (Option (Token K))
  | tokenOption found => some found
  | _ => none

def asValueOption? : Value K O → Option (Option O)
  | valueOption found => some found
  | _ => none

def asGroupOption? : Value K O → Option (Option (Group K O))
  | groupOption found => some found
  | _ => none

end Value

namespace Group

def get? (items : Group K O) (index : Nat) : Option (Value K O) :=
  items[index]?.map Prod.snd

def token? (items : Group K O) (index : Nat) : Option (Token K) :=
  (get? items index).bind Value.asToken?

def value? (items : Group K O) (index : Nat) : Option O :=
  (get? items index).bind Value.asValue?

/-- The first value with this name. -/
def named? (items : Group K O) (name : String) : Option (Value K O) :=
  (items.find? fun item => item.1 = name).map Prod.snd

end Group

end GrammarKit
