import GrammarKit.Value

namespace GrammarKit

/-- Why a reduction fails. -/
inductive ReduceError where
  | missingArgument (index : Nat)
  | unexpectedArgument (index : Nat) (expected found : Variant)
  | noReducer (rule : String)
  | custom (message : String)
  deriving DecidableEq, Repr

def ReduceError.message : ReduceError → String
  | missingArgument index => s!"no argument at index {index}"
  | unexpectedArgument index expected found =>
    s!"argument {index} is a {found.name}, expected a {expected.name}"
  | noReducer rule => s!"no reducer bound to rule '{rule}'"
  | custom text => text

/-- What a reducer is applied to. Each argument can be taken once and leaves an empty slot. -/
structure Arguments (K O : Type) where
  slots : List (Option (Value K O))

namespace Arguments

variable {K O : Type}

def ofValues (values : List (Value K O)) : Arguments K O := ⟨values.map some⟩

def length (arguments : Arguments K O) : Nat := arguments.slots.length

def isEmpty (arguments : Arguments K O) : Bool := arguments.slots.isEmpty

/-- An argument that was not taken yet. -/
def get? (arguments : Arguments K O) (index : Nat) : Option (Value K O) :=
  arguments.slots[index]?.join

def token? (arguments : Arguments K O) (index : Nat) : Option (Token K) :=
  (arguments.get? index).bind Value.asToken?

/-- A computation that takes arguments and can fail. What was taken before a
    failure stays taken. -/
abbrev Taking (K O α : Type) := ExceptT ReduceError (StateM (Arguments K O)) α

/-- Takes an argument, whatever it is. -/
def take (index : Nat) : Taking K O (Value K O) := do
  match (← get).get? index with
  | some value =>
    set (Arguments.mk ((← get).slots.set index none))
    return value
  | none => throw (.missingArgument index)

/-- Takes an argument that has to have a certain form. One of another form is
    taken all the same. -/
def takeAs {α : Type} (expected : Variant) (read : Value K O → Option α) (index : Nat) :
    Taking K O α := do
  let value ← take index
  match read value with
  | some inner => return inner
  | none => throw (.unexpectedArgument index expected value.variant)

def takeToken (index : Nat) : Taking K O (Token K) := takeAs .token Value.asToken? index

def takeValue (index : Nat) : Taking K O O := takeAs .value Value.asValue? index

def takeGroup (index : Nat) : Taking K O (Group K O) := takeAs .group Value.asGroup? index

def takeTokens (index : Nat) : Taking K O (List (Token K)) := takeAs .tokens Value.asTokens? index

def takeValues (index : Nat) : Taking K O (List O) := takeAs .values Value.asValues? index

def takeGroups (index : Nat) : Taking K O (List (Group K O)) := takeAs .groups Value.asGroups? index

def takeTokenOption (index : Nat) : Taking K O (Option (Token K)) :=
  takeAs .tokenOption Value.asTokenOption? index

def takeValueOption (index : Nat) : Taking K O (Option O) :=
  takeAs .valueOption Value.asValueOption? index

def takeGroupOption (index : Nat) : Taking K O (Option (Group K O)) :=
  takeAs .groupOption Value.asGroupOption? index

end Arguments

end GrammarKit
