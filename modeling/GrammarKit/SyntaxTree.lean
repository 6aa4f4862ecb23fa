import GrammarKit.Grammar
import GrammarKit.Token

namespace GrammarKit

/-- What an option holds, or what the items of a repetition are. -/
inductive Shape where
  | token
  | value
  | group
  deriving DecidableEq, Repr

/-- What the items that a clause matches are. Only single tokens, and choices
    between them, are tokens. -/
def Clause.shape {K : Type} : Clause K → Shape
  | terminal .. => .token
  | nonTerminal _ .tokenChoice _ => .token
  | nonTerminal _ .group _ => .group
  | _ => .value

/-- The rule that a node of a tree was matched by, and what is special about the node. -/
structure NodeLabel (K : Type) where
  name : String
  rule : Nat
  isBypass : Bool := false
  isGroup : Bool := false
  isExpression : Bool := false
  operator : Option (Operator K) := none
  discarded : Bool := false
  deriving DecidableEq, Repr

/-- How a text was matched: tokens are leaves, rules are nodes with a child for
    each of their clauses. -/
inductive SyntaxTree (K : Type) where
  | leaf (token : Token K) (discarded : Bool)
  | node (label : NodeLabel K) (children : List (SyntaxTree K))
  | many (shape : Shape) (children : List (SyntaxTree K)) (discarded : Bool)
  | present (shape : Shape) (child : SyntaxTree K) (discarded : Bool)
  | absent (shape : Shape) (discarded : Bool)

namespace SyntaxTree

variable {K : Type}

def isDiscarded : SyntaxTree K → Bool
  | leaf _ discarded | many _ _ discarded | present _ _ discarded | absent _ discarded => discarded
  | node label _ => label.discarded

def setDiscarded (discarded : Bool) : SyntaxTree K → SyntaxTree K
  | leaf token _ => leaf token discarded
  | node label children => node { label with discarded } children
  | many shape children _ => many shape children discarded
  | present shape child _ => present shape child discarded
  | absent shape _ => absent shape discarded

@[simp] theorem isDiscarded_setDiscarded (discarded : Bool) (tree : SyntaxTree K) :
    (tree.setDiscarded discarded).isDiscarded = discarded := by
  cases tree <;> rfl

def isNode : SyntaxTree K → Bool
  | node .. => true
  | _ => false

def token? : SyntaxTree K → Option (Token K)
  | leaf token _ => some token
  | _ => none

/-- The operator of an expression node. -/
def operator? : SyntaxTree K → Option (Operator K)
  | node label _ => label.operator
  | _ => none

mutual

/-- The tokens of a tree from left to right. -/
def leaves : SyntaxTree K → List (Token K)
  | leaf token _ => [token]
  | node _ children => leavesIn children
  | many _ children _ => leavesIn children
  | present _ child _ => leaves child
  | absent .. => []

def leavesIn : List (SyntaxTree K) → List (Token K)
  | [] => []
  | tree :: rest => leaves tree ++ leavesIn rest

end

mutual

/-- The number of nodes and leaves. -/
def size : SyntaxTree K → Nat
  | leaf .. => 1
  | node _ children => sizeIn children + 1
  | many _ children _ => sizeIn children + 1
  | present _ child _ => size child + 1
  | absent .. => 1

def sizeIn : List (SyntaxTree K) → Nat
  | [] => 0
  | tree :: rest => size tree + sizeIn rest

end

variable [DecidableEq K] [TokenKind K]

/-- The kind of a leaf, or the non-terminal of a node. -/
def name : SyntaxTree K → String
  | leaf token _ => token.kindName
  | node label _ => label.name
  | many .. => "many"
  | present .. | absent .. => "option"

private def marked (discarded : Bool) (text : String) : String :=
  if discarded then text ++ "[d]" else text

mutual

/-- A tree as nested lists: nodes in round brackets, repetitions in square ones. -/
def describe : SyntaxTree K → String
  | leaf token discarded => marked discarded s!"{token.kindName}({token.value})"
  | node label children =>
    marked label.discarded ("(" ++ " ".intercalate (label.name :: describeEach children) ++ ")")
  | many _ children discarded => marked discarded
      ("[" ++ " ".intercalate (describeEach children) ++ "]")
  | present _ child discarded => marked discarded ("Some(" ++ describe child ++ ")")
  | absent _ discarded => marked discarded "None"

def describeEach : List (SyntaxTree K) → List String
  | [] => []
  | tree :: rest => describe tree :: describeEach rest

end

end SyntaxTree

end GrammarKit
