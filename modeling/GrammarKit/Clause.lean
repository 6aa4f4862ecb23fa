import GrammarKit.Kind

namespace GrammarKit

/-- What the non-terminal of a clause stands for: rules of the grammar itself,
    or a group or a choice that was given a name. A choice between tokens only
    is told apart from the others. -/
inductive Role where
  | rule
  | group
  | tokenChoice
  | valueChoice
  deriving DecidableEq, Repr

/-- A part of a rule. What a discarded clause matches is hidden from reducers. -/
inductive Clause (K : Type) where
  | terminal (kind : K) (discarded : Bool)
  | nonTerminal (name : String) (role : Role) (discarded : Bool)
  | group (clauses : List (Clause K)) (discarded : Bool)
  | choice (alternatives : List (Clause K)) (discarded : Bool)
  | option (inner : Clause K) (discarded : Bool)
  | zeroOrMore (inner : Clause K) (discarded : Bool)
  | oneOrMore (inner : Clause K) (discarded : Bool)

namespace Clause

variable {K : Type}

def ofKind (kind : K) : Clause K := terminal kind false

def ofName (name : String) : Clause K := nonTerminal name .rule false

def isDiscarded : Clause K → Bool
  | terminal _ discarded | nonTerminal _ _ discarded | group _ discarded | choice _ discarded
  | option _ discarded | zeroOrMore _ discarded | oneOrMore _ discarded => discarded

def discard : Clause K → Clause K
  | terminal kind _ => terminal kind true
  | nonTerminal name role _ => nonTerminal name role true
  | group clauses _ => group clauses true
  | choice alternatives _ => choice alternatives true
  | option inner _ => option inner true
  | zeroOrMore inner _ => zeroOrMore inner true
  | oneOrMore inner _ => oneOrMore inner true

def isTerminal : Clause K → Bool
  | terminal .. => true
  | _ => false

mutual

/-- The non-terminals that occur in a clause at any depth, from left to right. -/
def references : Clause K → List String
  | terminal .. => []
  | nonTerminal name .. => [name]
  | group clauses _ => referencesIn clauses
  | choice alternatives _ => referencesIn alternatives
  | option inner _ => references inner
  | zeroOrMore inner _ => references inner
  | oneOrMore inner _ => references inner

def referencesIn : List (Clause K) → List String
  | [] => []
  | clause :: rest => references clause ++ referencesIn rest

end

mutual

/-- The names given to choices between values that occur in a clause at any depth. -/
def valueChoices : Clause K → List String
  | terminal .. => []
  | nonTerminal name .valueChoice _ => [name]
  | nonTerminal _ _ _ => []
  | group clauses _ => valueChoicesIn clauses
  | choice alternatives _ => valueChoicesIn alternatives
  | option inner _ => valueChoices inner
  | zeroOrMore inner _ => valueChoices inner
  | oneOrMore inner _ => valueChoices inner

def valueChoicesIn : List (Clause K) → List String
  | [] => []
  | clause :: rest => valueChoices clause ++ valueChoicesIn rest

end

section

variable [DecidableEq K]

mutual

private def agrees : Clause K → Clause K → Bool
  | terminal kind discarded, terminal kind' discarded' => kind = kind' && discarded = discarded'
  | nonTerminal name role discarded, nonTerminal name' role' discarded' =>
    name = name' && role = role' && discarded = discarded'
  | group clauses discarded, group clauses' discarded' =>
    agreesAll clauses clauses' && discarded = discarded'
  | choice alternatives discarded, choice alternatives' discarded' =>
    agreesAll alternatives alternatives' && discarded = discarded'
  | option inner discarded, option inner' discarded' =>
    agrees inner inner' && discarded = discarded'
  | zeroOrMore inner discarded, zeroOrMore inner' discarded' =>
    agrees inner inner' && discarded = discarded'
  | oneOrMore inner discarded, oneOrMore inner' discarded' =>
    agrees inner inner' && discarded = discarded'
  | _, _ => false

private def agreesAll : List (Clause K) → List (Clause K) → Bool
  | [], [] => true
  | clause :: rest, clause' :: rest' => agrees clause clause' && agreesAll rest rest'
  | _, _ => false

end

mutual

private theorem agrees_iff : (a b : Clause K) → (agrees a b = true ↔ a = b)
  | terminal .., b => by cases b <;> simp [agrees]
  | nonTerminal .., b => by cases b <;> simp [agrees, and_assoc]
  | group clauses _, b => by cases b <;> simp [agrees, agreesAll_iff clauses]
  | choice alternatives _, b => by cases b <;> simp [agrees, agreesAll_iff alternatives]
  | option inner _, b => by cases b <;> simp [agrees, agrees_iff inner]
  | zeroOrMore inner _, b => by cases b <;> simp [agrees, agrees_iff inner]
  | oneOrMore inner _, b => by cases b <;> simp [agrees, agrees_iff inner]

private theorem agreesAll_iff : (a b : List (Clause K)) → (agreesAll a b = true ↔ a = b)
  | [], b => by cases b <;> simp [agreesAll]
  | clause :: rest, b => by cases b <;> simp [agreesAll, agrees_iff clause, agreesAll_iff rest]

end

instance : DecidableEq (Clause K) := fun a b => decidable_of_iff _ (agrees_iff a b)

end

section

variable [DecidableEq K] [TokenKind K]

private def marked (discarded : Bool) (text : String) : String :=
  if discarded then text ++ "[d]" else text

mutual

/-- The text of a clause in rule notation. -/
def describe : Clause K → String
  | terminal kind discarded => marked discarded (TokenKind.name kind)
  | nonTerminal name _ discarded => marked discarded name
  | group clauses discarded =>
    marked discarded ("(" ++ String.join ((describeEach clauses).map (" " ++ ·)) ++ " )")
  | choice alternatives discarded =>
    marked discarded ("[ " ++ " | ".intercalate (describeEach alternatives) ++ " ]")
  | option inner discarded => marked discarded (describe inner ++ "?")
  | zeroOrMore inner discarded => marked discarded (describe inner ++ "*")
  | oneOrMore inner discarded => marked discarded (describe inner ++ "+")

def describeEach : List (Clause K) → List String
  | [] => []
  | clause :: rest => describe clause :: describeEach rest

end

end

end Clause

end GrammarKit
