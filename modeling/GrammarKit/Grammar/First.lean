import GrammarKit.Grammar
import GrammarKit.Iteration

namespace GrammarKit

variable {K R : Type} [DecidableEq K] [TokenKind K]

namespace Clause

mutual

/-- Whether a clause can match nothing, given the non-terminals that can. -/
def isNullable (nullable : String → Bool) : Clause K → Bool
  | terminal .. => false
  | nonTerminal name .. => nullable name
  | group clauses _ => allNullable nullable clauses
  | choice alternatives _ => anyNullable nullable alternatives
  | option .. => true
  | zeroOrMore .. => true
  | oneOrMore inner _ => isNullable nullable inner

def allNullable (nullable : String → Bool) : List (Clause K) → Bool
  | [] => true
  | clause :: rest => isNullable nullable clause && allNullable nullable rest

def anyNullable (nullable : String → Bool) : List (Clause K) → Bool
  | [] => false
  | clause :: rest => isNullable nullable clause || anyNullable nullable rest

end

mutual

/-- The kinds that a match of a clause can begin with, given those of non-terminals. -/
def first (nullable : String → Bool) (leading : String → KindSet K) : Clause K → KindSet K
  | terminal kind _ => .singleton kind
  | nonTerminal name .. => leading name
  | group clauses _ => firstOfAll nullable leading clauses
  | choice alternatives _ => firstOfAny nullable leading alternatives
  | option inner _ => first nullable leading inner
  | zeroOrMore inner _ => first nullable leading inner
  | oneOrMore inner _ => first nullable leading inner

/-- In a sequence, a clause counts when everything before it can match nothing. -/
def firstOfAll (nullable : String → Bool) (leading : String → KindSet K) :
    List (Clause K) → KindSet K
  | [] => ∅
  | clause :: rest =>
    if isNullable nullable clause then first nullable leading clause ∪ firstOfAll
      nullable leading rest
    else first nullable leading clause

def firstOfAny (nullable : String → Bool) (leading : String → KindSet K) :
    List (Clause K) → KindSet K
  | [] => ∅
  | clause :: rest => first nullable leading clause ∪ firstOfAny nullable leading rest

end

end Clause

namespace Rule

def isNullable (nullable : String → Bool) (rule : Rule K R) : Bool :=
  Clause.allNullable nullable rule.clauses

def first (nullable : String → Bool) (leading : String → KindSet K) (rule : Rule K R) : KindSet K :=
  Clause.firstOfAll nullable leading rule.clauses

end Rule

namespace NonTerminal

def isNullable (nullable : String → Bool) (nonTerminal : NonTerminal K R) : Bool :=
  nonTerminal.rules.any (Rule.isNullable nullable)

def first (nullable : String → Bool) (leading : String → KindSet K)
    (nonTerminal : NonTerminal K R) :
    KindSet K :=
  nonTerminal.rules.foldl (fun found rule => found ∪ rule.first nullable leading) ∅

end NonTerminal

/-- A set of kinds for each name. -/
abbrev LeadingTable (K : Type) [DecidableEq K] [TokenKind K] := List (String × KindSet K)

namespace LeadingTable

def get (table : LeadingTable K) (name : String) : KindSet K :=
  (table.lookup name).getD ∅

/-- Replaces the set of a name. -/
def set : LeadingTable K → String → KindSet K → LeadingTable K
  | [], _, _ => []
  | entry :: rest, name, kinds =>
    if entry.1 = name then (name, kinds) :: rest else entry :: set rest name kinds

end LeadingTable

namespace NonTerminal

/-- Notes the name of a non-terminal that can match nothing when those in `known` can. -/
def noteNullable (known : List String) (nonTerminal : NonTerminal K R) : List String :=
  if known.contains nonTerminal.name then known
  else if nonTerminal.isNullable known.contains then nonTerminal.name :: known
  else known

/-- Notes what a non-terminal can begin with when others begin with what the table says. -/
def noteLeading (nullable : String → Bool) (table : LeadingTable K)
    (nonTerminal : NonTerminal K R) : LeadingTable K :=
  table.set nonTerminal.name (nonTerminal.first nullable table.get)

end NonTerminal

namespace Grammar

/-- Looks at every non-terminal once. What was noted for one already counts for the next. -/
def nullablePass (grammar : Grammar K R) (known : List String) : List String :=
  grammar.nonTerminals.foldl NonTerminal.noteNullable known

/-- The non-terminals that can match nothing. Each pass before the last one adds
    a name, which bounds their number. -/
def nullable (grammar : Grammar K R) : List String :=
  settle grammar.nullablePass grammar.nonTerminals.length []

/-- Looks at every non-terminal once, like the pass above. -/
def leadingPass (grammar : Grammar K R) (nullable : String → Bool) (table : LeadingTable K) :
    LeadingTable K :=
  grammar.nonTerminals.foldl (NonTerminal.noteLeading nullable) table

/-- The table that says of every non-terminal that it begins with nothing. -/
def blankTable (grammar : Grammar K R) : LeadingTable K :=
  grammar.nonTerminals.map fun nonTerminal => (nonTerminal.name, ∅)

/-- The kinds that each non-terminal can begin with. Each pass before the last
    one adds a kind to a non-terminal, which bounds their number. -/
def leadingTable (grammar : Grammar K R) : LeadingTable K :=
  settle (grammar.leadingPass grammar.nullable.contains)
    (grammar.nonTerminals.length * (TokenKind.all (K := K)).length) grammar.blankTable

/-- Writes the outcome of the analysis into every rule and every non-terminal:
    what they can begin with, and whether they can match nothing. Both are least
    fixed points over the whole grammar, so recursive rules need no special
    care. A non-terminal without rules matches nothing at all. -/
def analyse (grammar : Grammar K R) : Grammar K R :=
  let nullable := grammar.nullable.contains
  let leading := grammar.leadingTable.get
  grammar.map
    (fun nonTerminal =>
      { nonTerminal with
        rules := nonTerminal.rules.map fun rule =>
          { rule with
            leading := rule.first nullable leading
            mayBeEmpty := rule.isNullable nullable }
        leading := leading nonTerminal.name })
    fun _ => rfl

end Grammar

end GrammarKit
