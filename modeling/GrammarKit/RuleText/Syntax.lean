import GrammarKit.Clause
import GrammarKit.Text.Record

namespace GrammarKit.RuleText

/-- How often a clause is repeated. -/
inductive Modifier where
  | optional
  | zeroOrMore
  | oneOrMore
  deriving DecidableEq, Repr

/-- A clause as it is written, before names are told apart into terminals and non-terminals. -/
inductive ClauseText where
  | name (name : String) (modifier : Option Modifier) (discarded : Bool)
  | group (clauses : List ClauseText) (modifier : Option Modifier) (discarded : Bool)
  | choice (names : List String) (modifier : Option Modifier) (discarded : Bool)

/-- A rule as it is written. -/
structure RuleSyntax where
  name : String
  clauses : List ClauseText

namespace ClauseText

/-- Writes a modifier and a mark for discarding behind a clause. -/
def withMarks (modifier : Option Modifier) (discarded : Bool) : ClauseText → ClauseText
  | name text _ _ => name text modifier discarded
  | group clauses _ _ => group clauses modifier discarded
  | choice names _ _ => choice names modifier discarded

/-- Whether the clause is a mere name, which may be discarded. -/
def isPlain : ClauseText → Bool
  | name _ none _ => true
  | _ => false

end ClauseText

section Inspection

open Text

def Modifier.inspect : Modifier → String
  | .optional => "Optional"
  | .zeroOrMore => "ZeroOrMore"
  | .oneOrMore => "OneOrMore"

private def showName (text : String) : String := "Name" ++ showTuple [quoteString text]

private def showGroup (clauses : List String) : String := "Group" ++ showTuple [showList clauses]

private def showChoice (names : List String) : String :=
  "Choice" ++ showTuple [showList (names.map quoteString)]

private def showClause (modifier : Option Modifier) (discarded : Bool) (atom : String) : String :=
  showRecord "ClauseSyntax"
    [("atom", atom), ("modifier", showOption (modifier.map Modifier.inspect)),
     ("discarded", showBool discarded)]

mutual

/-- A clause as it is shown for inspection, in a record with its marks. -/
def ClauseText.inspect : ClauseText → String
  | .name text modifier discarded => showClause modifier discarded (showName text)
  | .group clauses modifier discarded => showClause modifier discarded
      (showGroup (inspectAll clauses))
  | .choice names modifier discarded => showClause modifier discarded (showChoice names)

def inspectAll : List ClauseText → List String
  | [] => []
  | clause :: rest => clause.inspect :: inspectAll rest

end

/-- What a clause shows without its marks. -/
def ClauseText.inspectAtom : ClauseText → String
  | .name text .. => showName text
  | .group clauses .. => showGroup (inspectAll clauses)
  | .choice names .. => showChoice names

def RuleSyntax.inspect (rule : RuleSyntax) : String :=
  showRecord "Rule" [("name", quoteString rule.name),
    ("clauses", showList (inspectAll rule.clauses))]

end Inspection

variable {K : Type}

/-- A clause with its modifier and its mark. -/
def finish (modifier : Option Modifier) (discarded : Bool) (clause : Clause K) : Clause K :=
  let repeated := match modifier with
    | none => clause
    | some .optional => .option clause false
    | some .zeroOrMore => .zeroOrMore clause false
    | some .oneOrMore => .oneOrMore clause false
  if discarded then repeated.discard else repeated

variable [DecidableEq K] [TokenKind K]

/-- The name of a kind is a terminal, any other name a non-terminal. -/
def namedClause (name : String) : Clause K :=
  match TokenKind.ofName? name with
  | some kind => .ofKind kind
  | none => .ofName name

mutual

def ClauseText.toClause : ClauseText → Clause K
  | .name text modifier discarded => finish modifier discarded (namedClause text)
  | .group clauses modifier discarded => finish modifier discarded
      (.group (toClauses clauses) false)
  | .choice names modifier discarded => finish modifier discarded
      (.choice (names.map namedClause) false)

def toClauses : List ClauseText → List (Clause K)
  | [] => []
  | clause :: rest => clause.toClause :: toClauses rest

end

end GrammarKit.RuleText
