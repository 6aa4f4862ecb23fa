import GrammarKit.Diagnostic
import GrammarKit.Grammar.First

namespace GrammarKit

variable {K R : Type} [DecidableEq K] [TokenKind K]

namespace Clause

mutual

/-- The non-terminals that a match of a clause can begin with. -/
def leftmost (nullable : String → Bool) : Clause K → List String
  | terminal .. => []
  | nonTerminal name .. => [name]
  | group clauses _ => leftmostOfAll nullable clauses
  | choice alternatives _ => leftmostOfAny nullable alternatives
  | option inner _ => leftmost nullable inner
  | zeroOrMore inner _ => leftmost nullable inner
  | oneOrMore inner _ => leftmost nullable inner

/-- In a sequence, a clause counts when everything before it can match nothing. -/
def leftmostOfAll (nullable : String → Bool) : List (Clause K) → List String
  | [] => []
  | clause :: rest =>
    if isNullable nullable clause then leftmost nullable clause ++ leftmostOfAll nullable rest
    else leftmost nullable clause

def leftmostOfAny (nullable : String → Bool) : List (Clause K) → List String
  | [] => []
  | clause :: rest => leftmost nullable clause ++ leftmostOfAny nullable rest

end

end Clause

/-- A reference to a name that has no rules. -/
structure Undeclared where
  parent : String
  name : String
  deriving DecidableEq, Repr

namespace Cycle

/-- A non-terminal and the way that led to it, which includes it. -/
structure Step where
  name : String
  path : List String

/-- The names that a step reaches first. -/
def reached (found unseen : List String) : List String :=
  unseen.filter fun name => found.contains name

/-- The names that no step reached yet. -/
def remaining (found unseen : List String) : List String :=
  unseen.filter fun name => !found.contains name

theorem length_reached_add_length_remaining (found unseen : List String) :
    (reached found unseen).length + (remaining found unseen).length = unseen.length := by
  unfold reached remaining
  induction unseen with
  | nil => rfl
  | cons name unseen ih =>
    cases h : found.contains name <;>
      simp only [List.filter_cons, h, Bool.not_false, Bool.not_true, if_true,
        Bool.false_eq_true, if_false, List.length_cons] <;> omega

/-- Looks for a way back to `start`, depth first. Of the names in `unseen` none
    was reached yet. -/
def search (targets : String → List String) (start : String) (unseen : List String) :
    List Step → Option (List String)
  | [] => none
  | step :: stack =>
    let found := targets step.name
    if found.contains start then some (step.path ++ [start])
    else
      let steps := (reached found unseen).map fun name => ⟨name, step.path ++ [name]⟩
      search targets start (remaining found unseen) (steps.reverse ++ stack)
termination_by stack => unseen.length + stack.length
decreasing_by
  have := length_reached_add_length_remaining (targets step.name) unseen
  simp only [List.length_append, List.length_reverse, List.length_map, List.length_cons]
  omega

end Cycle

namespace Grammar

/-- The non-terminals that rules of `name` can begin with. -/
def leftmost (grammar : Grammar K R) (nullable : String → Bool) (name : String) : List String :=
  match grammar.find? name with
  | some nonTerminal => nonTerminal.rules.flatMap fun rule =>
    Clause.leftmostOfAll nullable rule.clauses
  | none => []

/-- A way from `start` back to itself, each step of which can be taken before a
    token is matched. -/
def cycleFrom (grammar : Grammar K R) (nullable : String → Bool) (start : String) :
    Option (List String) :=
  Cycle.search (grammar.leftmost nullable) start grammar.names [⟨start, [start]⟩]

/-- Left recursions from the non-terminals in `names`, except for those in
    `known`, which lie on a cycle that was found before. -/
def cyclesFrom (grammar : Grammar K R) (nullable : String → Bool) (known : List String) :
    List String → List (List String)
  | [] => []
  | name :: rest =>
    if known.contains name then grammar.cyclesFrom nullable known rest
    else
      match grammar.cycleFrom nullable name with
      | some cycle => cycle :: grammar.cyclesFrom nullable (known ++ cycle) rest
      | none => grammar.cyclesFrom nullable known rest

/-- The left recursions of a grammar, each as a way from a non-terminal back to itself. -/
def leftRecursions (grammar : Grammar K R) : List (List String) :=
  grammar.cyclesFrom grammar.nullable.contains [] grammar.names

/-- The names that rules refer to and that have no rules, each once for every non-terminal. -/
def undeclared (grammar : Grammar K R) : List Undeclared :=
  let references := grammar.rules.flatMap fun (parent, rule) =>
    (Clause.referencesIn rule.clauses).map fun name => ⟨parent, name⟩
  (references.filter fun reference => !grammar.contains reference.name).eraseDups

/-- The names that rules of other non-terminals refer to. -/
def referenced (grammar : Grammar K R) : List String :=
  grammar.rules.flatMap fun (parent, rule) =>
    (Clause.referencesIn rule.clauses).filter fun name => name ≠ parent

/-- The non-terminals other than the start that no other non-terminal refers to. -/
def unused (grammar : Grammar K R) : List String :=
  let referenced := grammar.referenced
  grammar.names.filter fun name => name ≠ grammar.start && !referenced.contains name

/-- The choices between values one of whose alternatives is a token. -/
def mixedChoices (grammar : Grammar K R) : List String :=
  let choices := grammar.rules.flatMap fun (_, rule) => Clause.valueChoicesIn rule.clauses
  let mixed := grammar.nonTerminals.filter fun nonTerminal =>
    choices.contains nonTerminal.name && nonTerminal.rules.any fun rule =>
      match rule.clauses with
      | [.terminal ..] => true
      | _ => false
  mixed.map NonTerminal.name

/-- What is wrong with a grammar. -/
inductive Problem where
  | missingStart (name : String)
  | undeclared (reference : Undeclared)
  | unused (name : String)
  | leftRecursion (cycle : List String)
  | mixedChoice (name : String)
  deriving DecidableEq, Repr

namespace Problem

def level : Problem → Level
  | unused _ => .warn
  | _ => .error

def code : Problem → Code
  | missingStart _ => .missingStartRule
  | undeclared _ => .undeclaredNonTerminal
  | unused _ => .unreachableNonTerminal
  | leftRecursion _ => .leftRecursion
  | mixedChoice _ => .mixedChoice

private def beforeMark : List Char → List Char
  | '_' :: '_' :: _ => []
  | c :: rest => c :: beforeMark rest
  | [] => []

/-- The non-terminal that the name of a choice was made from. -/
def parentOf (name : String) : String := String.ofList (beforeMark name.toList)

def message : Problem → String
  | missingStart name => s!"starting non terminal {name} has no rule"
  | undeclared reference =>
    s!"non terminal {reference.name} referenced by {reference.parent} is not declared"
  | unused name => s!"non terminal {name} is never used"
  | leftRecursion cycle => "left recursion: " ++ " > ".intercalate cycle
  | mixedChoice name =>
    s!"choice {name} of {parentOf name} mixes terminal and non terminal alternatives"

def diagnostic (problem : Problem) : Diagnostic where
  level := problem.level
  code := problem.code
  message := problem.message

end Problem

def startProblem? (grammar : Grammar K R) : Option Problem :=
  if grammar.contains grammar.start then none else some (.missingStart grammar.start)

/-- Everything that is wrong with a grammar: no rules for its start, references
    to names without rules, names that no other non-terminal refers to, left
    recursion, and choices between tokens and values. -/
def problems (grammar : Grammar K R) : List Problem :=
  grammar.startProblem?.toList ++ grammar.undeclared.map .undeclared ++
    grammar.unused.map .unused ++ grammar.leftRecursions.map .leftRecursion ++
    grammar.mixedChoices.map .mixedChoice

end Grammar

end GrammarKit
