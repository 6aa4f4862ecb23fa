import GrammarKit.Clause
import GrammarKit.KindSet
import GrammarKit.Text.Record

namespace GrammarKit

/-- How operators of one precedence group without brackets. -/
inductive Associativity where
  | nonassoc
  | left
  | right
  deriving DecidableEq, Repr

namespace Associativity

def name : Associativity → String
  | nonassoc => "None"
  | left => "Left"
  | right => "Right"

end Associativity

/-- Where an operator stands: in front of its operand, between two, or behind it. -/
inductive Affix where
  | prefixOp
  | infixOp
  | postfixOp
  deriving DecidableEq, Repr

namespace Affix

def name : Affix → String
  | prefixOp => "Prefix"
  | infixOp => "Infix"
  | postfixOp => "Postfix"

end Affix

/-- An operator; the higher its precedence, the tighter it binds. -/
structure Operator (K : Type) where
  precedence : Nat
  associativity : Associativity
  affix : Affix
  kind : K
  deriving DecidableEq, Repr

/-- An operator with the action that reduces its uses. -/
structure Operation (K R : Type) extends Operator K where
  reducer : R

/-- One way to match a non-terminal. The rules of operators carry the operations
    to choose from. What the rule can begin with, and whether it can match
    nothing, is known once the grammar was analysed. -/
structure Rule (K R : Type) [DecidableEq K] [TokenKind K] where
  clauses : List (Clause K)
  reducer : Option R := none
  affix : Option Affix := none
  operations : List (Operation K R) := []
  isSubrule : Bool := false
  isBypass : Bool := false
  leading : KindSet K := ∅
  mayBeEmpty : Bool := false

/-- A name together with its rules in the order of declaration. -/
structure NonTerminal (K R : Type) [DecidableEq K] [TokenKind K] where
  name : String
  rules : List (Rule K R)
  leading : KindSet K := ∅

/-- Non-terminals sorted by name, and the one that stands for a whole text. -/
structure Grammar (K R : Type) [DecidableEq K] [TokenKind K] where
  start : String
  nonTerminals : List (NonTerminal K R)
  sorted : nonTerminals.Pairwise fun a b => a.name < b.name

variable {K R : Type} [DecidableEq K] [TokenKind K]

namespace Rule

/-- Whether the rule is worth trying in front of a token of this kind; the end
    of a text has none. -/
def canStartWith (rule : Rule K R) (kind : Option K) : Bool :=
  rule.mayBeEmpty || kind.any (· ∈ rule.leading)

/-- The operation of an operator; of several, the one declared last. -/
def operation? (rule : Rule K R) (kind : K) : Option (Operation K R) :=
  rule.operations.reverse.find? fun operation => operation.kind = kind

/-- The operations in alphabet order. -/
def operationTable (rule : Rule K R) : List (Operation K R) :=
  TokenKind.all.filterMap rule.operation?

def isExpression (rule : Rule K R) : Bool := rule.affix.isSome

/-- The text of a rule of `name` in rule notation. -/
def describe (name : String) (rule : Rule K R) : String :=
  name ++ " :" ++ String.join (rule.clauses.map fun clause => " " ++ clause.describe)

end Rule

namespace NonTerminal

/-- Whether the non-terminal stands for a group. -/
def isGroup (nonTerminal : NonTerminal K R) : Bool :=
  nonTerminal.rules.any Rule.isSubrule

end NonTerminal

namespace Grammar

def empty (start : String) : Grammar K R where
  start := start
  nonTerminals := []
  sorted := .nil

def find? (grammar : Grammar K R) (name : String) : Option (NonTerminal K R) :=
  grammar.nonTerminals.find? fun nonTerminal => nonTerminal.name = name

def contains (grammar : Grammar K R) (name : String) : Bool :=
  (grammar.find? name).isSome

def names (grammar : Grammar K R) : List String :=
  grammar.nonTerminals.map NonTerminal.name

/-- A rule by the name of its non-terminal and its place among the rules of that name. -/
def rule? (grammar : Grammar K R) (name : String) (index : Nat) : Option (Rule K R) := do
  (← grammar.find? name).rules[index]?

/-- The rules of a name, none if there is no such non-terminal. -/
def rulesOf (grammar : Grammar K R) (name : String) : List (Rule K R) :=
  (grammar.find? name).elim [] NonTerminal.rules

/-- All rules with the names of their non-terminals. -/
def rules (grammar : Grammar K R) : List (String × Rule K R) :=
  grammar.nonTerminals.flatMap fun nonTerminal => nonTerminal.rules.map fun rule =>
    (nonTerminal.name, rule)

/-- Appends a rule to the non-terminal called `name`, which is put in its place if it is new. -/
private def insertRule (name : String) (rule : Rule K R) :
    List (NonTerminal K R) → List (NonTerminal K R)
  | [] => [{ name, rules := [rule] }]
  | first :: rest =>
    if name = first.name then { first with rules := first.rules ++ [rule] } :: rest
    else if name < first.name then { name, rules := [rule] } :: first :: rest
    else first :: insertRule name rule rest

private theorem name_of_mem_insertRule {name : String} {rule : Rule K R}
    {nonTerminals : List (NonTerminal K R)} {nonTerminal : NonTerminal K R}
    (h : nonTerminal ∈ insertRule name rule nonTerminals) :
    nonTerminal.name = name ∨ ∃ other ∈ nonTerminals, other.name = nonTerminal.name := by
  induction nonTerminals with
  | nil => exact Or.inl (by simp_all [insertRule])
  | cons first rest ih =>
    simp only [insertRule] at h
    split at h
    · rcases List.mem_cons.1 h with rfl | hrest
      · exact Or.inr ⟨first, by simp⟩
      · exact Or.inr ⟨nonTerminal, by simp [hrest]⟩
    · split at h
      · rcases List.mem_cons.1 h with rfl | hmem
        · exact Or.inl rfl
        · exact Or.inr ⟨nonTerminal, hmem, rfl⟩
      · rcases List.mem_cons.1 h with rfl | hrest
        · exact Or.inr ⟨nonTerminal, by simp⟩
        · rcases ih hrest with hname | ⟨other, hother, heq⟩
          · exact Or.inl hname
          · exact Or.inr ⟨other, by simp [hother], heq⟩

private theorem lt_of_not_lt_of_ne {a b : String} (hne : a ≠ b) (hlt : ¬ a < b) : b < a := by
  rcases String.le_total a b with hle | hle
  · exact absurd (String.le_antisymm hle (String.not_lt.1 hlt)) hne
  · exact String.not_le.1 fun hle' => hne (String.le_antisymm hle' hle)

private theorem insertRule_sorted (name : String) (rule : Rule K R)
    {nonTerminals : List (NonTerminal K R)} (h : nonTerminals.Pairwise fun a b => a.name < b.name) :
    (insertRule name rule nonTerminals).Pairwise fun a b => a.name < b.name := by
  induction nonTerminals with
  | nil => simp [insertRule]
  | cons first rest ih =>
    obtain ⟨hfirst, hrest⟩ := List.pairwise_cons.1 h
    simp only [insertRule]
    split
    · exact List.pairwise_cons.2 ⟨hfirst, hrest⟩
    · next hne =>
      split
      · next hlt =>
        refine List.pairwise_cons.2 ⟨fun other hother => ?_, h⟩
        rcases List.mem_cons.1 hother with rfl | hother
        · exact hlt
        · exact String.lt_trans hlt (hfirst other hother)
      · next hlt =>
        refine List.pairwise_cons.2 ⟨fun other hother => ?_, ih hrest⟩
        rcases name_of_mem_insertRule hother with hname | ⟨known, hknown, hname⟩
        · exact hname ▸ lt_of_not_lt_of_ne hne hlt
        · exact hname ▸ hfirst known hknown

private theorem mem_rules_insertRule {name : String} {rule : Rule K R}
    {nonTerminals : List (NonTerminal K R)} (owner : String) (other : Rule K R) :
    (∃ nonTerminal ∈ insertRule name rule nonTerminals, nonTerminal.name = owner ∧
      other ∈ nonTerminal.rules) ↔
      (owner = name ∧ other = rule) ∨
        ∃ nonTerminal ∈ nonTerminals, nonTerminal.name = owner ∧ other ∈ nonTerminal.rules := by
  induction nonTerminals with
  | nil => simp [insertRule, eq_comm]
  | cons first rest ih =>
    simp only [insertRule]
    split
    · next hname =>
      subst hname
      simp only [List.mem_cons, exists_eq_or_imp, List.mem_append, List.not_mem_nil, or_false]
      grind
    · split
      · simp [eq_comm]
      · simp only [List.mem_cons, exists_eq_or_imp, ih]
        grind

private theorem mem_names_insertRule {name : String} {rule : Rule K R}
    {nonTerminals : List (NonTerminal K R)} (other : String) :
    other ∈ (insertRule name rule nonTerminals).map NonTerminal.name ↔
      other = name ∨ other ∈ nonTerminals.map NonTerminal.name := by
  induction nonTerminals with
  | nil => simp [insertRule]
  | cons first rest ih =>
    simp only [insertRule]
    split
    · next hname => simp [hname]
    · split
      · simp
      · rw [List.map_cons, List.mem_cons, ih, List.map_cons, List.mem_cons, or_left_comm]

private theorem find?_eq_none_of_lt {name : String} {nonTerminals : List (NonTerminal K R)}
    (hlt : ∀ nonTerminal ∈ nonTerminals, name < nonTerminal.name) :
    nonTerminals.find? (fun nonTerminal => nonTerminal.name = name) = none := by
  refine List.find?_eq_none.2 fun nonTerminal hmem => ?_
  simpa using (String.ne_of_lt (hlt nonTerminal hmem)).symm

private theorem rules_find?_insertRule (name : String) (rule : Rule K R) (other : String)
    {nonTerminals : List (NonTerminal K R)}
    (hsorted : nonTerminals.Pairwise fun a b => a.name < b.name) :
    ((insertRule name rule nonTerminals).find? fun nonTerminal => nonTerminal.name = other).elim
      [] NonTerminal.rules =
      (nonTerminals.find? fun nonTerminal => nonTerminal.name = other).elim [] NonTerminal.rules ++
        if other = name then [rule] else [] := by
  induction nonTerminals with
  | nil => by_cases hother : other = name <;> simp [insertRule, hother, eq_comm]
  | cons first rest ih =>
    obtain ⟨hfirst, hrest⟩ := List.pairwise_cons.1 hsorted
    simp only [insertRule]
    split
    · next hname => by_cases hother : other = first.name <;> simp [hname, hother, eq_comm]
    · next hne =>
      split
      · next hlt =>
        by_cases hother : other = name
        · subst hother
          have hnone : (first :: rest).find? (fun nonTerminal => nonTerminal.name = other) = none :=
            find?_eq_none_of_lt fun nonTerminal hmem => by
              rcases List.mem_cons.1 hmem with rfl | hmem
              · exact hlt
              · exact String.lt_trans hlt (hfirst nonTerminal hmem)
          simp [hnone]
        · simp [hother, Ne.symm hother]
      · by_cases hother : first.name = other
        · simp [hother, Ne.symm (hother ▸ hne)]
        · simpa [hother] using ih hrest

/-- Adds a rule after the rules that its non-terminal has already. -/
def add (grammar : Grammar K R) (name : String) (rule : Rule K R) : Grammar K R where
  start := grammar.start
  nonTerminals := insertRule name rule grammar.nonTerminals
  sorted := insertRule_sorted name rule grammar.sorted

/-- Adding a rule keeps the rules there are. -/
theorem mem_rules_add {grammar : Grammar K R} {name : String} {rule : Rule K R}
    {entry : String × Rule K R} :
    entry ∈ (grammar.add name rule).rules ↔ entry = (name, rule) ∨ entry ∈ grammar.rules := by
  obtain ⟨owner, other⟩ := entry
  simpa [rules, add, and_left_comm] using mem_rules_insertRule owner other

/-- Adding a rule adds its name and no other. -/
theorem mem_names_add {grammar : Grammar K R} {name : String} {rule : Rule K R} {other : String} :
    other ∈ (grammar.add name rule).names ↔ other = name ∨ other ∈ grammar.names :=
  mem_names_insertRule other

/-- An added rule comes last among the rules of its name, and other names keep theirs. -/
theorem rulesOf_add (grammar : Grammar K R) (name : String) (rule : Rule K R) (other : String) :
    (grammar.add name rule).rulesOf other = grammar.rulesOf other ++
      if other = name then [rule] else [] :=
  rules_find?_insertRule name rule other grammar.sorted

def addAll (grammar : Grammar K R) (rules : List (String × Rule K R)) : Grammar K R :=
  rules.foldl (fun grammar (name, rule) => grammar.add name rule) grammar

/-- Changes each non-terminal, but not its name. -/
def map (grammar : Grammar K R) (change : NonTerminal K R → NonTerminal K R)
    (hname : ∀ nonTerminal, (change nonTerminal).name = nonTerminal.name) : Grammar K R where
  start := grammar.start
  nonTerminals := grammar.nonTerminals.map change
  sorted := List.pairwise_map.2 (grammar.sorted.imp fun h => by simpa only [hname] using h)

/-- All rules in rule notation, a line each. -/
def describe (grammar : Grammar K R) : String :=
  "\n".intercalate (grammar.rules.map fun (name, rule) => rule.describe name)

end Grammar

open Text

def Operation.inspect (operation : Operation K R) : String :=
  showRecord "OperationMetaData"
    [("precedence", toString operation.precedence), ("associativity", operation.associativity.name),
     ("affix", operation.affix.name), ("operator", TokenKind.name operation.kind)]

def Rule.inspect (name : String) (rule : Rule K R) : String :=
  showRecord "Rule"
    [("text", quoteString (rule.describe name)),
     ("has_reducer", showBool rule.reducer.isSome),
     ("operations", showMap
       (rule.operationTable.map fun operation =>
         (TokenKind.name operation.kind, operation.inspect))),
     ("is_subrule", showBool rule.isSubrule),
     ("is_bypass", showBool rule.isBypass),
     ("is_expression_rule", showBool rule.isExpression),
     ("leading_tokens", showSet rule.leading.names),
     ("may_be_empty", showBool rule.mayBeEmpty)]

def NonTerminal.inspect (nonTerminal : NonTerminal K R) : String :=
  showRecord "NonTerminal"
    [("name", quoteString nonTerminal.name),
     ("rules", showList (nonTerminal.rules.map (Rule.inspect nonTerminal.name)))]

def Grammar.inspect (grammar : Grammar K R) : String :=
  showRecord "GrammarConfiguration"
    [("starting_rule", quoteString grammar.start),
     ("non_terminals", showMap
       (grammar.nonTerminals.map fun nonTerminal =>
         (quoteString nonTerminal.name, nonTerminal.inspect)))]

end GrammarKit
