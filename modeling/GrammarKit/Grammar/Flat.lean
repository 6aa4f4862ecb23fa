import GrammarKit.Grammar

namespace GrammarKit

variable {K R : Type} [DecidableEq K] [TokenKind K]

namespace Flat

def groupName (parent : String) (number : Nat) : String := s!"{parent}__group_{number}"

def choiceName (parent : String) (number : Nat) : String := s!"{parent}__choice_{number}"

/-- What is left of a clause or of clauses, the number for the next name, and
    the rules of the names that were made. -/
structure Flattened (α K R : Type) [DecidableEq K] [TokenKind K] where
  value : α
  next : Nat
  rules : List (String × Rule K R)

def Flattened.map {α β : Type} (f : α → β) (flattened : Flattened α K R) : Flattened β K R where
  value := f flattened.value
  next := flattened.next
  rules := flattened.rules

/-- How a choice between these alternatives is referred to. -/
def choiceRole (alternatives : List (Clause K)) : Role :=
  if alternatives.all Clause.isTerminal then .tokenChoice else .valueChoice

mutual

/-- Gives names to the groups and choices of a clause, beginning with the outermost. -/
def clause (parent : String) (next : Nat) : Clause K → Flattened (Clause K) K R
  | .terminal kind discarded => ⟨.terminal kind discarded, next, []⟩
  | .nonTerminal name role discarded => ⟨.nonTerminal name role discarded, next, []⟩
  | .group members discarded =>
    let name := groupName parent next
    let inner := clauses parent (next + 1) members
    ⟨.nonTerminal name .group discarded, inner.next,
      inner.rules ++ [(name, { clauses := inner.value, isSubrule := true })]⟩
  | .choice members discarded =>
    let name := choiceName parent next
    let inner := alternatives parent name (next + 1) members
    ⟨.nonTerminal name (choiceRole members) discarded, inner.next, inner.rules⟩
  | .option inner discarded => (clause parent next inner).map (.option · discarded)
  | .zeroOrMore inner discarded => (clause parent next inner).map (.zeroOrMore · discarded)
  | .oneOrMore inner discarded => (clause parent next inner).map (.oneOrMore · discarded)

def clauses (parent : String) (next : Nat) : List (Clause K) → Flattened (List (Clause K)) K R
  | [] => ⟨[], next, []⟩
  | first :: rest =>
    let head := clause parent next first
    let tail := clauses parent head.next rest
    ⟨head.value :: tail.value, tail.next, head.rules ++ tail.rules⟩

/-- Each alternative of a choice becomes a rule that is replaced by what it matches. -/
def alternatives (parent name : String) (next : Nat) : List (Clause K) → Flattened Unit K R
  | [] => ⟨(), next, []⟩
  | first :: rest =>
    let head := clause parent next first
    let tail := alternatives parent name head.next rest
    ⟨(), tail.next,
      head.rules ++ (name, { clauses := [head.value], isBypass := true }) :: tail.rules⟩

end

/-- Gives names to the groups and choices in the rules of one non-terminal. -/
def rules (parent : String) (next : Nat) : List (Rule K R) → Flattened (List (Rule K R)) K R
  | [] => ⟨[], next, []⟩
  | first :: rest =>
    let head := clauses parent next first.clauses
    let tail := rules parent head.next rest
    ⟨{ first with clauses := head.value } :: tail.value, tail.next, head.rules ++ tail.rules⟩

def nonTerminal (nonTerminal : NonTerminal K R) : Flattened (List (Rule K R)) K R :=
  rules nonTerminal.name 0 nonTerminal.rules

end Flat

/-- Moves all groups and choices into non-terminals of their own, so that a
    clause is a terminal, a non-terminal, or an option or repetition of one.
    Their names are made from the non-terminal they occur in and a number that
    counts its groups and choices. -/
def Grammar.flatten (grammar : Grammar K R) : Grammar K R :=
  let named := grammar.nonTerminals.flatMap fun nonTerminal => (Flat.nonTerminal nonTerminal).rules
  let kept := grammar.map
    (fun nonTerminal => { nonTerminal with rules := (Flat.nonTerminal nonTerminal).value })
    fun _ => rfl
  kept.addAll named

end GrammarKit
