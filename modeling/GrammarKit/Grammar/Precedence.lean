import GrammarKit.Diagnostic
import GrammarKit.Grammar

namespace GrammarKit

variable {K R : Type} [DecidableEq K] [TokenKind K]

namespace Precedence

def layerName (root : String) (precedence : Nat) : String := s!"{root}_{precedence}"

/-- The clause for one of several operators. -/
def operatorClause : List (Operation K R) → Clause K
  | [operation] => .ofKind operation.kind
  | operations => .choice (operations.map fun operation => .ofKind operation.kind) false

/-- The clauses of the operators with one affix in the layer `name`, which
    stands before `next`. -/
def affixClauses (name next : String) (operator : Clause K) : Affix → List (Clause K)
  | .infixOp => [.ofName next, operator, .ofName name]
  | .prefixOp => [operator, .ofName next]
  | .postfixOp => [.ofName next, operator]

def affixRule (name next : String) (affix : Affix) (level : List (Operation K R)) :
    Option (Rule K R) :=
  let operations := level.filter fun operation => operation.affix = affix
  if operations.isEmpty then none
  else
    some { clauses := affixClauses name next (operatorClause operations) affix, affix, operations }

/-- A rule that is replaced by the non-terminal it consists of. -/
def bypassRule (target : String) : Rule K R where
  clauses := [.ofName target]
  isBypass := true

/-- The rules of one layer. -/
def layerRules (name next : String) (level : List (Operation K R)) : List (String × Rule K R) :=
  ([Affix.infixOp, .prefixOp, .postfixOp].filterMap fun affix =>
    affixRule name next affix level).map (fun rule => (name, rule)) ++ [(name, bypassRule next)]

/-- The rules of all layers from the lowest precedence up. The operands of each
    layer belong to the next higher one, and the highest takes the operand
    itself. Rules of infix operators are recursive on the right whatever the
    associativity. -/
def layers (root operand : String) (operations : List (Operation K R)) :
    List Nat → List (String × Rule K R)
  | [] => []
  | precedence :: higher =>
    let next := match higher with
      | [] => operand
      | following :: _ => layerName root following
    layerRules (layerName root precedence) next
        (operations.filter fun operation => operation.precedence = precedence) ++
      layers root operand operations higher

/-- The precedences that occur, lowest first. -/
def precedences (operations : List (Operation K R)) : List Nat :=
  (operations.map fun operation => operation.precedence).eraseDups.mergeSort

/-- Operators need exactly one kind of operand. -/
inductive Problem where
  | noOperand
  | severalOperands (names : List String)
  deriving DecidableEq, Repr

namespace Problem

def message : Problem → String
  | noOperand => "operators are declared but no operand rule is"
  | severalOperands names =>
    "exactly one operand non terminal is expected, found " ++ ", ".intercalate names

def diagnostic (problem : Problem) : Diagnostic where
  level := .fatal
  code := .missingOperand
  message := problem.message

end Problem

/-- The rules for operators over the given operands, and a rule for `root` that
    leads to the layers. -/
def rules (root : String) (operands : List String) (operations : List (Operation K R)) :
    Except Problem (List (String × Rule K R)) :=
  match precedences operations with
  | [] => .ok []
  | lowest :: higher =>
    match operands with
    | [] => .error .noOperand
    | [operand] =>
      .ok (layers root operand operations (lowest :: higher) ++
        [(root, bypassRule (layerName root lowest))])
    | _ => .error (.severalOperands operands)

end Precedence

end GrammarKit
