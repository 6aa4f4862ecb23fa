import GrammarKit.Arguments
import GrammarKit.SyntaxTree

namespace GrammarKit

/-- The action of a rule: it turns the values of the children into the value of
    the node, and it may change a context that all actions share. -/
abbrev Reducer (K O C : Type) := Arguments K O → C → Except ReduceError O × C

/-- A reducer that leaves the context alone. -/
def Reducer.ofTaking {K O C : Type} (taking : Arguments.Taking K O O) : Reducer K O C :=
  fun arguments context => ((taking.run.run arguments).1, context)

/-- A failed reduction and the non-terminal whose node could not be reduced. -/
structure ReductionFailure where
  nonTerminal : String
  reason : ReduceError
  deriving DecidableEq, Repr

def ReductionFailure.message (failure : ReductionFailure) : String :=
  s!"reducing {failure.nonTerminal} failed: {failure.reason.message}"

namespace Reduction

variable {K O C : Type} [DecidableEq K] [TokenKind K]

abbrev Reducing (C α : Type) := ExceptT ReductionFailure (StateM C) α

/-- The value of an option. A child whose value does not fit is passed on as it is. -/
def optionValue : Shape → Value K O → Value K O
  | .token, .token token => .tokenOption (some token)
  | .value, .value value => .valueOption (some value)
  | .group, .group items => .groupOption (some items)
  | _, value => value

def emptyOption : Shape → Value K O
  | .token => .tokenOption none
  | .value => .valueOption none
  | .group => .groupOption none

/-- The value of a repetition. Items whose values do not fit are left out. -/
def manyValue : Shape → List (Value K O) → Value K O
  | .token, items => .tokens (items.filterMap Value.asToken?)
  | .value, items => .values (items.filterMap Value.asValue?)
  | .group, items => .groups (items.filterMap Value.asGroup?)

/-- The reducer of a node: that of its operator, if it has one, otherwise that of its rule. -/
def reducer? (grammar : Grammar K (Reducer K O C)) (label : NodeLabel K) :
    Option (Reducer K O C) := do
  let rule ← grammar.rule? label.name label.rule
  match label.operator with
  | some operator => (rule.operation? operator.kind).map Operation.reducer
  | none => rule.reducer

/-- Runs the reducer of a node. -/
def callReducer (grammar : Grammar K (Reducer K O C)) (label : NodeLabel K)
    (values : List (Value K O)) :
    Reducing C (Value K O) := do
  match reducer? grammar label with
  | none => throw ⟨label.name, .noReducer label.name⟩
  | some reducer =>
    match ← modifyGet (reducer (Arguments.ofValues values)) with
    | .ok value => return .value value
    | .error reason => throw ⟨label.name, reason⟩

/-- The value of a node from those of its shown children. Groups keep them by
    name, and a node that only passes on a single child has that child's
    value. -/
def nodeValue (grammar : Grammar K (Reducer K O C)) (label : NodeLabel K)
    (items : List (String × Value K O)) : Reducing C (Value K O) :=
  if label.isGroup then return .group items
  else
    match label.isBypass, items with
    | true, [(_, value)] => return value
    | _, _ => callReducer grammar label (items.map Prod.snd)

mutual

/-- The value of a tree, from the leaves up and from left to right. The children
    of a node become the arguments of its rule's reducer; discarded ones are
    left out, with all that they contain. The first failure ends the
    reduction. -/
def visit (grammar : Grammar K (Reducer K O C)) : SyntaxTree K → Reducing C (Value K O)
  | .leaf token _ => return .token token
  | .node label children => do nodeValue grammar label (← visitShown grammar children)
  | .many shape children _ => return manyValue shape (← visitEach grammar children)
  | .present shape child _ => return optionValue shape (← visit grammar child)
  | .absent shape _ => return emptyOption shape

/-- The values of all trees. -/
def visitEach (grammar : Grammar K (Reducer K O C)) :
    List (SyntaxTree K) → Reducing C (List (Value K O))
  | [] => return []
  | tree :: rest => do
    let value ← visit grammar tree
    return value :: (← visitEach grammar rest)

/-- The values of the trees that are not discarded, by name. -/
def visitShown (grammar : Grammar K (Reducer K O C)) :
    List (SyntaxTree K) → Reducing C (List (String × Value K O))
  | [] => return []
  | tree :: rest =>
    if tree.isDiscarded then visitShown grammar rest
    else do
      let value ← visit grammar tree
      return (tree.name, value) :: (← visitShown grammar rest)

end

/-- The result for a whole tree, whose root has to be reduced by a reducer. -/
def reduce (grammar : Grammar K (Reducer K O C)) (tree : SyntaxTree K) : Reducing C O := do
  match ← visit grammar tree with
  | .value value => return value
  | other => throw ⟨tree.name, .unexpectedArgument 0 .value other.variant⟩

end Reduction

end GrammarKit
