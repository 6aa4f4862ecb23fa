import GrammarKit.SyntaxTree

namespace GrammarKit.SyntaxTree

variable {K : Type}

/-- An operator node whose last child has to become its parent: the children
    before the last one, the label of the last one, its first child and its
    further children. -/
structure Rotation (K : Type) where
  before : List (SyntaxTree K)
  upper : NodeLabel K
  middle : SyntaxTree K
  after : List (SyntaxTree K)

/-- Whether `right` belongs to an infix operator of this precedence. -/
def isInfixOf (precedence : Nat) (right : NodeLabel K) : Bool :=
  right.operator.any fun operator => operator.affix = .infixOp && operator.precedence = precedence

/-- The precedence of an infix operator that groups to the left. -/
def leftPrecedence? (label : NodeLabel K) : Option Nat :=
  match label.operator with
  | some operator =>
    if operator.affix = .infixOp && operator.associativity = .left then some operator.precedence
    else none
  | none => none

/-- The rotation that a node needs: its operator groups to the left, and its
    last child is a node of an infix operator with the same precedence. -/
def rotation? (label : NodeLabel K) (children : List (SyntaxTree K)) : Option (Rotation K) :=
  match leftPrecedence? label, children.getLast? with
  | some precedence, some (node upper (middle :: after)) =>
    if isInfixOf precedence upper then some ⟨children.dropLast, upper, middle, after⟩ else none
  | _, _ => none

/-- Rotates at a node as long as needed, at most `bound` levels deep: from `a -
    (b - c)` to `(a - b) - c`, where both the new left operand and the whole may
    need another rotation. -/
def rotateWithin : Nat → NodeLabel K → List (SyntaxTree K) → SyntaxTree K
  | 0, label, children => node label children
  | bound + 1, label, children =>
    match rotation? label children with
    | none => node label children
    | some found =>
      rotateWithin bound found.upper
        (rotateWithin bound label (found.before ++ [found.middle]) :: found.after)

/-- Rotates at a node. The operators of a chain are at most as many as the nodes
    below, and so are the levels of each rotation. -/
def rotate (label : NodeLabel K) (children : List (SyntaxTree K)) : SyntaxTree K :=
  if (rotation? label children).isNone then node label children
  else rotateWithin ((sizeIn children + 1) * (sizeIn children + 1)) label children

variable {R : Type} [DecidableEq K] [TokenKind K]

/-- The place of the operator among the children. -/
def operatorIndex : Affix → Nat
  | .prefixOp => 0
  | .infixOp | .postfixOp => 1

/-- Notes the operator of an expression node, as declared for the token that
    stands in its place. Nodes of rules without operators stay as they are. -/
def annotate (grammar : Grammar K R) (label : NodeLabel K) (children : List (SyntaxTree K)) :
    NodeLabel K :=
  match grammar.rule? label.name label.rule with
  | none => label
  | some rule =>
    match rule.affix with
    | none => label
    | some affix =>
      let kind := (children[operatorIndex affix]?.bind token?).bind Token.kind
      { label with operator := (kind.bind rule.operation?).map Operation.toOperator }

/-- Normalises a node whose children are normal. -/
def normalNode (grammar : Grammar K R) (label : NodeLabel K) (children : List (SyntaxTree K)) :
    SyntaxTree K :=
  match label.isBypass, children with
  | true, [child] => if label.discarded then child.setDiscarded true else child
  | _, _ =>
    if label.isExpression then rotate (annotate grammar label children) children
    else node label children

mutual

/-- The normal form of a tree, from the leaves up: nodes that only pass on their
    single child give way to it, nodes of operators learn which operator they
    hold, and chains of operators that group to the left, which are matched from
    the right, are rotated. -/
def normalize (grammar : Grammar K R) : SyntaxTree K → SyntaxTree K
  | leaf token discarded => leaf token discarded
  | node label children => normalNode grammar label (normalizeEach grammar children)
  | many shape children discarded => many shape (normalizeEach grammar children) discarded
  | present shape child discarded => present shape (normalize grammar child) discarded
  | absent shape discarded => absent shape discarded

def normalizeEach (grammar : Grammar K R) : List (SyntaxTree K) → List (SyntaxTree K)
  | [] => []
  | tree :: rest => normalize grammar tree :: normalizeEach grammar rest

end

end GrammarKit.SyntaxTree
