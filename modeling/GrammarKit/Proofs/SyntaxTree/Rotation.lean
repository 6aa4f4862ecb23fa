import GrammarKit.Proofs.SyntaxTree.Derivation
import GrammarKit.SyntaxTree.Normal

namespace GrammarKit.SyntaxTree

variable {K : Type}

mutual

/-- The nodes of a tree with their children, from the root down and from left to right. -/
def nodes : SyntaxTree K → List (NodeLabel K × List (SyntaxTree K))
  | leaf .. => []
  | node label children => (label, children) :: nodesIn children
  | many _ children _ => nodesIn children
  | present _ child _ => nodes child
  | absent .. => []

def nodesIn : List (SyntaxTree K) → List (NodeLabel K × List (SyntaxTree K))
  | [] => []
  | tree :: rest => nodes tree ++ nodesIn rest

end

/-- The nodes of trees are those of one of them. -/
theorem mem_nodesIn {trees : List (SyntaxTree K)} {entry : NodeLabel K × List (SyntaxTree K)} :
    entry ∈ nodesIn trees ↔ ∃ tree ∈ trees, entry ∈ tree.nodes := by
  induction trees with
  | nil => simp [nodesIn]
  | cons tree rest ih => simp [nodesIn, ih]

/-- Whether something holds of every node of a tree and its children. -/
def Everywhere (holds : NodeLabel K → List (SyntaxTree K) → Prop) (tree : SyntaxTree K) : Prop :=
  ∀ entry ∈ tree.nodes, holds entry.1 entry.2

section Everywhere

variable {holds : NodeLabel K → List (SyntaxTree K) → Prop}

theorem everywhere_leaf (token : Token K) (discarded : Bool) :
    (leaf token discarded).Everywhere holds :=
  fun _ hentry => nomatch hentry

theorem everywhere_absent (shape : Shape) (discarded : Bool) :
    (absent shape discarded : SyntaxTree K).Everywhere holds :=
  fun _ hentry => nomatch hentry

/-- What holds of all nodes of trees holds of all nodes of each. -/
theorem forall_mem_nodesIn_iff {trees : List (SyntaxTree K)} :
    (∀ entry ∈ nodesIn trees, holds entry.1 entry.2) ↔ ∀ tree ∈ trees, tree.Everywhere holds := by
  constructor
  · intro h tree htree entry hentry
    exact h entry (mem_nodesIn.2 ⟨tree, htree, hentry⟩)
  · intro h entry hentry
    obtain ⟨tree, htree, hentry⟩ := mem_nodesIn.1 hentry
    exact h tree htree entry hentry

/-- What holds of a tree holds of its root and of its children. -/
theorem everywhere_node_iff {label : NodeLabel K} {children : List (SyntaxTree K)} :
    (node label children).Everywhere holds ↔ holds label children ∧
      ∀ child ∈ children, child.Everywhere holds := by
  rw [← forall_mem_nodesIn_iff]
  exact List.forall_mem_cons

theorem everywhere_many_iff {shape : Shape} {children : List (SyntaxTree K)} {discarded : Bool} :
    (many shape children discarded).Everywhere holds ↔ ∀ child ∈ children, child.Everywhere holds :=
  forall_mem_nodesIn_iff

theorem everywhere_present_iff {shape : Shape} {child : SyntaxTree K} {discarded : Bool} :
    (present shape child discarded).Everywhere holds ↔ child.Everywhere holds := Iff.rfl

mutual

/-- What holds of all nodes of a tree holds of all below any of them. -/
theorem everywhere_of_mem_nodes : ∀ {tree : SyntaxTree K}, tree.Everywhere holds →
    ∀ entry ∈ tree.nodes, (node entry.1 entry.2).Everywhere holds
  | leaf .., _, _, hentry | absent .., _, _, hentry => nomatch hentry
  | node _ children, htree, entry, hentry => by
    rcases List.mem_cons.1 hentry with rfl | hentry
    · exact htree
    · exact everywhere_of_mem_nodesIn (everywhere_node_iff.1 htree).2 entry hentry
  | many _ children _, htree, entry, hentry =>
    everywhere_of_mem_nodesIn (everywhere_many_iff.1 htree) entry hentry
  | present _ child _, htree, entry, hentry =>
    everywhere_of_mem_nodes (everywhere_present_iff.1 htree) entry hentry

theorem everywhere_of_mem_nodesIn :
    ∀ {trees : List (SyntaxTree K)}, (∀ tree ∈ trees, tree.Everywhere holds) →
    ∀ entry ∈ nodesIn trees, (node entry.1 entry.2).Everywhere holds
  | [], _, _, hentry => nomatch hentry
  | tree :: rest, htrees, entry, hentry => by
    rcases List.mem_append.1 hentry with hentry | hentry
    · exact everywhere_of_mem_nodes (htrees tree List.mem_cons_self) entry hentry
    · exact everywhere_of_mem_nodesIn (fun other hother =>
        htrees other (List.mem_cons_of_mem _ hother)) entry hentry

end

/-- What holds of the nodes of a tree holds of each of them together with its children. -/
theorem Everywhere.strengthen {stronger : NodeLabel K → List (SyntaxTree K) → Prop}
    {tree : SyntaxTree K} (htree : tree.Everywhere holds)
    (hstronger : ∀ label children, (node label children).Everywhere holds →
      stronger label children) :
    tree.Everywhere stronger :=
  fun entry hentry => hstronger entry.1 entry.2 (everywhere_of_mem_nodes htree entry hentry)

/-- A mark for discarding is only on the root. -/
theorem Everywhere.setDiscarded {tree : SyntaxTree K} (htree : tree.Everywhere holds)
    (discarded : Bool)
    (hmark : ∀ label children, holds label children → holds { label with discarded } children) :
    (tree.setDiscarded discarded).Everywhere holds := by
  cases tree with
  | node label children =>
    obtain ⟨hlabel, hchildren⟩ := everywhere_node_iff.1 htree
    exact everywhere_node_iff.2 ⟨hmark label children hlabel, hchildren⟩
  | leaf | many | present | absent => exact htree

end Everywhere

/-- A node is one of an infix operator when its operator is one. -/
theorem isInfixOf_eq_true_iff {precedence : Nat} {label : NodeLabel K} :
    isInfixOf precedence label = true ↔
      ∃ operator, label.operator = some operator ∧ operator.affix = .infixOp ∧
        operator.precedence = precedence := by
  rw [isInfixOf, Option.any_eq_true]
  simp

/-- A node groups to the left when its operator is an infix operator that does. -/
theorem leftPrecedence?_eq_some_iff {precedence : Nat} {label : NodeLabel K} :
    leftPrecedence? label = some precedence ↔
      ∃ operator, label.operator = some operator ∧ operator.affix = .infixOp ∧
        operator.associativity = .left ∧
        operator.precedence = precedence := by
  rw [leftPrecedence?]
  cases label.operator with
  | none => simp
  | some operator => simp [and_assoc]

theorem affix_eq_of_isInfixOf {precedence : Nat} {label : NodeLabel K} {operator : Operator K}
    (hinfixOp : isInfixOf precedence label = true) (hoperator : label.operator = some operator) :
    operator.affix = .infixOp := by
  obtain ⟨same, hsame, haffix, -⟩ := isInfixOf_eq_true_iff.1 hinfixOp
  obtain rfl := Option.some.inj (hsame.symm.trans hoperator)
  exact haffix

/-- The tree with the children `before` and a last child, whose left edge takes
    in the node as far down as operators have the same precedence. -/
def graft (label : NodeLabel K) (before : List (SyntaxTree K)) : SyntaxTree K → SyntaxTree K
  | node upper (middle :: after) =>
    if (leftPrecedence? label).any (isInfixOf · upper) then
      node upper (graft label before middle :: after)
    else node label (before ++ [node upper (middle :: after)])
  | node upper [] => node label (before ++ [node upper []])
  | leaf token discarded => node label (before ++ [leaf token discarded])
  | many shape children discarded => node label (before ++ [many shape children discarded])
  | present shape child discarded => node label (before ++ [present shape child discarded])
  | absent shape discarded => node label (before ++ [absent shape discarded])

/-- A node that is not to be rotated. Whether it is depends on its last child,
    and an operator between two operands has at least a second child. -/
structure IsSettled (label : NodeLabel K) (children : List (SyntaxTree K)) : Prop where
  rotation?_eq_none : rotation? label children = none
  two_le_length : ∀ precedence, isInfixOf precedence label = true → 2 ≤ children.length

/-- A node without an operator is settled. -/
theorem IsSettled.of_operator_eq_none {label : NodeLabel K} (hnone : label.operator = none)
    (children : List (SyntaxTree K)) : IsSettled label children where
  rotation?_eq_none := by simp [rotation?, leftPrecedence?, hnone]
  two_le_length := by simp [isInfixOf, hnone]

/-- A node of another operator than an infix one is settled. -/
theorem IsSettled.of_affix_ne {label : NodeLabel K} {operator : Operator K}
    (hoperator : label.operator = some operator) (haffix : operator.affix ≠ .infixOp)
    (children : List (SyntaxTree K)) : IsSettled label children where
  rotation?_eq_none := by simp [rotation?, leftPrecedence?, hoperator, haffix]
  two_le_length := by simp [isInfixOf, hoperator, haffix]

/-- Whether the operator of a node groups to the left, and yet the last child is
    one of an infix operator with the same precedence. -/
def IsMisgrouped (label : NodeLabel K) (children : List (SyntaxTree K)) : Prop :=
  ∃ operator last other, label.operator = some operator ∧ operator.affix = .infixOp ∧
    operator.associativity = .left ∧
    children.getLast? = some last ∧ last.operator? = some other ∧ other.affix = .infixOp ∧
      other.precedence = operator.precedence

/-- What stands last under a misgrouped node has the children that it is rotated by. -/
theorem IsMisgrouped.exists_last {label : NodeLabel K} {children : List (SyntaxTree K)}
    (hmisgrouped : IsMisgrouped label children)
    (hsettled : ∀ child ∈ children, child.Everywhere IsSettled) :
    ∃ precedence upper middle after, leftPrecedence? label = some precedence ∧
      children.getLast? = some (node upper (middle :: after)) ∧
      isInfixOf precedence upper = true := by
  obtain ⟨operator, last, other, hoperator, hinfixOp, hleft, hlast, hother, hotherInfix, hsame⟩ :=
    hmisgrouped
  have hprecedence : leftPrecedence? label = some operator.precedence :=
    leftPrecedence?_eq_some_iff.2 ⟨operator, hoperator, hinfixOp, hleft, rfl⟩
  cases last with
  | leaf | many | present | absent => cases hother
  | node upper inner =>
    have hupper : isInfixOf operator.precedence upper = true :=
      isInfixOf_eq_true_iff.2 ⟨other, hother, hotherInfix, hsame⟩
    cases inner with
    | nil =>
      have hlength :=
        (everywhere_node_iff.1 (hsettled _ (List.mem_of_getLast? hlast))).1.two_le_length _ hupper
      cases hlength
    | cons middle after => exact ⟨_, upper, middle, after, hprecedence, hlast, hupper⟩

/-- A node that is settled is not misgrouped. -/
theorem not_isMisgrouped {label : NodeLabel K} {children : List (SyntaxTree K)}
    (hsettled : (node label children).Everywhere IsSettled) : ¬ IsMisgrouped label children := by
  intro hmisgrouped
  obtain ⟨hnode, hchildren⟩ := everywhere_node_iff.1 hsettled
  obtain ⟨precedence, upper, middle, after, hprecedence, hlast, hupper⟩ :=
    hmisgrouped.exists_last hchildren
  have hnone := hnode.rotation?_eq_none
  simp [rotation?, hprecedence, hlast, hupper] at hnone

/-- Whether a node is to be rotated shows at its last child. -/
theorem rotation?_append_singleton (label : NodeLabel K) (before : List (SyntaxTree K))
    (right : SyntaxTree K) :
    rotation? label (before ++ [right]) =
      match right with
      | node upper (middle :: after) =>
        if (leftPrecedence? label).any (isInfixOf · upper) then some ⟨before, upper, middle, after⟩
        else none
      | _ => none := by
  rw [rotation?, List.getLast?_append]
  cases leftPrecedence? label with
  | none | some precedence =>
    match right with
    | node upper (middle :: after) => simp
    | node upper [] | leaf .. | many .. | present .. | absent .. => simp

theorem rotation?_cons_eq_none {label : NodeLabel K} {first other : SyntaxTree K}
    {rest : List (SyntaxTree K)} (hne : rest ≠ [])
    (hnone : rotation? label (first :: rest) = none) : rotation? label (other :: rest) = none := by
  obtain ⟨before, last, rfl⟩ : ∃ before last, rest = before ++ [last] :=
    ⟨rest.dropLast, rest.getLast hne, (List.dropLast_append_getLast hne).symm⟩
  have hcons (tree : SyntaxTree K) : tree :: (before ++ [last]) = (tree :: before) ++ [last] := rfl
  rw [hcons, rotation?_append_singleton] at hnone ⊢
  split at hnone
  · split at hnone
    · cases hnone
    · next hnot => simp [hnot]
  · rfl

/-- The first operand of an infix operator does not matter for whether its node
    is to be rotated. -/
theorem IsSettled.replace_first {precedence : Nat} {upper : NodeLabel K}
    {middle other : SyntaxTree K} {after : List (SyntaxTree K)}
    (hsettled : IsSettled upper (middle :: after)) (hinfixOp : isInfixOf precedence upper = true) :
    IsSettled upper (other :: after) := by
  have hlength := hsettled.two_le_length precedence hinfixOp
  have hafter : after ≠ [] := by
    rintro rfl
    simp at hlength
  exact ⟨rotation?_cons_eq_none hafter hsettled.rotation?_eq_none, fun _ _ => hlength⟩

/-- A node that is not to be rotated stays. -/
theorem rotateWithin_eq_node {bound : Nat} {label : NodeLabel K} {children : List (SyntaxTree K)}
    (hnone : rotation? label children = none) :
    rotateWithin bound label children = node label children := by
  cases bound with
  | zero => rfl
  | succ bound => rw [rotateWithin, hnone]

/-- With as many steps as the last child has nodes, rotating is grafting. -/
theorem rotateWithin_eq_graft {bound : Nat} {label : NodeLabel K} {before : List (SyntaxTree K)}
    {right : SyntaxTree K} (hsettled : right.Everywhere IsSettled) (hbound : right.size < bound) :
    rotateWithin bound label (before ++ [right]) = graft label before right := by
  induction bound generalizing right with
  | zero => exact absurd hbound (Nat.not_lt_zero _)
  | succ bound ih =>
    rw [rotateWithin, rotation?_append_singleton]
    match right with
    | node upper (middle :: after) =>
      obtain ⟨hupper, hchildren⟩ := everywhere_node_iff.1 hsettled
      rw [graft]
      by_cases hsame : (leftPrecedence? label).any (isInfixOf · upper) = true
      · simp only [hsame, if_true]
        obtain ⟨precedence, -, hprecedence⟩ := (Option.any_eq_true _ _).1 hsame
        have hlength := hupper.two_le_length precedence hprecedence
        have hafter : after ≠ [] := by
          rintro rfl
          simp at hlength
        have hmiddle : middle.size < bound := by
          simp only [size, sizeIn] at hbound
          omega
        rw [ih (hchildren middle List.mem_cons_self) hmiddle]
        exact rotateWithin_eq_node (rotation?_cons_eq_none hafter hupper.rotation?_eq_none)
      · simp only [hsame]
        rfl
    | node upper [] | leaf .. | many .. | present .. | absent .. => rfl

/-- A node is grafted onto a child that is no infix operation of its precedence
    by standing above it. -/
theorem graft_eq_node {label : NodeLabel K} {before : List (SyntaxTree K)} {right : SyntaxTree K}
    (hnone : rotation? label (before ++ [right]) = none) :
    graft label before right = node label (before ++ [right]) := by
  rw [rotation?_append_singleton] at hnone
  match right with
  | node upper (middle :: after) =>
    by_cases hsame : (leftPrecedence? label).any (isInfixOf · upper) = true
    · simp [hsame] at hnone
    · rw [graft, if_neg hsame]
  | node upper [] | leaf .. | many .. | present .. | absent .. => rfl

/-- Grafting keeps what holds of all nodes, if it holds of the node wherever it
    ends and of an infix operator above it with any first operand that fits
    there. -/
theorem everywhere_graft {holds : NodeLabel K → List (SyntaxTree K) → Prop}
    (fits : SyntaxTree K → Prop) {label : NodeLabel K} {before : List (SyntaxTree K)}
    {right : SyntaxTree K} (hright : right.Everywhere holds) (hfits : fits right)
    (hbefore : ∀ child ∈ before, child.Everywhere holds)
    (hlabel : ∀ last, fits last → rotation? label (before ++ [last]) = none →
      holds label (before ++ [last]) ∧ fits (node label (before ++ [last])))
    (hupper : ∀ upper middle after, (leftPrecedence? label).any (isInfixOf · upper) = true →
      holds upper (middle :: after) → fits (node upper (middle :: after)) → fits middle ∧
      ∀ other, fits other → holds upper (other :: after) ∧ fits (node upper (other :: after))) :
    (graft label before right).Everywhere holds ∧ fits (graft label before right) := by
  have hstop (last : SyntaxTree K) (hlast : last.Everywhere holds) (hfits : fits last)
      (hnone : rotation? label (before ++ [last]) = none) :
      (node label (before ++ [last])).Everywhere holds ∧ fits (node label (before ++ [last])) := by
    obtain ⟨hholds, hnode⟩ := hlabel last hfits hnone
    refine ⟨everywhere_node_iff.2 ⟨hholds, fun child hchild => ?_⟩, hnode⟩
    rcases List.mem_append.1 hchild with hchild | hchild
    · exact hbefore child hchild
    · exact List.mem_singleton.1 hchild ▸ hlast
  fun_induction graft label before right with
  | case1 upper middle after hsame ih =>
    obtain ⟨hholds, hchildren⟩ := everywhere_node_iff.1 hright
    obtain ⟨hmiddle, hother⟩ := hupper upper middle after hsame hholds hfits
    obtain ⟨hlower, hlowerFits⟩ := ih (hchildren middle List.mem_cons_self) hmiddle
    obtain ⟨hholds, hnode⟩ := hother _ hlowerFits
    refine ⟨everywhere_node_iff.2 ⟨hholds, fun child hchild => ?_⟩, hnode⟩
    rcases List.mem_cons.1 hchild with rfl | hchild
    · exact hlower
    · exact hchildren child (List.mem_cons_of_mem _ hchild)
  | case2 upper middle after hsame =>
    exact hstop _ hright hfits ((rotation?_append_singleton _ _ _).trans (if_neg hsame))
  | case3 | case4 | case5 | case6 | case7 =>
    exact hstop _ hright hfits (rotation?_append_singleton _ _ _)

theorem sizeIn_append (trees others : List (SyntaxTree K)) :
    sizeIn (trees ++ others) = sizeIn trees + sizeIn others := by
  induction trees with
  | nil => simp [sizeIn]
  | cons tree rest ih =>
    simp only [List.cons_append, sizeIn, ih]
    omega

/-- A node that is not to be rotated is left as it is. -/
theorem rotate_eq_node {label : NodeLabel K} {children : List (SyntaxTree K)}
    (hnone : rotation? label children = none) :
    rotate label children = node label children := by
  rw [rotate, hnone]
  rfl

/-- Where the last child is settled, rotating as long as needed comes to pushing
    the node down the left edge of that child as far as operators of the same
    precedence go. -/
theorem rotate_eq_graft {label : NodeLabel K} {before : List (SyntaxTree K)} {right : SyntaxTree K}
    (hsettled : right.Everywhere IsSettled) :
    rotate label (before ++ [right]) = graft label before right := by
  rw [rotate]
  split
  · next hnone => exact (graft_eq_node (Option.isNone_iff_eq_none.1 hnone)).symm
  · refine rotateWithin_eq_graft hsettled ?_
    have hsize : right.size ≤ sizeIn (before ++ [right]) := by
      simp only [sizeIn_append, sizeIn]
      omega
    have hsquare := Nat.le_mul_self (sizeIn (before ++ [right]) + 1)
    omega

section Leaves

theorem leavesIn_append (trees others : List (SyntaxTree K)) :
    leavesIn (trees ++ others) = leavesIn trees ++ leavesIn others := by
  simp [leavesIn_eq_flatten]

/-- A rotation takes the children of a node and those of its last child apart. -/
theorem eq_of_rotation?_eq_some {label : NodeLabel K} {children : List (SyntaxTree K)}
    {found : Rotation K} (hfound : rotation? label children = some found) :
    children = found.before ++ [node found.upper (found.middle :: found.after)] := by
  cases List.eq_nil_or_concat children with
  | inl hnil =>
    subst hnil
    simp [rotation?] at hfound
  | inr hconcat =>
    obtain ⟨before, right, rfl⟩ := hconcat
    rw [List.concat_eq_append, rotation?_append_singleton] at hfound
    split at hfound
    · split at hfound
      · obtain rfl := Option.some.inj hfound
        simp
      · cases hfound
    · cases hfound

/-- Each step of a rotation leaves the tokens in their order. -/
theorem leaves_rotateWithin (bound : Nat) (label : NodeLabel K) (children : List (SyntaxTree K)) :
    (rotateWithin bound label children).leaves = leavesIn children := by
  induction bound generalizing label children with
  | zero => rw [rotateWithin, leaves]
  | succ bound ih =>
    rw [rotateWithin]
    split
    · rw [leaves]
    · next found hfound =>
      rw [ih, eq_of_rotation?_eq_some hfound, leavesIn, ih]
      simp [leavesIn_append, leavesIn, leaves]

/-- Rotating moves no token. -/
theorem leaves_rotate (label : NodeLabel K) (children : List (SyntaxTree K)) :
    (rotate label children).leaves = leavesIn children := by
  rw [rotate]
  split
  · rw [leaves]
  · exact leaves_rotateWithin _ _ _

variable {R : Type} [DecidableEq K] [TokenKind K]

/-- Normalising a node moves no token. -/
theorem leaves_normalNode (grammar : Grammar K R) (label : NodeLabel K)
    (children : List (SyntaxTree K)) :
    (normalNode grammar label children).leaves = leavesIn children := by
  unfold normalNode
  split
  · split <;> simp
  · split
    · exact leaves_rotate _ _
    · rw [leaves]

mutual

/-- A tree and its normal form have the same tokens in the same order. -/
theorem leaves_normalize (grammar : Grammar K R) :
    ∀ tree : SyntaxTree K, (tree.normalize grammar).leaves = tree.leaves
  | leaf .. => rfl
  | node label children => by rw [normalize, leaves_normalNode,
      leavesIn_normalizeEach grammar children, leaves]
  | many _ children _ => by rw [normalize, leaves, leavesIn_normalizeEach grammar children, leaves]
  | present _ child _ => by rw [normalize, leaves, leaves_normalize grammar child, leaves]
  | absent .. => rfl

theorem leavesIn_normalizeEach (grammar : Grammar K R) :
    ∀ trees : List (SyntaxTree K), leavesIn (normalizeEach grammar trees) = leavesIn trees
  | [] => rfl
  | tree :: rest => by
    rw [normalizeEach, leavesIn, leaves_normalize grammar tree, leavesIn_normalizeEach grammar rest,
      leavesIn]

end

end Leaves

end GrammarKit.SyntaxTree
