import GrammarKit.Proofs.SyntaxTree.Normal

namespace GrammarKit

namespace SyntaxTree

variable {K : Type}

/-- Whether one tree is a part of another, or the whole. -/
inductive Contains : SyntaxTree K → SyntaxTree K → Prop
  | refl (tree : SyntaxTree K) : Contains tree tree
  | node {label : NodeLabel K} {children : List (SyntaxTree K)} {child part : SyntaxTree K} :
      child ∈ children → Contains child part → Contains (.node label children) part
  | many {shape : Shape} {children : List (SyntaxTree K)} {discarded : Bool}
      {child part : SyntaxTree K} : child ∈ children → Contains child part →
        Contains (.many shape children discarded) part
  | present {shape : Shape} {child part : SyntaxTree K} {discarded : Bool} :
      Contains child part → Contains (.present shape child discarded) part

/-- Marks for discarding what is this far down the left edge. -/
def discardAt : Nat → SyntaxTree K → SyntaxTree K
  | 0, tree => tree.setDiscarded true
  | depth + 1, node label (first :: rest) => node label (discardAt depth first :: rest)
  | _ + 1, tree => tree

/-- How far down the left edge of its last child a node is pushed. -/
def graftDepth (label : NodeLabel K) : SyntaxTree K → Nat
  | node upper (middle :: _) =>
    if (leftPrecedence? label).any (isInfixOf · upper) then graftDepth label middle + 1 else 0
  | _ => 0

/-- How far down a node is pushed by rotating. -/
def rotationDepth (label : NodeLabel K) (children : List (SyntaxTree K)) : Nat :=
  (children.getLast?.map (graftDepth label)).getD 0

/-- A rotation looks at no marks. -/
@[simp] theorem leftPrecedence?_discard (label : NodeLabel K) (discarded : Bool) :
    leftPrecedence? { label with discarded } = leftPrecedence? label := rfl

/-- A mark of the node goes where the node goes. -/
theorem graft_discard (label : NodeLabel K) (before : List (SyntaxTree K)) (right : SyntaxTree K) :
    graft { label with discarded := true } before right = (graft label before right).discardAt
      (graftDepth label right) := by
  fun_induction graft label before right with
  | case1 upper middle after hsame ih =>
    rw [graft, leftPrecedence?_discard, if_pos hsame, graftDepth, if_pos hsame, discardAt, ih]
  | case2 upper middle after hsame =>
    rw [graft, leftPrecedence?_discard, if_neg hsame, graftDepth, if_neg hsame]
    rfl
  | case3 | case4 | case5 | case6 | case7 => rfl

/-- A node that is rotated keeps its mark and moves down with it. -/
theorem rotate_discard {label : NodeLabel K} {children : List (SyntaxTree K)}
    (hsettled : ∀ child ∈ children, child.Everywhere IsSettled) :
    rotate { label with discarded := true } children =
      (rotate label children).discardAt (rotationDepth label children) := by
  rcases List.eq_nil_or_concat children with rfl | ⟨before, right, rfl⟩
  · have hnone (label : NodeLabel K) : rotation? label ([] : List (SyntaxTree K)) = none := by
      simp [rotation?]
    rw [rotate_eq_node (hnone _), rotate_eq_node (hnone _)]
    rfl
  · rw [List.concat_eq_append] at hsettled ⊢
    have hright := hsettled right (by simp)
    rw [rotate_eq_graft hright, rotate_eq_graft hright, graft_discard, rotationDepth,
      List.getLast?_concat]
    rfl

/-- A node stays where it is unless its operator groups to the left and the last
    child is an operation of the same precedence. -/
theorem rotationDepth_eq_zero_iff {label : NodeLabel K} {children : List (SyntaxTree K)}
    (hsettled : ∀ child ∈ children, child.Everywhere IsSettled) :
    rotationDepth label children = 0 ↔ ¬ IsMisgrouped label children := by
  constructor
  · intro hzero hmisgrouped
    obtain ⟨precedence, upper, middle, after, hprecedence, hlast, hupper⟩ :=
      hmisgrouped.exists_last hsettled
    rw [rotationDepth, hlast] at hzero
    simp [graftDepth, hprecedence, hupper] at hzero
  · intro hnot
    by_contra hdepth
    rw [rotationDepth] at hdepth
    cases hlast : children.getLast? with
    | none => simp [hlast] at hdepth
    | some last =>
      rw [hlast] at hdepth
      match last, hdepth with
      | node upper (middle :: after), hdepth =>
        by_cases hsame : (leftPrecedence? label).any (isInfixOf · upper) = true
        · obtain ⟨precedence, hprecedence, hupper⟩ := (Option.any_eq_true _ _).1 hsame
          obtain ⟨operator, hoperator, hinfixOp, hleft, rfl⟩ :=
            leftPrecedence?_eq_some_iff.1 hprecedence
          obtain ⟨other, hother, hotherInfix, hequal⟩ := isInfixOf_eq_true_iff.1 hupper
          exact hnot ⟨operator, _, other, hoperator, hinfixOp, hleft, hlast, hother,
            hotherInfix, hequal⟩
        · simp [graftDepth, hsame] at hdepth
      | node upper [], hdepth | leaf .., hdepth | many .., hdepth | present ..,
          hdepth | absent .., hdepth =>
        exact hdepth rfl

variable {R : Type} [DecidableEq K] [TokenKind K]

/-- Whether a node gives way to its only child. -/
def GivesWay (label : NodeLabel K) (children : List (SyntaxTree K)) : Prop :=
  label.isBypass = true ∧ children.length = 1

instance (label : NodeLabel K) (children : List (SyntaxTree K)) :
    Decidable (GivesWay label children) :=
  inferInstanceAs (Decidable (_ ∧ _))

/-- How far down the left edge of its normal form the root of a tree is to be
    found, or what the root gave way to. -/
def rootDepth (grammar : Grammar K R) : SyntaxTree K → Nat
  | node label children =>
    if GivesWay label children then 0
    else if label.isExpression then
      rotationDepth (annotate grammar label (normalizeEach grammar children))
      (normalizeEach grammar children)
    else 0
  | _ => 0

/-- Whether the root of a tree is rotated away: it does not give way, its
    operator groups to the left, and in normal form its last child is an
    operation of the same precedence. -/
def IsRotated (grammar : Grammar K R) : SyntaxTree K → Prop
  | node label children =>
    ¬ GivesWay label children ∧ label.isExpression = true ∧
      IsMisgrouped (annotate grammar label (normalizeEach grammar children))
        (normalizeEach grammar children)
  | _ => False

variable {grammar : Grammar K R}

/-- A mark makes no difference to which operator is noted. -/
theorem annotate_discard (label : NodeLabel K) (children : List (SyntaxTree K)) (discarded : Bool) :
    annotate grammar { label with discarded } children =
      { annotate grammar label children with discarded } := by
  unfold annotate
  cases grammar.rule? label.name label.rule with
  | none => rfl
  | some rule =>
    dsimp only
    cases rule.affix <;> rfl

/-- A node that only leads on hands its mark on to its child. -/
theorem normalNode_of_isBypass {label : NodeLabel K} (hbypass : label.isBypass = true)
    (child : SyntaxTree K) :
    normalNode grammar label [child] = if label.discarded then child.setDiscarded true
      else child := by
  rw [normalNode]
  exact hbypass

/-- A node that does not give way is annotated and rotated. -/
theorem normalNode_of_not_givesWay {label : NodeLabel K} {children : List (SyntaxTree K)}
    (hnot : ¬ GivesWay label children) :
    normalNode grammar label children =
      if label.isExpression then rotate (annotate grammar label children) children
      else node label children := by
  unfold normalNode
  split
  · next hbypass => exact absurd ⟨hbypass, rfl⟩ hnot
  · rfl

/-- Marking the root before or after normalising makes no difference but for the
    place of the mark. -/
theorem normalize_discard {tree : SyntaxTree K}
    (hsettled : ∀ label children, tree = node label children →
      ∀ child ∈ normalizeEach grammar children, child.Everywhere IsSettled) :
    (tree.setDiscarded true).normalize grammar = (tree.normalize grammar).discardAt
      (rootDepth grammar tree) := by
  cases tree with
  | leaf | many | present | absent => rfl
  | node label children =>
    have hchildren := hsettled label children rfl
    have hlength : (normalizeEach grammar children).length = children.length := by
      rw [Grammar.normalizeEach_eq_map, List.length_map]
    rw [setDiscarded, normalize, normalize, rootDepth]
    by_cases hway : GivesWay label children
    · obtain ⟨child, hchild⟩ := List.length_eq_one_iff.1 (hlength.trans hway.2)
      have hbypass : { label with discarded := true }.isBypass = true := hway.1
      rw [hchild, if_pos hway, normalNode_of_isBypass hway.1, normalNode_of_isBypass hbypass]
      cases label.discarded with
      | false => rfl
      | true => cases child <;> rfl
    · have hnot : ¬ GivesWay label (normalizeEach grammar children) :=
        fun hboth => hway ⟨hboth.1, hlength ▸ hboth.2⟩
      have hmarked : ¬ GivesWay { label with discarded := true } (normalizeEach grammar children) :=
        hnot
      rw [normalNode_of_not_givesWay hnot, normalNode_of_not_givesWay hmarked, if_neg hway,
        annotate_discard]
      by_cases hexpression : label.isExpression = true
      · rw [if_pos hexpression, if_pos hexpression, if_pos hexpression]
        exact rotate_discard hchildren
      · rw [if_neg hexpression, if_neg hexpression, if_neg hexpression]
        rfl

/-- The root of a tree stays on top unless it is rotated away. -/
theorem rootDepth_eq_zero_iff {tree : SyntaxTree K}
    (hsettled : ∀ label children, tree = node label children →
      ∀ child ∈ normalizeEach grammar children, child.Everywhere IsSettled) :
    rootDepth grammar tree = 0 ↔ ¬ IsRotated grammar tree := by
  cases tree with
  | leaf | many | present | absent => exact ⟨fun _ => id, fun _ => rfl⟩
  | node label children =>
    have hdepth := @rotationDepth_eq_zero_iff _
      (annotate grammar label (normalizeEach grammar children)) _ (hsettled label children rfl)
    rw [rootDepth, IsRotated]
    by_cases hway : GivesWay label children
    · simp [hway]
    · by_cases hexpression : label.isExpression = true
      · rw [if_neg hway, if_pos hexpression, hdepth]
        simp [hway, hexpression]
      · simp [hexpression]

/-- Normalising a node whose children are settled leaves it settled. -/
theorem everywhere_normalNode {label : NodeLabel K} {children : List (SyntaxTree K)}
    (hnone : label.operator = none)
    (hlength : ∀ precedence, isInfixOf precedence (annotate grammar label children) = true →
      2 ≤ children.length)
    (hsettled : ∀ child ∈ children, child.Everywhere IsSettled) :
    (normalNode grammar label children).Everywhere IsSettled := by
  by_cases hway : GivesWay label children
  · obtain ⟨child, rfl⟩ := List.length_eq_one_iff.1 hway.2
    have hchild := List.forall_mem_singleton.1 hsettled
    rw [normalNode_of_isBypass hway.1]
    split
    · exact hchild.setDiscarded true fun _ _ hnode => ⟨hnode.rotation?_eq_none, hnode.two_le_length⟩
    · exact hchild
  · rw [normalNode_of_not_givesWay hway]
    split
    · rcases List.eq_nil_or_concat children with rfl | ⟨before, right, rfl⟩
      · have hrotation : rotation? (annotate grammar label []) ([] : List (SyntaxTree K)) =
            none := by simp [rotation?]
        rw [rotate_eq_node hrotation]
        exact everywhere_node_iff.2 ⟨⟨hrotation, hlength⟩, fun _ hnone =>
          absurd hnone List.not_mem_nil⟩
      · rw [List.concat_eq_append] at hsettled hlength ⊢
        have hbefore (child : SyntaxTree K) (hchild : child ∈ before) :=
          hsettled child (List.mem_append_left _ hchild)
        have hright := hsettled right (by simp)
        rw [rotate_eq_graft hright]
        refine (everywhere_graft (fun _ => True) hright trivial hbefore ?_ ?_).1
        · intro last _ hrotation
          exact ⟨⟨hrotation, by simpa using hlength⟩, trivial⟩
        · intro upper middle after hsame hupper _
          obtain ⟨precedence, -, hinfixOp⟩ := (Option.any_eq_true _ _).1 hsame
          exact ⟨trivial, fun _ _ => ⟨hupper.replace_first hinfixOp, trivial⟩⟩
    · exact everywhere_node_iff.2 ⟨.of_operator_eq_none hnone _, hsettled⟩

end SyntaxTree

namespace Grammar

open SyntaxTree

variable {K R : Type} [DecidableEq K] [TokenKind K]

/-- Whether the rules of infix operators have a clause on each side of the
    operator, or at least two. -/
def HasOperands (grammar : Grammar K R) : Prop :=
  ∀ {name : String} {rule : Rule K R}, (name, rule) ∈ grammar.rules → rule.affix.isSome = true →
    ∀ operation ∈ rule.operations, operation.affix = .infixOp → 2 ≤ rule.clauses.length

variable {grammar : Grammar K R} {clauses : List (Clause K)} {trees : List (SyntaxTree K)}

/-- A node takes the operator of an operation of its rule. -/
theorem two_le_length_of_isInfixOf_annotate (hoperands : grammar.HasOperands) {label : NodeLabel K}
    {rule : Rule K R} (hrule : grammar.rule? label.name label.rule = some rule)
    (hnone : label.operator = none) {precedence : Nat} {children : List (SyntaxTree K)}
    (hinfixOp : isInfixOf precedence (annotate grammar label children) = true) :
    2 ≤ rule.clauses.length := by
  obtain ⟨operator, hoperator, haffix, -⟩ := isInfixOf_eq_true_iff.1 hinfixOp
  rw [annotate, hrule] at hoperator
  cases hrest : rule.affix with
  | none =>
    simp only [hrest, hnone] at hoperator
    cases hoperator
  | some affix =>
    simp only [hrest] at hoperator
    obtain ⟨operation, hoperation, rfl⟩ := Option.map_eq_some_iff.1 hoperator
    obtain ⟨kind, -, hoperation⟩ := Option.bind_eq_some_iff.1 hoperation
    exact hoperands (mem_rules_of_rule? hrule) (by simp [hrest]) operation
      (Rule.mem_of_operation? hoperation).1 haffix

namespace Derives

/-- There is a tree for each clause. -/
theorem length_eq (hderives : grammar.Derives clauses trees) : trees.length = clauses.length := by
  induction hderives with
  | nil => rfl
  | terminal _ _ ih | absent _ ih => exact congrArg Nat.succ ih
  | nonTerminal _ _ _ _ ih | present _ _ _ ih => exact congrArg Nat.succ ih
  | zeroOrMore _ _ _ ih | oneOrMore _ _ _ _ ih => exact congrArg Nat.succ ih

/-- No node of the normal form of a tree that is matched is to be rotated. -/
theorem everywhere_isSettled (hoperands : grammar.HasOperands)
    (hderives : grammar.Derives clauses trees) :
    ∀ tree ∈ normalizeEach grammar trees, tree.Everywhere IsSettled := by
  induction hderives with
  | nil => exact fun _ htree => absurd htree List.not_mem_nil
  | terminal _ _ ih => exact List.forall_mem_cons.2 ⟨everywhere_leaf _ _, ih⟩
  | absent _ ih => exact List.forall_mem_cons.2 ⟨everywhere_absent _ _, ih⟩
  | present _ _ ihChild ih =>
    exact List.forall_mem_cons.2 ⟨everywhere_present_iff.2 (List.forall_mem_singleton.1 ihChild),
      ih⟩
  | zeroOrMore _ _ ihItems ih | oneOrMore _ _ _ ihItems ih =>
    refine List.forall_mem_cons.2 ⟨everywhere_many_iff.2 fun item hitem => ?_, ih⟩
    rw [normalizeEach_eq_map] at hitem
    obtain ⟨raw, hraw, rfl⟩ := List.mem_map.1 hitem
    exact List.forall_mem_singleton.1 (ihItems raw hraw)
  | nonTerminal hrule hchildren _ ihChildren ih =>
    refine List.forall_mem_cons.2 ⟨everywhere_normalNode rfl (fun precedence hinfixOp => ?_)
      ihChildren, ih⟩
    rw [normalizeEach_eq_map, List.length_map, hchildren.length_eq]
    exact two_le_length_of_isInfixOf_annotate hoperands hrule rfl hinfixOp

/-- Trees are discarded as their clauses are. -/
theorem map_isDiscarded (hderives : grammar.Derives clauses trees) :
    trees.map SyntaxTree.isDiscarded = clauses.map Clause.isDiscarded := by
  induction hderives with
  | nil => rfl
  | terminal _ _ ih | absent _ ih => exact congrArg (List.cons _) ih
  | nonTerminal _ _ _ _ ih | present _ _ _ ih => exact congrArg (List.cons _) ih
  | zeroOrMore _ _ _ ih | oneOrMore _ _ _ _ ih => exact congrArg (List.cons _) ih

/-- Every tree is one for a single clause. -/
theorem exists_clause (hderives : grammar.Derives clauses trees) :
    ∀ tree ∈ trees, ∃ clause, grammar.Derives [clause] [tree] := by
  induction hderives with
  | nil => exact fun _ htree => absurd htree List.not_mem_nil
  | terminal hkind _ ih => exact List.forall_mem_cons.2 ⟨⟨_, .terminal hkind .nil⟩, ih⟩
  | nonTerminal hrule hchildren _ _ ih =>
    exact List.forall_mem_cons.2 ⟨⟨.nonTerminal _ .rule _, .nonTerminal hrule hchildren .nil⟩, ih⟩
  | absent _ ih => exact List.forall_mem_cons.2 ⟨⟨_, .absent .nil⟩, ih⟩
  | present hchild _ _ ih => exact List.forall_mem_cons.2 ⟨⟨_, .present hchild .nil⟩, ih⟩
  | zeroOrMore hitems _ _ ih => exact List.forall_mem_cons.2 ⟨⟨_, .zeroOrMore hitems .nil⟩, ih⟩
  | oneOrMore hne hitems _ _ ih =>
    exact List.forall_mem_cons.2 ⟨⟨_, .oneOrMore hne hitems .nil⟩, ih⟩

/-- What is a part of a tree that is matched is matched itself. -/
theorem of_contains {tree part : SyntaxTree K} (hcontains : tree.Contains part) {clause : Clause K}
    (hderives : grammar.Derives [clause] [tree]) : ∃ inner, grammar.Derives [inner] [part] := by
  induction hcontains generalizing clause with
  | refl => exact ⟨clause, hderives⟩
  | node hchild _ ih =>
    cases hderives with
    | nonTerminal _ hchildren =>
      obtain ⟨inner, hinner⟩ := hchildren.exists_clause _ hchild
      exact ih hinner
  | many hchild _ ih =>
    cases hderives with
    | zeroOrMore hitems | oneOrMore _ hitems => exact ih (hitems _ hchild)
  | present _ ih =>
    cases hderives with
    | present hchild => exact ih hchild

/-- The children of a node that is matched are settled in normal form. -/
theorem everywhere_isSettled_children (hoperands : grammar.HasOperands) {clause : Clause K}
    {tree : SyntaxTree K} (hderives : grammar.Derives [clause] [tree]) (label : NodeLabel K)
    (children : List (SyntaxTree K)) (htree : tree = .node label children) :
    ∀ child ∈ normalizeEach grammar children, child.Everywhere IsSettled := by
  subst htree
  cases hderives with
  | nonTerminal _ hchildren => exact hchildren.everywhere_isSettled hoperands

end Derives

section Layers

open Precedence

variable {declared : Grammar K R} {root operand : String} {operations : List (Operation K R)}

/-- The rules of operators that groups and choices leave behind have their
    operands, whatever the rules are called. -/
theorem hasOperands_flatten (hplain : ∀ entry ∈ declared.rules, entry.2.IsPlain) :
    (declared.withLayers root operand operations).flatten.HasOperands := by
  intro name flat hflat haffix operation hoperation hinfixOp
  have hnot : ¬ flat.IsPlain := fun hplain => by simp [hplain.2.2] at haffix
  rcases exists_entry_of_not_isPlain hplain hflat hnot with
    ⟨_, rule, -, -, hentry, hsame, hlength⟩ | ⟨_, -, -, -, hnone⟩ | ⟨_, -, -, -, hnone⟩
  · rw [hsame] at haffix hoperation
    rcases mem_entries.1 hentry with ⟨_, _, _, _, ⟨affix, hsome⟩ | rfl⟩ | ⟨_, _, _, _, rfl⟩
    · obtain ⟨-, rfl⟩ := affixRule_eq_some_iff.1 hsome
      have hkept := List.mem_filter.1 hoperation
      obtain rfl : affix = .infixOp := (of_decide_eq_true hkept.2).symm.trans hinfixOp
      rw [hlength]
      exact Nat.le_succ 2
    · cases haffix
    · cases haffix
  · simp [hnone] at haffix
  · simp [hnone] at haffix

/-- The analysis changes no clauses. -/
theorem HasOperands.analyse (hoperands : grammar.HasOperands) : grammar.analyse.HasOperands := by
  intro name rule hrule haffix
  obtain ⟨before, hbefore, rfl⟩ := mem_rules_analyse.1 hrule
  have haffix : before.affix.isSome = true := haffix
  have hlength := hoperands hbefore haffix
  exact hlength

end Layers

end Grammar

end GrammarKit
