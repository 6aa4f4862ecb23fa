import GrammarKit.Proofs.Grammar.Repeated
import GrammarKit.Proofs.SyntaxTree.Normal

namespace GrammarKit

variable {K R : Type}

/-- Whether a node is left in normal trees: it does not only lead on, and it is
    no group if it has an operator. -/
def NodeLabel.Stays (label : NodeLabel K) : Prop :=
  label.isBypass = false ∧ (label.operator.isSome = true → label.isGroup = false)

namespace SyntaxTree

/-- The form of what a tree is reduced to, if that is a single value. An option
    that does not expect the form of its child passes it on. -/
def form? : SyntaxTree K → Option Shape
  | leaf .. => some .token
  | node label _ => some (if label.isGroup then .group else .value)
  | present shape child _ => if child.form? = some shape then none else child.form?
  | many .. | absent .. => none

@[simp] theorem form?_setDiscarded (discarded : Bool) (tree : SyntaxTree K) :
    (tree.setDiscarded discarded).form? = tree.form? := by
  cases tree <;> rfl

mutual

/-- The repetitions in a tree with their items, from the root down and from left to right. -/
def repetitions : SyntaxTree K → List (Shape × List (SyntaxTree K))
  | leaf .. | absent .. => []
  | node _ children => repetitionsIn children
  | many shape children _ => (shape, children) :: repetitionsIn children
  | present _ child _ => repetitions child

def repetitionsIn : List (SyntaxTree K) → List (Shape × List (SyntaxTree K))
  | [] => []
  | tree :: rest => repetitions tree ++ repetitionsIn rest

end

/-- The repetitions in trees are those in one of them. -/
theorem mem_repetitionsIn {trees : List (SyntaxTree K)} {repetition : Shape × List (SyntaxTree K)} :
    repetition ∈ repetitionsIn trees ↔ ∃ tree ∈ trees, repetition ∈ tree.repetitions := by
  induction trees with
  | nil => simp [repetitionsIn]
  | cons tree rest ih => simp [repetitionsIn, ih]

theorem mem_repetitionsIn_singleton {tree : SyntaxTree K}
    {repetition : Shape × List (SyntaxTree K)} :
    repetition ∈ repetitionsIn [tree] ↔ repetition ∈ tree.repetitions := by
  simp [mem_repetitionsIn]

/-- The repetitions in trees are found one tree after the other. -/
theorem repetitionsIn_append (trees others : List (SyntaxTree K)) :
    repetitionsIn (trees ++ others) = repetitionsIn trees ++ repetitionsIn others := by
  induction trees with
  | nil => rfl
  | cons tree rest ih => rw [List.cons_append, repetitionsIn, ih, repetitionsIn, List.append_assoc]

@[simp] theorem repetitions_setDiscarded (discarded : Bool) (tree : SyntaxTree K) :
    (tree.setDiscarded discarded).repetitions = tree.repetitions := by
  cases tree <;> rfl

section Rotation

/-- Each step of a rotation leaves the repetitions in their places. -/
theorem repetitions_rotateWithin (bound : Nat) (label : NodeLabel K)
    (children : List (SyntaxTree K)) :
    (rotateWithin bound label children).repetitions = repetitionsIn children := by
  induction bound generalizing label children with
  | zero => rw [rotateWithin, repetitions]
  | succ bound ih =>
    rw [rotateWithin]
    split
    · rw [repetitions]
    · next found hfound =>
      rw [ih, eq_of_rotation?_eq_some hfound, repetitionsIn, ih]
      simp [repetitionsIn_append, repetitionsIn, repetitions]

/-- Rotating moves no repetition. -/
theorem repetitions_rotate (label : NodeLabel K) (children : List (SyntaxTree K)) :
    (rotate label children).repetitions = repetitionsIn children := by
  rw [rotate]
  split
  · rw [repetitions]
  · exact repetitions_rotateWithin _ _ _

/-- Only nodes with operators are rotated. -/
theorem isSome_operator_of_rotation?_eq_some {label : NodeLabel K} {children : List (SyntaxTree K)}
    {found : Rotation K} (hfound : rotation? label children = some found) :
    found.upper.operator.isSome = true := by
  unfold rotation? at hfound
  split at hfound
  · split at hfound
    · next hinfixOp =>
      obtain rfl := Option.some.inj hfound
      obtain ⟨operator, hoperator, -⟩ := isInfixOf_eq_true_iff.1 hinfixOp
      simp [hoperator]
    · cases hfound
  · cases hfound

/-- What stays where the last child is a node that takes the place of its parent. -/
theorem stays_of_rotation?_eq_some {label : NodeLabel K} {children : List (SyntaxTree K)}
    {found : Rotation K} (hfound : rotation? label children = some found)
    (hchildren : ∀ child ∈ children, child.Everywhere fun label _ => label.Stays) :
    found.upper.Stays ∧ (∀ child ∈ found.before ++ [found.middle], child.Everywhere fun label _ =>
      label.Stays) ∧
      ∀ child ∈ found.after, child.Everywhere fun label _ => label.Stays := by
  rw [eq_of_rotation?_eq_some hfound] at hchildren
  obtain ⟨hbefore, hlast⟩ := List.forall_mem_append.1 hchildren
  obtain ⟨hupper, hbelow⟩ := everywhere_node_iff.1 (List.forall_mem_singleton.1 hlast)
  obtain ⟨hmiddle, hafter⟩ := List.forall_mem_cons.1 hbelow
  exact ⟨hupper, List.forall_mem_append.2 ⟨hbefore, List.forall_mem_singleton.2 hmiddle⟩, hafter⟩

/-- A node that stays is left with its children. -/
theorem stays_node {label : NodeLabel K} {children : List (SyntaxTree K)} (hlabel : label.Stays)
    (hgroup : label.isGroup = false)
    (hchildren : ∀ child ∈ children, child.Everywhere fun label _ => label.Stays) :
    (node label children).form? = some .value ∧ (node label children).Everywhere fun label _ =>
      label.Stays :=
  ⟨by simp [form?, hgroup], everywhere_node_iff.2 ⟨hlabel, hchildren⟩⟩

/-- Each step of a rotation leaves nodes that stay. -/
theorem stays_rotateWithin (bound : Nat) {label : NodeLabel K} {children : List (SyntaxTree K)}
    (hlabel : label.Stays) (hgroup : label.isGroup = false)
    (hchildren : ∀ child ∈ children, child.Everywhere fun label _ => label.Stays) :
    (rotateWithin bound label children).form? = some .value ∧
      (rotateWithin bound label children).Everywhere fun label _ => label.Stays := by
  induction bound generalizing label children with
  | zero => exact stays_node hlabel hgroup hchildren
  | succ bound ih =>
    rw [rotateWithin]
    split
    · exact stays_node hlabel hgroup hchildren
    · next found hfound =>
      obtain ⟨hupper, hlower, hafter⟩ := stays_of_rotation?_eq_some hfound hchildren
      obtain ⟨-, hbelow⟩ := ih hlabel hgroup hlower
      exact ih hupper (hupper.2 (isSome_operator_of_rotation?_eq_some hfound))
        (List.forall_mem_cons.2 ⟨hbelow, hafter⟩)

/-- Rotating only rearranges nodes, and the one on top is no group. -/
theorem stays_rotate {label : NodeLabel K} {children : List (SyntaxTree K)} (hlabel : label.Stays)
    (hgroup : label.isGroup = false)
    (hchildren : ∀ child ∈ children, child.Everywhere fun label _ => label.Stays) :
    (rotate label children).form? = some .value ∧
      (rotate label children).Everywhere fun label _ => label.Stays := by
  rw [rotate]
  split
  · exact stays_node hlabel hgroup hchildren
  · exact stays_rotateWithin _ hlabel hgroup hchildren

end Rotation

variable [DecidableEq K] [TokenKind K] {grammar : Grammar K R}

/-- Normalising a node moves no repetition. -/
theorem repetitions_normalNode (label : NodeLabel K) (children : List (SyntaxTree K)) :
    (normalNode grammar label children).repetitions = repetitionsIn children := by
  unfold normalNode
  split
  · split <;> simp [repetitionsIn]
  · split
    · exact repetitions_rotate _ _
    · rw [repetitions]

mutual

/-- Normalising leaves every repetition in its place and normalises its items. -/
theorem repetitions_normalize : ∀ tree : SyntaxTree K, (tree.normalize grammar).repetitions =
    tree.repetitions.map fun repetition => (repetition.1, normalizeEach grammar repetition.2)
  | leaf .. | absent .. => rfl
  | node label children => by rw [normalize, repetitions_normalNode,
      repetitionsIn_normalizeEach children, repetitions]
  | many _ children _ => by
    rw [normalize, repetitions, repetitionsIn_normalizeEach children, repetitions, List.map_cons]
  | present _ child _ => by rw [normalize, repetitions, repetitions_normalize child, repetitions]

theorem repetitionsIn_normalizeEach :
    ∀ trees : List (SyntaxTree K), repetitionsIn (normalizeEach grammar trees) =
      (repetitionsIn trees).map fun repetition => (repetition.1, normalizeEach grammar repetition.2)
  | [] => rfl
  | tree :: rest => by
    rw [normalizeEach, repetitionsIn, repetitions_normalize tree, repetitionsIn_normalizeEach rest,
      repetitionsIn, List.map_append]

end

end SyntaxTree

namespace Grammar

open SyntaxTree

variable [DecidableEq K] [TokenKind K] {grammar : Grammar K R}

/-- Whether rules that only lead on have a single clause, and rules of operators
    neither lead on nor are groups. -/
structure LeadsSingly (grammar : Grammar K R) : Prop where
  exists_clause : ∀ {name : String} {rule : Rule K R}, (name, rule) ∈ grammar.rules →
    rule.isBypass = true →
    ∃ clause, rule.clauses = [clause]
  not_isBypass : ∀ {name : String} {rule : Rule K R} {affix : Affix}, (name, rule) ∈ grammar.rules →
    rule.affix = some affix → rule.isBypass = false ∧ rule.isSubrule = false

/-- The analysis leaves rules that lead on as they are. -/
theorem LeadsSingly.analyse (hleads : grammar.LeadsSingly) : grammar.analyse.LeadsSingly where
  exists_clause hrule hbypass := by
    obtain ⟨before, hbefore, rfl⟩ := mem_rules_analyse.1 hrule
    have hbypass : before.isBypass = true := hbypass
    have hsingle := hleads.exists_clause hbefore hbypass
    exact hsingle
  not_isBypass hrule haffix := by
    obtain ⟨before, hbefore, rfl⟩ := mem_rules_analyse.1 hrule
    have haffix : before.affix = some _ := haffix
    have hneither := hleads.not_isBypass hbefore haffix
    exact hneither

/-- Noting an operator does not make a node one that leads on. -/
theorem isBypass_annotate (label : NodeLabel K) (children : List (SyntaxTree K)) :
    (annotate grammar label children).isBypass = label.isBypass ∧
      (annotate grammar label children).isGroup = label.isGroup := by
  unfold annotate
  split
  · exact ⟨rfl, rfl⟩
  · split <;> exact ⟨rfl, rfl⟩

/-- Whether a tree has one of the forms that a clause can have and no nodes but
    those that are left in normal trees. -/
structure IsNormalMatch (grammar : Grammar K R) (clause : Clause K) (tree : SyntaxTree K) :
    Prop where
  canBe : grammar.CanBe clause tree.form?
  stays : tree.Everywhere fun label _ => label.Stays

namespace IsNormalMatch

variable {name : String} {role : Role} {index : Nat} {discarded : Bool} {rule : Rule K R}
  {clauses : List (Clause K)} {children : List (SyntaxTree K)}

/-- The nodes of matches are left in normal trees. -/
theorem everywhere (hmatches : List.Forall₂ grammar.IsNormalMatch clauses children) :
    ∀ child ∈ children, child.Everywhere fun label _ => label.Stays := by
  induction hmatches with
  | nil => exact List.forall_mem_nil _
  | cons hchild _ ih => exact List.forall_mem_cons.2 ⟨hchild.stays, ih⟩

theorem everywhere_many {inner : Clause K} {items : List (SyntaxTree K)}
    (hitems : ∀ item ∈ items, List.Forall₂ grammar.IsNormalMatch [inner]
      (normalizeEach grammar [item])) :
    (many inner.shape (normalizeEach grammar items) discarded).Everywhere fun label _ =>
      label.Stays := by
  refine everywhere_many_iff.2 ?_
  rw [normalizeEach_eq_map]
  intro child hchild
  obtain ⟨item, hitem, rfl⟩ := List.mem_map.1 hchild
  exact everywhere (hitems item hitem) _ List.mem_cons_self

/-- In place of a node that only leads on stands its child. -/
theorem bypass {clause : Clause K} {child : SyntaxTree K} {label : NodeLabel K}
    (hrule : (name, rule) ∈ grammar.rules) (hbypass : rule.isBypass = true)
    (hclause : rule.clauses = [clause]) (hlabel : label.isBypass = true)
    (hchild : grammar.IsNormalMatch clause child) :
    grammar.IsNormalMatch (.nonTerminal name role discarded)
      (normalNode grammar label [child]) := by
  have hform : grammar.CanBe (.nonTerminal name role discarded) child.form? :=
    .passedOn hrule hbypass hclause hchild.canBe
  simp only [normalNode, hlabel]
  split
  · exact ⟨by simpa using hform, hchild.stays.setDiscarded true fun _ _ => id⟩
  · exact ⟨hform, hchild.stays⟩

/-- A node of a rule without operators stays as it is. -/
theorem node (hrule : (name, rule) ∈ grammar.rules) (hbypass : rule.isBypass = false)
    (hchildren : List.Forall₂ grammar.IsNormalMatch clauses children) :
    grammar.IsNormalMatch (.nonTerminal name role discarded)
      (.node { name, rule := index, isGroup := rule.isSubrule, discarded } children) where
  canBe := .node hrule hbypass
  stays := everywhere_node_iff.2
    ⟨⟨rfl, fun hsome => absurd hsome Bool.false_ne_true⟩, everywhere hchildren⟩

/-- The node of a rule of operators is no group, wherever it is rotated. -/
theorem operation (hrule : (name, rule) ∈ grammar.rules) (hbypass : rule.isBypass = false)
    (hsubrule : rule.isSubrule = false)
    (hchildren : List.Forall₂ grammar.IsNormalMatch clauses children) :
    grammar.IsNormalMatch (.nonTerminal name role discarded)
      (rotate (annotate grammar { name, rule := index, isExpression := true, discarded } children)
        children) := by
  obtain ⟨hleads, hgroup⟩ :=
    @isBypass_annotate _ _ _ _ grammar
      { name, rule := index, isExpression := true, discarded } children
  obtain ⟨hresult, hstays⟩ := stays_rotate ⟨hleads, fun _ => hgroup⟩ hgroup (everywhere hchildren)
  have hform : grammar.CanBe (.nonTerminal name role discarded) _ := .node hrule hbypass
  rw [hsubrule] at hform
  exact ⟨hresult ▸ hform, hstays⟩

end IsNormalMatch

/-- A match of a rule is normal if those of its clauses are. -/
theorem LeadsSingly.isNormalMatch (hleads : grammar.LeadsSingly) {name : String} {role : Role}
    {index : Nat} {discarded : Bool} {rule : Rule K R} {children : List (SyntaxTree K)}
    (hrule : (name, rule) ∈ grammar.rules)
    (hchildren : List.Forall₂ grammar.IsNormalMatch rule.clauses children) :
    grammar.IsNormalMatch (.nonTerminal name role discarded)
      (normalNode grammar
        { name
          rule := index
          isBypass := rule.isBypass
          isGroup := rule.isSubrule
          isExpression := rule.isExpression
          discarded } children) := by
  cases hbypass : rule.isBypass with
  | true =>
    obtain ⟨clause, hclause⟩ := hleads.exists_clause hrule hbypass
    rw [hclause] at hchildren
    obtain ⟨child, rfl⟩ := List.length_eq_one_iff.1 hchildren.length_eq.symm
    exact .bypass hrule hbypass hclause rfl (List.forall₂_cons.1 hchildren).1
  | false =>
    cases haffix : rule.affix with
    | none =>
      simp only [normalNode, Rule.isExpression, haffix, Option.isSome_none]
      exact .node hrule hbypass hchildren
    | some affix =>
      obtain ⟨-, hsubrule⟩ := hleads.not_isBypass hrule haffix
      simp only [normalNode, Rule.isExpression, haffix, Option.isSome_some, hsubrule]
      exact .operation hrule hbypass hsubrule hchildren

/-- The normal form of a match has one of the forms that its clause can have.
    Nodes that only lead on are gone from it. -/
theorem Derives.isNormalMatch (hleads : grammar.LeadsSingly) {clauses : List (Clause K)}
    {trees : List (SyntaxTree K)} (hderives : grammar.Derives clauses trees) :
    List.Forall₂ grammar.IsNormalMatch clauses (normalizeEach grammar trees) := by
  induction hderives with
  | nil => exact .nil
  | terminal _ _ ih => exact .cons ⟨.terminal, everywhere_leaf _ _⟩ ih
  | nonTerminal hrule _ _ ihChildren ih =>
    exact .cons (hleads.isNormalMatch (mem_rules_of_rule? hrule) ihChildren) ih
  | absent _ ih => exact .cons ⟨.absent, everywhere_absent _ _⟩ ih
  | present _ _ ihChild ih =>
    obtain ⟨hchild, -⟩ := List.forall₂_cons.1 ihChild
    exact .cons ⟨.present hchild.canBe, everywhere_present_iff.2 hchild.stays⟩ ih
  | zeroOrMore _ _ ihItems ih => exact .cons ⟨.zeroOrMore, IsNormalMatch.everywhere_many ihItems⟩ ih
  | oneOrMore _ _ _ ihItems ih => exact .cons ⟨.oneOrMore, IsNormalMatch.everywhere_many ihItems⟩ ih

/-- Whether a clause is repeated by these clauses or by a rule. -/
def Repeats (grammar : Grammar K R) (clauses : List (Clause K)) (inner : Clause K) : Prop :=
  inner ∈ Clause.repeatedIn clauses ∨ ∃ entry ∈ grammar.rules,
    inner ∈ Clause.repeatedIn entry.2.clauses

/-- Whether the items of a repetition are matches of a clause that is repeated
    by these clauses or by a rule. -/
def IsRepetition (grammar : Grammar K R) (clauses : List (Clause K))
    (repetition : Shape × List (SyntaxTree K)) : Prop :=
  ∃ inner, grammar.Repeats clauses inner ∧ repetition.1 = inner.shape ∧
    ∀ item ∈ repetition.2, grammar.Derives [inner] [item]

/-- What is repeated by fewer clauses is repeated by more. -/
theorem IsRepetition.of_subset {clauses others : List (Clause K)}
    {repetition : Shape × List (SyntaxTree K)}
    (hrepetition : grammar.IsRepetition clauses repetition)
    (hsubset : Clause.repeatedIn clauses ⊆ Clause.repeatedIn others) :
    grammar.IsRepetition others repetition := by
  obtain ⟨inner, hinner, hitems⟩ := hrepetition
  exact ⟨inner, hinner.imp_left fun hmem => hsubset hmem, hitems⟩

/-- What is repeated by the later clauses is repeated by all. -/
theorem IsRepetition.tail {clause : Clause K} {rest : List (Clause K)}
    {repetition : Shape × List (SyntaxTree K)}
    (hrepetition : grammar.IsRepetition rest repetition) :
    grammar.IsRepetition (clause :: rest) repetition :=
  hrepetition.of_subset fun _ => List.mem_append_right _

/-- What the clauses of a rule repeat is repeated by the rule. -/
theorem IsRepetition.of_rule {name : String} {rule : Rule K R}
    (hrule : (name, rule) ∈ grammar.rules) {repetition : Shape × List (SyntaxTree K)}
    (hrepetition : grammar.IsRepetition rule.clauses repetition) (clauses : List (Clause K)) :
    grammar.IsRepetition clauses repetition := by
  obtain ⟨inner, hinner, hitems⟩ := hrepetition
  exact ⟨inner, Or.inr (hinner.elim (fun hmem => ⟨_, hrule, hmem⟩) id), hitems⟩

/-- What is repeated by a clause is repeated by the ones that are made of it. -/
theorem IsRepetition.of_inner {inner clause : Clause K} (hsubset : inner.repeated ⊆ clause.repeated)
    {repetition : Shape × List (SyntaxTree K)}
    (hrepetition : grammar.IsRepetition [inner] repetition) (rest : List (Clause K)) :
    grammar.IsRepetition (clause :: rest) repetition :=
  hrepetition.of_subset fun _ hmem =>
    List.mem_append_left _ (hsubset (Clause.mem_repeatedIn_singleton.1 hmem))

/-- The items of a repetition are matches of a clause that is repeated. -/
theorem Derives.isRepetition {clauses : List (Clause K)} {trees : List (SyntaxTree K)}
    (hderives : grammar.Derives clauses trees) :
    ∀ repetition ∈ repetitionsIn trees, grammar.IsRepetition clauses repetition := by
  induction hderives with
  | nil => exact List.forall_mem_nil _
  | terminal _ _ ih | absent _ ih => exact fun repetition hmem => (ih repetition hmem).tail
  | nonTerminal hrule _ _ ihChildren ih =>
    exact List.forall_mem_append.2
      ⟨fun repetition hmem => .of_rule (mem_rules_of_rule? hrule) (ihChildren repetition hmem) _,
        fun repetition hmem => (ih repetition hmem).tail⟩
  | present _ _ ihChild ih =>
    refine List.forall_mem_append.2 ⟨fun repetition hmem => ?_, fun repetition hmem =>
      (ih repetition hmem).tail⟩
    exact .of_inner (List.Subset.refl _) (ihChild repetition (mem_repetitionsIn_singleton.2 hmem)) _
  | zeroOrMore hitems _ ihItems ih | oneOrMore _ hitems _ ihItems ih =>
    refine List.forall_mem_append.2 ⟨List.forall_mem_cons.2 ⟨?_, fun repetition hmem => ?_⟩,
      fun repetition hmem => (ih repetition hmem).tail⟩
    · exact ⟨_, Or.inl List.mem_cons_self, rfl, hitems⟩
    · obtain ⟨item, hitem, hmem⟩ := mem_repetitionsIn.1 hmem
      exact .of_inner (List.subset_cons_self _ _)
        (ihItems item hitem repetition (mem_repetitionsIn_singleton.2 hmem)) _

/-- Where every repetition collects what its items are reduced to, no item has another form. -/
theorem Derives.form?_eq_of_mem_repetitions (hleads : grammar.LeadsSingly)
    (hkeeps : grammar.KeepsItems) {name : String} {tree : SyntaxTree K}
    (hderives : grammar.Derives [.ofName name] [tree]) {shape : Shape} {items : List (SyntaxTree K)}
    (hmem : (shape, items) ∈ (tree.normalize grammar).repetitions) :
    ∀ item ∈ items, item.form? = some shape := by
  rw [repetitions_normalize] at hmem
  obtain ⟨⟨_, matched⟩, hrepetition, heq⟩ := List.mem_map.1 hmem
  obtain ⟨rfl, rfl⟩ := Prod.mk.inj heq
  obtain ⟨inner, hinner, rfl, hitems⟩ := hderives.isRepetition _
    (mem_repetitionsIn_singleton.2 hrepetition)
  obtain ⟨entry, hentry, hrepeated⟩ := hinner.resolve_left List.not_mem_nil
  rw [normalizeEach_eq_map]
  intro item hitem
  obtain ⟨before, hbefore, rfl⟩ := List.mem_map.1 hitem
  obtain ⟨hnormal, -⟩ := List.forall₂_cons.1 ((hitems before hbefore).isNormalMatch hleads)
  exact hkeeps entry hentry inner hrepeated _ hnormal.canBe

end Grammar

end GrammarKit
