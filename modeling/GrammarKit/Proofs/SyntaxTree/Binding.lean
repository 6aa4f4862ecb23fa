import GrammarKit.Proofs.Grammar.Acyclic
import GrammarKit.Proofs.SyntaxTree.Grouping
import GrammarKit.Proofs.SyntaxTree.Normal

namespace GrammarKit

open Precedence SyntaxTree Relation

variable {K R : Type}

namespace Grammar

variable [DecidableEq K] [TokenKind K] {grammar : Grammar K R} {root operand : String}
    {operations : List (Operation K R)}

namespace IsLayered

variable (hlayered : grammar.IsLayered root operand operations)
include hlayered

/-- A layer enters what it leads to. -/
theorem enters_next {precedence : Nat} {next : String}
    (hnext : LeadsTo root operand operations precedence next) :
    grammar.Enters (layerName root precedence) next := by
  obtain ⟨rule, hrule, -, hclauses⟩ := hlayered.leads hnext
  refine enters_of_mem_rules hrule ?_
  rw [hclauses]
  simp [Clause.ofName, Clause.leftmostOfAll, Clause.leftmost]

/-- A layer enters all that are higher. -/
theorem transGen_enters {lower higher : List Nat} {precedence level : Nat}
    (hlevels : precedences operations = lower ++ precedence :: higher) (hlevel : level ∈ higher) :
    TransGen grammar.Enters (layerName root precedence) (layerName root level) := by
  induction higher generalizing lower precedence with
  | nil => cases hlevel
  | cons following higher ih =>
    have hfollowing := hlayered.enters_next ⟨lower, following :: higher, hlevels, rfl⟩
    rcases List.mem_cons.1 hlevel with rfl | hlevel
    · exact .single hfollowing
    · have hhigher : precedences operations = (lower ++ [precedence]) ++ following :: higher := by
        rw [hlevels, List.append_assoc, List.singleton_append]
      exact .head hfollowing (ih hhigher hlevel)

/-- A layer enters those of higher precedences. -/
theorem transGen_enters_of_lt {precedence level : Nat}
    (hprecedence : precedence ∈ precedences operations) (hlevel : level ∈ precedences operations)
    (hlt : precedence < level) :
    TransGen grammar.Enters (layerName root precedence) (layerName root level) := by
  obtain ⟨lower, higher, hlevels⟩ := List.append_of_mem hprecedence
  refine hlayered.transGen_enters hlevels ?_
  have hsorted := pairwise_lt_precedences operations
  rw [hlevels] at hsorted hlevel
  obtain ⟨-, -, hlower⟩ := List.pairwise_append.1 hsorted
  rcases List.mem_append.1 hlevel with hmem | hmem
  · have hbefore := hlower level hmem precedence List.mem_cons_self
    omega
  · exact (List.mem_cons.1 hmem).resolve_left (by omega)

variable (hacyclic : grammar.leftRecursions = [])
include hacyclic

/-- What a layer enters is no lower layer. -/
theorem le_of_reflTransGen {precedence level : Nat}
    (hprecedence : precedence ∈ precedences operations) (hlevel : level ∈ precedences operations)
    (henters : ReflTransGen grammar.Enters (layerName root precedence) (layerName root level)) :
    precedence ≤ level := by
  by_contra hlt
  have hback := hlayered.transGen_enters_of_lt hlevel hprecedence (by omega)
  exact not_transGen_enters hacyclic _ (hback.trans_left henters)

/-- What the operands of a layer enter is a higher layer. -/
theorem lt_of_reflTransGen {precedence level : Nat} {next : String}
    (hnext : LeadsTo root operand operations precedence next)
    (hlevel : level ∈ precedences operations)
    (henters : ReflTransGen grammar.Enters next (layerName root level)) : precedence < level := by
  have hstep := hlayered.enters_next hnext
  have hprecedence : precedence ∈ precedences operations := by
    obtain ⟨lower, higher, hlevels, -⟩ := hnext
    simp [hlevels]
  have hle := hlayered.le_of_reflTransGen hacyclic hprecedence hlevel (.head hstep henters)
  refine Nat.lt_of_le_of_ne hle ?_
  rintro rfl
  exact not_transGen_enters hacyclic _ (TransGen.head' hstep henters)

end IsLayered

end Grammar

namespace SyntaxTree

theorem operator?_setDiscarded (tree : SyntaxTree K) (discarded : Bool) :
    (tree.setDiscarded discarded).operator? = tree.operator? := by
  cases tree <;> rfl

/-- The root of a graft is the node or what it was grafted onto. -/
theorem operator?_graft (label : NodeLabel K) (before : List (SyntaxTree K))
    (right : SyntaxTree K) :
    (graft label before right).operator? = label.operator ∨ (graft label before right).operator? =
      right.operator? := by
  fun_cases graft label before right with
  | case1 => exact Or.inr rfl
  | case2 | case3 | case4 | case5 | case6 | case7 => exact Or.inl rfl

/-- Whether the tree is no operation of a lower precedence, so that it can be
    the operand of an operator that binds as tight. -/
def BindsAtLeast (precedence : Nat) (tree : SyntaxTree K) : Prop :=
  ∀ operator, tree.operator? = some operator → precedence ≤ operator.precedence

/-- Whether the tree is an infix operation of this precedence. -/
def IsInfixOperation (precedence : Nat) (tree : SyntaxTree K) : Prop :=
  ∃ operator, tree.operator? = some operator ∧ operator.affix = .infixOp ∧
    operator.precedence = precedence

/-- What binds tighter is no infix operation of the precedence. -/
theorem BindsAtLeast.not_isInfixOperation {precedence : Nat} {tree : SyntaxTree K}
    (hbinds : tree.BindsAtLeast (precedence + 1)) : ¬ tree.IsInfixOperation precedence := by
  rintro ⟨operator, hoperator, -, rfl⟩
  have hle := hbinds operator hoperator
  omega

/-- What binds as tight as an operator binds as tight as a lower one. -/
theorem BindsAtLeast.mono {precedence lower : Nat} {tree : SyntaxTree K}
    (hbinds : tree.BindsAtLeast precedence) (hle : lower ≤ precedence) : tree.BindsAtLeast lower :=
  fun operator hoperator => Nat.le_trans hle (hbinds operator hoperator)

end SyntaxTree

/-- Whether the trees are the operator and its operands, in their places, and no
    operand is an operation that the operator should rather be an operand of:
    none of a lower precedence, none of the same one beside a prefix or postfix
    operator, and no infix operation of the same one on the left, unless the
    operator groups to the left. -/
def Operator.Binds (operator : Operator K) (children : List (SyntaxTree K)) : Prop :=
  ∃ token, token.kind = some operator.kind ∧
    match operator.affix with
    | .prefixOp => ∃ right, children = [.leaf token false, right] ∧
        right.BindsAtLeast (operator.precedence + 1)
    | .infixOp => ∃ left right, children = [left, .leaf token false, right] ∧
        left.BindsAtLeast operator.precedence ∧ right.BindsAtLeast operator.precedence ∧
          (operator.associativity ≠ .left → ¬ left.IsInfixOperation operator.precedence)
    | .postfixOp => ∃ left, children = [left, .leaf token false] ∧
        left.BindsAtLeast (operator.precedence + 1)

/-- Whether a node with an operator has one of these, and its operands bind as it demands. -/
def SyntaxTree.BindsOperands (operations : List (Operation K R)) (label : NodeLabel K)
    (children : List (SyntaxTree K)) :
    Prop :=
  ∀ operator, label.operator = some operator →
    (∃ operation ∈ operations, operation.toOperator = operator) ∧ operator.Binds children

/-- Whether infix operators of the same precedence have the same associativity. -/
def IsUniform (operations : List (Operation K R)) : Prop :=
  ∀ first ∈ operations, ∀ second ∈ operations, first.affix = .infixOp → second.affix = .infixOp →
    first.precedence = second.precedence → first.associativity = second.associativity

namespace SyntaxTree

variable {operations : List (Operation K R)}

/-- The operator at the root of a nesting is that of the tree. -/
theorem operator?_of_grouping {tree : SyntaxTree K} {operator : Operator K}
    (hoperator : tree.grouping.operator? = some operator) :
    tree.operator? = some operator ∧ operator.affix = .infixOp := by
  fun_cases grouping tree with
  | case1 label left token discarded right root hroot =>
    rw [grouping, hroot] at hoperator
    obtain rfl := Option.some.inj hoperator
    obtain ⟨hlabel, haffix⟩ := Option.filter_eq_some_iff.1 hroot
    exact ⟨hlabel, by simpa using haffix⟩
  | case2 label left token discarded right hnone =>
    rw [grouping, hnone] at hoperator
    cases hoperator
  | case3 _ hother =>
    rw [grouping] at hoperator
    · cases hoperator
    · exact hother

/-- The operator of a tree is one of the given ones. -/
theorem exists_operation_of_operator? {tree : SyntaxTree K}
    (hbinds : tree.Everywhere (BindsOperands operations)) {operator : Operator K}
    (hoperator : tree.operator? = some operator) :
    ∃ operation ∈ operations, operation.toOperator = operator := by
  cases tree with
  | node label children => exact ((everywhere_node_iff.1 hbinds).1 operator hoperator).1
  | leaf | many | present | absent => cases hoperator

/-- Infix operations are nested as their operators demand. -/
theorem isNested_grouping (huniform : IsUniform operations) {tree : SyntaxTree K}
    (hbinds : tree.Everywhere (BindsOperands operations))
    (hgrouped : tree.Everywhere fun label children => ¬ IsMisgrouped label children) :
    tree.grouping.IsNested := by
  fun_induction grouping tree with
  | case1 label left token discarded right operator hroot ihLeft ihRight =>
    obtain ⟨hlabel, haffix⟩ := Option.filter_eq_some_iff.1 hroot
    have haffix : operator.affix = .infixOp := by simpa using haffix
    obtain ⟨hnode, hchildren⟩ := everywhere_node_iff.1 hbinds
    obtain ⟨hnot, hothers⟩ := everywhere_node_iff.1 hgrouped
    obtain ⟨⟨operation, hmem, rfl⟩, _, -, hoperands⟩ := hnode operator hlabel
    rw [haffix] at hoperands
    obtain ⟨first, second, heq, hleft, hright, hfirst⟩ := hoperands
    obtain ⟨rfl, -, rfl⟩ : left = first ∧ _ ∧ right = second := by simpa using heq
    refine ⟨ihLeft (hchildren left (by simp)) (hothers left (by simp)),
      ihRight (hchildren right (by simp)) (hothers right (by simp)), ?_, ?_⟩
    · intro other hother hleaves
      obtain ⟨hotherRoot, hotherAffix⟩ := operator?_of_grouping hother
      obtain ⟨second, hsecond, rfl⟩ := exists_operation_of_operator?
        (hchildren left (by simp)) hotherRoot
      have hle := hleft _ hotherRoot
      rcases hleaves with hlt | ⟨hequal, hassociativity⟩
      · omega
      · have hsame := huniform second hsecond operation hmem hotherAffix haffix hequal
        exact hfirst (hsame ▸ hassociativity) ⟨_, hotherRoot, hotherAffix, hequal⟩
    · intro other hother
      obtain ⟨hotherRoot, hotherAffix⟩ := operator?_of_grouping hother
      rcases Nat.lt_or_eq_of_le (hright other hotherRoot) with hlt | hequal
      · exact Or.inl hlt
      · refine Or.inr ⟨hequal, fun hassociativity => hnot ?_⟩
        exact ⟨_, right, other, hlabel, haffix, hassociativity, rfl, hotherRoot,
          hotherAffix, hequal.symm⟩
  | case2 | case3 => trivial

end SyntaxTree

namespace Grammar

variable [DecidableEq K] [TokenKind K] {grammar : Grammar K R} {root operand : String}
  {operations : List (Operation K R)}

/-- An operator applies for its own token. -/
theorem Applies.kind_eq {name next : String} {index : Nat} {affix : Affix}
    {operation : Operation K R} {token : Token K}
    (happlies : grammar.Applies name next index affix operation token) :
    token.kind = some operation.kind := by
  obtain ⟨rule, operator, kind, -, -, -, hkind, hoperation⟩ := happlies
  rw [hkind, (Rule.mem_of_operation? hoperation).2]

namespace Normal

variable {clauses : List (Clause K)} {trees : List (SyntaxTree K)}

/-- A non-terminal that is matched as an operation enters the layer of its operator. -/
theorem reflTransGen_enters (hlayered : grammar.IsLayered root operand operations)
    (hnormal : grammar.Normal clauses trees) :
    List.Forall₂ (fun clause tree => ∀ name role discarded operator,
      clause = .nonTerminal name role discarded →
      tree.operator? = some operator → operator.precedence ∈ precedences operations ∧
        ReflTransGen grammar.Enters name (layerName root operator.precedence)) clauses trees := by
  have hlayer {name next : String} {index : Nat} {affix : Affix} {operation : Operation K R}
      {token : Token K} (happlies : grammar.Applies name next index affix operation token) :
      operation.precedence ∈ precedences operations ∧
        ReflTransGen grammar.Enters name (layerName root operation.precedence) := by
    obtain ⟨hmem, -, rfl, -⟩ := happlies.exists_leadsTo hlayered
    exact ⟨mem_precedences.2 ⟨operation, hmem, rfl⟩, .refl⟩
  induction hnormal with
  | nil => exact .nil
  | terminal _ _ ih | absent _ ih => exact .cons (fun _ _ _ _ hclause => by cases hclause) ih
  | present _ _ _ ih | zeroOrMore _ _ _ ih | oneOrMore _ _ _ _ ih =>
    exact .cons (fun _ _ _ _ hclause => by cases hclause) ih
  | @bypass name role discarded rule clause child rest trees hrule _ hclauses hchild _ ihChild ih =>
    refine .cons (fun _ _ _ operator hclause hoperator => ?_) ih
    obtain ⟨rfl, -, -⟩ := Clause.nonTerminal.inj hclause
    have hsame : child.operator? = some operator := by
      split at hoperator
      · rwa [operator?_setDiscarded] at hoperator
      · exact hoperator
    cases clause with
    | nonTerminal next =>
      obtain ⟨hlevel, henters⟩ := (List.forall₂_cons.1 ihChild).1 next _ _ operator rfl hsame
      refine ⟨hlevel, .head (enters_of_mem_rules hrule ?_) henters⟩
      rw [hclauses]
      simp [Clause.leftmostOfAll, Clause.leftmost]
    | terminal | group | choice | option | zeroOrMore | oneOrMore =>
      cases hchild <;> cases hsame
  | plain =>
    rename_i ih
    exact .cons (fun _ _ _ _ _ hoperator => by cases hoperator) ih
  | prefixOp happlies _ _ _ ih | postfixOp happlies _ _ _ ih =>
    refine .cons (fun _ _ _ operator hclause hoperator => ?_) ih
    obtain ⟨rfl, -, -⟩ := Clause.nonTerminal.inj hclause
    obtain rfl := Option.some.inj hoperator
    exact hlayer happlies
  | @infixOp name next role discarded index operation token left right rest trees happlies _ _ _
      _ ihRight ih =>
    refine .cons (fun _ _ _ operator hclause hoperator => ?_) ih
    obtain ⟨rfl, -, -⟩ := Clause.nonTerminal.inj hclause
    rcases operator?_graft (operationLabel name index operation.toOperator discarded)
      [left, .leaf token false] right with heq | heq
    · obtain rfl := Option.some.inj (heq.symm.trans hoperator)
      exact hlayer happlies
    · exact (List.forall₂_cons.1 ihRight).1 name _ _ operator rfl (heq.symm.trans hoperator)

section Acyclic

variable (hlayered : grammar.IsLayered root operand operations)
    (hacyclic : grammar.leftRecursions = []) {precedence : Nat} {next : String}
    {tree : SyntaxTree K}
include hlayered hacyclic

/-- The operands of a layer bind tighter than its operators. -/
theorem bindsAtLeast_next (hnext : LeadsTo root operand operations precedence next)
    (hnormal : grammar.Normal [.ofName next] [tree]) : tree.BindsAtLeast (precedence + 1) := by
  intro operator hoperator
  obtain ⟨hlevel, henters⟩ := (List.forall₂_cons.1 (hnormal.reflTransGen_enters hlayered)).1 next _
    _ operator rfl hoperator
  exact hlayered.lt_of_reflTransGen hacyclic hnext hlevel henters

/-- What a layer matches binds no less than its operators. -/
theorem bindsAtLeast_layer (hprecedence : precedence ∈ precedences operations)
    (hnormal : grammar.Normal [.ofName (layerName root precedence)] [tree]) :
    tree.BindsAtLeast precedence := by
  intro operator hoperator
  obtain ⟨hlevel, henters⟩ := (List.forall₂_cons.1 (hnormal.reflTransGen_enters hlayered)).1 _ _ _
    operator rfl hoperator
  exact hlayered.le_of_reflTransGen hacyclic hprecedence hlevel henters

/-- The operands of all nodes bind as the operators of the nodes demand. -/
theorem everywhere_bindsOperands (huniform : IsUniform operations)
    (hnormal : grammar.Normal clauses trees) :
    ∀ tree ∈ trees, tree.Everywhere (BindsOperands operations) := by
  refine hnormal.everywhere (fun _ _ hbinds => hbinds) ?_ ?_ ?_ ?_
  · intro name index isGroup discarded children operator hnone
    cases hnone
  · intro name next index operation token right discarded happlies hright operator hoperator
    obtain rfl := Option.some.inj hoperator
    obtain ⟨hmem, haffix, -, hnext⟩ := happlies.exists_leadsTo hlayered
    refine ⟨⟨operation, hmem, rfl⟩, token, happlies.kind_eq, ?_⟩
    rw [haffix]
    exact ⟨right, rfl, hright.bindsAtLeast_next hlayered hacyclic hnext⟩
  · intro name next index operation token left discarded happlies hleft operator hoperator
    obtain rfl := Option.some.inj hoperator
    obtain ⟨hmem, haffix, -, hnext⟩ := happlies.exists_leadsTo hlayered
    refine ⟨⟨operation, hmem, rfl⟩, token, happlies.kind_eq, ?_⟩
    rw [haffix]
    exact ⟨left, rfl, hleft.bindsAtLeast_next hlayered hacyclic hnext⟩
  · intro name next index operation token left right discarded happlies hleft hright
      hrightNodes hbefore
    have hkind := happlies.kind_eq
    obtain ⟨hmem, haffix, rfl, hnext⟩ := happlies.exists_leadsTo hlayered
    have hleftBinds := hleft.bindsAtLeast_next hlayered hacyclic hnext
    have hrightBinds := hright.bindsAtLeast_layer hlayered hacyclic
      (mem_precedences.2 ⟨operation, hmem, rfl⟩)
    have hroot {children : List (SyntaxTree K)} {label : NodeLabel K} {operator : Operator K}
        (hoperator : label.operator = some operator) (hprecedence : operator.precedence =
          operation.precedence) : (node label children).BindsAtLeast operation.precedence := by
      intro other hother
      obtain rfl := Option.some.inj (hoperator.symm.trans hother)
      exact hprecedence.ge
    refine (everywhere_graft (BindsAtLeast operation.precedence) hrightNodes hrightBinds
      hbefore ?_ ?_).1
    · intro last hlast _
      refine ⟨fun operator hoperator => ?_, hroot rfl rfl⟩
      obtain rfl := Option.some.inj hoperator
      refine ⟨⟨operation, hmem, rfl⟩, token, hkind, ?_⟩
      rw [haffix]
      exact ⟨left, last, rfl, hleftBinds.mono (Nat.le_succ _), hlast,
        fun _ => hleftBinds.not_isInfixOperation⟩
    · intro upper middle after hsame hupper _
      obtain ⟨precedence, hprecedence, hinfixOp⟩ := (Option.any_eq_true _ _).1 hsame
      obtain ⟨_, hlabel, -, hleftAssoc, rfl⟩ := leftPrecedence?_eq_some_iff.1 hprecedence
      obtain rfl := Option.some.inj hlabel
      obtain ⟨operator, hoperator, hupperAffix, hequal⟩ := isInfixOf_eq_true_iff.1 hinfixOp
      obtain ⟨⟨other, hother, rfl⟩, operatorToken, hoperatorKind, hoperands⟩ :=
        hupper operator hoperator
      have hotherAssoc : other.associativity = .left :=
        (huniform other hother operation hmem hupperAffix haffix hequal).trans hleftAssoc
      rw [hupperAffix] at hoperands
      obtain ⟨first, second, hchildren, hfirst, hsecond, -⟩ := hoperands
      obtain ⟨rfl, rfl⟩ := List.cons.inj hchildren
      rw [hequal] at hfirst hsecond
      refine ⟨hfirst, fun lower hlower => ⟨fun same hsame => ?_, hroot hoperator hequal⟩⟩
      obtain rfl := Option.some.inj (hoperator.symm.trans hsame)
      refine ⟨⟨other, hother, rfl⟩, operatorToken, hoperatorKind, ?_⟩
      rw [hupperAffix, hequal]
      exact ⟨lower, second, rfl, hlower, hsecond, fun hnot => absurd hotherAssoc hnot⟩

end Acyclic

/-- No operator that groups to the left has an infix operator of its precedence
    for its last child. -/
theorem everywhere_not_isMisgrouped (hlayered : grammar.IsLayered root operand operations)
    (hnormal : grammar.Normal clauses trees) :
    ∀ tree ∈ trees, tree.Everywhere fun label children => ¬ IsMisgrouped label children := by
  intro tree htree
  refine (hnormal.everywhere_isNormalNode hlayered tree htree).strengthen
    fun label children hnode => ?_
  exact not_isMisgrouped fun entry hentry => (hnode entry hentry).isSettled

end Normal

end Grammar

end GrammarKit
