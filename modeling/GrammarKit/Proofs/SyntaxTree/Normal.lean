import GrammarKit.Proofs.Grammar.Layers
import GrammarKit.Proofs.SyntaxTree.Rotation

namespace GrammarKit

variable {K R : Type} [DecidableEq K] [TokenKind K]

namespace Rule

/-- A rule has an operation for each of its operators. -/
theorem exists_operation? {rule : Rule K R} {kind : K}
    (hkind : kind ∈ rule.operations.map fun operation => operation.kind) :
    ∃ operation, rule.operation? kind = some operation := by
  obtain ⟨operation, hoperation, rfl⟩ := List.mem_map.1 hkind
  exact Option.isSome_iff_exists.1 (List.find?_isSome.2
    ⟨operation, List.mem_reverse.2 hoperation, by simp⟩)

/-- An operation that is found for a token is one of the rule, for this token. -/
theorem mem_of_operation? {rule : Rule K R} {kind : K} {operation : Operation K R}
    (hoperation : rule.operation? kind = some operation) :
    operation ∈ rule.operations ∧ operation.kind = kind :=
  ⟨List.mem_reverse.1 (List.mem_of_find?_eq_some hoperation), by
    simpa using List.find?_some hoperation⟩

end Rule

/-- The label of a node of an operator. -/
def SyntaxTree.operationLabel (name : String) (index : Nat) (operator : Operator K)
    (discarded : Bool) : NodeLabel K where
  name := name
  rule := index
  isExpression := true
  operator := some operator
  discarded := discarded

namespace Grammar

open Precedence SyntaxTree

/-- Whether a rule of `name` is one of operators over operands of `next`, and
    `operation` is what it has for the token. -/
def Applies (grammar : Grammar K R) (name next : String) (index : Nat) (affix : Affix)
    (operation : Operation K R) (token : Token K) : Prop :=
  ∃ rule operator kind, grammar.rule? name index = some rule ∧ rule.affix = some affix ∧
    rule.clauses = affixClauses name next operator affix ∧ token.kind = some kind ∧
      rule.operation? kind = some operation

/-- Normal trees for clauses, one each and in the same order: what becomes of
    derivations in a layered grammar when they are normalised. A rule that only
    leads on leaves no node, and the node of a rule of operators knows its
    operator. One between two operands is grafted onto the right one. -/
inductive Normal (grammar : Grammar K R) : List (Clause K) → List (SyntaxTree K) → Prop
  | nil : Normal grammar [] []
  | terminal {kind : K} {discarded : Bool} {token : Token K} {rest : List (Clause K)}
      {trees : List (SyntaxTree K)} : token.kind = some kind → Normal grammar rest trees →
        Normal grammar (.terminal kind discarded :: rest) (.leaf token discarded :: trees)
  | bypass {name : String} {role : Role} {discarded : Bool} {rule : Rule K R} {clause : Clause K}
      {child : SyntaxTree K} {rest : List (Clause K)} {trees : List (SyntaxTree K)} :
      (name, rule) ∈ grammar.rules → rule.isBypass = true → rule.clauses = [clause] →
        Normal grammar [clause] [child] →
        Normal grammar rest trees →
          Normal grammar (.nonTerminal name role discarded :: rest)
            ((if discarded then child.setDiscarded true else child) :: trees)
  | plain {name : String} {role : Role} {discarded : Bool} {index : Nat} {rule : Rule K R}
      {children : List (SyntaxTree K)} {rest : List (Clause K)} {trees : List (SyntaxTree K)} :
      grammar.rule? name index = some rule → rule.isBypass = false → rule.affix = none →
        Normal grammar rule.clauses children → Normal grammar rest trees →
          Normal grammar (.nonTerminal name role discarded :: rest)
            (.node { name, rule := index, isGroup := rule.isSubrule, discarded } children :: trees)
  | prefixOp {name next : String} {role : Role} {discarded : Bool} {index : Nat}
      {operation : Operation K R} {token : Token K} {right : SyntaxTree K} {rest : List (Clause K)}
      {trees : List (SyntaxTree K)} :
      grammar.Applies name next index .prefixOp operation token →
      Normal grammar [.ofName next] [right] → Normal grammar rest trees →
        Normal grammar (.nonTerminal name role discarded :: rest)
          (.node (operationLabel name index operation.toOperator discarded)
            [.leaf token false, right] :: trees)
  | postfixOp {name next : String} {role : Role} {discarded : Bool} {index : Nat}
      {operation : Operation K R} {token : Token K} {left : SyntaxTree K} {rest : List (Clause K)}
      {trees : List (SyntaxTree K)} :
      grammar.Applies name next index .postfixOp operation token →
      Normal grammar [.ofName next] [left] → Normal grammar rest trees →
        Normal grammar (.nonTerminal name role discarded :: rest)
          (.node (operationLabel name index operation.toOperator discarded)
            [left, .leaf token false] :: trees)
  | infixOp {name next : String} {role : Role} {discarded : Bool} {index : Nat}
      {operation : Operation K R} {token : Token K} {left right : SyntaxTree K}
      {rest : List (Clause K)} {trees : List (SyntaxTree K)} :
      grammar.Applies name next index .infixOp operation token →
      Normal grammar [.ofName next] [left] → Normal grammar [.ofName name] [right] →
      Normal grammar rest trees →
        Normal grammar (.nonTerminal name role discarded :: rest)
          (graft (operationLabel name index operation.toOperator discarded)
            [left, .leaf token false] right :: trees)
  | absent {inner : Clause K} {discarded : Bool} {rest : List (Clause K)}
      {trees : List (SyntaxTree K)} : Normal grammar rest trees →
        Normal grammar (.option inner discarded :: rest) (.absent inner.shape discarded :: trees)
  | present {inner : Clause K} {discarded : Bool} {child : SyntaxTree K} {rest : List (Clause K)}
      {trees : List (SyntaxTree K)} :
      Normal grammar [inner] [child] → Normal grammar rest trees →
        Normal grammar (.option inner discarded :: rest)
          (.present inner.shape child discarded :: trees)
  | zeroOrMore {inner : Clause K} {discarded : Bool} {items : List (SyntaxTree K)}
      {rest : List (Clause K)} {trees : List (SyntaxTree K)} :
      (∀ item ∈ items, Normal grammar [inner] [item]) → Normal grammar rest trees →
        Normal grammar (.zeroOrMore inner discarded :: rest)
          (.many inner.shape items discarded :: trees)
  | oneOrMore {inner : Clause K} {discarded : Bool} {items : List (SyntaxTree K)}
      {rest : List (Clause K)} {trees : List (SyntaxTree K)} :
      items ≠ [] → (∀ item ∈ items, Normal grammar [inner] [item]) → Normal grammar rest trees →
        Normal grammar (.oneOrMore inner discarded :: rest)
          (.many inner.shape items discarded :: trees)

variable {grammar : Grammar K R} {root operand : String} {operations : List (Operation K R)}

/-- An operator applies in the layer of its precedence. -/
theorem Applies.exists_leadsTo (hlayered : grammar.IsLayered root operand operations)
    {name next : String} {index : Nat} {affix : Affix} {operation : Operation K R} {token : Token K}
    (happlies : grammar.Applies name next index affix operation token) :
    operation ∈ operations ∧ operation.affix = affix ∧ name = layerName root operation.precedence ∧
      LeadsTo root operand operations operation.precedence next := by
  obtain ⟨rule, operator, kind, hrule, haffix, hclauses, -, hoperation⟩ := happlies
  obtain ⟨precedence, other, _, hnext, hname, hsame, -, hoperations⟩ :=
    hlayered.isLayer (mem_rules_of_rule? hrule) haffix
  obtain ⟨hmem, haffix, rfl⟩ := hoperations operation (Rule.mem_of_operation? hoperation).1
  have heq : next = other := by
    rw [hclauses] at hsame
    cases affix <;> simp only [affixClauses, Clause.ofName, List.cons.injEq,
      Clause.nonTerminal.injEq] at hsame <;> tauto
  exact ⟨hmem, haffix, hname, heq ▸ hnext⟩

namespace Normal

variable {clauses : List (Clause K)} {trees : List (SyntaxTree K)}

/-- There is a tree for each clause. -/
theorem length_eq (hnormal : grammar.Normal clauses trees) : trees.length = clauses.length := by
  induction hnormal with
  | nil => rfl
  | terminal _ _ ih | absent _ ih => exact congrArg Nat.succ ih
  | bypass _ _ _ _ _ _ ih | plain _ _ _ _ _ _ ih | infixOp _ _ _ _ _ _ ih =>
    exact congrArg Nat.succ ih
  | prefixOp _ _ _ _ ih | postfixOp _ _ _ _ ih | present _ _ _ ih => exact congrArg Nat.succ ih
  | zeroOrMore _ _ _ ih | oneOrMore _ _ _ _ ih => exact congrArg Nat.succ ih

/-- Trees for clauses in a row are trees for each. -/
theorem uncons {clause : Clause K} (hnormal : grammar.Normal (clause :: clauses) trees) :
    ∃ tree rest, trees = tree :: rest ∧ grammar.Normal [clause] [tree] ∧
      grammar.Normal clauses rest := by
  cases hnormal with
  | terminal hkind hrest => exact ⟨_, _, rfl, .terminal hkind .nil, hrest⟩
  | bypass hrule hbypass hsingle hchild hrest =>
    exact ⟨_, _, rfl, .bypass hrule hbypass hsingle hchild .nil, hrest⟩
  | plain hrule hbypass haffix hchildren hrest =>
    exact ⟨_, _, rfl, .plain hrule hbypass haffix hchildren .nil, hrest⟩
  | prefixOp happlies hright hrest => exact ⟨_, _, rfl, .prefixOp happlies hright .nil, hrest⟩
  | postfixOp happlies hleft hrest => exact ⟨_, _, rfl, .postfixOp happlies hleft .nil, hrest⟩
  | infixOp happlies hleft hright hrest =>
    exact ⟨_, _, rfl, .infixOp happlies hleft hright .nil, hrest⟩
  | absent hrest => exact ⟨_, _, rfl, .absent .nil, hrest⟩
  | present hchild hrest => exact ⟨_, _, rfl, .present hchild .nil, hrest⟩
  | zeroOrMore hitems hrest => exact ⟨_, _, rfl, .zeroOrMore hitems .nil, hrest⟩
  | oneOrMore hne hitems hrest => exact ⟨_, _, rfl, .oneOrMore hne hitems .nil, hrest⟩

theorem eq_nil (hnormal : grammar.Normal [] trees) : trees = [] := by
  cases hnormal
  rfl

/-- A choice between tokens leaves nothing but the token. -/
theorem exists_leaf {kinds : List K} {clause : Clause K} {tree : SyntaxTree K}
    (hchoice : grammar.IsTokenChoice kinds clause) (hnormal : grammar.Normal [clause] [tree]) :
    ∃ token kind, tree = .leaf token false ∧ token.kind = some kind ∧ kind ∈ kinds := by
  rcases hchoice with ⟨kind, hkind, rfl⟩ | ⟨name, rfl, hrules⟩
  · cases hnormal with
    | terminal htoken => exact ⟨_, kind, rfl, htoken, hkind⟩
  · have hnone {next : String} {index : Nat} {affix : Affix} {operation : Operation K R}
        {token : Token K} : ¬ grammar.Applies name next index affix operation token := by
      rintro ⟨rule, _, _, hrule, haffix, -⟩
      obtain ⟨_, -, -, -, -, hplain⟩ := hrules rule (mem_rules_of_rule? hrule)
      simp [hplain] at haffix
    cases hnormal with
    | bypass hrule _ hclauses hchild =>
      obtain ⟨kind, hkind, halternative, -⟩ := hrules _ hrule
      obtain rfl := List.singleton_inj.1 (hclauses.symm.trans halternative)
      cases hchild with
      | terminal htoken => exact ⟨_, kind, rfl, htoken, hkind⟩
    | plain hrule hbypass =>
      obtain ⟨_, -, -, hleads, -⟩ := hrules _ (mem_rules_of_rule? hrule)
      simp [hleads] at hbypass
    | prefixOp happlies | postfixOp happlies | infixOp happlies => exact absurd happlies hnone

end Normal

/-- Whether a node has the operator that its rule has for the token in the place
    of the operator. -/
def Carries (grammar : Grammar K R) (operations : List (Operation K R)) (label : NodeLabel K)
    (children : List (SyntaxTree K)) : Prop :=
  ∃ rule affix token discarded kind operation, grammar.rule? label.name label.rule = some rule ∧
    rule.affix = some affix ∧ children[operatorIndex affix]? = some (.leaf token discarded) ∧
      token.kind = some kind ∧ rule.operation? kind = some operation ∧ operation ∈ operations ∧
        operation.affix = affix ∧ label.operator = some operation.toOperator

/-- What a node of a normal tree is like. -/
structure IsNormalNode (grammar : Grammar K R) (operations : List (Operation K R))
    (label : NodeLabel K) (children : List (SyntaxTree K)) : Prop where
  isBypass_eq_false : label.isBypass = false
  carries : label.isExpression = true → grammar.Carries operations label children
  operator_eq_none : label.isExpression = false → label.operator = none
  isSettled : IsSettled label children

/-- A mark makes no difference to whether a node is normal. -/
theorem IsNormalNode.discard {label : NodeLabel K} {children : List (SyntaxTree K)}
    (hnode : grammar.IsNormalNode operations label children) (discarded : Bool) :
    grammar.IsNormalNode operations { label with discarded } children where
  isBypass_eq_false := hnode.isBypass_eq_false
  carries := hnode.carries
  operator_eq_none := hnode.operator_eq_none
  isSettled := ⟨hnode.isSettled.rotation?_eq_none, hnode.isSettled.two_le_length⟩

/-- A node of an operator carries the operator. -/
theorem Applies.carries (hlayered : grammar.IsLayered root operand operations) {name next : String}
    {index : Nat} {affix : Affix} {operation : Operation K R} {token : Token K}
    (happlies : grammar.Applies name next index affix operation token)
    {children : List (SyntaxTree K)}
    (hchildren : children[operatorIndex affix]? = some (.leaf token false)) (discarded : Bool) :
    grammar.Carries operations (operationLabel name index operation.toOperator discarded)
      children := by
  obtain ⟨hmem, haffix', -⟩ := happlies.exists_leadsTo hlayered
  obtain ⟨rule, _, kind, hrule, haffix, -, hkind, hoperation⟩ := happlies
  exact ⟨rule, affix, token, false, kind, operation, hrule, haffix, hchildren, hkind, hoperation,
    hmem, haffix', rfl⟩

namespace IsNormalNode

/-- The first operand of an infix operator is none of the things that make a node normal. -/
theorem replace_first {precedence : Nat} {upper : NodeLabel K} {middle other : SyntaxTree K}
    {after : List (SyntaxTree K)} (hnode : grammar.IsNormalNode operations upper (middle :: after))
    (hinfixOp : isInfixOf precedence upper = true) :
    grammar.IsNormalNode operations upper (other :: after) where
  isBypass_eq_false := hnode.isBypass_eq_false
  operator_eq_none := hnode.operator_eq_none
  carries hexpression := by
    obtain ⟨rule, affix, token, discarded, kind, operation, hrule, haffix, hchild, hrest⟩ :=
      hnode.carries hexpression
    obtain ⟨hkind, hoperation, hmem, haffix', hoperator⟩ := hrest
    obtain rfl : affix = .infixOp := haffix'.symm.trans (affix_eq_of_isInfixOf hinfixOp hoperator)
    exact ⟨rule, .infixOp, token, discarded, kind, operation, hrule, haffix, hchild, hkind,
      hoperation, hmem, haffix', hoperator⟩
  isSettled := hnode.isSettled.replace_first hinfixOp

end IsNormalNode

namespace Normal

variable {clauses : List (Clause K)} {trees : List (SyntaxTree K)}

/-- What holds of the nodes of normal trees, if it holds of every node as it is
    made. A node is marked for discarding only later. -/
theorem everywhere {holds : NodeLabel K → List (SyntaxTree K) → Prop}
    (hmark : ∀ label children, holds label children →
      holds { label with discarded := true } children)
    (hplain : ∀ name index isGroup discarded children,
      holds { name, rule := index, isGroup, discarded } children)
    (hprefixOp : ∀ {name next index operation token right} (discarded : Bool),
      grammar.Applies name next index .prefixOp operation token →
        grammar.Normal [.ofName next] [right] →
        holds (operationLabel name index operation.toOperator discarded) [.leaf token false, right])
    (hpostfixOp : ∀ {name next index operation token left} (discarded : Bool),
      grammar.Applies name next index .postfixOp operation token →
        grammar.Normal [.ofName next] [left] →
        holds (operationLabel name index operation.toOperator discarded) [left, .leaf token false])
    (hinfixOp : ∀ {name next index operation token left right} (discarded : Bool),
      grammar.Applies name next index .infixOp operation token →
        grammar.Normal [.ofName next] [left] →
        grammar.Normal [.ofName name] [right] → right.Everywhere holds →
          (∀ child ∈ [left, .leaf token false], child.Everywhere holds) →
            (graft (operationLabel name index operation.toOperator discarded)
              [left, .leaf token false] right).Everywhere
              holds)
    (hnormal : grammar.Normal clauses trees) : ∀ tree ∈ trees, tree.Everywhere holds := by
  induction hnormal with
  | nil => exact fun _ htree => nomatch htree
  | terminal _ _ ih => exact List.forall_mem_cons.2 ⟨everywhere_leaf _ _, ih⟩
  | absent _ ih => exact List.forall_mem_cons.2 ⟨everywhere_absent _ _, ih⟩
  | present _ _ ihChild ih =>
    exact List.forall_mem_cons.2 ⟨everywhere_present_iff.2 (List.forall_mem_singleton.1 ihChild),
      ih⟩
  | zeroOrMore _ _ ihItems ih | oneOrMore _ _ _ ihItems ih =>
    refine List.forall_mem_cons.2 ⟨everywhere_many_iff.2 fun item hitem => ?_, ih⟩
    exact List.forall_mem_singleton.1 (ihItems item hitem)
  | bypass _ _ _ _ _ ihChild ih =>
    have hchild := List.forall_mem_singleton.1 ihChild
    refine List.forall_mem_cons.2 ⟨?_, ih⟩
    split
    · exact hchild.setDiscarded true hmark
    · exact hchild
  | plain _ _ _ _ _ ihChildren ih =>
    exact List.forall_mem_cons.2 ⟨everywhere_node_iff.2 ⟨hplain _ _ _ _ _, ihChildren⟩, ih⟩
  | prefixOp happlies hright _ ihRight ih =>
    refine List.forall_mem_cons.2 ⟨everywhere_node_iff.2 ⟨hprefixOp _ happlies hright, ?_⟩, ih⟩
    exact List.forall_mem_cons.2 ⟨everywhere_leaf _ _, ihRight⟩
  | postfixOp happlies hleft _ ihLeft ih =>
    refine List.forall_mem_cons.2 ⟨everywhere_node_iff.2 ⟨hpostfixOp _ happlies hleft, ?_⟩, ih⟩
    simpa using ⟨List.forall_mem_singleton.1 ihLeft, everywhere_leaf _ _⟩
  | infixOp happlies hleft hright _ ihLeft ihRight ih =>
    refine List.forall_mem_cons.2 ⟨hinfixOp _ happlies hleft hright
      (List.forall_mem_singleton.1 ihRight) ?_, ih⟩
    simpa using ⟨List.forall_mem_singleton.1 ihLeft, everywhere_leaf _ _⟩

/-- All nodes of normal trees are normal. -/
theorem everywhere_isNormalNode (hlayered : grammar.IsLayered root operand operations)
    (hnormal : grammar.Normal clauses trees) :
    ∀ tree ∈ trees, tree.Everywhere (grammar.IsNormalNode operations) := by
  refine hnormal.everywhere (fun _ _ hnode => hnode.discard true) ?_ ?_ ?_ ?_
  · intro name index isGroup discarded children
    exact ⟨rfl, nofun, fun _ => rfl, .of_operator_eq_none rfl _⟩
  · intro name next index operation token right discarded happlies _
    obtain ⟨-, haffix, -⟩ := happlies.exists_leadsTo hlayered
    exact ⟨rfl, fun _ => happlies.carries hlayered rfl _, nofun,
      .of_affix_ne rfl (by simp [haffix]) _⟩
  · intro name next index operation token left discarded happlies _
    obtain ⟨-, haffix, -⟩ := happlies.exists_leadsTo hlayered
    exact ⟨rfl, fun _ => happlies.carries hlayered rfl _, nofun,
      .of_affix_ne rfl (by simp [haffix]) _⟩
  · intro name next index operation token left right discarded happlies _ _ hright hbefore
    refine (everywhere_graft (fun _ => True) hright trivial hbefore ?_ ?_).1
    · intro last _ hnone
      exact ⟨⟨rfl, fun _ => happlies.carries hlayered rfl _, nofun, hnone, fun _ _ => by simp⟩,
        trivial⟩
    · intro upper middle after hsame hupper _
      obtain ⟨precedence, -, hinfixOp⟩ := (Option.any_eq_true _ _).1 hsame
      exact ⟨trivial, fun _ _ => ⟨hupper.replace_first hinfixOp, trivial⟩⟩

end Normal

theorem normalizeEach_eq_map (trees : List (SyntaxTree K)) :
    normalizeEach grammar trees = trees.map (SyntaxTree.normalize grammar) := by
  induction trees with
  | nil => rfl
  | cons tree rest ih => rw [normalizeEach, ih, List.map_cons]

/-- The operator that is noted in a node is the one for the token in its place. -/
theorem annotate_eq {label : NodeLabel K} {rule : Rule K R} {affix : Affix} {kind : K}
    {operation : Operation K R} {token : Token K} {discarded : Bool}
    {children : List (SyntaxTree K)} (hrule : grammar.rule? label.name label.rule = some rule)
    (haffix : rule.affix = some affix)
    (hchild : children[operatorIndex affix]? = some (.leaf token discarded))
    (hkind : token.kind = some kind) (hoperation : rule.operation? kind = some operation) :
    annotate grammar label children = { label with operator := some operation.toOperator } := by
  simp only [annotate, hrule, haffix, hchild, Option.bind_some, token?, hkind, hoperation,
    Option.map_some]

/-- The node of an operator over normal operands, with its operator noted and rotated. -/
theorem Normal.operation (hlayered : grammar.IsLayered root operand operations) {name : String}
    {role : Role} {discarded : Bool} {index : Nat} {rule : Rule K R} {affix : Affix}
    (hrule : grammar.rule? name index = some rule) (haffix : rule.affix = some affix)
    {children : List (SyntaxTree K)} (hchildren : grammar.Normal rule.clauses children)
    {rest : List (Clause K)} {trees : List (SyntaxTree K)} (hrest : grammar.Normal rest trees) :
    grammar.Normal (.nonTerminal name role discarded :: rest)
      (rotate (annotate grammar { name, rule := index, isExpression := true, discarded } children)
        children :: trees) := by
  obtain ⟨_, next, operator, -, -, hclauses, hchoice, hoperations⟩ :=
    hlayered.isLayer (mem_rules_of_rule? hrule) haffix
  have hleaf {tree : SyntaxTree K} (hoperator : grammar.Normal [operator] [tree]) :
      ∃ token operation, tree = .leaf token false ∧ operation.affix = affix ∧
        grammar.Applies name next index affix operation token ∧
          ∀ others, others[operatorIndex affix]? = some tree →
          annotate grammar { name, rule := index, isExpression := true, discarded } others =
            operationLabel name index operation.toOperator discarded := by
    obtain ⟨token, kind, rfl, hkind, hmem⟩ := Normal.exists_leaf hchoice hoperator
    obtain ⟨operation, hoperation⟩ := Rule.exists_operation? hmem
    exact ⟨token, operation, rfl, (hoperations operation (Rule.mem_of_operation? hoperation).1).2.1,
      ⟨rule, operator, kind, hrule, haffix, hclauses, hkind, hoperation⟩,
      fun others hothers => annotate_eq hrule haffix hothers hkind hoperation⟩
  rw [hclauses] at hchildren
  cases affix with
  | prefixOp =>
    obtain ⟨_, _, rfl, hoperator, hbehind⟩ := hchildren.uncons
    obtain ⟨right, _, rfl, hright, hnil⟩ := hbehind.uncons
    obtain rfl := hnil.eq_nil
    obtain ⟨token, operation, rfl, hprefixOp, happlies, hlabel⟩ := hleaf hoperator
    have hsettled : IsSettled (operationLabel name index operation.toOperator discarded)
        [.leaf token false, right] :=
      .of_affix_ne rfl (by simp [hprefixOp]) _
    rw [hlabel _ rfl, rotate_eq_node hsettled.rotation?_eq_none]
    exact .prefixOp happlies hright hrest
  | postfixOp =>
    obtain ⟨left, _, rfl, hleft, hbehind⟩ := hchildren.uncons
    obtain ⟨_, _, rfl, hoperator, hnil⟩ := hbehind.uncons
    obtain rfl := hnil.eq_nil
    obtain ⟨token, operation, rfl, hpostfixOp, happlies, hlabel⟩ := hleaf hoperator
    have hsettled : IsSettled (operationLabel name index operation.toOperator discarded)
        [left, .leaf token false] :=
      .of_affix_ne rfl (by simp [hpostfixOp]) _
    rw [hlabel _ rfl, rotate_eq_node hsettled.rotation?_eq_none]
    exact .postfixOp happlies hleft hrest
  | infixOp =>
    obtain ⟨left, _, rfl, hleft, hbehind⟩ := hchildren.uncons
    obtain ⟨_, _, rfl, hoperator, hlast⟩ := hbehind.uncons
    obtain ⟨right, _, rfl, hright, hnil⟩ := hlast.uncons
    obtain rfl := hnil.eq_nil
    obtain ⟨token, operation, rfl, -, happlies, hlabel⟩ := hleaf hoperator
    have hsettled : right.Everywhere IsSettled := fun entry hentry =>
      (hright.everywhere_isNormalNode hlayered right List.mem_cons_self entry hentry).isSettled
    have hgraft := @rotate_eq_graft _ (operationLabel name index operation.toOperator discarded)
      [left, .leaf token false] right hsettled
    rw [List.cons_append, List.singleton_append] at hgraft
    rw [hlabel _ rfl, hgraft]
    exact .infixOp happlies hleft hright hrest

/-- Normalising a derivation leads to a normal tree. -/
theorem Derives.normal (hlayered : grammar.IsLayered root operand operations)
    {clauses : List (Clause K)} {trees : List (SyntaxTree K)}
    (hderives : grammar.Derives clauses trees) :
    grammar.Normal clauses (normalizeEach grammar trees) := by
  induction hderives with
  | nil => exact .nil
  | terminal hkind _ ih => exact .terminal hkind ih
  | absent _ ih => exact .absent ih
  | present _ _ ihChild ih => exact .present ihChild ih
  | zeroOrMore _ _ ihItems ih =>
    rw [normalizeEach, SyntaxTree.normalize, normalizeEach_eq_map]
    exact .zeroOrMore (List.forall_mem_map.2 ihItems) ih
  | oneOrMore hne _ _ ihItems ih =>
    rw [normalizeEach, SyntaxTree.normalize, normalizeEach_eq_map]
    exact .oneOrMore (by simpa using hne) (List.forall_mem_map.2 ihItems) ih
  | @nonTerminal name role discarded index rule children rest trees hrule _ _ ihChildren ih =>
    rw [normalizeEach, SyntaxTree.normalize]
    by_cases hbypass : rule.isBypass = true
    · obtain ⟨clause, hclause⟩ := hlayered.exists_clause (mem_rules_of_rule? hrule) hbypass
      rw [hclause] at ihChildren
      obtain ⟨child, hchild⟩ := List.length_eq_one_iff.1 ihChildren.length_eq
      rw [hchild] at ihChildren ⊢
      simp only [normalNode, hbypass]
      exact .bypass (mem_rules_of_rule? hrule) hbypass hclause ihChildren ih
    · cases haffix : rule.affix with
      | none =>
        simp only [normalNode, hbypass, Rule.isExpression, haffix, Option.isSome_none]
        exact .plain hrule (by simpa using hbypass) haffix ihChildren ih
      | some affix =>
        obtain ⟨-, hsubrule⟩ := hlayered.not_isBypass (mem_rules_of_rule? hrule) haffix
        simp only [normalNode, hbypass, Rule.isExpression, haffix, Option.isSome_some, hsubrule]
        exact .operation hlayered hrule haffix ihChildren ih

section FixedPoint

/-- There is nothing to do for a node that is normal. -/
theorem IsNormalNode.normalNode_eq {label : NodeLabel K} {children : List (SyntaxTree K)}
    (hnode : grammar.IsNormalNode operations label children) :
    normalNode grammar label children = .node label children := by
  unfold normalNode
  rw [hnode.isBypass_eq_false]
  split
  · next hbypass => cases hbypass
  · split
    · next hexpression =>
      obtain ⟨rule, affix, token, discarded, kind, operation, hrule, haffix, hchild, hkind,
        hoperation, -, -, hoperator⟩ :=
        hnode.carries hexpression
      rw [annotate_eq hrule haffix hchild hkind hoperation, ← hoperator]
      exact rotate_eq_node hnode.isSettled.rotation?_eq_none
    · rfl

mutual

/-- There is nothing to do where every node is normal. -/
theorem normalize_eq_self :
    ∀ {tree : SyntaxTree K}, tree.Everywhere (grammar.IsNormalNode operations) →
    tree.normalize grammar = tree
  | .leaf .., _ | .absent .., _ => rfl
  | .node label children, htree => by
    obtain ⟨hnode, hchildren⟩ := everywhere_node_iff.1 htree
    rw [SyntaxTree.normalize, normalizeEach_eq_self hchildren, hnode.normalNode_eq]
  | .many _ children _, htree => by rw [SyntaxTree.normalize,
      normalizeEach_eq_self (everywhere_many_iff.1 htree)]
  | .present _ child _, htree => by rw [SyntaxTree.normalize,
      normalize_eq_self (everywhere_present_iff.1 htree)]

theorem normalizeEach_eq_self : ∀ {trees : List (SyntaxTree K)},
    (∀ tree ∈ trees, tree.Everywhere (grammar.IsNormalNode operations)) →
    normalizeEach grammar trees = trees
  | [], _ => rfl
  | tree :: rest, htrees => by
    rw [normalizeEach, normalize_eq_self (htrees tree List.mem_cons_self),
      normalizeEach_eq_self fun other hother => htrees other (List.mem_cons_of_mem _ hother)]

end

end FixedPoint

end Grammar

end GrammarKit
