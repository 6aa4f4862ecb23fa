import GrammarKit.Proofs.Grammar.Chain
import GrammarKit.Proofs.SyntaxTree.Binding

namespace GrammarKit

variable {K : Type} {kind : K} {operators : List (Operator K)}

namespace Grouping

/-- Whether all operands are single tokens of one kind, and all operators are
    among the given ones. -/
def IsOver (kind : K) (operators : List (Operator K)) : Grouping K → Prop
  | operand tokens => ∃ token, tokens = [token] ∧ token.kind = some kind
  | between left operator token right =>
    left.IsOver kind operators ∧ operator ∈ operators ∧ token.kind = some operator.kind ∧
      right.IsOver kind operators

/-- The first operand of a chain is a single token. -/
theorem IsOver.exists_first {grouping : Grouping K} (hover : grouping.IsOver kind operators) :
    ∃ token, grouping.first = [token] := by
  induction grouping with
  | operand tokens =>
    obtain ⟨token, rfl, -⟩ := hover
    exact ⟨token, rfl⟩
  | between left operator token right ihLeft _ => exact ihLeft hover.1

/-- What follows the first operand are operators and single tokens. -/
theorem IsOver.of_mem_links {grouping : Grouping K} (hover : grouping.IsOver kind operators) :
    ∀ link ∈ grouping.links, link.operator ∈ operators ∧ link.token.kind = some link.operator.kind ∧
      ∃ token, link.operand = [token] := by
  induction grouping with
  | operand tokens => exact fun _ hnone => absurd hnone List.not_mem_nil
  | between left operator token right ihLeft ihRight =>
    obtain ⟨hleft, hoperator, hkind, hright⟩ := hover
    intro link hlink
    rcases List.mem_append.1 hlink with hlink | hlink
    · exact ihLeft hleft link hlink
    · rcases List.mem_cons.1 hlink with rfl | hlink
      · exact ⟨hoperator, hkind, hright.exists_first⟩
      · exact ihRight hright link hlink

variable [DecidableEq K]

/-- The operators and operands that follow the first operand of a chain. -/
def linksOf (operators : List (Operator K)) : List (Token K) → List (Link K)
  | token :: next :: rest =>
    match operators.find? fun operator => token.kind = some operator.kind with
    | some operator => ⟨operator, token, [next]⟩ :: linksOf operators rest
    | none => []
  | _ => []

/-- How the operators of a chain and the single tokens between them are nested,
    which the tokens tell alone. -/
def ofChain (operators : List (Operator K)) : List (Token K) → Grouping K
  | [] => operand []
  | first :: rest => nest [first] (linksOf operators rest)

/-- An operator is found by its token. -/
theorem find?_operator (hnodup : (operators.map fun operator => operator.kind).Nodup)
    {operator : Operator K} (hoperator : operator ∈ operators) {token : Token K}
    (hkind : token.kind = some operator.kind) :
    (operators.find? fun operator => token.kind = some operator.kind) = some operator := by
  cases hfind : operators.find? fun operator => token.kind = some operator.kind with
  | none =>
    have hnone := List.find?_eq_none.1 hfind operator hoperator
    simp [hkind] at hnone
  | some found =>
    have hsame : token.kind = some found.kind := by simpa using List.find?_some hfind
    have hkinds : found.kind = operator.kind := Option.some.inj (hsame.symm.trans hkind)
    rw [List.inj_on_of_nodup_map hnodup (List.mem_of_find?_eq_some hfind) hoperator hkinds]

/-- Operators and operands are found again in their tokens. -/
theorem linksOf_flatMap (hnodup : (operators.map fun operator => operator.kind).Nodup)
    {links : List (Link K)}
    (hlinks : ∀ link ∈ links, link.operator ∈ operators ∧
      link.token.kind = some link.operator.kind ∧ ∃ token, link.operand = [token]) :
    linksOf operators (links.flatMap fun link => link.token :: link.operand) = links := by
  induction links with
  | nil => rw [List.flatMap_nil, linksOf]; simp
  | cons link links ih =>
    obtain ⟨⟨hoperator, hkind, operand, hoperand⟩, hlinks⟩ := List.forall_mem_cons.1 hlinks
    rw [List.flatMap_cons, hoperand, List.cons_append, List.singleton_append, linksOf,
      find?_operator hnodup hoperator hkind, ih hlinks, ← hoperand]

/-- A nesting of a chain is found from its tokens. -/
theorem IsOver.ofChain_eq (hnodup : (operators.map fun operator => operator.kind).Nodup)
    {grouping : Grouping K} (hover : grouping.IsOver kind operators) (hnested : grouping.IsNested) :
    ofChain operators grouping.tokens = grouping := by
  obtain ⟨token, hfirst⟩ := hover.exists_first
  calc ofChain operators grouping.tokens
      = nest [token] (linksOf operators (grouping.links.flatMap fun link =>
        link.token :: link.operand)) := by
        rw [tokens_eq, hfirst, List.singleton_append, ofChain]
    _ = nest grouping.first grouping.links := by
      rw [linksOf_flatMap hnodup hover.of_mem_links, hfirst]
    _ = grouping := hnested.nest_eq

end Grouping

namespace SyntaxTree

/-- A node of an infix operator is a nesting of its operands. -/
theorem grouping_node {label : NodeLabel K} {operator : Operator K}
    (hoperator : label.operator = some operator) (haffix : operator.affix = .infixOp)
    (left : SyntaxTree K) (token : Token K) (discarded : Bool) (right : SyntaxTree K) :
    (node label [left, leaf token discarded, right]).grouping =
      .between left.grouping operator token right.grouping := by
  have hfilter : label.operator.filter (fun operator => operator.affix = .infixOp) =
      some operator := by
    simp [hoperator, haffix]
  rw [grouping, hfilter]

/-- A mark makes no difference to how operators are nested. -/
theorem grouping_setDiscarded (tree : SyntaxTree K) (discarded : Bool) :
    (tree.setDiscarded discarded).grouping = tree.grouping := by
  fun_cases grouping tree with
  | case1 label left token mark right operator hroot =>
    rw [setDiscarded, grouping, hroot]
  | case2 label left token mark right hnone =>
    rw [setDiscarded, grouping, hnone]
  | case3 tree hother =>
    cases tree with
    | node label children =>
      rw [setDiscarded, grouping]
      · rfl
      · rintro same left token mark right heq
        obtain ⟨-, rfl⟩ := node.inj heq
        exact hother label left token mark right rfl
    | leaf | many | present | absent => rfl

/-- A graft of chains is a chain. -/
theorem isOver_graft {R : Type} {operations : List (Operation K R)} {label : NodeLabel K}
    {operator : Operator K} (hlabel : label.operator = some operator)
    (haffix : operator.affix = .infixOp) (hoperator : operator ∈ operators)
    {left right : SyntaxTree K} {token : Token K} (hkind : token.kind = some operator.kind)
    (hleft : left.grouping.IsOver kind operators) (hright : right.grouping.IsOver kind operators)
    (hbinds : right.Everywhere (BindsOperands operations)) :
    (graft label [left, .leaf token false] right).grouping.IsOver kind operators := by
  have hnode (last : SyntaxTree K) (hlast : last.grouping.IsOver kind operators) :
      (node label ([left, .leaf token false] ++ [last])).grouping.IsOver kind operators := by
    rw [List.cons_append, List.singleton_append, grouping_node hlabel haffix]
    exact ⟨hleft, hoperator, hkind, hlast⟩
  fun_induction graft label [left, .leaf token false] right with
  | case1 upper middle after hsame ih =>
    obtain ⟨hupper, hchildren⟩ := everywhere_node_iff.1 hbinds
    obtain ⟨precedence, -, hinfixOp⟩ := (Option.any_eq_true _ _).1 hsame
    obtain ⟨other, hother, hotherAffix, -⟩ := isInfixOf_eq_true_iff.1 hinfixOp
    obtain ⟨-, between, -, hoperands⟩ := hupper other hother
    rw [hotherAffix] at hoperands
    obtain ⟨first, second, heq, -⟩ := hoperands
    obtain ⟨rfl, rfl⟩ := List.cons.inj heq
    rw [grouping_node hother hotherAffix] at hright ⊢
    obtain ⟨hmiddle, hrest⟩ := hright
    exact ⟨ih hmiddle (hchildren middle List.mem_cons_self), hrest⟩
  | case2 | case3 | case4 | case5 | case6 | case7 => exact hnode _ hright

end SyntaxTree

open Grammar SyntaxTree

variable {R : Type} [DecidableEq K] [TokenKind K] {layering : Layering K R}

namespace Layering.IsChain

section

variable (hchain : layering.IsChain kind) (huniform : IsUniform layering.operations)
  (hacyclic : layering.grammar.leftRecursions = [])
include hchain huniform hacyclic

/-- What the root, a layer or the operand matches is a chain. -/
theorem isOver_of_normal {clauses : List (Clause K)} {trees : List (SyntaxTree K)}
    (hnormal : layering.grammar.Normal clauses trees) :
    List.Forall₂ (fun clause tree => ∀ name role discarded,
      clause = .nonTerminal name role discarded →
      layering.IsLevel name → tree.grouping.IsOver kind
        (layering.operations.map Operation.toOperator)) clauses trees := by
  have hinfixOp {name next : String} {index : Nat} {affix : Affix} {operation : Operation K R}
      {token : Token K}
      (happlies : layering.grammar.Applies name next index affix operation token) : affix =
      .infixOp := by
    obtain ⟨hmem, rfl, -⟩ := happlies.exists_leadsTo hchain.isLayered
    exact hchain.affix_eq operation hmem
  induction hnormal with
  | nil => exact .nil
  | terminal _ _ ih | absent _ ih => exact .cons (fun _ _ _ hclause => by cases hclause) ih
  | present _ _ _ ih | zeroOrMore _ _ _ ih | oneOrMore _ _ _ _ ih =>
    exact .cons (fun _ _ _ hclause => by cases hclause) ih
  | @bypass name role discarded rule clause child rest trees hrule hbypass hclauses _
      _ ihChild ih =>
    refine .cons (fun _ _ _ hclause hlevel => ?_) ih
    obtain ⟨rfl, -, -⟩ := Clause.nonTerminal.inj hclause
    obtain ⟨next, hnext, hsame⟩ := hchain.exists_next (hchain.not_mem_partNames hlevel) hrule
      hbypass
    obtain rfl := List.singleton_inj.1 (hclauses.symm.trans hsame)
    have hchild := (List.forall₂_cons.1 ihChild).1 next _ _ rfl hnext.isLevel
    split
    · rwa [grouping_setDiscarded]
    · exact hchild
  | @plain name role discarded index rule children rest trees hrule hbypass haffix
      hchildren _ _ ih =>
    refine .cons (fun _ _ _ hclause hlevel => ?_) ih
    obtain ⟨rfl, -, -⟩ := Clause.nonTerminal.inj hclause
    obtain ⟨before, hbefore, -⟩ := hchain.exists_declared (hchain.not_mem_partNames hlevel) hrule
      hbypass haffix
    obtain rfl := hchain.eq_operand hlevel (mem_names_of_mem_rules (mem_rules_of_rule? hbefore))
    obtain ⟨mark, hclauses⟩ := hchain.operand_rule (mem_rules_of_rule? hrule)
    rw [hclauses] at hchildren
    cases hchildren with
    | terminal hkind hnil =>
      cases hnil
      exact ⟨_, rfl, hkind⟩
  | prefixOp happlies | postfixOp happlies => cases hinfixOp happlies
  | @infixOp name next role discarded index operation token left right rest trees happlies _ hright
      _ ihLeft ihRight ih =>
    refine .cons (fun _ _ _ hclause hlevel => ?_) ih
    obtain ⟨rfl, -, -⟩ := Clause.nonTerminal.inj hclause
    obtain ⟨hmem, haffix, hname, hnext⟩ := happlies.exists_leadsTo hchain.isLayered
    have hpasses : layering.PassesTo name next := Or.inl ⟨operation.precedence, hname, hnext⟩
    have hbinds : right.Everywhere (BindsOperands layering.operations) :=
      hright.everywhere_bindsOperands hchain.isLayered hacyclic huniform right List.mem_cons_self
    exact isOver_graft rfl haffix (List.mem_map_of_mem hmem) happlies.kind_eq
      ((List.forall₂_cons.1 ihLeft).1 next _ _ rfl hpasses.isLevel)
      ((List.forall₂_cons.1 ihRight).1 name _ _ rfl hlevel) hbinds

/-- The tree of the root is nested as its tokens say. -/
theorem grouping_eq {tree : SyntaxTree K}
    (hnormal : layering.grammar.Normal [.ofName layering.root] [tree]) :
    tree.grouping = .ofChain (layering.operations.map Operation.toOperator) tree.leaves := by
  have hover := (List.forall₂_cons.1 (hchain.isOver_of_normal huniform hacyclic hnormal)).1
    layering.root _ _ rfl (Or.inr hchain.exists_passesTo_root)
  have hbinds := hnormal.everywhere_bindsOperands hchain.isLayered hacyclic huniform tree
    List.mem_cons_self
  have hgrouped := hnormal.everywhere_not_isMisgrouped hchain.isLayered tree List.mem_cons_self
  have hnodup : ((layering.operations.map Operation.toOperator).map fun operator =>
      operator.kind).Nodup := by
    rw [List.map_map]
    exact hchain.nodup_kinds
  rw [← tokens_grouping]
  exact (hover.ofChain_eq hnodup (isNested_grouping huniform hbinds hgrouped)).symm

end

end Layering.IsChain

end GrammarKit
