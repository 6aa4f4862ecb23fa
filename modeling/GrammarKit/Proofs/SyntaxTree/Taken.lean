import GrammarKit.Proofs.Grammar.Layering
import GrammarKit.Proofs.SyntaxTree.Shape

namespace GrammarKit

open Grammar Precedence SyntaxTree Reduction

variable {K O C : Type} [DecidableEq K] [TokenKind K]

namespace Layering

/-- Whether the rules were read from texts that do not mention the names that
    are made up, and no choice mixes tokens and values. -/
structure IsSeparate (layering : Layering K (Reducer K O C)) : Prop extends layering.IsApart where
  areWritten : ∀ entry ∈ layering.declared.rules, Clause.AreWritten entry.2.clauses
  references : ∀ entry ∈ layering.declared.rules, ∀ name ∈ Clause.referencesIn entry.2.clauses,
    layering.IsFree name
  mixedChoices_eq_nil : layering.layered.flatten.mixedChoices = []

/-- Whether the trees are an operator of this kind and its operands, in their places. -/
def OperandsFit (operation : Operation K (Reducer K O C)) (children : List (SyntaxTree K)) : Prop :=
  ∃ token, token.kind = some operation.kind ∧
    match operation.affix with
    | .prefixOp => ∃ right, children = [.leaf token false, right] ∧ right.IsOperand
    | .infixOp => ∃ left right, children = [left, .leaf token false, right] ∧ left.IsOperand ∧
        right.IsOperand
    | .postfixOp => ∃ left, children = [left, .leaf token false] ∧ left.IsOperand

/-- Whether the children of a node are what its reducer is declared for: trees
    that fit the clauses of a rule, or an operator and its operands. Groups have
    no reducer. -/
structure Takes (layering : Layering K (Reducer K O C)) (label : NodeLabel K)
    (children : List (SyntaxTree K)) : Prop where
  isBypass_eq_false : label.isBypass = false
  fits : label.isGroup = false →
    (∃ rule, layering.declared.rule? label.name label.rule = some rule ∧ label.operator = none ∧
        reducer? layering.grammar label = rule.reducer ∧ Clause.FitAll rule.clauses children) ∨
      ∃ operation ∈ layering.operations, label.operator = some operation.toOperator ∧
        reducer? layering.grammar label = some operation.reducer ∧ OperandsFit operation children

variable {layering : Layering K (Reducer K O C)}

/-- A mark makes no difference to what a reducer is declared for. -/
theorem Takes.discard {label : NodeLabel K} {children : List (SyntaxTree K)}
    (htakes : layering.Takes label children) (discarded : Bool) :
    layering.Takes { label with discarded } children where
  isBypass_eq_false := htakes.isBypass_eq_false
  fits := htakes.fits

/-- A tree where a flat clause was matched. It has the form of the clause that
    the flat one stands for; where nothing else is known of what the clause
    refers to, it is an operand. -/
structure Taken (layering : Layering K (Reducer K O C)) (flat : Clause K) (tree : SyntaxTree K) :
    Prop where
  fits : ∀ {clause : Clause K}, layering.grammar.Stands [clause] [flat] → clause.IsWritten →
    (∀ name ∈ clause.references, layering.IsFree name) → layering.grammar.UnmixedIn [flat] →
      clause.Fits tree ∧ tree.isDiscarded = clause.isDiscarded ∧ tree.Everywhere layering.Takes
  isOperand : ∀ {name : String}, flat = .ofName name → name ∉ layering.layered.partNames →
    tree.IsOperand ∧ tree.Everywhere layering.Takes

section Taken

variable {flats : List (Clause K)} {trees : List (SyntaxTree K)}

/-- Trees of flat clauses fit the clauses that these stand for. -/
theorem fitAll_of_taken (htaken : List.Forall₂ layering.Taken flats trees)
    {clauses : List (Clause K)} (hstands : layering.grammar.Stands clauses flats)
    (hwritten : Clause.AreWritten clauses)
    (hfree : ∀ name ∈ Clause.referencesIn clauses, layering.IsFree name)
    (hunmixed : layering.grammar.UnmixedIn flats) :
    Clause.FitAll clauses trees ∧ ∀ tree ∈ trees, tree.Everywhere layering.Takes := by
  induction htaken generalizing clauses with
  | nil =>
    cases hstands
    exact ⟨rfl, nofun⟩
  | @cons flat tree flats trees htree _ ih =>
    cases clauses with
    | nil => cases hstands
    | cons clause clauses =>
      obtain ⟨hfirst, hrest⟩ := hstands.uncons
      obtain ⟨hfreeFirst, hfreeRest⟩ := List.forall_mem_append.1 hfree
      obtain ⟨hunmixedFirst, hunmixedRest⟩ := unmixedIn_cons_iff.1 hunmixed
      obtain ⟨hfits, hdiscarded, heverywhere⟩ :=
        htree.fits hfirst hwritten.1 hfreeFirst hunmixedFirst
      obtain ⟨hall, hothers⟩ := ih hrest hwritten.2 hfreeRest hunmixedRest
      exact ⟨Clause.fitAll_cons hdiscarded hfits hall,
        List.forall_mem_cons.2 ⟨heverywhere, hothers⟩⟩

/-- A token fits its clause. -/
theorem Taken.terminal (kind : K) (discarded : Bool) (token : Token K) :
    layering.Taken (.terminal kind discarded) (.leaf token discarded) where
  fits hstands _ _ _ := by
    cases hstands
    refine ⟨?_, rfl, everywhere_leaf _ _⟩
    exact ⟨_, _, rfl⟩
  isOperand := nofun

theorem Taken.absent (inner : Clause K) (discarded : Bool) :
    layering.Taken (.option inner discarded) (.absent inner.shape discarded) where
  fits hstands hwritten _ _ := by
    cases hstands with
    | option hinner =>
      rw [hinner.shape_eq hwritten.2.2]
      exact ⟨Or.inl ⟨_, rfl⟩, rfl, everywhere_absent _ _⟩
  isOperand := nofun

/-- An option that is there fits if its child does. -/
theorem Taken.present {inner : Clause K} {child : SyntaxTree K}
    (hchild : layering.Taken inner child) (discarded : Bool) :
    layering.Taken (.option inner discarded) (.present inner.shape child discarded) where
  fits hstands hwritten hfree hunmixed := by
    cases hstands with
    | option hinner =>
      obtain ⟨hfits, -, heverywhere⟩ := hchild.fits hinner hwritten.2.2 hfree hunmixed
      rw [hinner.shape_eq hwritten.2.2]
      exact ⟨Or.inr ⟨_, _, rfl, hfits⟩, rfl, everywhere_present_iff.2 heverywhere⟩
  isOperand := nofun

/-- A repetition fits if its items do. -/
theorem Taken.zeroOrMore {inner : Clause K} {items : List (SyntaxTree K)}
    (hitems : ∀ item ∈ items, layering.Taken inner item) (discarded : Bool) :
    layering.Taken (.zeroOrMore inner discarded) (.many inner.shape items discarded) where
  fits hstands hwritten hfree hunmixed := by
    cases hstands with
    | zeroOrMore hinner =>
      have hfits := fun item hitem => (hitems item hitem).fits hinner hwritten.2.2 hfree hunmixed
      rw [hinner.shape_eq hwritten.2.2]
      refine ⟨?_, rfl, everywhere_many_iff.2 fun item hitem => (hfits item hitem).2.2⟩
      exact ⟨_, _, rfl, fun item hitem => (hfits item hitem).1⟩
  isOperand := nofun

theorem Taken.oneOrMore {inner : Clause K} {items : List (SyntaxTree K)} (hne : items ≠ [])
    (hitems : ∀ item ∈ items, layering.Taken inner item) (discarded : Bool) :
    layering.Taken (.oneOrMore inner discarded) (.many inner.shape items discarded) where
  fits hstands hwritten hfree hunmixed := by
    cases hstands with
    | oneOrMore hinner =>
      have hfits := fun item hitem => (hitems item hitem).fits hinner hwritten.2.2 hfree hunmixed
      rw [hinner.shape_eq hwritten.2.2]
      refine ⟨?_, rfl, everywhere_many_iff.2 fun item hitem => (hfits item hitem).2.2⟩
      exact ⟨_, _, rfl, hne, fun item hitem => (hfits item hitem).1⟩
  isOperand := nofun

end Taken

namespace IsSeparate

variable (hseparate : layering.IsSeparate)
include hseparate

/-- No choice in a rule mixes tokens and values. -/
theorem unmixedIn {owner : String} {rule : Rule K (Reducer K O C)}
    (hrule : (owner, rule) ∈ layering.grammar.rules) :
    layering.grammar.UnmixedIn rule.clauses := by
  obtain ⟨before, hbefore, rfl⟩ := mem_rules_analyse.1 hrule
  exact (unmixedIn_of_mixedChoices_eq_nil hseparate.mixedChoices_eq_nil hbefore).analyse

/-- The child of a node that only leads on. Where the node was matched for a
    choice, the child is what an alternative matched. -/
theorem taken_bypass {name : String} {role : Role} {discarded : Bool}
    {rule : Rule K (Reducer K O C)} {clause : Clause K} {child : SyntaxTree K}
    (hrule : (name, rule) ∈ layering.grammar.rules) (hbypass : rule.isBypass = true)
    (hclauses : rule.clauses = [clause]) (hchild : layering.Taken clause child) :
    layering.Taken (.nonTerminal name role discarded) (child.passedOn discarded) := by
  have hown (hname : name ∉ layering.layered.partNames) : (child.passedOn discarded).IsCall ∧
      (child.passedOn discarded).isDiscarded = discarded ∧
      (child.passedOn discarded).Everywhere layering.Takes := by
    obtain ⟨next, hnext, hlead⟩ := hseparate.exists_next hname hrule hbypass
    obtain ⟨⟨hcall, hshown⟩, heverywhere⟩ :=
      hchild.isOperand (List.singleton_inj.1 (hclauses.symm.trans hlead))
      (hseparate.not_mem_partNames_of_passesTo hnext)
    exact ⟨hcall.passedOn discarded, isDiscarded_passedOn hshown discarded,
      heverywhere.passedOn discarded fun _ _ htakes => htakes.discard true⟩
  refine ⟨fun {original} hstands hwritten hfree hunmixed => ?_, fun heq hname => ?_⟩
  · cases hstands with
    | nonTerminal => exact hown (hfree name List.mem_cons_self).1
    | group hgroup =>
      have hnot := (hgroup rule hrule).2.2.1
      rw [hbypass] at hnot
      cases hnot
    | @choice _ members inner _ _ _ hchoice _ hmembers =>
      obtain ⟨hne, hmere⟩ := hwritten
      obtain ⟨flat, hflat, halternative, -⟩ := hchoice hne rule hrule
      obtain rfl := List.singleton_inj.1 (hclauses.symm.trans halternative)
      obtain ⟨member, hmember, hmemberStands⟩ := hmembers.exists_of_mem hflat
      obtain ⟨hmemberWritten, hshown⟩ := Clause.isWritten_of_isMereName (hmere member hmember)
      obtain ⟨hfits, hdiscarded, heverywhere⟩ := hchild.fits hmemberStands hmemberWritten
        (fun name hname => hfree name (Clause.mem_referencesIn.2 ⟨member, hmember, hname⟩))
        (hclauses ▸ hseparate.unmixedIn hrule)
      refine ⟨?_, isDiscarded_passedOn (hdiscarded.trans hshown) discarded,
        heverywhere.passedOn discarded fun _ _ htakes => htakes.discard true⟩
      refine Clause.fits_choice hmember (hmere member hmember) hfits (fun hall => ?_)
        discarded discarded
      have hmereMember := hmere member hmember
      cases hmemberStands with
      | terminal =>
        have hrole : Flat.choiceRole members = .valueChoice := by simp [Flat.choiceRole, hall]
        rw [hrole] at hunmixed
        exact absurd hclauses (hunmixed name List.mem_cons_self rule hrule _ _)
      | nonTerminal => rfl
      | group | choice | option | zeroOrMore | oneOrMore => cases hmereMember
  · obtain ⟨rfl, -, rfl⟩ := Clause.nonTerminal.inj heq
    obtain ⟨hcall, hshown, heverywhere⟩ := hown hname
    exact ⟨⟨hcall, hshown⟩, heverywhere⟩

/-- The node of a rule that was declared, or of a group. -/
theorem taken_plain {name : String} {role : Role} {discarded : Bool} {index : Nat}
    {rule : Rule K (Reducer K O C)} {children : List (SyntaxTree K)}
    (hrule : layering.grammar.rule? name index = some rule) (hbypass : rule.isBypass = false)
    (haffix : rule.affix = none) (hchildren : List.Forall₂ layering.Taken rule.clauses children) :
    layering.Taken (.nonTerminal name role discarded)
      (.node { name, rule := index, isGroup := rule.isSubrule, discarded } children) := by
  have hown (hname : name ∉ layering.layered.partNames) :
      rule.isSubrule = false ∧ ∀ label,
      label = { name, rule := index, isGroup := rule.isSubrule, discarded } →
        (node label children).Everywhere layering.Takes := by
    obtain ⟨original, horiginal, hsubrule, hreducer, hstands⟩ :=
      hseparate.exists_declared hname hrule hbypass haffix
    have hentry := mem_rules_of_rule? horiginal
    obtain ⟨hall, heverywhere⟩ := fitAll_of_taken hchildren hstands (hseparate.areWritten _ hentry)
      (hseparate.references _ hentry) (hseparate.unmixedIn (mem_rules_of_rule? hrule))
    refine ⟨hsubrule, ?_⟩
    rintro label rfl
    refine everywhere_node_iff.2 ⟨⟨rfl, fun _ => Or.inl ⟨original, horiginal, rfl, ?_, hall⟩⟩,
      heverywhere⟩
    simpa [reducer?, hrule] using hreducer
  refine ⟨fun {original} hstands hwritten hfree hunmixed => ?_, fun heq hname => ?_⟩
  · cases hstands with
    | nonTerminal =>
      obtain ⟨hsubrule, heverywhere⟩ := hown (hfree name List.mem_cons_self).1
      refine ⟨?_, rfl, heverywhere _ rfl⟩
      exact ⟨_, _, rfl, rfl, hsubrule⟩
    | group hgroup hmembers =>
      obtain ⟨hclauses, hsubrule, -⟩ := hgroup rule (mem_rules_of_rule? hrule)
      obtain ⟨hall, heverywhere⟩ := fitAll_of_taken hchildren (hclauses ▸ hmembers) hwritten hfree
        (hseparate.unmixedIn (mem_rules_of_rule? hrule))
      refine ⟨⟨_, _, rfl, hsubrule, hall⟩, rfl,
        everywhere_node_iff.2 ⟨⟨rfl, fun hnot => ?_⟩, heverywhere⟩⟩
      rw [hsubrule] at hnot
      cases hnot
    | choice hchoice =>
      obtain ⟨_, -, -, hleads, -⟩ := hchoice hwritten.1 rule (mem_rules_of_rule? hrule)
      rw [hbypass] at hleads
      cases hleads
  · obtain ⟨rfl, -, rfl⟩ := Clause.nonTerminal.inj heq
    obtain ⟨hsubrule, heverywhere⟩ := hown hname
    exact ⟨⟨⟨_, _, rfl, rfl, hsubrule⟩, rfl⟩, heverywhere _ rfl⟩

/-- The node of an operator, which only layers have. -/
theorem taken_operation {name next : String} {role : Role} {discarded : Bool} {index : Nat}
    {affix : Affix} {operation : Operation K (Reducer K O C)} {token : Token K}
    {tree : SyntaxTree K}
    (happlies : layering.grammar.Applies name next index affix operation token)
    (htree : discarded = false → tree.IsOperand ∧ tree.Everywhere layering.Takes) :
    layering.Taken (.nonTerminal name role discarded) tree := by
  obtain ⟨hmem, -, hname, -⟩ := happlies.exists_leadsTo hseparate.isLayered
  obtain ⟨rule, _, _, hrule, haffix, -⟩ := happlies
  refine ⟨fun {original} hstands hwritten hfree hunmixed => ?_, fun heq _ => ?_⟩
  · cases hstands with
    | nonTerminal =>
      refine absurd (List.mem_map.2 ⟨_, ?_, hname.symm⟩) (hfree name List.mem_cons_self).2
      exact mem_precedences.2 ⟨operation, hmem, rfl⟩
    | group hgroup =>
      have hnone := (hgroup rule (mem_rules_of_rule? hrule)).2.2.2
      rw [haffix] at hnone
      cases hnone
    | choice hchoice =>
      obtain ⟨_, -, -, -, -, hnone⟩ := hchoice hwritten.1 rule (mem_rules_of_rule? hrule)
      rw [haffix] at hnone
      cases hnone
  · obtain ⟨-, -, rfl⟩ := Clause.nonTerminal.inj heq
    exact htree rfl

/-- An operator and its operands are what its reducer is declared for. -/
theorem takes_operation {name next : String} {index : Nat} {affix : Affix}
    {operation : Operation K (Reducer K O C)} {token : Token K}
    (happlies : layering.grammar.Applies name next index affix operation token)
    {children : List (SyntaxTree K)}
    (hchildren : token.kind = some operation.kind → OperandsFit operation children)
    (discarded : Bool) :
    layering.Takes (operationLabel name index operation.toOperator discarded) children where
  isBypass_eq_false := rfl
  fits _ := by
    obtain ⟨hmem, -⟩ := happlies.exists_leadsTo hseparate.isLayered
    obtain ⟨rule, _, kind, hrule, -, -, hkind, hoperation⟩ := happlies
    obtain rfl := (Rule.mem_of_operation? hoperation).2
    refine Or.inr ⟨operation, hmem, rfl, ?_, hchildren hkind⟩
    simp [reducer?, operationLabel, hrule, hoperation]

/-- The node of an operator in front of its operand. -/
theorem taken_prefixOp {name next : String} {role : Role} {discarded : Bool} {index : Nat}
    {operation : Operation K (Reducer K O C)} {token : Token K} {right : SyntaxTree K}
    (happlies : layering.grammar.Applies name next index .prefixOp operation token)
    (hright : layering.Taken (.ofName next) right) :
    layering.Taken (.nonTerminal name role discarded)
      (.node (operationLabel name index operation.toOperator discarded)
        [.leaf token false, right]) := by
  refine hseparate.taken_operation happlies fun hshown => ?_
  obtain ⟨-, haffix, -, hnext⟩ := happlies.exists_leadsTo hseparate.isLayered
  obtain ⟨hoperand, heverywhere⟩ := hright.isOperand rfl
    (hseparate.not_mem_partNames_of_leadsTo hnext)
  refine ⟨⟨⟨_, _, rfl, rfl, rfl⟩, hshown⟩, ?_⟩
  refine everywhere_node_iff.2 ⟨hseparate.takes_operation happlies (fun hkind => ?_) _, ?_⟩
  · exact ⟨token, hkind, by rw [haffix]; exact ⟨right, rfl, hoperand⟩⟩
  · simpa using ⟨everywhere_leaf _ _, heverywhere⟩

/-- The node of an operator behind its operand. -/
theorem taken_postfixOp {name next : String} {role : Role} {discarded : Bool} {index : Nat}
    {operation : Operation K (Reducer K O C)} {token : Token K} {left : SyntaxTree K}
    (happlies : layering.grammar.Applies name next index .postfixOp operation token)
    (hleft : layering.Taken (.ofName next) left) :
    layering.Taken (.nonTerminal name role discarded)
      (.node (operationLabel name index operation.toOperator discarded)
        [left, .leaf token false]) := by
  refine hseparate.taken_operation happlies fun hshown => ?_
  obtain ⟨-, haffix, -, hnext⟩ := happlies.exists_leadsTo hseparate.isLayered
  obtain ⟨hoperand, heverywhere⟩ := hleft.isOperand rfl
    (hseparate.not_mem_partNames_of_leadsTo hnext)
  refine ⟨⟨⟨_, _, rfl, rfl, rfl⟩, hshown⟩, ?_⟩
  refine everywhere_node_iff.2 ⟨hseparate.takes_operation happlies (fun hkind => ?_) _, ?_⟩
  · exact ⟨token, hkind, by rw [haffix]; exact ⟨left, rfl, hoperand⟩⟩
  · simpa using ⟨heverywhere, everywhere_leaf _ _⟩

/-- The node of an operator between its operands, grafted onto the right one. -/
theorem taken_infixOp {name next : String} {role : Role} {discarded : Bool} {index : Nat}
    {operation : Operation K (Reducer K O C)} {token : Token K} {left right : SyntaxTree K}
    (happlies : layering.grammar.Applies name next index .infixOp operation token)
    (hleft : layering.Taken (.ofName next) left) (hright : layering.Taken (.ofName name) right) :
    layering.Taken (.nonTerminal name role discarded)
      (graft (operationLabel name index operation.toOperator discarded)
        [left, .leaf token false] right) := by
  refine hseparate.taken_operation happlies fun hshown => ?_
  obtain ⟨hmem, haffix, hname, hnext⟩ := happlies.exists_leadsTo hseparate.isLayered
  obtain ⟨hleftOperand, hleftNodes⟩ := hleft.isOperand rfl
    (hseparate.not_mem_partNames_of_leadsTo hnext)
  have hlayer : name ∉ layering.layered.partNames := by
    intro hpart
    refine (hseparate.partNames _ hpart).2 (List.mem_map.2 ⟨_, ?_, hname.symm⟩)
    exact mem_precedences.2 ⟨operation, hmem, rfl⟩
  obtain ⟨hrightOperand, hrightNodes⟩ := hright.isOperand rfl hlayer
  refine (everywhere_graft IsOperand hrightNodes hrightOperand ?_ ?_ ?_).symm
  · simpa using ⟨hleftNodes, everywhere_leaf _ _⟩
  · intro last hlast _
    refine ⟨hseparate.takes_operation happlies (fun hkind => ⟨token, hkind, ?_⟩) _,
      ⟨⟨_, _, rfl, rfl, rfl⟩, hshown⟩⟩
    rw [haffix]
    exact ⟨left, last, rfl, hleftOperand, hlast⟩
  · intro upper middle after hsame hupper hnode
    obtain ⟨⟨_, _, heq, hbypass, hgroup⟩, hupperShown⟩ := hnode
    obtain ⟨rfl, rfl⟩ := node.inj heq
    obtain ⟨precedence, -, hinfixOp⟩ := (Option.any_eq_true _ _).1 hsame
    rcases hupper.fits hgroup with ⟨_, _, hnone, _⟩ |
      ⟨other, hother, hoperator, hreducer, operator, hkind, hfits⟩
    · simp [isInfixOf, hnone] at hinfixOp
    · have hotherAffix : other.affix = .infixOp := affix_eq_of_isInfixOf hinfixOp hoperator
      rw [hotherAffix] at hfits
      obtain ⟨first, second, hchildren, hfirst, hsecond⟩ := hfits
      obtain ⟨rfl, rfl⟩ := List.cons.inj hchildren
      refine ⟨hfirst, fun lower hlower => ⟨⟨hbypass, fun _ => Or.inr ?_⟩,
        ⟨⟨_, _, rfl, hbypass, hgroup⟩, hupperShown⟩⟩⟩
      refine ⟨other, hother, hoperator, hreducer, operator, hkind, ?_⟩
      rw [hotherAffix]
      exact ⟨lower, second, rfl, hlower, hsecond⟩

/-- Normal trees fit the clauses that the matched ones stand for, and so do the
    children of all their nodes. The names that are made up for groups, choices
    and layers have to be used for nothing else. -/
theorem taken {flats : List (Clause K)} {trees : List (SyntaxTree K)}
    (hnormal : layering.grammar.Normal flats trees) :
    List.Forall₂ layering.Taken flats trees := by
  induction hnormal with
  | nil => exact .nil
  | terminal _ _ ih => exact .cons (.terminal _ _ _) ih
  | absent _ ih => exact .cons (.absent _ _) ih
  | present _ _ ihChild ih => exact .cons (.present (List.forall₂_cons.1 ihChild).1 _) ih
  | zeroOrMore _ _ ihItems ih =>
    exact .cons (.zeroOrMore (fun item hitem => (List.forall₂_cons.1 (ihItems item hitem)).1) _) ih
  | oneOrMore hne _ _ ihItems ih =>
    exact .cons (.oneOrMore hne (fun item hitem => (List.forall₂_cons.1 (ihItems item hitem)).1) _)
      ih
  | bypass hrule hbypass hclauses _ _ ihChild ih =>
    exact .cons (hseparate.taken_bypass hrule hbypass hclauses (List.forall₂_cons.1 ihChild).1) ih
  | plain hrule hbypass haffix _ _ ihChildren ih =>
    exact .cons (hseparate.taken_plain hrule hbypass haffix ihChildren) ih
  | prefixOp happlies _ _ ihRight ih =>
    exact .cons (hseparate.taken_prefixOp happlies (List.forall₂_cons.1 ihRight).1) ih
  | postfixOp happlies _ _ ihLeft ih =>
    exact .cons (hseparate.taken_postfixOp happlies (List.forall₂_cons.1 ihLeft).1) ih
  | infixOp happlies _ _ _ ihLeft ihRight ih =>
    exact .cons (hseparate.taken_infixOp happlies (List.forall₂_cons.1 ihLeft).1
      (List.forall₂_cons.1 ihRight).1) ih

end IsSeparate

end Layering

end GrammarKit
