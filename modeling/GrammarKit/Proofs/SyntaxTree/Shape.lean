import GrammarKit.Proofs.RuleText.Written
import GrammarKit.Proofs.SyntaxTree.Normal

namespace GrammarKit

/-- Whether the tree is a node that calls a reducer. -/
def SyntaxTree.IsCall {K : Type} (tree : SyntaxTree K) : Prop :=
  ∃ label children, tree = .node label children ∧ label.isBypass = false ∧ label.isGroup = false

/-- Whether the tree is a node that calls a reducer, and its value is not hidden. -/
def SyntaxTree.IsOperand {K : Type} (tree : SyntaxTree K) : Prop :=
  tree.IsCall ∧ tree.isDiscarded = false

namespace SyntaxTree

variable {K : Type}

/-- What is left of a node that only leads on: its child, hidden if the node is. -/
def passedOn (child : SyntaxTree K) (discarded : Bool) : SyntaxTree K :=
  if discarded then child.setDiscarded true else child

/-- What is left of a node that leads on is hidden if the node is. -/
theorem isDiscarded_passedOn {child : SyntaxTree K} (hchild : child.isDiscarded = false)
    (discarded : Bool) :
    (child.passedOn discarded).isDiscarded = discarded := by
  cases discarded with
  | true => exact isDiscarded_setDiscarded true child
  | false => exact hchild

/-- A node that calls a reducer still does when it is passed on. -/
theorem IsCall.passedOn {child : SyntaxTree K} (hcall : child.IsCall) (discarded : Bool) :
    (child.passedOn discarded).IsCall := by
  cases discarded with
  | true =>
    obtain ⟨label, children, rfl, hbypass, hgroup⟩ := hcall
    exact ⟨_, children, rfl, hbypass, hgroup⟩
  | false => exact hcall

/-- Passing a child on marks its root at most. -/
theorem Everywhere.passedOn {holds : NodeLabel K → List (SyntaxTree K) → Prop}
    {child : SyntaxTree K} (hchild : child.Everywhere holds) (discarded : Bool)
    (hmark : ∀ label children, holds label children →
      holds { label with discarded := true } children) :
    (child.passedOn discarded).Everywhere holds := by
  cases discarded with
  | true => exact hchild.setDiscarded true hmark
  | false => exact hchild

end SyntaxTree

namespace Clause

variable {K : Type}

/-- What the items of a clause are, where it is repeated or may be missing. -/
def form : Clause K → Shape
  | terminal .. => .token
  | nonTerminal .. => .value
  | group .. => .group
  | choice alternatives _ => if alternatives.all isTerminal then .token else .value
  | option .. | zeroOrMore .. | oneOrMore .. => .value

mutual

/-- Whether a tree has the form of what a clause matches. -/
def Fits : Clause K → SyntaxTree K → Prop
  | terminal .., tree => ∃ token discarded, tree = .leaf token discarded
  | nonTerminal .., tree => tree.IsCall
  | group members _, tree => ∃ label children, tree = .node label children ∧ label.isGroup = true ∧
      FitAll members children
  | choice alternatives _, tree =>
    if alternatives.all isTerminal then ∃ token discarded, tree = .leaf token discarded
    else tree.IsCall
  | option inner _, tree =>
    (∃ discarded, tree = .absent inner.form discarded) ∨
      ∃ child discarded, tree = .present inner.form child discarded ∧ Fits inner child
  | zeroOrMore inner _, tree =>
    ∃ items discarded, tree = .many inner.form items discarded ∧ ∀ item ∈ items, Fits inner item
  | oneOrMore inner _, tree =>
    ∃ items discarded, tree = .many inner.form items discarded ∧ items ≠ [] ∧
      ∀ item ∈ items, Fits inner item

/-- Whether trees have the forms of what clauses match, one each, and are
    discarded as they are. -/
def FitAll : List (Clause K) → List (SyntaxTree K) → Prop
  | [], trees => trees = []
  | clause :: clauses, trees =>
    ∃ tree others, trees = tree :: others ∧ tree.isDiscarded = clause.isDiscarded ∧
      Fits clause tree ∧ FitAll clauses others

end

/-- Trees fit clauses one by one. -/
theorem fitAll_cons {clause : Clause K} {clauses : List (Clause K)} {tree : SyntaxTree K}
    {trees : List (SyntaxTree K)} (hdiscarded : tree.isDiscarded = clause.isDiscarded)
    (hfits : clause.Fits tree) (hrest : FitAll clauses trees) :
    FitAll (clause :: clauses) (tree :: trees) :=
  ⟨tree, trees, rfl, hdiscarded, hfits, hrest⟩

/-- A mere name can be written. -/
theorem isWritten_of_isMereName {clause : Clause K} (hmere : clause.isMereName = true) :
    clause.IsWritten ∧ clause.isDiscarded = false := by
  cases clause with
  | terminal => exact ⟨trivial, by simpa [isMereName, isDiscarded] using hmere⟩
  | nonTerminal =>
    simp only [isMereName, Bool.and_eq_true, decide_eq_true_eq, Bool.not_eq_true'] at hmere
    exact ⟨hmere.1, hmere.2⟩
  | _ => cases hmere

/-- What an alternative of a choice matched has the form of what the choice matches. -/
theorem fits_choice {members : List (Clause K)} {member : Clause K} {child : SyntaxTree K}
    (hmember : member ∈ members) (hmere : member.isMereName = true) (hfits : member.Fits child)
    (hvalue : members.all isTerminal = false → member.isTerminal = false) (discarded mark : Bool) :
    (choice members mark).Fits (child.passedOn discarded) := by
  rw [Fits]
  cases member with
  | terminal =>
    obtain ⟨token, hidden, rfl⟩ := hfits
    cases hall : members.all isTerminal with
    | true => cases discarded <;> exact ⟨token, _, rfl⟩
    | false => cases hvalue hall
  | nonTerminal =>
    have hall : ¬ members.all isTerminal = true := fun hall => by
      cases List.all_eq_true.1 hall _ hmember
    rw [if_neg hall]
    exact SyntaxTree.IsCall.passedOn hfits discarded
  | _ => cases hmere

end Clause

namespace Grammar

variable {K R : Type} [DecidableEq K] [TokenKind K]

/-- A flat clause collects what the original one does. -/
theorem Stands.shape_eq {grammar : Grammar K R} {clause flat : Clause K}
    (hstands : grammar.Stands [clause] [flat]) (hwritten : clause.IsWritten) :
    flat.shape = clause.form := by
  cases hstands with
  | terminal => rfl
  | nonTerminal =>
    obtain rfl : _ = Role.rule := hwritten
    rfl
  | group => rfl
  | choice =>
    simp only [Flat.choiceRole, Clause.form]
    split <;> rfl
  | option | zeroOrMore | oneOrMore => rfl

/-- Whether no alternative of the choices between values in these clauses is a token. -/
def UnmixedIn (grammar : Grammar K R) (clauses : List (Clause K)) : Prop :=
  ∀ name ∈ Clause.valueChoicesIn clauses, ∀ rule, (name, rule) ∈ grammar.rules →
    ∀ kind discarded, rule.clauses ≠ [.terminal kind discarded]

/-- Clauses do not mix tokens and values if none of them does. -/
theorem unmixedIn_cons_iff {grammar : Grammar K R} {clause : Clause K} {clauses : List (Clause K)} :
    grammar.UnmixedIn (clause :: clauses) ↔ grammar.UnmixedIn [clause] ∧
    grammar.UnmixedIn clauses := by
  simp only [UnmixedIn, Clause.valueChoicesIn, List.append_nil]
  exact List.forall_mem_append

/-- Where no mixed choice is found the clauses have none. -/
theorem unmixedIn_of_mixedChoices_eq_nil {grammar : Grammar K R}
    (hmixed : grammar.mixedChoices = []) {owner : String} {rule : Rule K R}
    (hrule : (owner, rule) ∈ grammar.rules) : grammar.UnmixedIn rule.clauses := by
  intro name hname alternative halternative kind discarded hclauses
  obtain ⟨nonTerminal, hfind, hmem⟩ := mem_rules_iff.1 halternative
  obtain ⟨hnonTerminal, rfl⟩ := find?_eq_some_iff.1 hfind
  have hnone := List.filter_eq_nil_iff.1 (List.map_eq_nil_iff.1 hmixed) nonTerminal hnonTerminal
  refine hnone (Bool.and_eq_true_iff.2 ⟨?_,
    List.any_eq_true.2 ⟨alternative, hmem, by rw [hclauses]⟩⟩)
  exact List.contains_iff_mem.2 (List.mem_flatMap.2 ⟨(owner, rule), hrule, hname⟩)

theorem UnmixedIn.analyse {grammar : Grammar K R} {clauses : List (Clause K)}
    (hunmixed : grammar.UnmixedIn clauses) :
    grammar.analyse.UnmixedIn clauses := by
  intro name hname rule hrule
  obtain ⟨before, hbefore, rfl⟩ := mem_rules_analyse.1 hrule
  exact hunmixed name hname before hbefore

end Grammar

end GrammarKit
