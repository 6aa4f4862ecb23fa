import GrammarKit.SyntaxTree

namespace GrammarKit

variable {K : Type}

namespace Operator

/-- Whether an operand between the two operators belongs to the second one: to
    the one that binds tighter, and between two of the same precedence the
    associativity decides. -/
def LeavesTo (first second : Operator K) : Prop :=
  first.precedence < second.precedence ∨ first.precedence = second.precedence ∧
    first.associativity ≠ .left

instance (first second : Operator K) : Decidable (first.LeavesTo second) :=
  inferInstanceAs (Decidable (_ ∨ _))

variable {first second third : Operator K}

/-- An operand belongs to the second operator only if that binds as tight. -/
theorem LeavesTo.le (hleaves : first.LeavesTo second) : first.precedence ≤ second.precedence := by
  rcases hleaves with hlt | ⟨heq, -⟩ <;> omega

/-- An operand that belongs to an operator belongs to one that binds tighter. -/
theorem LeavesTo.of_le (hleaves : first.LeavesTo second)
    (hle : second.precedence ≤ third.precedence) :
    first.LeavesTo third := by
  rcases hleaves with hlt | ⟨heq, hassociativity⟩
  · exact Or.inl (by omega)
  · rcases Nat.lt_or_eq_of_le hle with hlt | hsame
    · exact Or.inl (by omega)
    · exact Or.inr ⟨by omega, hassociativity⟩

/-- An operand belongs to the first operator only if that binds as tight. -/
theorem le_of_not_leavesTo (hleaves : ¬ first.LeavesTo second) :
    second.precedence ≤ first.precedence :=
  Nat.le_of_not_lt fun hlt => hleaves (Or.inl hlt)

end Operator

/-- Operands and the operators between them as they are nested. Of an operand
    there are only the tokens. -/
inductive Grouping (K : Type) where
  | operand (tokens : List (Token K))
  | between (left : Grouping K) (operator : Operator K) (token : Token K) (right : Grouping K)

/-- An operator and the operand behind it. -/
structure Link (K : Type) where
  operator : Operator K
  token : Token K
  operand : List (Token K)

namespace Grouping

/-- The operator that was applied last. -/
def operator? : Grouping K → Option (Operator K)
  | operand _ => none
  | between _ operator _ _ => some operator

/-- All tokens from left to right. -/
def tokens : Grouping K → List (Token K)
  | operand tokens => tokens
  | between left _ token right => left.tokens ++ token :: right.tokens

/-- The first operand. -/
def first : Grouping K → List (Token K)
  | operand tokens => tokens
  | between left _ _ _ => left.first

/-- What follows the first operand. -/
def links : Grouping K → List (Link K)
  | operand _ => []
  | between left operator token right => left.links ++ ⟨operator, token, right.first⟩ :: right.links

/-- The tokens are those of the first operand and of what follows it. -/
theorem tokens_eq (grouping : Grouping K) :
    grouping.tokens = grouping.first ++ grouping.links.flatMap fun link =>
      link.token :: link.operand := by
  induction grouping with
  | operand tokens => simp [Grouping.tokens, first, links]
  | between left operator token right ihLeft ihRight =>
    simp [Grouping.tokens, first, links, ihLeft, ihRight]

/-- Puts one more operator behind everything. It takes its left operand from the
    operators that leave it to it. -/
def insert (link : Link K) : Grouping K → Grouping K
  | operand tokens => between (operand tokens) link.operator link.token (operand link.operand)
  | between left operator token right =>
    if operator.LeavesTo link.operator then between left operator token (right.insert link)
    else between (between left operator token right) link.operator link.token (operand link.operand)

/-- The nesting of operators and operands that are given in a row. It is found
    by putting in the operators from left to right. -/
def nest (first : List (Token K)) (links : List (Link K)) : Grouping K :=
  links.foldl (fun grouping link => grouping.insert link) (operand first)

/-- Whether every operand belongs to the right one of the operators beside it. -/
def IsNested : Grouping K → Prop
  | operand _ => True
  | between left operator _ right =>
    left.IsNested ∧ right.IsNested ∧ (∀ other, left.operator? = some other →
      ¬ other.LeavesTo operator) ∧
      ∀ other, right.operator? = some other → operator.LeavesTo other

/-- Operators below another one leave their operands to what the upper one would
    leave them to. -/
theorem IsNested.leavesTo_of_mem {grouping : Grouping K} (hnested : grouping.IsNested)
    {operator : Operator K}
    (hroot : ∀ other, grouping.operator? = some other → operator.LeavesTo other) :
    ∀ link ∈ grouping.links, operator.LeavesTo link.operator := by
  induction grouping with
  | operand tokens =>
    intro link hlink
    cases hlink
  | between left upper token right ihLeft ihRight =>
    obtain ⟨hleft, hright, hleftRoot, hrightRoot⟩ := hnested
    have hupper : operator.LeavesTo upper := hroot upper rfl
    intro link hlink
    rcases List.mem_append.1 hlink with hlink | hlink
    · refine ihLeft hleft (fun other hother => ?_) link hlink
      exact hupper.of_le (Operator.le_of_not_leavesTo (hleftRoot other hother))
    · rcases List.mem_cons.1 hlink with rfl | hlink
      · exact hupper
      · refine ihRight hright (fun other hother => ?_) link hlink
        exact hupper.of_le (hrightRoot other hother).le

/-- What is left to the second operand of an operator is put in there. -/
theorem foldl_insert_between {operator : Operator K} {links : List (Link K)}
    (hleaves : ∀ link ∈ links, operator.LeavesTo link.operator) (left : Grouping K)
    (token : Token K) (right : Grouping K) :
    links.foldl (fun grouping link => grouping.insert link) (between left operator token right) =
      between left operator token
        (links.foldl (fun grouping link => grouping.insert link) right) := by
  induction links generalizing right with
  | nil => rfl
  | cons link links ih =>
    obtain ⟨hlink, hlinks⟩ := List.forall_mem_cons.1 hleaves
    rw [List.foldl_cons, List.foldl_cons, insert, if_pos hlink]
    exact ih hlinks _

/-- An operator that no operator leaves its operand to takes all that is there. -/
theorem insert_eq_between {left : Grouping K} {link : Link K}
    (hroot : ∀ other, left.operator? = some other → ¬ other.LeavesTo link.operator) :
    left.insert link = between left link.operator link.token (operand link.operand) := by
  cases left with
  | operand tokens => rfl
  | between first operator token second => rw [insert, if_neg (hroot operator rfl)]

/-- Operators and operands that follow each other in the same order are nested
    in the same way. -/
theorem IsNested.nest_eq {grouping : Grouping K} (hnested : grouping.IsNested) :
    nest grouping.first grouping.links = grouping := by
  induction grouping with
  | operand tokens => rfl
  | between left operator token right ihLeft ihRight =>
    obtain ⟨hleft, hright, hleftRoot, hrightRoot⟩ := hnested
    have hlinks := hright.leavesTo_of_mem hrightRoot
    calc nest (between left operator token right).first (between left operator token right).links
        = right.links.foldl (fun grouping link => grouping.insert link)
            ((nest left.first left.links).insert ⟨operator, token, right.first⟩) := by
          rw [nest, links, List.foldl_append, List.foldl_cons]
          rfl
      _ = right.links.foldl (fun grouping link => grouping.insert link)
            (between left operator token (operand right.first)) := by
          rw [ihLeft hleft, insert_eq_between hleftRoot]
      _ = between left operator token (nest right.first right.links) :=
        foldl_insert_between hlinks _ _ _
      _ = between left operator token right := by rw [ihRight hright]

end Grouping

/-- The infix operators of a tree from its root down, and the operands where there are none. -/
def SyntaxTree.grouping : SyntaxTree K → Grouping K
  | node label [left, leaf token discarded, right] =>
    match label.operator.filter fun operator => operator.affix = .infixOp with
    | some operator => .between left.grouping operator token right.grouping
    | none => .operand (leavesIn [left, leaf token discarded, right])
  | tree => .operand tree.leaves

namespace SyntaxTree

/-- Nesting leaves the tokens of a tree in their order. -/
theorem tokens_grouping (tree : SyntaxTree K) : tree.grouping.tokens = tree.leaves := by
  fun_induction grouping tree with
  | case1 label left token discarded right operator hoperator ihLeft ihRight =>
    simp [Grouping.tokens, leaves, leavesIn, ihLeft, ihRight]
  | case2 label left token discarded right hnone => rfl
  | case3 tree hother => rfl

end SyntaxTree

end GrammarKit
