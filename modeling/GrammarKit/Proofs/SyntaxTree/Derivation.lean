import GrammarKit.SyntaxTree
import GrammarKit.Proofs.Grammar.Language

namespace GrammarKit

namespace SyntaxTree

variable {K : Type}

@[simp] theorem leaves_setDiscarded (discarded : Bool) (tree : SyntaxTree K) :
    (tree.setDiscarded discarded).leaves = tree.leaves := by
  cases tree <;> simp [setDiscarded, leaves]

/-- The tokens of trees in a row stand in a row. -/
theorem leavesIn_eq_flatten (trees : List (SyntaxTree K)) :
    leavesIn trees = (trees.map leaves).flatten := by
  induction trees with
  | nil => rfl
  | cons tree rest ih => simp [leavesIn, ih]

@[simp] theorem leavesIn_singleton (tree : SyntaxTree K) : leavesIn [tree] = tree.leaves := by
  simp [leavesIn]

end SyntaxTree

namespace Grammar

variable {K R : Type} [DecidableEq K] [TokenKind K]

/-- Trees for clauses, one each and in the same order. A node has a rule of its
    non-terminal and trees for the clauses of that rule, and it is marked as the
    rule is. Every tree is discarded as its clause is. -/
inductive Derives (grammar : Grammar K R) : List (Clause K) → List (SyntaxTree K) → Prop
  | nil : Derives grammar [] []
  | terminal {kind : K} {discarded : Bool} {token : Token K} {rest : List (Clause K)}
      {trees : List (SyntaxTree K)} : token.kind = some kind → Derives grammar rest trees →
        Derives grammar (.terminal kind discarded :: rest) (.leaf token discarded :: trees)
  | nonTerminal {name : String} {role : Role} {discarded : Bool} {index : Nat} {rule : Rule K R}
      {children : List (SyntaxTree K)} {rest : List (Clause K)} {trees : List (SyntaxTree K)} :
      grammar.rule? name index = some rule → Derives grammar rule.clauses children →
        Derives grammar rest trees →
        Derives grammar (.nonTerminal name role discarded :: rest)
          (.node
            { name
              rule := index
              isBypass := rule.isBypass
              isGroup := rule.isSubrule
              isExpression := rule.isExpression
              discarded } children :: trees)
  | absent {inner : Clause K} {discarded : Bool} {rest : List (Clause K)}
      {trees : List (SyntaxTree K)} : Derives grammar rest trees →
        Derives grammar (.option inner discarded :: rest) (.absent inner.shape discarded :: trees)
  | present {inner : Clause K} {discarded : Bool} {child : SyntaxTree K} {rest : List (Clause K)}
      {trees : List (SyntaxTree K)} :
      Derives grammar [inner] [child] → Derives grammar rest trees →
        Derives grammar (.option inner discarded :: rest)
          (.present inner.shape child discarded :: trees)
  | zeroOrMore {inner : Clause K} {discarded : Bool} {items : List (SyntaxTree K)}
      {rest : List (Clause K)} {trees : List (SyntaxTree K)} :
      (∀ item ∈ items, Derives grammar [inner] [item]) → Derives grammar rest trees →
        Derives grammar (.zeroOrMore inner discarded :: rest)
          (.many inner.shape items discarded :: trees)
  | oneOrMore {inner : Clause K} {discarded : Bool} {items : List (SyntaxTree K)}
      {rest : List (Clause K)} {trees : List (SyntaxTree K)} :
      items ≠ [] → (∀ item ∈ items, Derives grammar [inner] [item]) → Derives grammar rest trees →
        Derives grammar (.oneOrMore inner discarded :: rest)
          (.many inner.shape items discarded :: trees)

namespace Derives

variable {grammar : Grammar K R} {clauses : List (Clause K)} {trees : List (SyntaxTree K)}

/-- Trees for clauses in a row are trees for each. -/
theorem cons {clause : Clause K} {tree : SyntaxTree K} (hfirst : grammar.Derives [clause] [tree])
    (hrest : grammar.Derives clauses trees) :
    grammar.Derives (clause :: clauses) (tree :: trees) := by
  cases hfirst with
  | terminal hkind => exact .terminal hkind hrest
  | nonTerminal hrule hchildren => exact .nonTerminal hrule hchildren hrest
  | absent => exact .absent hrest
  | present hchild => exact .present hchild hrest
  | zeroOrMore hitems => exact .zeroOrMore hitems hrest
  | oneOrMore hne hitems => exact .oneOrMore hne hitems hrest

/-- The node of a non-terminal fits each of its uses once it is discarded as that use is. -/
theorem setDiscarded {name : String} {tree : SyntaxTree K}
    (hderives : grammar.Derives [.ofName name] [tree]) (role : Role) (discarded : Bool) :
    grammar.Derives [.nonTerminal name role discarded] [tree.setDiscarded discarded] := by
  cases hderives with
  | nonTerminal hrule hchildren => exact .nonTerminal hrule hchildren .nil

/-- Every token of a derivation has a kind. -/
theorem isSome_kind (hderives : grammar.Derives clauses trees) :
    ∀ token ∈ SyntaxTree.leavesIn trees, token.kind.isSome = true := by
  induction hderives with
  | nil => simp [SyntaxTree.leavesIn]
  | terminal hkind _ ih => simpa [SyntaxTree.leavesIn, SyntaxTree.leaves, hkind] using ih
  | nonTerminal _ _ _ ihChildren ihRest | present _ _ ihChildren ihRest =>
    intro token htoken
    simp only [SyntaxTree.leavesIn, SyntaxTree.leaves, List.mem_append, List.append_nil]
      at htoken ihChildren
    exact htoken.elim (ihChildren token) (ihRest token)
  | absent _ ih => simpa [SyntaxTree.leavesIn, SyntaxTree.leaves] using ih
  | zeroOrMore _ _ ihItems ihRest | oneOrMore _ _ _ ihItems ihRest =>
    intro token htoken
    rcases List.mem_append.1 htoken with htoken | htoken
    · rw [SyntaxTree.leaves, SyntaxTree.leavesIn_eq_flatten, List.mem_flatten] at htoken
      obtain ⟨_, hleaves, htoken⟩ := htoken
      obtain ⟨item, hitem, rfl⟩ := List.mem_map.1 hleaves
      exact ihItems item hitem token (by simpa using htoken)
    · exact ihRest token htoken

/-- The kinds of the leaves are a word that the clauses yield. -/
theorem yields (hderives : grammar.Derives clauses trees) :
    grammar.Yields clauses ((SyntaxTree.leavesIn trees).filterMap Token.kind) := by
  have hmany (items : List (SyntaxTree K)) :
      (SyntaxTree.leavesIn items).filterMap Token.kind =
        (items.map fun item => item.leaves.filterMap Token.kind).flatten := by
    simp [SyntaxTree.leavesIn_eq_flatten, List.filterMap_flatten, Function.comp_def]
  induction hderives with
  | nil => exact .nil
  | terminal hkind _ ih =>
    simpa [SyntaxTree.leavesIn, SyntaxTree.leaves, hkind] using Yields.terminal ih
  | nonTerminal hrule _ _ ihChildren ihRest =>
    simpa only [SyntaxTree.leavesIn, SyntaxTree.leaves, List.filterMap_append] using
      Yields.nonTerminal (mem_rules_of_rule? hrule) ihChildren ihRest
  | absent _ ih =>
    simpa only [SyntaxTree.leavesIn, SyntaxTree.leaves, List.nil_append] using Yields.absent ih
  | present _ _ ihChild ihRest =>
    rw [SyntaxTree.leavesIn_singleton] at ihChild
    simpa only [SyntaxTree.leavesIn, SyntaxTree.leaves, List.filterMap_append]
      using Yields.present ihChild ihRest
  | zeroOrMore _ _ ihItems ihRest =>
    rw [SyntaxTree.leavesIn, SyntaxTree.leaves, List.filterMap_append, hmany]
    refine .zeroOrMore (fun word hword => ?_) ihRest
    obtain ⟨item, hitem, rfl⟩ := List.mem_map.1 hword
    simpa using ihItems item hitem
  | oneOrMore hne _ _ ihItems ihRest =>
    rw [SyntaxTree.leavesIn, SyntaxTree.leaves, List.filterMap_append, hmany]
    refine .oneOrMore (by simpa using hne) (fun word hword => ?_) ihRest
    obtain ⟨item, hitem, rfl⟩ := List.mem_map.1 hword
    simpa using ihItems item hitem

end Derives

end Grammar

end GrammarKit
