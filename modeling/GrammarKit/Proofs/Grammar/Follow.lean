import GrammarKit.Proofs.Grammar.Language

namespace GrammarKit.Grammar

variable {K R : Type} [DecidableEq K] [TokenKind K]

/-- The clauses that can still be ahead, the next one first, when the start is
    rewritten from left to right. -/
inductive Expects (grammar : Grammar K R) (start : String) : List (Clause K) → Prop
  | start : Expects grammar start [.ofName start]
  | drop {clause : Clause K} {rest : List (Clause K)} :
      Expects grammar start (clause :: rest) → Expects grammar start rest
  | nonTerminal {name : String} {role : Role} {discarded : Bool} {rule : Rule K R}
      {rest : List (Clause K)} : Expects grammar start (.nonTerminal name role discarded :: rest) →
        (name, rule) ∈ grammar.rules →
        Expects grammar start (rule.clauses ++ rest)
  | group {members rest : List (Clause K)} {discarded : Bool} :
      Expects grammar start (.group members discarded :: rest) →
        Expects grammar start (members ++ rest)
  | choice {members rest : List (Clause K)} {member : Clause K} {discarded : Bool} :
      Expects grammar start (.choice members discarded :: rest) → member ∈ members →
        Expects grammar start (member :: rest)
  | option {inner : Clause K} {discarded : Bool} {rest : List (Clause K)} :
      Expects grammar start (.option inner discarded :: rest) →
        Expects grammar start (inner :: rest)
  | zeroOrMore {inner : Clause K} {discarded : Bool} {rest : List (Clause K)} :
      Expects grammar start (.zeroOrMore inner discarded :: rest) →
        Expects grammar start (inner :: .zeroOrMore inner discarded :: rest)
  | oneOrMore {inner : Clause K} {discarded : Bool} {rest : List (Clause K)} :
      Expects grammar start (.oneOrMore inner discarded :: rest) →
        Expects grammar start (inner :: .zeroOrMore inner discarded :: rest)

/-- The kinds that can stand right behind a match of the clause. -/
def Follows (grammar : Grammar K R) (start : String) (clause : Clause K) (kind : K) : Prop :=
  ∃ rest, grammar.Expects start (clause :: rest) ∧ grammar.Begins rest kind

/-- The next token tells which rule applies, whether something optional is
    there, and whether a repetition goes on. What is nullable, optional or
    repeated begins with other kinds than what can follow it. -/
structure IsLL1 (grammar : Grammar K R) (start : String) : Prop where
  leading_disjoint : ∀ nonTerminal ∈ grammar.nonTerminals,
    nonTerminal.rules.Pairwise fun a b => ∀ kind ∈ a.leading, ¬ kind ∈ b.leading
  nullable_unique : ∀ nonTerminal ∈ grammar.nonTerminals,
    nonTerminal.rules.Pairwise fun a b => ¬ (a.mayBeEmpty = true ∧ b.mayBeEmpty = true)
  nonTerminal : ∀ name role discarded, grammar.Yields [.nonTerminal name role discarded] [] →
    ∀ kind, grammar.Begins [.nonTerminal name role discarded] kind →
      ¬ grammar.Follows start (.nonTerminal name role discarded) kind
  option : ∀ inner discarded kind, grammar.Begins [inner] kind →
    ¬ grammar.Follows start (.option inner discarded) kind
  zeroOrMore : ∀ inner discarded kind, grammar.Begins [inner] kind →
    ¬ grammar.Follows start (.zeroOrMore inner discarded) kind
  oneOrMore : ∀ inner discarded kind, grammar.Begins [inner] kind →
    ¬ grammar.Follows start (.oneOrMore inner discarded) kind

/-- At most one rule of a non-terminal can begin with a kind. -/
theorem IsLL1.index_eq {grammar : Grammar K R} {start name : String} (hll1 : grammar.IsLL1 start)
    {nonTerminal : NonTerminal K R} (hfind : grammar.find? name = some nonTerminal) {i j : Nat}
    {a b : Rule K R} (ha : nonTerminal.rules[i]? = some a) (hb : nonTerminal.rules[j]? = some b)
    {kind : K} (hkindA : kind ∈ a.leading) (hkindB : kind ∈ b.leading) : i = j := by
  have hdisjoint := List.pairwise_iff_getElem.1
    (hll1.leading_disjoint nonTerminal (List.mem_of_find?_eq_some hfind))
  obtain ⟨hi, rfl⟩ := List.getElem?_eq_some_iff.1 ha
  obtain ⟨hj, rfl⟩ := List.getElem?_eq_some_iff.1 hb
  rcases Nat.lt_trichotomy i j with hlt | heq | hlt
  · exact absurd hkindB (hdisjoint i j hi hj hlt kind hkindA)
  · exact heq
  · exact absurd hkindA (hdisjoint j i hj hi hlt kind hkindB)

end GrammarKit.Grammar
