import GrammarKit.Proofs.Grammar.Follow

namespace GrammarKit

variable {K R : Type} [DecidableEq K] [TokenKind K]

namespace KindSet

/-- Whether two sets have no kind in common. -/
def IsDisjoint (a b : KindSet K) : Prop := ∀ kind ∈ a.toList, ¬ kind ∈ b

/-- Whether all kinds of one set are in another. -/
def IsWithin (a b : KindSet K) : Prop := ∀ kind ∈ a.toList, kind ∈ b

instance (a b : KindSet K) :
    Decidable (a.IsDisjoint b) := inferInstanceAs (Decidable (∀ kind ∈ a.toList, ¬ kind ∈ b))

instance (a b : KindSet K) :
    Decidable (a.IsWithin b) := inferInstanceAs (Decidable (∀ kind ∈ a.toList, kind ∈ b))

end KindSet

namespace Grammar

variable (grammar : Grammar K R) (follow : String → KindSet K)

/-- The kinds that a match of a clause can begin with. -/
def firstOf (clause : Clause K) :
    KindSet K := clause.first grammar.nullable.contains grammar.leadingTable.get

/-- The kinds that can stand behind something, where clauses come next and other
    kinds behind those. -/
def ahead (clauses : List (Clause K)) (behind : KindSet K) : KindSet K :=
  if Clause.allNullable grammar.nullable.contains clauses then
    Clause.firstOfAll grammar.nullable.contains grammar.leadingTable.get clauses ∪ behind
  else Clause.firstOfAll grammar.nullable.contains grammar.leadingTable.get clauses

/-- Whether the options and the repetitions of a flat clause begin with other
    kinds than what can stand behind them, and the table has the kinds that can
    stand behind its non-terminals. -/
def IsSeparated : Clause K → KindSet K → Prop
  | .terminal .., _ => True
  | .nonTerminal name _ _, behind => behind.IsWithin (follow name)
  | .option inner _, behind => (grammar.firstOf inner).IsDisjoint behind ∧ IsSeparated inner behind
  | .zeroOrMore inner _, behind | .oneOrMore inner _, behind =>
    (grammar.firstOf inner).IsDisjoint behind ∧ IsSeparated inner (grammar.firstOf inner ∪ behind)
  | .group .., _ | .choice .., _ => False

instance instDecidableIsSeparated : ∀ (clause : Clause K) (behind : KindSet K),
    Decidable (grammar.IsSeparated follow clause behind)
  | .terminal .., _ => isTrue trivial
  | .nonTerminal name _ _, behind => inferInstanceAs (Decidable (behind.IsWithin (follow name)))
  | .option inner _, behind => @instDecidableAnd _ _ _ (instDecidableIsSeparated inner behind)
  | .zeroOrMore inner _, behind | .oneOrMore inner _, behind =>
    @instDecidableAnd _ _ _ (instDecidableIsSeparated inner (grammar.firstOf inner ∪ behind))
  | .group .., _ | .choice .., _ => isFalse id

/-- Whether each clause in a row is separated from what can stand behind it. -/
def AreSeparated : List (Clause K) → KindSet K → Prop
  | [], _ => True
  | clause :: rest, behind => grammar.IsSeparated follow clause (grammar.ahead rest behind) ∧
      AreSeparated rest behind

instance instDecidableAreSeparated : ∀ (clauses : List (Clause K)) (behind : KindSet K),
    Decidable (grammar.AreSeparated follow clauses behind)
  | [], _ => isTrue trivial
  | _ :: rest, behind => @instDecidableAnd _ _ _ (instDecidableAreSeparated rest behind)

/-- Whether a table of the kinds that can stand behind each non-terminal shows,
    rule by rule, that the next token always decides. -/
structure IsFollowed : Prop where
  separated : ∀ entry ∈ grammar.rules, grammar.AreSeparated follow entry.2.clauses (follow entry.1)
  nullable : ∀ name ∈ grammar.nullable, (grammar.leadingTable.get name).IsDisjoint (follow name)
  leading_disjoint : ∀ nonTerminal ∈ grammar.nonTerminals,
    nonTerminal.rules.Pairwise fun a b => ∀ kind ∈ a.leading.toList, ¬ kind ∈ b.leading
  nullable_unique : ∀ nonTerminal ∈ grammar.nonTerminals,
    nonTerminal.rules.Pairwise fun a b => ¬ (a.mayBeEmpty = true ∧ b.mayBeEmpty = true)

/-- Whether each of some clauses ahead is separated from what can stand behind it. -/
def AreAhead : List (Clause K) → Prop
  | [] => True
  | clause :: rest =>
    (∃ behind : KindSet K, (∀ kind, grammar.Begins rest kind → kind ∈ behind) ∧
      grammar.IsSeparated follow clause behind) ∧
      AreAhead rest

variable {grammar follow} {clauses rest : List (Clause K)} {kind : K}

/-- What a clause begins with is among the kinds that are found for it. -/
theorem Begins.mem_firstOf {clause : Clause K} (hbegins : grammar.Begins [clause] kind) :
    kind ∈ grammar.firstOf clause :=
  mem_firstOfAll_singleton.1 hbegins.mem_firstOfAll

/-- Clauses in front of others begin with what they begin with themselves, or match nothing. -/
theorem Begins.append_cases (hbegins : grammar.Begins (clauses ++ rest) kind) :
    grammar.Begins clauses kind ∨ grammar.Yields clauses [] ∧ grammar.Begins rest kind := by
  induction clauses with
  | nil => exact Or.inr ⟨.nil, hbegins⟩
  | cons clause clauses ih =>
    cases hbegins with
    | terminal => exact Or.inl .terminal
    | nonTerminal hrule hinner => exact Or.inl (.nonTerminal hrule hinner)
    | group hinner => exact Or.inl (.group hinner)
    | choice hmember hinner => exact Or.inl (.choice hmember hinner)
    | option hinner => exact Or.inl (.option hinner)
    | zeroOrMore hinner => exact Or.inl (.zeroOrMore hinner)
    | oneOrMore hinner => exact Or.inl (.oneOrMore hinner)
    | skip hclause hlater => exact (ih hlater).imp (.skip hclause) (And.imp_left hclause.append)

/-- What can stand behind something is among the kinds that are found for the clauses there. -/
theorem Begins.mem_ahead {behind : KindSet K} (hbegins : grammar.Begins (clauses ++ rest) kind)
    (hbehind : ∀ kind, grammar.Begins rest kind → kind ∈ behind) :
    kind ∈ grammar.ahead clauses behind := by
  unfold ahead
  rcases hbegins.append_cases with hfirst | ⟨hempty, hrest⟩
  · split
    · exact KindSet.mem_union.2 (Or.inl hfirst.mem_firstOfAll)
    · exact hfirst.mem_firstOfAll
  · rw [if_pos hempty.allNullable]
    exact KindSet.mem_union.2 (Or.inr (hbehind kind hrest))

/-- Clauses that are separated may come in front of others that are. -/
theorem AreSeparated.areAhead_append {behind : KindSet K}
    (hclauses : grammar.AreSeparated follow clauses behind)
    (hbehind : ∀ kind, grammar.Begins rest kind → kind ∈ behind)
    (hrest : grammar.AreAhead follow rest) :
    grammar.AreAhead follow (clauses ++ rest) := by
  induction clauses with
  | nil => exact hrest
  | cons clause clauses ih =>
    exact ⟨⟨_, fun _ hbegins => hbegins.mem_ahead hbehind, hclauses.1⟩, ih hclauses.2⟩

/-- One more item of a repetition may stand behind an item. -/
theorem mem_firstOf_union {inner : Clause K} {discarded : Bool} {behind : KindSet K}
    (hbehind : ∀ kind, grammar.Begins rest kind → kind ∈ behind) (kind : K)
    (hbegins : grammar.Begins (.zeroOrMore inner discarded :: rest) kind) :
    kind ∈ grammar.firstOf inner ∪ behind := by
  cases hbegins with
  | zeroOrMore hinner => exact KindSet.mem_union.2 (Or.inl hinner.mem_firstOf)
  | skip _ hrest => exact KindSet.mem_union.2 (Or.inr (hbehind kind hrest))

variable {start : String}

/-- What is ahead is separated all the way. -/
theorem IsFollowed.areAhead (hfollowed : grammar.IsFollowed follow)
    (hexpects : grammar.Expects start clauses) :
    grammar.AreAhead follow clauses := by
  induction hexpects with
  | start =>
    exact ⟨⟨∅, nofun, fun kind hkind => absurd hkind (KindSet.not_mem_empty kind)⟩, trivial⟩
  | drop _ ih => exact ih.2
  | nonTerminal _ hrule ih =>
    obtain ⟨⟨behind, hbehind, hwithin⟩, hrest⟩ := ih
    exact (hfollowed.separated _ hrule).areAhead_append
      (fun kind hbegins => hwithin kind (hbehind kind hbegins)) hrest
  | group _ ih | choice _ _ ih =>
    obtain ⟨⟨_, _, hnone⟩, _⟩ := ih
    exact hnone.elim
  | option _ ih =>
    obtain ⟨⟨behind, hbehind, _, hinner⟩, hrest⟩ := ih
    exact ⟨⟨behind, hbehind, hinner⟩, hrest⟩
  | zeroOrMore _ ih | oneOrMore _ ih =>
    obtain ⟨⟨behind, hbehind, hinner⟩, hrest⟩ := ih
    exact ⟨⟨_, mem_firstOf_union hbehind, hinner.2⟩, ⟨behind, hbehind, hinner⟩, hrest⟩

/-- What an option or a repetition begins with does not stand behind it. -/
theorem IsFollowed.not_follows (hfollowed : grammar.IsFollowed follow) {clause inner : Clause K}
    (hdisjoint : ∀ behind, grammar.IsSeparated follow clause behind →
      (grammar.firstOf inner).IsDisjoint behind)
    (hbegins : grammar.Begins [inner] kind) : ¬ grammar.Follows start clause kind := by
  rintro ⟨rest, hexpects, hrest⟩
  obtain ⟨⟨behind, hbehind, hclause⟩, -⟩ := hfollowed.areAhead hexpects
  exact hdisjoint behind hclause kind hbegins.mem_firstOf (hbehind kind hrest)

/-- Such a table makes the next token decide. -/
theorem IsFollowed.isLL1 (hfollowed : grammar.IsFollowed follow) : grammar.IsLL1 start where
  leading_disjoint := hfollowed.leading_disjoint
  nullable_unique := hfollowed.nullable_unique
  nonTerminal name role discarded hempty kind hbegins := by
    rintro ⟨rest, hexpects, hrest⟩
    obtain ⟨⟨behind, hbehind, hwithin⟩, -⟩ := hfollowed.areAhead hexpects
    have hname : name ∈ grammar.nullable := by
      simpa [Clause.allNullable, Clause.isNullable] using hempty.allNullable
    have hleading : kind ∈ grammar.leadingTable.get name := hbegins.mem_firstOf
    exact hfollowed.nullable name hname kind hleading (hwithin kind (hbehind kind hrest))
  option _ _ _ hbegins := hfollowed.not_follows (fun _ hclause => hclause.1) hbegins
  zeroOrMore _ _ _ hbegins := hfollowed.not_follows (fun _ hclause => hclause.1) hbegins
  oneOrMore _ _ _ hbegins := hfollowed.not_follows (fun _ hclause => hclause.1) hbegins

end Grammar

end GrammarKit
