import GrammarKit.Proofs.Grammar.Lookup
import Mathlib.Data.List.Perm.Subperm

namespace GrammarKit

namespace Clause

variable {K : Type}

mutual

/-- The more non-terminals can match nothing, the more clauses can. -/
theorem isNullable_mono {some more : String → Bool}
    (hmore : ∀ name, some name = true → more name = true) :
    ∀ clause : Clause K, isNullable some clause = true → isNullable more clause = true
  | terminal .. => by simp [isNullable]
  | nonTerminal name .. => by simpa only [isNullable] using hmore name
  | group clauses _ => by simpa only [isNullable] using allNullable_mono hmore clauses
  | choice alternatives _ => by simpa only [isNullable] using anyNullable_mono hmore alternatives
  | option .. => by simp [isNullable]
  | zeroOrMore .. => by simp [isNullable]
  | oneOrMore inner _ => by simpa only [isNullable] using isNullable_mono hmore inner

theorem allNullable_mono {some more : String → Bool}
    (hmore : ∀ name, some name = true → more name = true) :
    ∀ clauses : List (Clause K), allNullable some clauses = true → allNullable more clauses = true
  | [] => by simp [allNullable]
  | clause :: rest => by
    simp only [allNullable, Bool.and_eq_true]
    exact And.imp (isNullable_mono hmore clause) (allNullable_mono hmore rest)

theorem anyNullable_mono {some more : String → Bool}
    (hmore : ∀ name, some name = true → more name = true) :
    ∀ clauses : List (Clause K), anyNullable some clauses = true → anyNullable more clauses = true
  | [] => by simp [anyNullable]
  | clause :: rest => by
    simp only [anyNullable, Bool.or_eq_true]
    exact Or.imp (isNullable_mono hmore clause) (anyNullable_mono hmore rest)

end

theorem anyNullable_of_mem {nullable : String → Bool} {clauses : List (Clause K)}
    {clause : Clause K} (hmem : clause ∈ clauses) (hnullable : isNullable nullable clause = true) :
    anyNullable nullable clauses = true := by
  induction hmem with
  | head => simp [anyNullable, hnullable]
  | tail _ _ ih => simp [anyNullable, ih]

variable [DecidableEq K] [TokenKind K]

mutual

/-- The more kinds non-terminals can begin with, the more clauses can. -/
theorem first_mono {nullable : String → Bool} {some more : String → KindSet K}
    (hmore : ∀ name, ∀ kind ∈ some name, kind ∈ more name) :
    ∀ clause : Clause K, ∀ kind ∈ first nullable some clause, kind ∈ first nullable more clause
  | terminal .. => by simp [first]
  | nonTerminal name .. => by simpa only [first] using hmore name
  | group clauses _ => by simpa only [first] using firstOfAll_mono hmore clauses
  | choice alternatives _ => by simpa only [first] using firstOfAny_mono hmore alternatives
  | option inner _ => by simpa only [first] using first_mono hmore inner
  | zeroOrMore inner _ => by simpa only [first] using first_mono hmore inner
  | oneOrMore inner _ => by simpa only [first] using first_mono hmore inner

theorem firstOfAll_mono {nullable : String → Bool} {some more : String → KindSet K}
    (hmore : ∀ name, ∀ kind ∈ some name, kind ∈ more name) :
    ∀ clauses : List (Clause K), ∀ kind ∈ firstOfAll nullable some clauses,
      kind ∈ firstOfAll nullable more clauses
  | [] => by simp [firstOfAll]
  | clause :: rest => by
    intro kind hkind
    simp only [firstOfAll] at hkind ⊢
    split at hkind
    · next hnullable =>
      rw [if_pos hnullable, KindSet.mem_union]
      exact (KindSet.mem_union.1 hkind).imp (first_mono hmore clause kind)
        (firstOfAll_mono hmore rest kind)
    · next hnullable =>
      rw [if_neg hnullable]
      exact first_mono hmore clause kind hkind

theorem firstOfAny_mono {nullable : String → Bool} {some more : String → KindSet K}
    (hmore : ∀ name, ∀ kind ∈ some name, kind ∈ more name) :
    ∀ clauses : List (Clause K), ∀ kind ∈ firstOfAny nullable some clauses,
      kind ∈ firstOfAny nullable more clauses
  | [] => by simp [firstOfAny]
  | clause :: rest => by
    intro kind hkind
    simp only [firstOfAny, KindSet.mem_union] at hkind ⊢
    exact hkind.imp (first_mono hmore clause kind) (firstOfAny_mono hmore rest kind)

end

end Clause

variable {K R : Type} [DecidableEq K] [TokenKind K]

namespace NonTerminal

/-- A non-terminal can begin with what one of its rules can begin with. -/
theorem mem_first {nullable : String → Bool} {leading : String → KindSet K}
    {nonTerminal : NonTerminal K R} {kind : K} :
    kind ∈ nonTerminal.first nullable leading ↔
      ∃ rule ∈ nonTerminal.rules, kind ∈ rule.first nullable leading := by
  have hfold (rules : List (Rule K R)) (found : KindSet K) :
      kind ∈ rules.foldl (fun found rule => found ∪ rule.first nullable leading) found ↔
        kind ∈ found ∨ ∃ rule ∈ rules, kind ∈ rule.first nullable leading := by
    induction rules generalizing found with
    | nil => simp
    | cons rule rest ih => simp [ih, or_assoc]
  simp [first, hfold]

end NonTerminal

namespace KindSet

/-- Members are kept in alphabet order, so a subset is a part of the list. -/
theorem sublist_of_subset {a b : KindSet K} (hsubset : ∀ kind ∈ a, kind ∈ b) :
    a.toList.Sublist b.toList := by
  rw [a.toList_ordered, b.toList_ordered]
  refine List.monotone_filter_right _ fun kind hkind => ?_
  exact decide_eq_true (hsubset kind (of_decide_eq_true hkind))

theorem length_le (a : KindSet K) : a.toList.length ≤ (TokenKind.all (K := K)).length := by
  rw [a.toList_ordered]
  exact List.length_filter_le ..

end KindSet

namespace LeadingTable

/-- The second table has the same names, each with the kinds of the first table or more. -/
def Extends (before after : LeadingTable K) : Prop :=
  List.Forall₂ (fun a b => a.1 = b.1 ∧ ∀ kind ∈ a.2, kind ∈ b.2) before after

/-- The number of kinds in all sets of a table. -/
def weight : LeadingTable K → Nat
  | [] => 0
  | entry :: rest => entry.2.toList.length + weight rest

/-- A name keeps all kinds that it had. -/
theorem Extends.get_subset {before after : LeadingTable K} (hextends : Extends before after)
    (name : String) :
    ∀ kind ∈ before.get name, kind ∈ after.get name := by
  induction hextends with
  | nil => simp [get]
  | @cons a b before after hhead _ ih =>
    obtain ⟨owner, some⟩ := a
    obtain ⟨_, more⟩ := b
    obtain ⟨rfl, hsubset⟩ := hhead
    simp only [get, List.lookup_cons] at ih ⊢
    split
    · simpa using hsubset
    · exact ih

/-- A table that extends another one and differs from it has more kinds. -/
theorem Extends.weight_lt {before after : LeadingTable K} (hextends : Extends before after)
    (hne : after ≠ before) :
    before.weight < after.weight := by
  induction hextends with
  | nil => exact absurd rfl hne
  | @cons a b before after hhead _ ih =>
    obtain ⟨hname, hsubset⟩ := hhead
    have hsublist := KindSet.sublist_of_subset hsubset
    have hle := hsublist.length_le
    simp only [weight] at ih ⊢
    by_cases hrest : after = before
    · subst hrest
      have hlt : a.2.toList.length < b.2.toList.length := by
        refine Nat.lt_of_le_of_ne hle fun heq => hne ?_
        have hset := KindSet.eq_of_toList_eq (hsublist.eq_of_length heq)
        rw [Prod.ext hname hset]
      omega
    · have hlt := ih hrest
      omega

/-- No set has more kinds than the alphabet. -/
theorem weight_le (table : LeadingTable K) :
    table.weight ≤ table.length * (TokenKind.all (K := K)).length := by
  induction table with
  | nil => simp [weight]
  | cons entry rest ih =>
    have hentry := entry.2.length_le
    simp only [weight, List.length_cons, Nat.add_mul, Nat.one_mul] at ih ⊢
    omega

theorem Extends.refl (table : LeadingTable K) : table.Extends table :=
  List.forall₂_same.2 fun _ _ => ⟨rfl, fun _ hkind => hkind⟩

theorem map_fst_set (table : LeadingTable K) (name : String) (kinds : KindSet K) :
    (table.set name kinds).map Prod.fst = table.map Prod.fst := by
  induction table with
  | nil => rfl
  | cons entry rest ih =>
    rw [set]
    split
    · next hname => simp [hname]
    · simp [ih]

/-- Replacing the set of a name leaves the other names alone. -/
theorem get_set {table : LeadingTable K} {name : String} (hname : name ∈ table.map Prod.fst)
    (kinds : KindSet K) (other : String) :
    (table.set name kinds).get other = if other = name then kinds else table.get other := by
  induction table with
  | nil => simp at hname
  | cons entry rest ih =>
    obtain ⟨owner, noted⟩ := entry
    simp only [set, get] at ih ⊢
    by_cases howner : owner = name
    · subst howner
      by_cases hother : other = owner
      · simp [hother]
      · have hbeq : (other == owner) = false := beq_false_of_ne hother
        simp [List.lookup_cons, hother, hbeq]
    · have hrest : name ∈ rest.map Prod.fst := by simpa [Ne.symm howner] using hname
      by_cases hother : other = owner
      · subst hother
        simp [howner]
      · have hbeq : (other == owner) = false := beq_false_of_ne hother
        simpa [List.lookup_cons, howner, hbeq] using ih hrest

/-- Only names of the table have sets that can be replaced. -/
theorem set_eq_self {table : LeadingTable K} {name : String} (hname : name ∉ table.map Prod.fst)
    (kinds : KindSet K) :
    table.set name kinds = table := by
  induction table with
  | nil => rfl
  | cons entry rest ih =>
    obtain ⟨hentry, hrest⟩ : name ≠ entry.1 ∧ name ∉ rest.map Prod.fst := by simpa using hname
    rw [set, if_neg (Ne.symm hentry), ih hrest]

theorem mem_get_set {table : LeadingTable K} {name other : String} {kinds : KindSet K} {kind : K}
    (hkind : kind ∈ (table.set name kinds).get other) :
    (other = name ∧ kind ∈ kinds) ∨ kind ∈ table.get other := by
  by_cases hname : name ∈ table.map Prod.fst
  · rw [get_set hname] at hkind
    by_cases hother : other = name
    · rw [if_pos hother] at hkind
      exact Or.inl ⟨hother, hkind⟩
    · rw [if_neg hother] at hkind
      exact Or.inr hkind
  · rw [set_eq_self hname] at hkind
    exact Or.inr hkind

/-- A set may be replaced by one with the same kinds or more. -/
theorem extends_set {table : LeadingTable K} {name : String} {kinds : KindSet K}
    (hsubset : ∀ kind ∈ table.get name, kind ∈ kinds) : table.Extends (table.set name kinds) := by
  induction table with
  | nil => exact .nil
  | cons entry rest ih =>
    obtain ⟨owner, noted⟩ := entry
    rw [set]
    by_cases howner : owner = name
    · subst howner
      rw [if_pos rfl]
      exact .cons ⟨rfl, by simpa [get] using hsubset⟩ (Extends.refl rest)
    · rw [if_neg howner]
      have hbeq : (name == owner) = false := beq_false_of_ne (Ne.symm howner)
      exact .cons ⟨rfl, fun _ hkind => hkind⟩
        (ih (by simpa [get, List.lookup_cons, hbeq] using hsubset))

theorem get_eq_empty {table : LeadingTable K} {name : String} (hname : name ∉ table.map Prod.fst) :
    table.get name = ∅ := by
  induction table with
  | nil => rfl
  | cons entry rest ih =>
    obtain ⟨hentry, hrest⟩ : name ≠ entry.1 ∧ name ∉ rest.map Prod.fst := by simpa using hname
    have hbeq : (name == entry.1) = false := beq_false_of_ne hentry
    have hcons : get (entry :: rest) name = get rest name := by
      rw [get, get, show entry :: rest = (entry.1, entry.2) :: rest from rfl,
        List.lookup_cons, hbeq]
    rw [hcons, ih hrest]

end LeadingTable

namespace NonTerminal

/-- A non-terminal can match nothing when one of its rules can. -/
theorem isNullable_iff {nullable : String → Bool} {nonTerminal : NonTerminal K R} :
    nonTerminal.isNullable nullable = true ↔
      ∃ rule ∈ nonTerminal.rules, rule.isNullable nullable = true := by
  rw [isNullable, List.any_eq_true]

end NonTerminal

namespace Grammar

variable {grammar : Grammar K R}

theorem mem_rules_of_mem {nonTerminal : NonTerminal K R} (hmem : nonTerminal ∈ grammar.nonTerminals)
    {rule : Rule K R} (hrule : rule ∈ nonTerminal.rules) :
    (nonTerminal.name, rule) ∈ grammar.rules :=
  mem_rules_iff.2 ⟨nonTerminal, find?_eq_some_iff.2 ⟨hmem, rfl⟩, hrule⟩

section Nullable

/-- What holds of the names noted so far: no name is noted twice, and each has a
    rule whose clauses can match nothing when those of noted names can. -/
structure IsJustified (grammar : Grammar K R) (known : List String) : Prop where
  nodup : known.Nodup
  exists_rule : ∀ name ∈ known, ∃ rule, (name, rule) ∈ grammar.rules ∧
    rule.isNullable known.contains = true

theorem IsJustified.nil (grammar : Grammar K R) : grammar.IsJustified [] where
  nodup := List.nodup_nil
  exists_rule := by simp

/-- No more names are noted than there are non-terminals. -/
theorem IsJustified.length_le {known : List String} (hjustified : grammar.IsJustified known) :
    known.length ≤ grammar.nonTerminals.length := by
  have hsubset : known ⊆ grammar.names := by
    intro name hname
    obtain ⟨rule, hrule, -⟩ := hjustified.exists_rule name hname
    exact mem_names_of_mem_rules hrule
  have hle := (hjustified.nodup.subperm hsubset).length_le
  rwa [names, List.length_map] at hle

/-- What noting a non-terminal does: nothing, unless its name is new and one of
    its rules can match nothing. -/
theorem noteNullable_cases (known : List String) (nonTerminal : NonTerminal K R) :
    (nonTerminal.noteNullable known = known ∧
        (nonTerminal.isNullable known.contains = true → nonTerminal.name ∈ known)) ∨
      (nonTerminal.noteNullable known = nonTerminal.name :: known ∧ nonTerminal.name ∉ known ∧
        nonTerminal.isNullable known.contains = true) := by
  rw [NonTerminal.noteNullable]
  by_cases hknown : nonTerminal.name ∈ known
  · exact Or.inl ⟨if_pos (List.contains_iff_mem.2 hknown), fun _ => hknown⟩
  · rw [if_neg (mt List.contains_iff_mem.1 hknown)]
    by_cases hnullable : nonTerminal.isNullable known.contains = true
    · exact Or.inr ⟨if_pos hnullable, hknown, hnullable⟩
    · exact Or.inl ⟨if_neg hnullable, fun h => absurd h hnullable⟩

/-- A name is noted with a rule that can match nothing, and the rules of earlier
    names still can. -/
theorem IsJustified.note {known : List String} (hjustified : grammar.IsJustified known)
    {nonTerminal : NonTerminal K R} (hmem : nonTerminal ∈ grammar.nonTerminals) :
    grammar.IsJustified (nonTerminal.noteNullable known) := by
  rcases noteNullable_cases known nonTerminal with ⟨heq, -⟩ | ⟨heq, hnew, hnullable⟩
  · rwa [heq]
  · have hmore (rule : Rule K R) (hrule : rule.isNullable known.contains = true) :
        rule.isNullable (nonTerminal.name :: known).contains = true := by
      refine Clause.allNullable_mono (fun name hname => ?_) _ hrule
      exact List.contains_iff_mem.2 (List.mem_cons_of_mem _ (List.contains_iff_mem.1 hname))
    rw [heq]
    refine ⟨List.nodup_cons.2 ⟨hnew, hjustified.nodup⟩, fun name hname => ?_⟩
    rcases List.mem_cons.1 hname with rfl | hname
    · obtain ⟨rule, hrule, hclauses⟩ := NonTerminal.isNullable_iff.1 hnullable
      exact ⟨rule, mem_rules_of_mem hmem hrule, hmore rule hclauses⟩
    · obtain ⟨rule, hrule, hclauses⟩ := hjustified.exists_rule name hname
      exact ⟨rule, hrule, hmore rule hclauses⟩

/-- A pass keeps what was noted justified. -/
theorem IsJustified.pass {known : List String} (hjustified : grammar.IsJustified known) :
    grammar.IsJustified (grammar.nullablePass known) :=
  foldl_keeps grammar.IsJustified (fun _ hjustified _ hmem => hjustified.note hmem) hjustified

/-- A pass adds a name, unless there is none left to add. -/
theorem nullablePass_cases {known : List String} (hjustified : grammar.IsJustified known) :
    (grammar.nullablePass known = known ∧
        ∀ nonTerminal ∈ grammar.nonTerminals, nonTerminal.noteNullable known = known) ∨
      known.length < (grammar.nullablePass known).length := by
  refine foldl_eq_or_measure_lt (fun _ hjustified _ hmem => hjustified.note hmem) ?_ hjustified
  intro known _ nonTerminal _ hne
  rcases noteNullable_cases known nonTerminal with ⟨heq, -⟩ | ⟨heq, -⟩
  · exact absurd heq hne
  · rw [heq, List.length_cons]
    exact Nat.lt_succ_self _

/-- Looking for non-terminals that can match nothing comes to an end. -/
theorem settles_nullable (grammar : Grammar K R) :
    Settles grammar.nullablePass [] grammar.nullable := by
  refine settles_settle grammar.IsJustified List.length grammar.nonTerminals.length
    (fun _ => IsJustified.pass) ?_ (fun _ => IsJustified.length_le) (.nil grammar)
    (Nat.le_add_left ..)
  intro known hjustified hne
  rcases nullablePass_cases hjustified with ⟨heq, -⟩ | hlt
  · exact absurd heq hne
  · exact hlt

/-- The names that are found have rules that can match nothing when those of found names can. -/
theorem isJustified_nullable (grammar : Grammar K R) : grammar.IsJustified grammar.nullable :=
  grammar.settles_nullable.keeps grammar.IsJustified (fun _ => IsJustified.pass) (.nil grammar)

/-- A non-terminal counts as nullable exactly when all clauses of one of its rules do. -/
theorem contains_nullable_iff {name : String} :
    grammar.nullable.contains name = true ↔
      ∃ rule, (name, rule) ∈ grammar.rules ∧ rule.isNullable grammar.nullable.contains = true := by
  rw [List.contains_iff_mem]
  constructor
  · exact grammar.isJustified_nullable.exists_rule name
  · rintro ⟨rule, hrule, hclauses⟩
    obtain ⟨nonTerminal, hfind, hmem⟩ := mem_rules_iff.1 hrule
    obtain ⟨hnonTerminal, rfl⟩ := find?_eq_some_iff.1 hfind
    have hnullable := NonTerminal.isNullable_iff.2 ⟨rule, hmem, hclauses⟩
    rcases nullablePass_cases grammar.isJustified_nullable with ⟨-, hfixed⟩ | hlt
    · rcases noteNullable_cases grammar.nullable nonTerminal with ⟨-, hknown⟩ | ⟨heq, -⟩
      · exact hknown hnullable
      · exact absurd (heq.symm.trans (hfixed nonTerminal hnonTerminal)) (List.cons_ne_self _ _)
    · rw [grammar.settles_nullable.fixed] at hlt
      exact absurd hlt (Nat.lt_irrefl _)

end Nullable

section Leading

/-- What holds of the sets noted so far: there is one for each non-terminal, and
    working it out from the others once more would drop none of its kinds. -/
structure IsSupported (grammar : Grammar K R) (nullable : String → Bool) (table : LeadingTable K) :
    Prop where
  names : table.map Prod.fst = grammar.names
  mem_first : ∀ nonTerminal ∈ grammar.nonTerminals, ∀ kind ∈ table.get nonTerminal.name,
    kind ∈ nonTerminal.first nullable table.get

variable {nullable : String → Bool} {table : LeadingTable K}

theorem get_blankTable (grammar : Grammar K R) (name : String) :
    grammar.blankTable.get name = ∅ := by
  simp only [blankTable]
  induction grammar.nonTerminals with
  | nil => rfl
  | cons first rest ih =>
    simp only [LeadingTable.get, List.map_cons, List.lookup_cons] at ih ⊢
    split
    · rfl
    · exact ih

theorem isSupported_blankTable (grammar : Grammar K R) (nullable : String → Bool) :
    grammar.IsSupported nullable grammar.blankTable where
  names := by simp [blankTable, Grammar.names, Function.comp_def]
  mem_first := by simp [get_blankTable]

theorem IsSupported.mem_names (hsupported : grammar.IsSupported nullable table)
    {nonTerminal : NonTerminal K R} (hmem : nonTerminal ∈ grammar.nonTerminals) :
    nonTerminal.name ∈ table.map Prod.fst :=
  hsupported.names ▸ List.mem_map_of_mem hmem

/-- What is worked out for a non-terminal has the kinds that its set had before. -/
theorem IsSupported.extends_note (hsupported : grammar.IsSupported nullable table)
    {nonTerminal : NonTerminal K R} (hmem : nonTerminal ∈ grammar.nonTerminals) :
    table.Extends (nonTerminal.noteLeading nullable table) :=
  LeadingTable.extends_set (hsupported.mem_first nonTerminal hmem)

theorem NonTerminal.first_mono {some more : String → KindSet K}
    (hmore : ∀ name, ∀ kind ∈ some name, kind ∈ more name) (nonTerminal : NonTerminal K R) :
    ∀ kind ∈ nonTerminal.first nullable some, kind ∈ nonTerminal.first nullable more := by
  intro kind hkind
  obtain ⟨rule, hrule, hfirst⟩ := NonTerminal.mem_first.1 hkind
  exact NonTerminal.mem_first.2 ⟨rule, hrule, Clause.firstOfAll_mono hmore _ kind hfirst⟩

/-- The set of a non-terminal is overwritten, but with one that has at least the same kinds. -/
theorem IsSupported.note (hsupported : grammar.IsSupported nullable table)
    {nonTerminal : NonTerminal K R} (hmem : nonTerminal ∈ grammar.nonTerminals) :
    grammar.IsSupported nullable (nonTerminal.noteLeading nullable table) where
  names := (LeadingTable.map_fst_set ..).trans hsupported.names
  mem_first := by
    have hmore := (hsupported.extends_note hmem).get_subset
    intro other hother kind hkind
    rw [NonTerminal.noteLeading, LeadingTable.get_set (hsupported.mem_names hmem)] at hkind
    by_cases hname : other.name = nonTerminal.name
    · obtain rfl : other = nonTerminal := List.inj_on_of_nodup_map grammar.nodup_names
        hother hmem hname
      rw [if_pos rfl] at hkind
      exact NonTerminal.first_mono hmore other kind hkind
    · rw [if_neg hname] at hkind
      exact NonTerminal.first_mono hmore other kind (hsupported.mem_first other hother kind hkind)

/-- A pass keeps the sets supported. -/
theorem IsSupported.pass (hsupported : grammar.IsSupported nullable table) :
    grammar.IsSupported nullable (grammar.leadingPass nullable table) :=
  foldl_keeps (grammar.IsSupported nullable) (fun _ hsupported _ hmem => hsupported.note hmem)
    hsupported

theorem IsSupported.weight_le (hsupported : grammar.IsSupported nullable table) :
    table.weight ≤ grammar.nonTerminals.length * (TokenKind.all (K := K)).length := by
  have hlength : table.length = grammar.nonTerminals.length := by
    simpa [Grammar.names] using congrArg List.length hsupported.names
  exact hlength ▸ table.weight_le

/-- A pass adds a kind to some set, unless there is none left to add. -/
theorem leadingPass_cases (hsupported : grammar.IsSupported nullable table) :
    (grammar.leadingPass nullable table = table ∧
        ∀ nonTerminal ∈ grammar.nonTerminals, nonTerminal.noteLeading nullable table = table) ∨
      table.weight < (grammar.leadingPass nullable table).weight :=
  foldl_eq_or_measure_lt (fun _ hsupported _ hmem => hsupported.note hmem)
    (fun _ hsupported _ hmem hne => (hsupported.extends_note hmem).weight_lt hne) hsupported

/-- Working out what non-terminals can begin with comes to an end. -/
theorem settles_leadingTable (grammar : Grammar K R) :
    Settles (grammar.leadingPass grammar.nullable.contains) grammar.blankTable
      grammar.leadingTable := by
  refine settles_settle (grammar.IsSupported _) LeadingTable.weight
    (grammar.nonTerminals.length * (TokenKind.all (K := K)).length) (fun _ => IsSupported.pass) ?_
    (fun _ => IsSupported.weight_le) (grammar.isSupported_blankTable _) (Nat.le_add_left ..)
  intro table hsupported hne
  rcases leadingPass_cases hsupported with ⟨heq, -⟩ | hlt
  · exact absurd heq hne
  · exact hlt

/-- Working the final sets out once more would drop none of their kinds. -/
theorem isSupported_leadingTable (grammar : Grammar K R) :
    grammar.IsSupported grammar.nullable.contains grammar.leadingTable :=
  grammar.settles_leadingTable.keeps (grammar.IsSupported _) (fun _ => IsSupported.pass)
    (grammar.isSupported_blankTable _)

/-- What is noted for a non-terminal in the end is what its rules give. -/
theorem get_leadingTable {nonTerminal : NonTerminal K R}
    (hmem : nonTerminal ∈ grammar.nonTerminals) :
    grammar.leadingTable.get nonTerminal.name = nonTerminal.first grammar.nullable.contains
      grammar.leadingTable.get := by
  have hsupported := grammar.isSupported_leadingTable
  rcases leadingPass_cases hsupported with ⟨-, hfixed⟩ | hlt
  · have hget := LeadingTable.get_set (hsupported.mem_names hmem)
      (nonTerminal.first grammar.nullable.contains grammar.leadingTable.get) nonTerminal.name
    rw [← NonTerminal.noteLeading, hfixed nonTerminal hmem, if_pos rfl] at hget
    exact hget
  · rw [grammar.settles_leadingTable.fixed] at hlt
    exact absurd hlt (Nat.lt_irrefl _)

/-- A non-terminal can begin with a kind exactly when one of its rules can. -/
theorem mem_leadingTable_iff {name : String} {kind : K} :
    kind ∈ grammar.leadingTable.get name ↔ ∃ rule, (name, rule) ∈ grammar.rules ∧
      kind ∈ rule.first grammar.nullable.contains grammar.leadingTable.get := by
  cases hfind : grammar.find? name with
  | none =>
    have hname : name ∉ grammar.leadingTable.map Prod.fst := by
      rw [grammar.isSupported_leadingTable.names]
      exact find?_eq_none_iff.1 hfind
    simp [LeadingTable.get_eq_empty hname, mem_rules_iff, hfind]
  | some nonTerminal =>
    obtain ⟨hmem, rfl⟩ := find?_eq_some_iff.1 hfind
    rw [get_leadingTable hmem, NonTerminal.mem_first]
    simp [mem_rules_iff, hfind]

end Leading

end Grammar

end GrammarKit
