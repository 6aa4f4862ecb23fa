import GrammarKit.Proofs.Grammar.Generated

namespace GrammarKit

variable {K R : Type}

namespace Clause

/-- The non-terminals that occur in a clause inside a group or a choice, at any depth. -/
def enclosed : Clause K → List String
  | terminal .. | nonTerminal .. => []
  | group clauses _ => referencesIn clauses
  | choice alternatives _ => referencesIn alternatives
  | option inner _ | zeroOrMore inner _ | oneOrMore inner _ => enclosed inner

/-- The non-terminals that occur in clauses inside a group or a choice. -/
def enclosedIn (clauses : List (Clause K)) : List String := clauses.flatMap enclosed

theorem referencesIn_singleton (clause : Clause K) : referencesIn [clause] = clause.references :=
  List.append_nil _

end Clause

variable [DecidableEq K] [TokenKind K]

/-- Whether one of these rules refers to a name and belongs to another. -/
def Mentions (entries : List (String × Rule K R)) (name : String) : Prop :=
  ∃ entry ∈ entries, entry.1 ≠ name ∧ name ∈ Clause.referencesIn entry.2.clauses

/-- Rules of two lists refer to what those of one of them refer to. -/
theorem mentions_append {entries others : List (String × Rule K R)} {name : String} :
    Mentions (entries ++ others) name ↔ Mentions entries name ∨ Mentions others name := by
  simp only [Mentions, List.mem_append, or_and_right, exists_or]

namespace Flat

section

variable {parent name : String} {next : Nat} {members : List (Clause K)} {discarded : Bool}

/-- The parts of a group refer to its members, and to what the parts of these refer to. -/
theorem mentions_group :
    Mentions (Flat.clause (R := R) parent next (.group members discarded)).rules name ↔
    Mentions (Flat.clauses (R := R) parent (next + 1) members).rules name ∨
      groupName parent next ≠ name ∧
      name ∈ Clause.referencesIn (Flat.clauses (R := R) parent (next + 1) members).value := by
  rw [Flat.clause, mentions_append]
  simp [Mentions]

/-- The parts of a choice refer to its alternatives, and to what the parts of these refer to. -/
theorem mentions_choice :
    Mentions (Flat.clause (R := R) parent next (.choice members discarded)).rules name ↔
    Mentions (Flat.clauses (R := R) parent (next + 1) members).rules name ∨
      choiceName parent next ≠ name ∧
      name ∈ Clause.referencesIn (Flat.clauses (R := R) parent (next + 1) members).value := by
  constructor
  · rintro ⟨entry, hentry, hne, hname⟩
    rcases mem_rules_alternatives.1 hentry with hentry | ⟨flat, hflat, rfl⟩
    · exact Or.inl ⟨entry, hentry, hne, hname⟩
    · rw [Clause.referencesIn_singleton] at hname
      exact Or.inr ⟨hne, Clause.mem_referencesIn.2 ⟨flat, hflat, hname⟩⟩
  · rintro (⟨entry, hentry, hmentions⟩ | ⟨hne, hname⟩)
    · exact ⟨entry, mem_rules_alternatives.2 (Or.inl hentry), hmentions⟩
    · obtain ⟨flat, hflat, hname⟩ := Clause.mem_referencesIn.1 hname
      refine ⟨_, mem_rules_alternatives.2 (Or.inr ⟨flat, hflat, rfl⟩), hne, ?_⟩
      rwa [Clause.referencesIn_singleton]

end

mutual

/-- What a clause refers to, and what is made up for it, is referred to by the
    clause that is made of it or by a part. -/
theorem clause_mentions (parent name : String) : ∀ (clause : Clause K) (next : Nat),
    name ∈ (Flat.clause (R := R) parent next clause).value.references ∨
        Mentions (Flat.clause (R := R) parent next clause).rules name ↔
      name ∈ clause.references ∨ name ∈ clauseNames R parent next clause
  | .terminal .., _ => by simp [Flat.clause, Clause.references, clauseNames, Mentions]
  | .nonTerminal .., _ => by simp [Flat.clause, Clause.references, clauseNames, Mentions]
  | .group members _, next => by
    -- What the members refer to, the rule of the group does, unless it has that name. Then
    -- the flat clause refers to it.
    have hmembers := clauses_mentions parent name members (next + 1)
    rw [mentions_group]
    simp only [Flat.clause, Clause.references, clauseNames, List.mem_cons,
      List.not_mem_nil, or_false]
    grind
  | .choice members _, next => by
    have hmembers := clauses_mentions parent name members (next + 1)
    rw [mentions_choice]
    simp only [Flat.clause, Clause.references, clauseNames, List.mem_cons,
      List.not_mem_nil, or_false]
    grind
  | .option inner _, next => clause_mentions parent name inner next
  | .zeroOrMore inner _, next => clause_mentions parent name inner next
  | .oneOrMore inner _, next => clause_mentions parent name inner next

theorem clauses_mentions (parent name : String) : ∀ (clauses : List (Clause K)) (next : Nat),
    name ∈ Clause.referencesIn (Flat.clauses (R := R) parent next clauses).value ∨
        Mentions (Flat.clauses (R := R) parent next clauses).rules name ↔
      name ∈ Clause.referencesIn clauses ∨ name ∈ names R parent next clauses
  | [], _ => by simp [Flat.clauses, Clause.referencesIn, names, Mentions]
  | first :: rest, next => by
    have hfirst := clause_mentions parent name first next
    have hrest := clauses_mentions parent name rest (Flat.clause (R := R) parent next first).next
    simp only [Flat.clauses, Clause.referencesIn, names, List.mem_append, mentions_append]
    grind

end

/-- The parts of a clause refer to what stands inside its groups and choices. -/
theorem clause_mentions_iff (parent : String) {name : String} : ∀ (clause : Clause K) (next : Nat),
    name ∉ clauseNames R parent next clause →
      (Mentions (Flat.clause (R := R) parent next clause).rules name ↔ name ∈ clause.enclosed)
  | .terminal .., _, _ => by simp [Flat.clause, Clause.enclosed, Mentions]
  | .nonTerminal .., _, _ => by simp [Flat.clause, Clause.enclosed, Mentions]
  | .group members _, next, hname => by
    obtain ⟨hne, hnames⟩ := not_or.1 (mt List.mem_cons.2 hname)
    have hmembers := clauses_mentions (R := R) parent name members (next + 1)
    rw [mentions_group, and_iff_right (Ne.symm hne), or_comm, hmembers, or_iff_left hnames]
    rfl
  | .choice members _, next, hname => by
    obtain ⟨hne, hnames⟩ := not_or.1 (mt List.mem_cons.2 hname)
    have hmembers := clauses_mentions (R := R) parent name members (next + 1)
    rw [mentions_choice, and_iff_right (Ne.symm hne), or_comm, hmembers, or_iff_left hnames]
    rfl
  | .option inner _, next, hname => clause_mentions_iff parent inner next hname
  | .zeroOrMore inner _, next, hname => clause_mentions_iff parent inner next hname
  | .oneOrMore inner _, next, hname => clause_mentions_iff parent inner next hname

/-- The parts of clauses refer to what stands inside their groups and choices. -/
theorem clauses_mentions_iff {parent name : String} {clauses : List (Clause K)} {next : Nat}
    (hname : name ∉ names R parent next clauses) :
    Mentions (Flat.clauses (R := R) parent next clauses).rules name ↔
    name ∈ Clause.enclosedIn clauses := by
  induction clauses generalizing next with
  | nil => simp [Flat.clauses, Clause.enclosedIn, Mentions]
  | cons first rest ih =>
    obtain ⟨hfirst, hrest⟩ := not_or.1 (mt List.mem_append.2 hname)
    simp only [Flat.clauses, mentions_append, clause_mentions_iff parent first next hfirst,
      ih hrest, Clause.enclosedIn, List.flatMap_cons, List.mem_append]

/-- Clauses in a row are made flat one after the other. -/
theorem value_append (parent : String) (next : Nat) (clauses others : List (Clause K)) :
    (Flat.clauses (R := R) parent next (clauses ++ others)).value =
      (Flat.clauses (R := R) parent next clauses).value ++
        (Flat.clauses (R := R) parent (Flat.clauses (R := R) parent next clauses).next
          others).value := by
  induction clauses generalizing next with
  | nil => rfl
  | cons first rest ih => simp [Flat.clauses, ih]

/-- The clauses of the flat rules of a non-terminal are made like those of one row. -/
theorem value_rules (parent : String) (next : Nat) (rules : List (Rule K R)) :
    (Flat.rules parent next rules).value.flatMap Rule.clauses =
      (Flat.clauses (R := R) parent next (rules.flatMap Rule.clauses)).value := by
  induction rules generalizing next with
  | nil => rfl
  | cons first rest ih => rw [List.flatMap_cons, value_append, ← ih]; rfl

end Flat

namespace Grammar

variable {grammar : Grammar K R} {name : String}

/-- A rule that refers to a name stands among the clauses of a non-terminal. -/
theorem mentions_rules_iff :
    Mentions grammar.rules name ↔ ∃ parent, parent ≠ name ∧
    name ∈ Clause.referencesIn (grammar.clausesOf parent) := by
  simp only [Mentions, Prod.exists, mem_rules_iff_mem_rulesOf, clausesOf,
    Clause.mem_referencesIn_flatMap]
  grind

/-- The rules of a flat grammar are those that are left under a name and those of its parts. -/
theorem mentions_flatten_iff : Mentions grammar.flatten.rules name ↔
    ∃ parent,
      parent ≠ name ∧ name ∈ Clause.referencesIn
        (Flat.clauses (R := R) parent 0 (grammar.clausesOf parent)).value ∨
      Mentions (Flat.clauses (R := R) parent 0 (grammar.clausesOf parent)).rules name := by
  simp only [clausesOf, ← Flat.value_rules, ← Flat.rules_rules, Clause.mem_referencesIn_flatMap]
  constructor
  · rintro ⟨⟨parent, rule⟩, hrule, hne, hname⟩
    rcases mem_rules_flatten.1 hrule with hvalue | hpart
    · exact ⟨parent, Or.inl ⟨hne, rule, hvalue, hname⟩⟩
    · obtain ⟨owner, hpart⟩ := mem_partRules.1 hpart
      exact ⟨owner, Or.inr ⟨_, hpart, hne, hname⟩⟩
  · rintro ⟨parent, ⟨hne, rule, hvalue, hname⟩ | ⟨entry, hpart, hmentions⟩⟩
    · exact ⟨(parent, rule), mem_rules_flatten.2 (Or.inl hvalue), hne, hname⟩
    · exact ⟨entry, mem_rules_flatten.2 (Or.inr (mem_partRules.2 ⟨parent, hpart⟩)), hmentions⟩

/-- A name that was made up is referred to where its group or choice stood. -/
theorem mentions_flatten_of_mem_madeNames (hname : name ∈ grammar.madeNames) :
    Mentions grammar.flatten.rules name := by
  obtain ⟨parent, hname⟩ := mem_madeNames_iff.1 hname
  obtain ⟨number, -, -, hpart⟩ := Flat.exists_number_of_mem_names _ 0 name hname
  have hne : parent ≠ name := fun heq => Nat.lt_irrefl _ (heq ▸ hpart.length_lt)
  have hmentions := (Flat.clauses_mentions (R := R) parent name (grammar.clausesOf parent) 0).2
    (Or.inr hname)
  exact mentions_flatten_iff.2 ⟨parent, hmentions.imp_left fun hvalue => ⟨hne, hvalue⟩⟩

/-- Any other name is referred to in a flat grammar if another non-terminal
    referred to it before, or if it referred to itself inside a group or a
    choice: what stood there stands in the rules of a name that was made up, so
    it counts as a reference from another non-terminal. -/
theorem mentions_flatten_of_not_mem_madeNames (hname : name ∉ grammar.madeNames) :
    Mentions grammar.flatten.rules name ↔
      Mentions grammar.rules name ∨ name ∈ Clause.enclosedIn (grammar.clausesOf name) := by
  have hnew (parent : String) : name ∉ Flat.names R parent 0 (grammar.clausesOf parent) :=
    fun hmem => hname (mem_madeNames_iff.2 ⟨parent, hmem⟩)
  have hall (parent : String) :=
    (Flat.clauses_mentions (R := R) parent name (grammar.clausesOf parent) 0).trans
    (or_iff_left (hnew parent))
  rw [mentions_flatten_iff, mentions_rules_iff]
  constructor
  · rintro ⟨parent, hmentions⟩
    by_cases hne : parent = name
    -- A reference to itself that is left under the name does not count, so this one is in a part.
    · subst hne
      have hparts := hmentions.resolve_left fun hvalue => hvalue.1 rfl
      exact Or.inr ((Flat.clauses_mentions_iff (hnew parent)).1 hparts)
    · exact Or.inl ⟨parent, hne, (hall parent).1 (hmentions.imp_left And.right)⟩
  · rintro (⟨parent, hne, hreferences⟩ | henclosed)
    · exact ⟨parent, ((hall parent).2 hreferences).imp_left fun hvalue => ⟨hne, hvalue⟩⟩
    · exact ⟨name, Or.inr ((Flat.clauses_mentions_iff (hnew name)).2 henclosed)⟩

/-- The names that count as used are those that rules of other names refer to. -/
theorem mem_referenced_iff : name ∈ grammar.referenced ↔ Mentions grammar.rules name := by
  simp only [referenced, Mentions, List.mem_flatMap, List.mem_filter, decide_eq_true_eq,
    ne_comm, and_comm]

/-- A name is unused when no rule of another name refers to it, unless it is the start. -/
theorem mem_unused_iff : name ∈ grammar.unused ↔
    name ∈ grammar.names ∧ name ≠ grammar.start ∧ ¬Mentions grammar.rules name := by
  simp [unused, mem_referenced_iff]

/-- What is unused in a flat grammar. -/
theorem mem_unused_flatten_iff : name ∈ grammar.flatten.unused ↔
    name ∈ grammar.names ∧ name ≠ grammar.start ∧ name ∉ grammar.madeNames ∧
      ¬Mentions grammar.rules name ∧
      name ∉ Clause.enclosedIn (grammar.clausesOf name) := by
  have hstart : grammar.flatten.start = grammar.start := start_addAll _ _
  have hnames : name ∈ grammar.flatten.names ↔ name ∈ grammar.names ∨ name ∈ grammar.partNames := by
    rw [flatten, mem_names_addAll, names_map]
    rfl
  rw [mem_unused_iff, hstart, hnames]
  by_cases hmade : name ∈ grammar.madeNames
  · simp [hmade, mentions_flatten_of_mem_madeNames hmade]
  · have hpart : name ∉ grammar.partNames := by
      intro hpart
      obtain ⟨entry, hentry, rfl⟩ := List.mem_map.1 hpart
      exact hmade (mem_madeNames_of_mem_partRules hentry)
    rw [mentions_flatten_of_not_mem_madeNames hmade, not_or, or_iff_left hpart, and_iff_right hmade]

end Grammar

end GrammarKit
