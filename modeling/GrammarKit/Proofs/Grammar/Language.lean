import GrammarKit.Proofs.Grammar.Analysis
import GrammarKit.Proofs.Grammar.Prepared

namespace GrammarKit.Grammar

variable {K R : Type} [DecidableEq K] [TokenKind K]

/-- The words that clauses stand for, one after the other. A group stands for
    what its members stand for, a choice for what one of its members stands
    for. -/
inductive Yields (grammar : Grammar K R) : List (Clause K) → List K → Prop
  | nil : Yields grammar [] []
  | terminal {kind : K} {discarded : Bool} {rest : List (Clause K)} {word : List K} :
      Yields grammar rest word → Yields grammar (.terminal kind discarded :: rest) (kind :: word)
  | nonTerminal {name : String} {role : Role} {discarded : Bool} {rule : Rule K R}
      {rest : List (Clause K)} {first word : List K} :
      (name, rule) ∈ grammar.rules → Yields grammar rule.clauses first → Yields grammar rest word →
        Yields grammar (.nonTerminal name role discarded :: rest) (first ++ word)
  | group {members rest : List (Clause K)} {discarded : Bool} {first word : List K} :
      Yields grammar members first → Yields grammar rest word →
        Yields grammar (.group members discarded :: rest) (first ++ word)
  | choice {members rest : List (Clause K)} {member : Clause K} {discarded : Bool}
      {first word : List K} : member ∈ members → Yields grammar [member] first →
        Yields grammar rest word →
        Yields grammar (.choice members discarded :: rest) (first ++ word)
  | absent {inner : Clause K} {discarded : Bool} {rest : List (Clause K)} {word : List K} :
      Yields grammar rest word → Yields grammar (.option inner discarded :: rest) word
  | present {inner : Clause K} {discarded : Bool} {rest : List (Clause K)} {first word : List K} :
      Yields grammar [inner] first → Yields grammar rest word →
        Yields grammar (.option inner discarded :: rest) (first ++ word)
  | zeroOrMore {inner : Clause K} {discarded : Bool} {rest : List (Clause K)}
      {items : List (List K)} {word : List K} : (∀ item ∈ items, Yields grammar [inner] item) →
        Yields grammar rest word →
        Yields grammar (.zeroOrMore inner discarded :: rest) (items.flatten ++ word)
  | oneOrMore {inner : Clause K} {discarded : Bool} {rest : List (Clause K)} {items : List (List K)}
      {word : List K} : items ≠ [] → (∀ item ∈ items, Yields grammar [inner] item) →
        Yields grammar rest word →
        Yields grammar (.oneOrMore inner discarded :: rest) (items.flatten ++ word)

/-- The kinds that stand first in what clauses are rewritten to, where clauses
    that yield nothing may be left out. -/
inductive Begins (grammar : Grammar K R) : List (Clause K) → K → Prop
  | terminal {kind : K} {discarded : Bool} {rest : List (Clause K)} :
      Begins grammar (.terminal kind discarded :: rest) kind
  | nonTerminal {name : String} {role : Role} {discarded : Bool} {rule : Rule K R}
      {rest : List (Clause K)} {kind : K} : (name, rule) ∈ grammar.rules →
        Begins grammar rule.clauses kind →
        Begins grammar (.nonTerminal name role discarded :: rest) kind
  | group {members rest : List (Clause K)} {discarded : Bool} {kind : K} :
      Begins grammar members kind → Begins grammar (.group members discarded :: rest) kind
  | choice {members rest : List (Clause K)} {member : Clause K} {discarded : Bool} {kind : K} :
      member ∈ members → Begins grammar [member] kind →
        Begins grammar (.choice members discarded :: rest) kind
  | option {inner : Clause K} {discarded : Bool} {rest : List (Clause K)} {kind : K} :
      Begins grammar [inner] kind → Begins grammar (.option inner discarded :: rest) kind
  | zeroOrMore {inner : Clause K} {discarded : Bool} {rest : List (Clause K)} {kind : K} :
      Begins grammar [inner] kind → Begins grammar (.zeroOrMore inner discarded :: rest) kind
  | oneOrMore {inner : Clause K} {discarded : Bool} {rest : List (Clause K)} {kind : K} :
      Begins grammar [inner] kind → Begins grammar (.oneOrMore inner discarded :: rest) kind
  | skip {clause : Clause K} {rest : List (Clause K)} {kind : K} :
      Yields grammar [clause] [] → Begins grammar rest kind → Begins grammar (clause :: rest) kind

variable {grammar : Grammar K R} {clauses : List (Clause K)} {kind : K} {word : List K}

/-- Words of clauses are put behind each other like the clauses. -/
theorem Yields.append {rest : List (Clause K)} {later : List K}
    (hyields : grammar.Yields clauses word) (hrest : grammar.Yields rest later) :
    grammar.Yields (clauses ++ rest) (word ++ later) := by
  induction hyields with
  | nil => exact hrest
  | terminal _ ih => exact .terminal ih
  | nonTerminal hrule hfirst _ _ ih => simpa using .nonTerminal hrule hfirst ih
  | group hfirst _ _ ih => simpa using .group hfirst ih
  | choice hmember hfirst _ _ ih => simpa using .choice hmember hfirst ih
  | absent _ ih => exact .absent ih
  | present hfirst _ _ ih => simpa using .present hfirst ih
  | zeroOrMore hitems _ _ ih => simpa using .zeroOrMore hitems ih
  | oneOrMore hne hitems _ _ ih => simpa using .oneOrMore hne hitems ih

/-- A word of clauses is one of the first clause and one of the rest. -/
theorem Yields.uncons {clause : Clause K} {clauses : List (Clause K)}
    (hyields : grammar.Yields (clause :: clauses) word) :
    ∃ first rest, word = first ++ rest ∧ grammar.Yields [clause] first ∧
      grammar.Yields clauses rest := by
  cases hyields with
  | @terminal kind _ _ later hrest => exact ⟨[kind], later, rfl, .terminal .nil, hrest⟩
  | absent hrest => exact ⟨[], word, rfl, .absent .nil, hrest⟩
  | nonTerminal hrule hfirst hrest =>
    exact ⟨_, _, rfl, by simpa using Yields.nonTerminal hrule hfirst .nil, hrest⟩
  | group hfirst hrest => exact ⟨_, _, rfl, by simpa using Yields.group hfirst .nil, hrest⟩
  | choice hmember hfirst hrest =>
    exact ⟨_, _, rfl, by simpa using Yields.choice hmember hfirst .nil, hrest⟩
  | present hfirst hrest => exact ⟨_, _, rfl, by simpa using Yields.present hfirst .nil, hrest⟩
  | zeroOrMore hitems hrest =>
    exact ⟨_, _, rfl, by simpa using Yields.zeroOrMore hitems .nil, hrest⟩
  | oneOrMore hne hitems hrest =>
    exact ⟨_, _, rfl, by simpa using Yields.oneOrMore hne hitems .nil, hrest⟩

/-- A token stands for itself. -/
theorem yields_terminal_iff {discarded : Bool} :
    grammar.Yields [.terminal kind discarded] word ↔ word = [kind] := by
  constructor
  · intro hyields
    cases hyields with
    | terminal hnil =>
      cases hnil
      rfl
  · rintro rfl
    exact .terminal .nil

/-- A non-terminal stands for what one of its rules stands for. -/
theorem yields_nonTerminal_iff {name : String} {role : Role} {discarded : Bool} :
    grammar.Yields [.nonTerminal name role discarded] word ↔
      ∃ rule, (name, rule) ∈ grammar.rules ∧ grammar.Yields rule.clauses word := by
  constructor
  · intro hyields
    cases hyields with
    | nonTerminal hrule hfirst hnil =>
      cases hnil
      exact ⟨_, hrule, by simpa using hfirst⟩
  · rintro ⟨rule, hrule, hfirst⟩
    simpa using Yields.nonTerminal hrule hfirst .nil

/-- Clauses that yield nothing are found to be nullable. -/
theorem Yields.allNullable (hyields : grammar.Yields clauses []) :
    Clause.allNullable grammar.nullable.contains clauses = true := by
  generalize hword : ([] : List K) = word at hyields
  induction hyields with
  | nil => rfl
  | terminal => cases hword
  | nonTerminal hrule _ _ ihRule ihRest =>
    obtain ⟨hfirst, hrest⟩ := List.append_eq_nil_iff.1 hword.symm
    have hname := contains_nullable_iff.2 ⟨_, hrule, ihRule hfirst.symm⟩
    simpa only [Clause.allNullable, Clause.isNullable, hname, Bool.true_and] using ihRest hrest.symm
  | group _ _ ihMembers ihRest =>
    obtain ⟨hfirst, hrest⟩ := List.append_eq_nil_iff.1 hword.symm
    simpa only [Clause.allNullable, Clause.isNullable, ihMembers hfirst.symm, Bool.true_and]
      using ihRest hrest.symm
  | @choice members _ member _ _ _ hmember _ _ ihMember ihRest =>
    obtain ⟨hfirst, hrest⟩ := List.append_eq_nil_iff.1 hword.symm
    have hnullable : member.isNullable grammar.nullable.contains = true := by
      simpa [Clause.allNullable] using ihMember hfirst.symm
    simpa only [Clause.allNullable, Clause.isNullable, Clause.anyNullable_of_mem hmember hnullable,
      Bool.true_and]
      using ihRest hrest.symm
  | absent _ ih => simpa only [Clause.allNullable, Clause.isNullable, Bool.true_and] using ih hword
  | present _ _ _ ihRest =>
    obtain ⟨_, hrest⟩ := List.append_eq_nil_iff.1 hword.symm
    simpa only [Clause.allNullable, Clause.isNullable, Bool.true_and] using ihRest hrest.symm
  | zeroOrMore _ _ _ ihRest =>
    obtain ⟨_, hrest⟩ := List.append_eq_nil_iff.1 hword.symm
    simpa only [Clause.allNullable, Clause.isNullable, Bool.true_and] using ihRest hrest.symm
  | @oneOrMore inner _ _ items _ hne _ _ ihItems ihRest =>
    obtain ⟨hitems, hrest⟩ := List.append_eq_nil_iff.1 hword.symm
    obtain ⟨item, hitem⟩ := List.exists_mem_of_ne_nil items hne
    have hnullable : inner.isNullable grammar.nullable.contains = true := by
      simpa [Clause.allNullable] using ihItems item hitem
        (List.flatten_eq_nil_iff.1 hitems item hitem).symm
    simpa only [Clause.allNullable, Clause.isNullable, hnullable, Bool.true_and]
      using ihRest hrest.symm

/-- A non-terminal begins with what one of its rules begins with. -/
theorem begins_nonTerminal_iff {name : String} {role : Role} {discarded : Bool} :
    grammar.Begins [.nonTerminal name role discarded] kind ↔
      ∃ rule, (name, rule) ∈ grammar.rules ∧ grammar.Begins rule.clauses kind := by
  constructor
  · rintro (_ | ⟨hrule, hbegins⟩ | _ | _ | _ | _ | _ | ⟨_, hnone⟩)
    · exact ⟨_, hrule, hbegins⟩
    · cases hnone
  · rintro ⟨rule, hrule, hbegins⟩
    exact .nonTerminal hrule hbegins

private theorem exists_cons_of_flatten {α : Type} {items : List (List α)} {first : α}
    {rest : List α} (hflatten : items.flatten = first :: rest) :
    ∃ item ∈ items, ∃ later, item = first :: later := by
  obtain ⟨before, later, after, rfl, _, _⟩ := List.flatten_eq_cons_iff.1 hflatten
  exact ⟨first :: later, by simp, later, rfl⟩

/-- A word begins with a kind that its clauses begin with. -/
theorem Yields.begins (hyields : grammar.Yields clauses (kind :: word)) :
    grammar.Begins clauses kind := by
  generalize hwhole : kind :: word = whole at hyields
  induction hyields generalizing word with
  | nil => cases hwhole
  | terminal =>
    cases hwhole
    exact .terminal
  | nonTerminal hrule hfirst hrest ihFirst ihRest =>
    rcases List.append_eq_cons_iff.1 hwhole.symm with ⟨rfl, hword⟩ | ⟨_, hword, _⟩
    · exact .skip (by simpa using Yields.nonTerminal hrule hfirst .nil) (ihRest hword.symm)
    · exact .nonTerminal hrule (ihFirst hword.symm)
  | group hfirst hrest ihFirst ihRest =>
    rcases List.append_eq_cons_iff.1 hwhole.symm with ⟨rfl, hword⟩ | ⟨_, hword, _⟩
    · exact .skip (by simpa using Yields.group hfirst .nil) (ihRest hword.symm)
    · exact .group (ihFirst hword.symm)
  | choice hmember hfirst hrest ihFirst ihRest =>
    rcases List.append_eq_cons_iff.1 hwhole.symm with ⟨rfl, hword⟩ | ⟨_, hword, _⟩
    · exact .skip (by simpa using Yields.choice hmember hfirst .nil) (ihRest hword.symm)
    · exact .choice hmember (ihFirst hword.symm)
  | absent hrest ih => exact .skip (.absent .nil) (ih hwhole)
  | present hfirst hrest ihFirst ihRest =>
    rcases List.append_eq_cons_iff.1 hwhole.symm with ⟨rfl, hword⟩ | ⟨_, hword, _⟩
    · exact .skip (.absent .nil) (ihRest hword.symm)
    · exact .option (ihFirst hword.symm)
  | zeroOrMore hitems hrest ihItems ihRest =>
    rcases List.append_eq_cons_iff.1 hwhole.symm with ⟨hflatten, hword⟩ | ⟨_, hflatten, _⟩
    · exact .skip (by simpa [hflatten] using Yields.zeroOrMore hitems .nil) (ihRest hword.symm)
    · obtain ⟨item, hitem, _, hcons⟩ := exists_cons_of_flatten hflatten
      exact .zeroOrMore (ihItems item hitem hcons.symm)
  | oneOrMore hne hitems hrest ihItems ihRest =>
    rcases List.append_eq_cons_iff.1 hwhole.symm with ⟨hflatten, hword⟩ | ⟨_, hflatten, _⟩
    · exact .skip (by simpa [hflatten] using Yields.oneOrMore hne hitems .nil) (ihRest hword.symm)
    · obtain ⟨item, hitem, _, hcons⟩ := exists_cons_of_flatten hflatten
      exact .oneOrMore (ihItems item hitem hcons.symm)

theorem Begins.append {rest : List (Clause K)} (hbegins : grammar.Begins clauses kind) :
    grammar.Begins (clauses ++ rest) kind := by
  induction hbegins with
  | terminal => exact .terminal
  | nonTerminal hrule hclauses => exact .nonTerminal hrule hclauses
  | group hmembers => exact .group hmembers
  | choice hmember hbegins => exact .choice hmember hbegins
  | option hinner => exact .option hinner
  | zeroOrMore hinner => exact .zeroOrMore hinner
  | oneOrMore hinner => exact .oneOrMore hinner
  | skip hyields _ ih => exact .skip hyields ih

/-- Clauses begin with what stands behind some that yield nothing. -/
theorem Yields.begins_append {rest : List (Clause K)} (hyields : grammar.Yields clauses [])
    (hbegins : grammar.Begins rest kind) : grammar.Begins (clauses ++ rest) kind := by
  induction clauses with
  | nil => exact hbegins
  | cons first clauses ih =>
    obtain ⟨word, later, hword, hfirst, hrest⟩ := hyields.uncons
    obtain ⟨rfl, rfl⟩ := List.append_eq_nil_iff.1 hword.symm
    exact .skip hfirst (ih hrest)

theorem mem_firstOfAll_of_first {nullable : String → Bool} {leading : String → KindSet K}
    {clause : Clause K} {rest : List (Clause K)}
    (hkind : kind ∈ Clause.first nullable leading clause) :
    kind ∈ Clause.firstOfAll nullable leading (clause :: rest) := by
  simp only [Clause.firstOfAll]
  split
  · exact KindSet.mem_union.2 (Or.inl hkind)
  · exact hkind

/-- A choice begins with what each alternative begins with. -/
theorem mem_firstOfAny {nullable : String → Bool} {leading : String → KindSet K}
    {members : List (Clause K)} {member : Clause K} (hmember : member ∈ members)
    (hkind : kind ∈ Clause.first nullable leading member) :
    kind ∈ Clause.firstOfAny nullable leading members := by
  induction hmember with
  | head => exact KindSet.mem_union.2 (Or.inl hkind)
  | tail _ _ ih => exact KindSet.mem_union.2 (Or.inr ih)

/-- A clause alone begins with what is found for it. -/
theorem mem_firstOfAll_singleton {nullable : String → Bool} {leading : String → KindSet K}
    {clause : Clause K} :
    kind ∈ Clause.firstOfAll nullable leading [clause] ↔
    kind ∈ Clause.first nullable leading clause := by
  simp only [Clause.firstOfAll]
  split <;> simp

/-- The computed sets have every kind that clauses can begin with. -/
theorem Begins.mem_firstOfAll (hbegins : grammar.Begins clauses kind) :
    kind ∈ Clause.firstOfAll grammar.nullable.contains grammar.leadingTable.get clauses := by
  induction hbegins with
  | terminal => exact mem_firstOfAll_of_first (by simp [Clause.first])
  | nonTerminal hrule _ ih =>
    exact mem_firstOfAll_of_first
      (by simpa only [Clause.first] using mem_leadingTable_iff.2 ⟨_, hrule, ih⟩)
  | group _ ih => exact mem_firstOfAll_of_first (by simpa only [Clause.first] using ih)
  | choice hmember _ ih =>
    refine mem_firstOfAll_of_first ?_
    simpa only [Clause.first] using mem_firstOfAny hmember (mem_firstOfAll_singleton.1 ih)
  | option _ ih | zeroOrMore _ ih | oneOrMore _ ih =>
    exact mem_firstOfAll_of_first (by simpa only [Clause.first] using mem_firstOfAll_singleton.1 ih)
  | @skip clause _ _ hyields _ ih =>
    have hnullable : clause.isNullable grammar.nullable.contains = true := by
      simpa [Clause.allNullable] using hyields.allNullable
    simp only [Clause.firstOfAll, hnullable, if_true]
    exact KindSet.mem_union.2 (Or.inr ih)

/-- In an analysed grammar a rule is tried in front of every word that it yields. -/
theorem IsAnalysed.canStartWith (hanalysed : grammar.IsAnalysed) {name : String} {rule : Rule K R}
    (hrule : (name, rule) ∈ grammar.rules) (hyields : grammar.Yields rule.clauses word)
    {next : Option K} (hnext : word ≠ [] → next = word.head?) : rule.canStartWith next = true := by
  cases word with
  | nil =>
    have hempty : rule.mayBeEmpty = true :=
      (hanalysed.mayBeEmpty_eq hrule).trans hyields.allNullable
    simp [Rule.canStartWith, hempty]
  | cons kind rest =>
    have hkind : kind ∈ rule.leading := hanalysed.leading_eq hrule ▸ hyields.begins.mem_firstOfAll
    simp [Rule.canStartWith, hnext, hkind]

end GrammarKit.Grammar
