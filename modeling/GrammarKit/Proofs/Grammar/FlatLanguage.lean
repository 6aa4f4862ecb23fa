import GrammarKit.Proofs.Grammar.Flattening
import GrammarKit.Proofs.Grammar.Language

namespace GrammarKit

variable {K R : Type} [DecidableEq K] [TokenKind K]

namespace Flat

section

variable (R)

mutual

/-- The names that are made up for the groups and choices of a clause, also
    those of choices that get no rules. -/
def clauseNames (parent : String) (next : Nat) : Clause K → List String
  | .terminal .. | .nonTerminal .. => []
  | .group members _ => groupName parent next :: names parent (next + 1) members
  | .choice members _ => choiceName parent next :: names parent (next + 1) members
  | .option inner _ | .zeroOrMore inner _ | .oneOrMore inner _ => clauseNames parent next inner

/-- The names that are made up for clauses in a row. -/
def names (parent : String) (next : Nat) : List (Clause K) → List String
  | [] => []
  | first :: rest => clauseNames parent next first ++ names parent
      (Flat.clause (R := R) parent next first).next rest

end

end

mutual

/-- Rules are made only under the names that are made up. -/
theorem mem_clauseNames (parent : String) : ∀ (clause : Clause K) (next : Nat),
    ∀ entry ∈ (Flat.clause (R := R) parent next clause).rules,
      entry.1 ∈ clauseNames R parent next clause
  | .terminal .., _, _, hentry => nomatch hentry
  | .nonTerminal .., _, _, hentry => nomatch hentry
  | .group members _, next, entry, hentry => by
    rcases List.mem_append.1 hentry with hentry | hentry
    · exact List.mem_cons_of_mem _ (mem_names parent members (next + 1) entry hentry)
    · obtain rfl := List.mem_singleton.1 hentry
      exact List.mem_cons_self
  | .choice members _, next, entry, hentry => by
    rcases mem_rules_alternatives.1 hentry with hentry | ⟨flat, -, rfl⟩
    · exact List.mem_cons_of_mem _ (mem_names parent members (next + 1) entry hentry)
    · exact List.mem_cons_self
  | .option inner _, next, entry, hentry => mem_clauseNames parent inner next entry hentry
  | .zeroOrMore inner _, next, entry, hentry => mem_clauseNames parent inner next entry hentry
  | .oneOrMore inner _, next, entry, hentry => mem_clauseNames parent inner next entry hentry

theorem mem_names (parent : String) : ∀ (clauses : List (Clause K)) (next : Nat),
    ∀ entry ∈ (Flat.clauses (R := R) parent next clauses).rules,
      entry.1 ∈ names R parent next clauses
  | [], _, _, hentry => nomatch hentry
  | first :: rest, next, entry, hentry => by
    rcases List.mem_append.1 hentry with hentry | hentry
    · exact List.mem_append_left _ (mem_clauseNames parent first next entry hentry)
    · exact List.mem_append_right _ (mem_names parent rest _ entry hentry)

end

section

variable (parent : String) (next : Nat) (clauses others : List (Clause K))

/-- The parts of clauses in a row are numbered one clause after the other. -/
theorem next_append : (Flat.clauses (R := R) parent next (clauses ++ others)).next =
    (Flat.clauses (R := R) parent (Flat.clauses (R := R) parent next clauses).next
      others).next := by
  induction clauses generalizing next with
  | nil => rfl
  | cons first rest ih => exact ih _

theorem rules_append : (Flat.clauses (R := R) parent next (clauses ++ others)).rules =
    (Flat.clauses parent next clauses).rules ++
      (Flat.clauses parent (Flat.clauses (R := R) parent next clauses).next others).rules := by
  induction clauses generalizing next with
  | nil => rfl
  | cons first rest ih => simp [Flat.clauses, ih]

theorem names_append : names R parent next (clauses ++ others) =
    names R parent next clauses ++
      names R parent (Flat.clauses (R := R) parent next clauses).next others := by
  induction clauses generalizing next with
  | nil => rfl
  | cons first rest ih => simp [names, Flat.clauses, ih]

end

/-- A row whose flat clauses begin with one begins with the clause it was made of. -/
theorem exists_cons_of_value_eq {parent : String} {next : Nat} {clauses flats : List (Clause K)}
    {flat : Clause K} (hvalue : (Flat.clauses (R := R) parent next clauses).value = flat :: flats) :
    ∃ first rest, clauses = first :: rest ∧ (Flat.clause (R := R) parent next first).value = flat ∧
      (Flat.clauses (R := R) parent (Flat.clause (R := R) parent next first).next rest).value =
        flats := by
  cases clauses with
  | nil => cases hvalue
  | cons first rest => exact ⟨first, rest, rfl, List.cons.inj hvalue⟩

/-- The rules of a non-terminal are numbered like all their clauses in a row. -/
theorem rules_rules (parent : String) (next : Nat) (rules : List (Rule K R)) :
    (Flat.rules parent next rules).rules =
      (Flat.clauses parent next (rules.flatMap Rule.clauses)).rules := by
  induction rules generalizing next with
  | nil => rfl
  | cons first rest ih => rw [List.flatMap_cons, rules_append, ← ih]; rfl

end Flat

namespace Grammar

/-- The clauses of all rules of a name. -/
def clausesOf (grammar : Grammar K R) (name : String) : List (Clause K) :=
  (grammar.rulesOf name).flatMap Rule.clauses

/-- The names that are made up for all groups and choices of a grammar. -/
def madeNames (grammar : Grammar K R) : List String :=
  grammar.nonTerminals.flatMap fun nonTerminal =>
    Flat.names R nonTerminal.name 0 (nonTerminal.rules.flatMap Rule.clauses)

/-- Whether a grammar neither declares nor refers to a name that is made up. -/
structure NamesAreNew (grammar : Grammar K R) : Prop where
  declared : ∀ name ∈ grammar.names, name ∉ grammar.madeNames
  referenced : ∀ entry ∈ grammar.rules, ∀ name ∈ Clause.referencesIn entry.2.clauses,
    name ∉ grammar.madeNames

/-- Whether clauses stand in the rules of `parent` such that their groups and
    choices are numbered from `next` on. -/
structure Numbers (grammar : Grammar K R) (parent : String) (next : Nat)
    (clauses : List (Clause K)) : Prop where
  names : ∀ name ∈ Flat.names R parent next clauses, name ∈ grammar.madeNames
  references : ∀ name ∈ Clause.referencesIn clauses, name ∉ grammar.madeNames
  made : ∀ entry ∈ (Flat.clauses parent next clauses).rules, entry ∈ grammar.flatten.rules
  rules : ∀ number name rule, next ≤ number →
    number < (Flat.clauses (R := R) parent next clauses).next →
    IsPartName parent number name → name ∈ grammar.madeNames →
      (name, rule) ∈ grammar.flatten.rules →
      (name, rule) ∈ (Flat.clauses parent next clauses).rules

variable {grammar : Grammar K R}

/-- The names that are made up belong to the clauses of a name, all rules taken together. -/
theorem mem_madeNames_iff {name : String} :
    name ∈ grammar.madeNames ↔ ∃ parent, name ∈ Flat.names R parent 0
      (grammar.clausesOf parent) := by
  constructor
  · intro hname
    obtain ⟨nonTerminal, hmem, hname⟩ := List.mem_flatMap.1 hname
    exact ⟨nonTerminal.name, by rwa [clausesOf, rulesOf_name hmem]⟩
  · rintro ⟨parent, hname⟩
    cases hfind : grammar.find? parent with
    | none => simp [clausesOf, rulesOf, hfind, Flat.names] at hname
    | some nonTerminal =>
      obtain ⟨hmem, rfl⟩ := find?_eq_some_iff.1 hfind
      exact List.mem_flatMap.2 ⟨nonTerminal, hmem, by rwa [clausesOf, rulesOf_name hmem] at hname⟩

/-- What becomes of groups and choices stands under the names that are made up. -/
theorem mem_madeNames_of_mem_partRules {entry : String × Rule K R}
    (hentry : entry ∈ grammar.partRules) :
    entry.1 ∈ grammar.madeNames := by
  obtain ⟨parent, hentry⟩ := mem_partRules.1 hentry
  rw [Flat.rules_rules] at hentry
  exact mem_madeNames_iff.2 ⟨parent, Flat.mem_names _ _ 0 entry hentry⟩

namespace NamesAreNew

/-- The clauses of each name are numbered from zero on, all rules taken together. -/
theorem numbers (hnew : grammar.NamesAreNew) (parent : String) :
    grammar.Numbers parent 0 ((grammar.rulesOf parent).flatMap Rule.clauses) where
  names name hname := mem_madeNames_iff.2 ⟨parent, hname⟩
  references name hname := by
    obtain ⟨rule, hrule, hname⟩ := Clause.mem_referencesIn_flatMap.1 hname
    exact hnew.referenced _ (mem_rules_iff_mem_rulesOf.2 hrule) name hname
  made entry hentry := by
    rw [← Flat.rules_rules] at hentry
    exact mem_rules_flatten.2 (Or.inr (mem_partRules.2 ⟨parent, hentry⟩))
  rules number name rule _ _ hpart hmade hrule := by
    rw [← Flat.rules_rules]
    rcases mem_rules_flatten.1 hrule with hvalue | hpartRule
    · rw [rulesOf_eq_nil fun hname => hnew.declared name hname hmade] at hvalue
      cases hvalue
    · obtain ⟨other, hother⟩ := mem_partRules.1 hpartRule
      obtain ⟨count, -, -, hcount⟩ := (Flat.rules_numbered other (grammar.rulesOf other) 0).2 _
        hother
      obtain ⟨rfl, -⟩ := hpart.inj hcount
      exact hother

end NamesAreNew

namespace Numbers

variable {parent : String} {next : Nat} {clauses others : List (Clause K)} {discarded : Bool}

/-- A name that is not made up has nothing to be numbered. -/
theorem ofName {name : String} (hname : name ∉ grammar.madeNames) :
    grammar.Numbers "" 0 [.ofName name] where
  names _ hmade := nomatch hmade
  references other hother := by
    obtain rfl : other = name := by simpa [Clause.ofName, Clause.referencesIn,
      Clause.references] using hother
    exact hname
  made _ hentry := nomatch hentry
  rules _ _ _ _ hlt := nomatch hlt

/-- What stands first in a row is numbered as the row is. -/
theorem left (hnumbers : grammar.Numbers parent next (clauses ++ others)) :
    grammar.Numbers parent next clauses where
  names name hname :=
    hnumbers.names name (by rw [Flat.names_append]; exact List.mem_append_left _ hname)
  references name hname := by
    obtain ⟨clause, hclause, hname⟩ := Clause.mem_referencesIn.1 hname
    exact hnumbers.references name (Clause.mem_referencesIn.2
      ⟨clause, List.mem_append_left _ hclause, hname⟩)
  made entry hentry := hnumbers.made entry
    (by rw [Flat.rules_append]; exact List.mem_append_left _ hentry)
  rules number name rule hle hlt hpart hmade hrule := by
    obtain ⟨hothers, hnumbered⟩ := Flat.clauses_numbered (R := R) parent others
      (Flat.clauses (R := R) parent next clauses).next
    have hmem := hnumbers.rules number name rule hle (by rw [Flat.next_append]; omega)
      hpart hmade hrule
    rw [Flat.rules_append] at hmem
    refine (List.mem_append.1 hmem).resolve_right fun hother => ?_
    exact hnumbered.ne_of_isPartName hother hpart (Or.inl hlt) rfl

/-- What stands behind other clauses is numbered behind them. -/
theorem right (hnumbers : grammar.Numbers parent next (clauses ++ others)) :
    grammar.Numbers parent (Flat.clauses (R := R) parent next clauses).next others where
  names name hname :=
    hnumbers.names name (by rw [Flat.names_append]; exact List.mem_append_right _ hname)
  references name hname := by
    obtain ⟨clause, hclause, hname⟩ := Clause.mem_referencesIn.1 hname
    exact hnumbers.references name (Clause.mem_referencesIn.2
      ⟨clause, List.mem_append_right _ hclause, hname⟩)
  made entry hentry := hnumbers.made entry
    (by rw [Flat.rules_append]; exact List.mem_append_right _ hentry)
  rules number name rule hle hlt hpart hmade hrule := by
    obtain ⟨hclauses, hnumbered⟩ := Flat.clauses_numbered (R := R) parent clauses next
    have hmem := hnumbers.rules number name rule (by omega) (by rwa [Flat.next_append])
      hpart hmade hrule
    rw [Flat.rules_append] at hmem
    refine (List.mem_append.1 hmem).resolve_left fun hother => ?_
    exact hnumbered.ne_of_isPartName hother hpart (Or.inr hle) rfl

theorem head {first : Clause K} (hnumbers : grammar.Numbers parent next (first :: others)) :
    grammar.Numbers parent next [first] := by
  have hwhole : grammar.Numbers parent next ([first] ++ others) := hnumbers
  exact hwhole.left

theorem tail {first : Clause K} (hnumbers : grammar.Numbers parent next (first :: others)) :
    grammar.Numbers parent (Flat.clause (R := R) parent next first).next others := by
  have hwhole : grammar.Numbers parent next ([first] ++ others) := hnumbers
  exact hwhole.right

/-- The name of a group has the rule that was made of it. -/
theorem mem_rules_group (hnumbers : grammar.Numbers parent next [.group clauses discarded]) :
    (Flat.groupName parent next,
      { clauses := (Flat.clauses (R := R) parent (next + 1) clauses).value, isSubrule := true }) ∈
        grammar.flatten.rules :=
  hnumbers.made _ (by simp [Flat.clauses, Flat.clause])

/-- The name of a choice has a rule for each alternative. -/
theorem mem_rules_choice (hnumbers : grammar.Numbers parent next [.choice clauses discarded])
    {flat : Clause K} (hflat : flat ∈ (Flat.clauses (R := R) parent (next + 1) clauses).value) :
    (Flat.choiceName parent next, { clauses := [flat], isBypass := true }) ∈
    grammar.flatten.rules :=
  hnumbers.made _ (by simp [Flat.clauses, Flat.clause, Flat.mem_rules_alternatives, hflat])

/-- The name of a group has the one rule that was made of it. -/
theorem eq_of_group (hnumbers : grammar.Numbers parent next [.group clauses discarded])
    {rule : Rule K R} (hrule : (Flat.groupName parent next, rule) ∈ grammar.flatten.rules) :
    (Flat.clauses (R := R) parent (next + 1) clauses).value = rule.clauses := by
  obtain ⟨hle, hnumbered⟩ := Flat.clauses_numbered (R := R) parent clauses (next + 1)
  have hmem := hnumbers.rules next _ rule (Nat.le_refl next) hle (Or.inl rfl)
    (hnumbers.names _ List.mem_cons_self) hrule
  simp only [Flat.clauses, Flat.clause, List.append_nil, List.mem_append, List.mem_singleton]
    at hmem
  rcases hmem with hmem | heq
  · exact absurd rfl (hnumbered.ne_of_isPartName hmem (Or.inl rfl) (Or.inl (Nat.lt_succ_self next)))
  · rw [(Prod.mk.inj heq).2]

/-- The members of a group are numbered behind it. -/
theorem group (hnumbers : grammar.Numbers parent next [.group clauses discarded]) :
    grammar.Numbers parent (next + 1) clauses where
  names name hname := hnumbers.names name (by simp [Flat.names, Flat.clauseNames, hname])
  references name hname := hnumbers.references name
    (by simpa [Clause.referencesIn, Clause.references] using hname)
  made entry hentry := hnumbers.made entry (by simp [Flat.clauses, Flat.clause, hentry])
  rules number name rule hle hlt hpart hmade hrule := by
    have hmem := hnumbers.rules number name rule (by omega) hlt hpart hmade hrule
    simp only [Flat.clauses, Flat.clause, List.append_nil, List.mem_append, List.mem_singleton]
      at hmem
    refine hmem.resolve_right fun heq => ?_
    obtain ⟨-, rfl⟩ := hpart.inj (Or.inl (Prod.mk.inj heq).1)
    omega

theorem option {inner : Clause K}
    (hnumbers : grammar.Numbers parent next [.option inner discarded]) :
    grammar.Numbers parent next [inner] :=
  ⟨hnumbers.names, hnumbers.references, hnumbers.made, hnumbers.rules⟩

theorem zeroOrMore {inner : Clause K}
    (hnumbers : grammar.Numbers parent next [.zeroOrMore inner discarded]) :
    grammar.Numbers parent next [inner] :=
  ⟨hnumbers.names, hnumbers.references, hnumbers.made, hnumbers.rules⟩

theorem oneOrMore {inner : Clause K}
    (hnumbers : grammar.Numbers parent next [.oneOrMore inner discarded]) :
    grammar.Numbers parent next [inner] :=
  ⟨hnumbers.names, hnumbers.references, hnumbers.made, hnumbers.rules⟩

/-- The name of a choice has the rules that were made of its alternatives, and
    none if there are none. -/
theorem exists_of_choice (hnumbers : grammar.Numbers parent next [.choice clauses discarded])
    {rule : Rule K R} (hrule : (Flat.choiceName parent next, rule) ∈ grammar.flatten.rules) :
    ∃ flat ∈ (Flat.clauses (R := R) parent (next + 1) clauses).value, [flat] = rule.clauses := by
  obtain ⟨hle, hnumbered⟩ := Flat.clauses_numbered (R := R) parent clauses (next + 1)
  have hmem := hnumbers.rules next _ rule (Nat.le_refl next)
    (by rw [Flat.clauses, Flat.clause, Flat.next_alternatives]; exact hle) (Or.inr rfl)
    (hnumbers.names _ List.mem_cons_self) hrule
  simp only [Flat.clauses, Flat.clause, List.append_nil, Flat.mem_rules_alternatives] at hmem
  rcases hmem with hmem | ⟨flat, hflat, heq⟩
  · exact absurd rfl (hnumbered.ne_of_isPartName hmem (Or.inr rfl) (Or.inl (Nat.lt_succ_self next)))
  · exact ⟨flat, hflat, by rw [(Prod.mk.inj heq).2]⟩

/-- The alternatives of a choice are numbered behind it. -/
theorem choice (hnumbers : grammar.Numbers parent next [.choice clauses discarded]) :
    grammar.Numbers parent (next + 1) clauses where
  names name hname := hnumbers.names name (by simp [Flat.names, Flat.clauseNames, hname])
  references name hname := hnumbers.references name
    (by simpa [Clause.referencesIn, Clause.references] using hname)
  made entry hentry := hnumbers.made entry
    (by simp [Flat.clauses, Flat.clause, Flat.mem_rules_alternatives, hentry])
  rules number name rule hle hlt hpart hmade hrule := by
    have hmem := hnumbers.rules number name rule (by omega)
      (by rw [Flat.clauses, Flat.clause, Flat.next_alternatives]; exact hlt) hpart hmade hrule
    simp only [Flat.clauses, Flat.clause, List.append_nil, Flat.mem_rules_alternatives] at hmem
    rcases hmem with hmem | ⟨_, _, heq⟩
    · exact hmem
    · obtain ⟨-, rfl⟩ := hpart.inj (Or.inr (Prod.mk.inj heq).1)
      omega

/-- Each flat clause was made of one of the clauses, which is numbered from some place on. -/
theorem exists_of_mem (hnumbers : grammar.Numbers parent next clauses) {flat : Clause K}
    (hflat : flat ∈ (Flat.clauses (R := R) parent next clauses).value) :
    ∃ clause ∈ clauses, ∃ number, grammar.Numbers parent number [clause] ∧
      (Flat.clause (R := R) parent number clause).value = flat := by
  induction clauses generalizing next with
  | nil => cases hflat
  | cons first rest ih =>
    rcases List.mem_cons.1 hflat with rfl | hflat
    · exact ⟨first, List.mem_cons_self, next, hnumbers.head, rfl⟩
    · obtain ⟨clause, hclause, hfound⟩ := ih hnumbers.tail hflat
      exact ⟨clause, List.mem_cons_of_mem _ hclause, hfound⟩

/-- Of each clause a flat one was made. -/
theorem exists_flat_of_mem (hnumbers : grammar.Numbers parent next clauses) {clause : Clause K}
    (hclause : clause ∈ clauses) :
    ∃ number, grammar.Numbers parent number [clause] ∧
      (Flat.clause (R := R) parent number clause).value ∈
        (Flat.clauses (R := R) parent next clauses).value := by
  induction clauses generalizing next with
  | nil => cases hclause
  | cons first rest ih =>
    rcases List.mem_cons.1 hclause with rfl | hclause
    · exact ⟨next, hnumbers.head, List.mem_cons_self⟩
    · obtain ⟨number, hnumber, hflat⟩ := ih hnumbers.tail hclause
      exact ⟨number, hnumber, List.mem_cons_of_mem _ hflat⟩

/-- Each flat rule was made of one of the rules. -/
theorem exists_of_mem_rules {rules : List (Rule K R)}
    (hnumbers : grammar.Numbers parent next (rules.flatMap Rule.clauses)) {flat : Rule K R}
    (hflat : flat ∈ (Flat.rules parent next rules).value) :
    ∃ rule ∈ rules, ∃ number, grammar.Numbers parent number rule.clauses ∧
      (Flat.clauses (R := R) parent number rule.clauses).value = flat.clauses := by
  induction rules generalizing next with
  | nil => cases hflat
  | cons first rest ih =>
    rw [List.flatMap_cons] at hnumbers
    rcases List.mem_cons.1 hflat with rfl | hflat
    · exact ⟨first, List.mem_cons_self, next, hnumbers.left, rfl⟩
    · obtain ⟨rule, hrule, hfound⟩ := ih hnumbers.right hflat
      exact ⟨rule, List.mem_cons_of_mem _ hrule, hfound⟩

/-- Of each rule a flat one was made. -/
theorem exists_flat_of_mem_rules {rules : List (Rule K R)}
    (hnumbers : grammar.Numbers parent next (rules.flatMap Rule.clauses)) {rule : Rule K R}
    (hrule : rule ∈ rules) :
    ∃ flat ∈ (Flat.rules parent next rules).value, ∃ number,
      grammar.Numbers parent number rule.clauses ∧
      (Flat.clauses (R := R) parent number rule.clauses).value = flat.clauses := by
  induction rules generalizing next with
  | nil => cases hrule
  | cons first rest ih =>
    rw [List.flatMap_cons] at hnumbers
    rcases List.mem_cons.1 hrule with rfl | hrule
    · exact ⟨_, List.mem_cons_self, next, hnumbers.left, rfl⟩
    · obtain ⟨flat, hflat, hfound⟩ := ih hnumbers.right hrule
      exact ⟨flat, List.mem_cons_of_mem _ hflat, hfound⟩

end Numbers

/-- What is not called like a part has rules in the flat grammar that were made
    of rules it had. -/
theorem NamesAreNew.exists_of_mem_rules_flatten (hnew : grammar.NamesAreNew) {name : String}
    (hname : name ∉ grammar.madeNames) {flat : Rule K R}
    (hflat : (name, flat) ∈ grammar.flatten.rules) :
    ∃ rule, (name, rule) ∈ grammar.rules ∧ ∃ number, grammar.Numbers name number rule.clauses ∧
      (Flat.clauses (R := R) name number rule.clauses).value = flat.clauses := by
  rcases mem_rules_flatten.1 hflat with hvalue | hpart
  · obtain ⟨rule, hrule, hfound⟩ := (hnew.numbers name).exists_of_mem_rules hvalue
    exact ⟨rule, mem_rules_iff_mem_rulesOf.2 hrule, hfound⟩
  · exact absurd (mem_madeNames_of_mem_partRules hpart) hname

section Yields

variable (hnew : grammar.NamesAreNew)

include hnew

/-- What clauses yield is yielded by the flat clauses in their place. -/
theorem Yields.flatten {clauses : List (Clause K)} {word : List K}
    (hyields : grammar.Yields clauses word) {parent : String} {next : Nat}
    (hnumbers : grammar.Numbers parent next clauses) :
    grammar.flatten.Yields (Flat.clauses (R := R) parent next clauses).value word := by
  induction hyields generalizing parent next with
  | nil => exact .nil
  | terminal _ ih => exact .terminal (ih hnumbers.tail)
  | @nonTerminal name _ _ _ _ _ _ hrule _ _ ihFirst ihRest =>
    obtain ⟨flat, hflat, number, hfirst, hclauses⟩ :=
      (hnew.numbers name).exists_flat_of_mem_rules (mem_rules_iff_mem_rulesOf.1 hrule)
    exact .nonTerminal (mem_rules_flatten.2 (Or.inl hflat)) (hclauses ▸ ihFirst hfirst)
      (ihRest hnumbers.tail)
  | group _ _ ihFirst ihRest =>
    exact .nonTerminal hnumbers.head.mem_rules_group (ihFirst hnumbers.head.group)
      (ihRest hnumbers.tail)
  | choice hmember _ _ ihFirst ihRest =>
    obtain ⟨number, hnumber, hflat⟩ := hnumbers.head.choice.exists_flat_of_mem hmember
    exact .nonTerminal (hnumbers.head.mem_rules_choice hflat) (ihFirst hnumber)
      (ihRest hnumbers.tail)
  | absent _ ih => exact .absent (ih hnumbers.tail)
  | present _ _ ihFirst ihRest =>
    exact .present (ihFirst hnumbers.head.option) (ihRest hnumbers.tail)
  | zeroOrMore _ _ ihItems ihRest =>
    exact .zeroOrMore (fun item hitem => ihItems item hitem hnumbers.head.zeroOrMore)
      (ihRest hnumbers.tail)
  | oneOrMore hne _ _ ihItems ihRest =>
    exact .oneOrMore hne (fun item hitem => ihItems item hitem hnumbers.head.oneOrMore)
      (ihRest hnumbers.tail)

/-- Clauses yield what the flat clauses in their place yield. -/
theorem Yields.of_flatten {flats : List (Clause K)} {word : List K}
    (hyields : grammar.flatten.Yields flats word) {parent : String} {next : Nat}
    {clauses : List (Clause K)} (hnumbers : grammar.Numbers parent next clauses)
    (hflats : (Flat.clauses (R := R) parent next clauses).value = flats) :
    grammar.Yields clauses word := by
  induction hyields generalizing parent next clauses with
  | nil =>
    cases clauses with
    | nil => exact .nil
    | cons => cases hflats
  | terminal _ ih =>
    obtain ⟨first, rest, rfl, hfirst, hrest⟩ := Flat.exists_cons_of_value_eq hflats
    cases first <;> simp only [Flat.clause, Flat.Flattened.map, reduceCtorEq, Clause.terminal.injEq]
      at hfirst
    obtain ⟨rfl, rfl⟩ := hfirst
    exact .terminal (ih hnumbers.tail hrest)
  | nonTerminal hrule _ _ ihFirst ihRest =>
    obtain ⟨first, rest, rfl, hfirst, hrest⟩ := Flat.exists_cons_of_value_eq hflats
    have hhead := hnumbers.head
    cases first <;> simp only [Flat.clause, Flat.Flattened.map, reduceCtorEq,
      Clause.nonTerminal.injEq] at hfirst
    case nonTerminal =>
      obtain ⟨rfl, rfl, rfl⟩ := hfirst
      obtain ⟨rule, hrule, number, hfound, hclauses⟩ := hnew.exists_of_mem_rules_flatten
        (hhead.references _ (by simp [Clause.referencesIn, Clause.references])) hrule
      exact .nonTerminal hrule (ihFirst hfound hclauses) (ihRest hnumbers.tail hrest)
    case group =>
      obtain ⟨rfl, rfl, rfl⟩ := hfirst
      exact .group (ihFirst hhead.group (hhead.eq_of_group hrule)) (ihRest hnumbers.tail hrest)
    case choice =>
      obtain ⟨rfl, rfl, rfl⟩ := hfirst
      obtain ⟨flat, hflat, hclauses⟩ := hhead.exists_of_choice hrule
      obtain ⟨member, hmember, number, hfound, rfl⟩ := hhead.choice.exists_of_mem hflat
      exact .choice hmember (ihFirst hfound hclauses) (ihRest hnumbers.tail hrest)
  | group =>
    obtain ⟨first, rest, rfl, hfirst, hrest⟩ := Flat.exists_cons_of_value_eq hflats
    cases first <;> simp only [Flat.clause, Flat.Flattened.map, reduceCtorEq] at hfirst
  | choice =>
    obtain ⟨first, rest, rfl, hfirst, hrest⟩ := Flat.exists_cons_of_value_eq hflats
    cases first <;> simp only [Flat.clause, Flat.Flattened.map, reduceCtorEq] at hfirst
  | absent _ ih =>
    obtain ⟨first, rest, rfl, hfirst, hrest⟩ := Flat.exists_cons_of_value_eq hflats
    cases first <;> simp only [Flat.clause, Flat.Flattened.map, reduceCtorEq] at hfirst
    exact .absent (ih hnumbers.tail hrest)
  | present _ _ ihFirst ihRest =>
    obtain ⟨first, rest, rfl, hfirst, hrest⟩ := Flat.exists_cons_of_value_eq hflats
    cases first <;> simp only [Flat.clause, Flat.Flattened.map, reduceCtorEq, Clause.option.injEq]
      at hfirst
    obtain ⟨rfl, rfl⟩ := hfirst
    exact .present (ihFirst hnumbers.head.option rfl) (ihRest hnumbers.tail hrest)
  | zeroOrMore _ _ ihItems ihRest =>
    obtain ⟨first, rest, rfl, hfirst, hrest⟩ := Flat.exists_cons_of_value_eq hflats
    cases first <;> simp only [Flat.clause, Flat.Flattened.map, reduceCtorEq,
      Clause.zeroOrMore.injEq] at hfirst
    obtain ⟨rfl, rfl⟩ := hfirst
    exact .zeroOrMore (fun item hitem => ihItems item hitem hnumbers.head.zeroOrMore rfl)
      (ihRest hnumbers.tail hrest)
  | oneOrMore hne _ _ ihItems ihRest =>
    obtain ⟨first, rest, rfl, hfirst, hrest⟩ := Flat.exists_cons_of_value_eq hflats
    cases first <;> simp only [Flat.clause, Flat.Flattened.map, reduceCtorEq,
      Clause.oneOrMore.injEq] at hfirst
    obtain ⟨rfl, rfl⟩ := hfirst
    exact .oneOrMore hne (fun item hitem => ihItems item hitem hnumbers.head.oneOrMore rfl)
      (ihRest hnumbers.tail hrest)

end Yields

end Grammar

namespace Flat

/-- Nothing is made up for a clause that is flat. -/
theorem clause_of_isFlat (parent : String) (next : Nat) :
    ∀ clause : Clause K, clause.isFlat = true →
    Flat.clause (R := R) parent next clause = ⟨clause, next, []⟩
  | .terminal .., _ => rfl
  | .nonTerminal .., _ => rfl
  | .option inner _, hflat => by rw [Flat.clause, clause_of_isFlat parent next inner hflat]; rfl
  | .zeroOrMore inner _, hflat => by rw [Flat.clause, clause_of_isFlat parent next inner hflat]; rfl
  | .oneOrMore inner _, hflat => by rw [Flat.clause, clause_of_isFlat parent next inner hflat]; rfl

/-- Nothing is made up for clauses that are flat. -/
theorem clauses_of_isFlat (parent : String) (next : Nat) {clauses : List (Clause K)}
    (hflat : ∀ clause ∈ clauses, clause.isFlat = true) :
    Flat.clauses (R := R) parent next clauses = ⟨clauses, next, []⟩ := by
  induction clauses with
  | nil => rfl
  | cons first rest ih =>
    obtain ⟨hfirst, hrest⟩ := List.forall_mem_cons.1 hflat
    simp [Flat.clauses, clause_of_isFlat parent next first hfirst, ih hrest]

/-- Nothing is made up for rules that are flat. -/
theorem rules_of_isFlat (parent : String) (next : Nat) {rules : List (Rule K R)}
    (hflat : ∀ rule ∈ rules, rule.IsFlat) :
    Flat.rules parent next rules = ⟨rules, next, []⟩ := by
  induction rules with
  | nil => rfl
  | cons first rest ih =>
    obtain ⟨hfirst, hrest⟩ := List.forall_mem_cons.1 hflat
    simp [Flat.rules, clauses_of_isFlat parent next hfirst, ih hrest]

end Flat

namespace Grammar

variable {grammar : Grammar K R}

/-- Nothing becomes of a grammar that is flat. -/
theorem IsFlat.flatten_eq (hflat : grammar.IsFlat) : grammar.flatten = grammar := by
  have hsame : ∀ nonTerminal ∈ grammar.nonTerminals,
      Flat.nonTerminal nonTerminal = ⟨nonTerminal.rules, 0, []⟩ := fun nonTerminal hmem =>
    Flat.rules_of_isFlat _ 0 fun rule hrule =>
      hflat (nonTerminal.name, rule) (mem_rules_iff_mem_rulesOf.2 (by rwa [rulesOf_name hmem]))
  have hparts : (grammar.nonTerminals.flatMap fun nonTerminal =>
      (Flat.nonTerminal nonTerminal).rules) = [] :=
    List.flatMap_eq_nil_iff.2 fun nonTerminal hmem => by rw [hsame nonTerminal hmem]
  have hkept : (grammar.nonTerminals.map fun nonTerminal =>
      { nonTerminal with rules := (Flat.nonTerminal nonTerminal).value }) =
        grammar.nonTerminals := by
    refine (List.map_congr_left fun nonTerminal hmem => ?_).trans (List.map_id _)
    rw [hsame nonTerminal hmem]
    rfl
  rw [flatten, hparts, Grammar.addAll, List.foldl_nil, Grammar.map]
  simp only [hkept]

/-- Moving all groups and choices into non-terminals of their own leaves no
    group and no choice at any depth, keeps the words of everything that was
    declared, and has nothing left to do when it is done again. -/
theorem flatten_faithful (hnew : grammar.NamesAreNew) :
    grammar.flatten.IsFlat ∧
      (∀ name ∈ grammar.names, ∀ word,
        grammar.flatten.Yields [.ofName name] word ↔ grammar.Yields [.ofName name] word) ∧
      grammar.flatten.flatten = grammar.flatten := by
  refine ⟨grammar.isFlat_flatten, fun name hname word => ?_, grammar.isFlat_flatten.flatten_eq⟩
  have hnumbers := Numbers.ofName (hnew.declared name hname)
  exact ⟨fun hyields => hyields.of_flatten hnew hnumbers rfl, fun hyields =>
    hyields.flatten hnew hnumbers⟩

namespace Sample

def letters : Alphabet := ⟨["A", "B"], by decide⟩

def a : Kind letters := ⟨⟨0, by decide⟩⟩

def b : Kind letters := ⟨⟨1, by decide⟩⟩

/-- What is repeated in a list. -/
def item : Clause (Kind letters) :=
  .group [.choice [.ofKind a, .group [.ofKind b, .ofName "list"] false] false] false

/-- Items, and in the end nothing, as there is nothing to choose from. -/
def list : Rule (Kind letters) Unit where
  clauses := [.oneOrMore item false, .option (.choice [] false) false]

def nested : Grammar (Kind letters) Unit := Grammar.add (.empty "list") "list" list

/-- Neither `list` nor a name in its rules is one that is made up. -/
theorem namesAreNew_nested : nested.NamesAreNew := ⟨by decide, by decide⟩

/-- Items in a row are a list. -/
theorem yields_list {items : List (List (Kind letters))} (hne : items ≠ [])
    (hitems : ∀ word ∈ items, nested.Yields [item] word) :
    nested.Yields [.ofName "list"] items.flatten := by
  have hclauses : nested.Yields list.clauses (items.flatten ++ []) :=
    .oneOrMore hne hitems (.absent .nil)
  have hrule : ("list", list) ∈ nested.rules := mem_rules_add.2 (Or.inl rfl)
  simpa [Clause.ofName] using Yields.nonTerminal hrule hclauses .nil

theorem yields_item_a : nested.Yields [item] [a] :=
  .group (.choice List.mem_cons_self (.terminal .nil) .nil) .nil

/-- An item may hold a list. -/
theorem yields_item_list {word : List (Kind letters)}
    (hyields : nested.Yields [.ofName "list"] word) :
    nested.Yields [item] (b :: word) := by
  have hgroup : nested.Yields [.group [.ofKind b, .ofName "list"] false] (b :: word ++ []) :=
    .group (.terminal hyields) .nil
  simpa [item] using Yields.group (.choice (List.mem_cons_of_mem _ List.mem_cons_self) hgroup .nil)
    .nil

end Sample

open Sample in
/-- A list with a list in it. -/
theorem flatten_faithful_nested : nested.NamesAreNew ∧ "list" ∈ nested.names ∧
    nested.flatten.Yields [.ofName "list"] [a, b, a] ∧ nested.flatten.flatten = nested.flatten := by
  obtain ⟨-, hsame, hagain⟩ := flatten_faithful namesAreNew_nested
  have hname : "list" ∈ nested.names := by decide
  have hinner : nested.Yields [.ofName "list"] [a] :=
    yields_list (List.cons_ne_nil [a] []) (by simpa using yields_item_a)
  have hyields : nested.Yields [.ofName "list"] [a, b, a] :=
    yields_list (List.cons_ne_nil [a] [[b, a]])
      (by simpa using ⟨yields_item_a, yields_item_list hinner⟩)
  exact ⟨namesAreNew_nested, hname, (hsame "list" hname _).2 hyields, hagain⟩

end Grammar

end GrammarKit
