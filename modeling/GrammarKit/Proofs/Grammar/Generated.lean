import GrammarKit.Proofs.Grammar.FlatLanguage
import GrammarKit.Proofs.Grammar.Layers

namespace GrammarKit

variable {K R : Type}

namespace Precedence

theorem precedences_ne_nil_iff {operations : List (Operation K R)} :
    precedences operations ≠ [] ↔ operations ≠ [] := by
  constructor
  · rintro hne rfl
    exact hne (List.eq_nil_iff_forall_not_mem.2 fun precedence hmem => by
      simpa using mem_precedences.1 hmem)
  · intro hne
    obtain ⟨operation, hoperation⟩ := List.exists_mem_of_ne_nil _ hne
    exact List.ne_nil_of_mem (mem_precedences.2 ⟨operation, hoperation, rfl⟩)

/-- No two layers get the same name. -/
theorem nodup_layerNames (root : String) (operations : List (Operation K R)) :
    (layerNames root operations).Nodup :=
  List.Nodup.map (fun _ _ heq => (layerName_eq_iff.1 heq).2)
    ((pairwise_lt_precedences operations).imp Nat.ne_of_lt)

end Precedence

variable [DecidableEq K] [TokenKind K]

/-- The rules that a list has for a name, in their order. -/
def rulesNamed (name : String) (entries : List (String × Rule K R)) : List (Rule K R) :=
  (entries.filter fun entry => entry.1 = name).map Prod.snd

/-- A list has no rules for a name that does not occur in it. -/
theorem rulesNamed_eq_nil_iff {name : String} {entries : List (String × Rule K R)} :
    rulesNamed name entries = [] ↔ name ∉ entries.map Prod.fst := by
  rw [rulesNamed, List.map_eq_nil_iff, List.filter_eq_nil_iff, List.mem_map]
  constructor
  · rintro hnone ⟨entry, hentry, rfl⟩
    exact hnone entry hentry (decide_eq_true rfl)
  · exact fun hnone entry hentry heq => hnone ⟨entry, hentry, of_decide_eq_true heq⟩

namespace Flat

variable {parent : String}

mutual

/-- The names that are made up for a clause have the numbers that it takes. -/
theorem exists_number_of_mem_clauseNames : ∀ (clause : Clause K) (next : Nat),
    ∀ name ∈ clauseNames R parent next clause, ∃ number, next ≤ number ∧
      number < (Flat.clause (R := R) parent next clause).next ∧ IsPartName parent number name
  | .terminal .., _, _, hname => nomatch hname
  | .nonTerminal .., _, _, hname => nomatch hname
  | .group members _, next, name, hname => by
    obtain ⟨hle, -⟩ := clauses_numbered (R := R) parent members (next + 1)
    rcases List.mem_cons.1 hname with rfl | hname
    · exact ⟨next, Nat.le_refl next, hle, Or.inl rfl⟩
    · obtain ⟨number, hnext, hlt, hpart⟩ := exists_number_of_mem_names members (next + 1) name hname
      exact ⟨number, by omega, hlt, hpart⟩
  | .choice members _, next, name, hname => by
    obtain ⟨hle, -⟩ := clauses_numbered (R := R) parent members (next + 1)
    rw [Flat.clause, next_alternatives]
    rcases List.mem_cons.1 hname with rfl | hname
    · exact ⟨next, Nat.le_refl next, hle, Or.inr rfl⟩
    · obtain ⟨number, hnext, hlt, hpart⟩ := exists_number_of_mem_names members (next + 1) name hname
      exact ⟨number, by omega, hlt, hpart⟩
  | .option inner _, next, name, hname => exists_number_of_mem_clauseNames inner next name hname
  | .zeroOrMore inner _, next, name, hname => exists_number_of_mem_clauseNames inner next name hname
  | .oneOrMore inner _, next, name, hname => exists_number_of_mem_clauseNames inner next name hname

theorem exists_number_of_mem_names : ∀ (clauses : List (Clause K)) (next : Nat),
    ∀ name ∈ names R parent next clauses, ∃ number, next ≤ number ∧
      number < (Flat.clauses (R := R) parent next clauses).next ∧ IsPartName parent number name
  | [], _, _, hname => nomatch hname
  | first :: rest, next, name, hname => by
    obtain ⟨hfirst, -⟩ := clause_numbered (R := R) parent first next
    obtain ⟨hrest, -⟩ := clauses_numbered (R := R) parent rest
      (Flat.clause (R := R) parent next first).next
    rcases List.mem_append.1 hname with hname | hname
    · obtain ⟨number, hnext, hlt, hpart⟩ := exists_number_of_mem_clauseNames first next name hname
      exact ⟨number, hnext, Nat.lt_of_lt_of_le hlt hrest, hpart⟩
    · obtain ⟨number, hnext, hlt, hpart⟩ := exists_number_of_mem_names rest _ name hname
      exact ⟨number, Nat.le_trans hfirst hnext, hlt, hpart⟩

end

/-- A smaller number belongs to none of the names that are made up from `next` on. -/
theorem not_mem_names {number next : Nat} {name : String} (hpart : IsPartName parent number name)
    (hlt : number < next) (clauses : List (Clause K)) : name ∉ names R parent next clauses := by
  intro hname
  obtain ⟨count, hle, -, hcount⟩ := exists_number_of_mem_names clauses next name hname
  obtain ⟨-, rfl⟩ := hpart.inj hcount
  omega

mutual

theorem nodup_clauseNames :
    ∀ (clause : Clause K) (next : Nat), (clauseNames R parent next clause).Nodup
  | .terminal .., _ => .nil
  | .nonTerminal .., _ => .nil
  | .group members _, next =>
    List.nodup_cons.2 ⟨not_mem_names (Or.inl rfl) (Nat.lt_succ_self next) members,
      nodup_names members (next + 1)⟩
  | .choice members _, next =>
    List.nodup_cons.2 ⟨not_mem_names (Or.inr rfl) (Nat.lt_succ_self next) members,
      nodup_names members (next + 1)⟩
  | .option inner _, next => nodup_clauseNames inner next
  | .zeroOrMore inner _, next => nodup_clauseNames inner next
  | .oneOrMore inner _, next => nodup_clauseNames inner next

/-- A non-terminal makes up each name once, as its groups and choices are numbered through. -/
theorem nodup_names :
    ∀ (clauses : List (Clause K)) (next : Nat), (names R parent next clauses).Nodup
  | [], _ => .nil
  | first :: rest, next => by
    refine List.nodup_append'.2 ⟨nodup_clauseNames first next, nodup_names rest _,
      fun name hfirst hrest => ?_⟩
    -- The names of the first clause have smaller numbers than those of the rest.
    obtain ⟨number, -, hlt, hpart⟩ := exists_number_of_mem_clauseNames first next name hfirst
    exact not_mem_names hpart hlt rest hrest

end

end Flat

namespace Precedence

/-- A layer is called like a part only if the root is called like the stem of one. -/
theorem isPartName_layerName_iff {root parent : String} {number precedence : Nat} :
    IsPartName parent number (layerName root precedence) ↔
      (root = parent ++ "__group" ∨ root = parent ++ "__choice") ∧ precedence = number := by
  rw [IsPartName, layerName_eq, Flat.groupName_eq, Flat.choiceName_eq, numbered_eq_iff,
    numbered_eq_iff, or_and_right]

/-- Operators add rules for every layer, and for the root. -/
theorem mem_map_fst_entries {root operand name : String} {operations : List (Operation K R)} :
    name ∈ (entries root operand operations).map Prod.fst ↔
      name ∈ layerNames root operations ∨ operations ≠ [] ∧ name = root := by
  have hmem : name ∈ (entries root operand operations).map Prod.fst ↔
      ∃ rule, (name, rule) ∈ entries root operand operations := by simp
  simp only [hmem, mem_entries, layerNames, List.mem_map]
  constructor
  · rintro ⟨rule, ⟨precedence, next, ⟨lower, higher, hlevels, -⟩, rfl, -⟩ |
      ⟨lowest, higher, hlevels, rfl, -⟩⟩
    · exact Or.inl ⟨precedence, by simp [hlevels], rfl⟩
    · exact Or.inr ⟨precedences_ne_nil_iff.1 (by simp [hlevels]), rfl⟩
  · rintro (⟨precedence, hlevel, rfl⟩ | ⟨hne, rfl⟩)
    · obtain ⟨lower, higher, hlevels⟩ := List.append_of_mem hlevel
      exact ⟨_, Or.inl ⟨precedence, _, ⟨lower, higher, hlevels, rfl⟩, rfl, Or.inr rfl⟩⟩
    · obtain ⟨lowest, higher, hlevels⟩ := List.exists_cons_of_ne_nil (precedences_ne_nil_iff.2 hne)
      exact ⟨_, Or.inr ⟨lowest, higher, hlevels, rfl, rfl⟩⟩

end Precedence

namespace Grammar

open Precedence

variable {grammar : Grammar K R}

/-- A name that is made up is that of a part of a non-terminal. -/
theorem exists_isPartName_of_mem_madeNames {name : String} (hname : name ∈ grammar.madeNames) :
    ∃ parent ∈ grammar.names, ∃ number, IsPartName parent number name := by
  obtain ⟨nonTerminal, hmem, hname⟩ := List.mem_flatMap.1 hname
  obtain ⟨number, -, -, hpart⟩ := Flat.exists_number_of_mem_names _ 0 name hname
  exact ⟨nonTerminal.name, List.mem_map_of_mem hmem, number, hpart⟩

/-- No two groups or choices of a grammar get the same name. -/
theorem nodup_madeNames (grammar : Grammar K R) : grammar.madeNames.Nodup := by
  refine List.nodup_flatMap.2 ⟨fun nonTerminal _ => Flat.nodup_names _ 0, ?_⟩
  refine grammar.sorted.imp fun {first second} hlt name hfirst hsecond => ?_
  obtain ⟨number, -, -, hpart⟩ := Flat.exists_number_of_mem_names _ 0 name hfirst
  obtain ⟨count, -, -, hcount⟩ := Flat.exists_number_of_mem_names _ 0 name hsecond
  exact String.ne_of_lt hlt (hpart.inj hcount).1

/-- Rules go where their name is, whoever uses it: under a name stand the rules
    declared for it, then those of layers, then those of parts. -/
theorem rulesOf_flatten_withLayers (declared : Grammar K R) (root operand : String)
    (operations : List (Operation K R)) (name : String) :
    (declared.withLayers root operand operations).flatten.rulesOf name =
      (Flat.rules name 0 (declared.rulesOf name ++ rulesNamed name
        (entries root operand operations))).value ++
        rulesNamed name (declared.withLayers root operand operations).partRules := by
  rw [rulesOf_flatten, withLayers, rulesOf_addAll]
  rfl

variable {declared : Grammar K R} {root operand name : String} {operations : List (Operation K R)}

/-- Only what stands for parts is found under a name if the name is neither
    declared nor used for the operators. -/
theorem rulesOf_flatten_eq_partRules_iff :
    (declared.withLayers root operand operations).flatten.rulesOf name =
        rulesNamed name (declared.withLayers root operand operations).partRules ↔
      declared.rulesOf name = [] ∧ name ∉ layerNames root operations ∧
      ¬ (operations ≠ [] ∧ name = root) := by
  rw [rulesOf_flatten_withLayers, List.append_left_eq_self, ← List.length_eq_zero_iff,
    Flat.length_value_rules, List.length_eq_zero_iff, List.append_eq_nil_iff, rulesNamed_eq_nil_iff,
      mem_map_fst_entries, not_or]

/-- Only what the operators add is found under a name if the name is neither
    declared nor that of a part. -/
theorem rulesOf_flatten_eq_entries_iff :
    (declared.withLayers root operand operations).flatten.rulesOf name =
        (Flat.rules name 0 (rulesNamed name (entries root operand operations))).value ↔
      declared.rulesOf name = [] ∧
      name ∉ (declared.withLayers root operand operations).partNames := by
  rw [rulesOf_flatten_withLayers, partNames, ← rulesNamed_eq_nil_iff]
  constructor
  · intro heq
    -- Rules may change when they are flattened, but none gets lost, so it is enough to count them.
    have hlength := congrArg List.length heq
    simp only [List.length_append, Flat.length_value_rules] at hlength
    exact ⟨List.length_eq_zero_iff.1 (by omega), List.length_eq_zero_iff.1 (by omega)⟩
  · rintro ⟨hdeclared, hparts⟩
    rw [hdeclared, hparts, List.nil_append, List.append_nil]

end Grammar

end GrammarKit
