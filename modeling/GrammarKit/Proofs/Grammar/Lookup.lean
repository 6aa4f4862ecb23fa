import GrammarKit.Grammar.First
import Mathlib.Data.List.Basic
import Mathlib.Data.List.Nodup

namespace GrammarKit.Grammar

variable {K R : Type} [DecidableEq K] [TokenKind K]

/-- No name has two non-terminals. -/
theorem nodup_names (grammar : Grammar K R) : grammar.names.Nodup := by
  rw [names, List.Nodup, List.pairwise_map]
  refine grammar.sorted.imp ?_
  intro a b hlt heq
  exact String.lt_irrefl _ (heq ▸ hlt)

/-- Names are unique, so a non-terminal is found by its name and nothing else is. -/
theorem find?_eq_some_iff {grammar : Grammar K R} {name : String} {nonTerminal : NonTerminal K R} :
    grammar.find? name = some nonTerminal ↔ nonTerminal ∈ grammar.nonTerminals ∧
    nonTerminal.name = name := by
  constructor
  · intro hfind
    exact ⟨List.mem_of_find?_eq_some hfind, by simpa using List.find?_some hfind⟩
  · rintro ⟨hmem, rfl⟩
    cases hfind : grammar.find? nonTerminal.name with
    | none => simpa using List.find?_eq_none.1 hfind nonTerminal hmem
    | some found =>
      have hname : found.name = nonTerminal.name := by simpa using List.find?_some hfind
      rw [List.inj_on_of_nodup_map grammar.nodup_names (List.mem_of_find?_eq_some hfind) hmem hname]

/-- Nothing is found under a name without a non-terminal. -/
theorem find?_eq_none_iff {grammar : Grammar K R} {name : String} :
    grammar.find? name = none ↔ name ∉ grammar.names := by
  simp [find?, names, List.find?_eq_none]

/-- A change that keeps names is seen by whoever looks a name up. -/
theorem find?_map {grammar : Grammar K R} {change : NonTerminal K R → NonTerminal K R}
    (hname : ∀ nonTerminal, (change nonTerminal).name = nonTerminal.name) (name : String) :
    (grammar.map change hname).find? name = (grammar.find? name).map change := by
  simp only [find?, map, List.find?_map]
  congr 2
  funext nonTerminal
  simp [hname]

theorem names_map {grammar : Grammar K R} {change : NonTerminal K R → NonTerminal K R}
    (hname : ∀ nonTerminal, (change nonTerminal).name = nonTerminal.name) :
    (grammar.map change hname).names = grammar.names := by
  simp [names, map, hname]

theorem rule?_eq_some_iff {grammar : Grammar K R} {name : String} {index : Nat} {rule : Rule K R} :
    grammar.rule? name index = some rule ↔
      ∃ nonTerminal, grammar.find? name = some nonTerminal ∧
        nonTerminal.rules[index]? = some rule := by
  simp [rule?, Option.bind_eq_some_iff]

/-- The rules of a grammar are those of its non-terminals. -/
theorem mem_rules_iff {grammar : Grammar K R} {name : String} {rule : Rule K R} :
    (name, rule) ∈ grammar.rules ↔ ∃ nonTerminal, grammar.find? name = some nonTerminal ∧
    rule ∈ nonTerminal.rules := by
  simp only [rules, List.mem_flatMap, List.mem_map, Prod.mk.injEq, find?_eq_some_iff]
  grind

theorem mem_rules_of_rule? {grammar : Grammar K R} {name : String} {index : Nat} {rule : Rule K R}
    (hrule : grammar.rule? name index = some rule) : (name, rule) ∈ grammar.rules := by
  obtain ⟨nonTerminal, hfind, hindex⟩ := rule?_eq_some_iff.1 hrule
  exact mem_rules_iff.2 ⟨nonTerminal, hfind, List.mem_of_getElem? hindex⟩

/-- The place of a rule is its place among the rules of its name. -/
theorem rule?_eq_getElem? (grammar : Grammar K R) (name : String) (index : Nat) :
    grammar.rule? name index = (grammar.rulesOf name)[index]? := by
  rw [rule?, rulesOf]
  cases grammar.find? name <;> rfl

/-- A rule belongs to a grammar under the name that it stands under. -/
theorem mem_rules_iff_mem_rulesOf {grammar : Grammar K R} {name : String} {rule : Rule K R} :
    (name, rule) ∈ grammar.rules ↔ rule ∈ grammar.rulesOf name := by
  rw [mem_rules_iff, rulesOf]
  cases grammar.find? name <;> simp

theorem mem_names_of_mem_rules {grammar : Grammar K R} {name : String} {rule : Rule K R}
    (hrule : (name, rule) ∈ grammar.rules) : name ∈ grammar.names := by
  obtain ⟨nonTerminal, hfind, -⟩ := mem_rules_iff.1 hrule
  obtain ⟨hmem, rfl⟩ := find?_eq_some_iff.1 hfind
  exact List.mem_map_of_mem hmem

theorem rulesOf_eq_nil {grammar : Grammar K R} {name : String} (hname : name ∉ grammar.names) :
    grammar.rulesOf name = [] := by
  rw [rulesOf, find?_eq_none_iff.2 hname]
  rfl

/-- The rules of a non-terminal are those of its name. -/
theorem rulesOf_name {grammar : Grammar K R} {nonTerminal : NonTerminal K R}
    (hmem : nonTerminal ∈ grammar.nonTerminals) :
    grammar.rulesOf nonTerminal.name = nonTerminal.rules := by
  rw [rulesOf, find?_eq_some_iff.2 ⟨hmem, rfl⟩]
  rfl

/-- The rules of a name are those of the non-terminal that it was changed to. -/
theorem rulesOf_map {grammar : Grammar K R} {change : NonTerminal K R → NonTerminal K R}
    (hname : ∀ nonTerminal, (change nonTerminal).name = nonTerminal.name) (name : String) :
    (grammar.map change hname).rulesOf name =
      (grammar.find? name).elim [] fun nonTerminal => (change nonTerminal).rules := by
  rw [rulesOf, find?_map]
  cases grammar.find? name <;> rfl

/-- Rules that are added come behind those that a name has, in their order. -/
theorem rulesOf_addAll (grammar : Grammar K R) (entries : List (String × Rule K R))
    (name : String) :
    (grammar.addAll entries).rulesOf name =
      grammar.rulesOf name ++ (entries.filter fun entry => entry.1 = name).map Prod.snd := by
  induction entries generalizing grammar with
  | nil => simp [addAll]
  | cons first rest ih =>
    have hrest : (grammar.addAll (first :: rest)).rulesOf name =
        (grammar.add first.1 first.2).rulesOf name ++ (rest.filter fun entry => entry.1 = name).map
        Prod.snd := ih _
    rw [hrest, rulesOf_add]
    by_cases hname : first.1 = name
    · simp [hname]
    · simp [hname, Ne.symm hname]

theorem start_addAll (grammar : Grammar K R) (entries : List (String × Rule K R)) :
    (grammar.addAll entries).start = grammar.start := by
  induction entries generalizing grammar with
  | nil => rfl
  | cons first rest ih => exact ih _

/-- Adding rules adds their names and no others. -/
theorem mem_names_addAll {grammar : Grammar K R} {entries : List (String × Rule K R)}
    {name : String} :
    name ∈ (grammar.addAll entries).names ↔ name ∈ grammar.names ∨ name ∈ entries.map Prod.fst := by
  induction entries generalizing grammar with
  | nil => simp [addAll]
  | cons first rest ih =>
    have hrest : name ∈ (grammar.addAll (first :: rest)).names ↔
        name ∈ (grammar.add first.1 first.2).names ∨ name ∈ rest.map Prod.fst := ih
    rw [hrest, mem_names_add, List.map_cons, List.mem_cons, or_assoc, or_left_comm]

/-- Adding rules keeps the rules there are. -/
theorem mem_rules_addAll {grammar : Grammar K R} {entries : List (String × Rule K R)}
    {entry : String × Rule K R} :
    entry ∈ (grammar.addAll entries).rules ↔ entry ∈ grammar.rules ∨ entry ∈ entries := by
  obtain ⟨name, rule⟩ := entry
  simp [mem_rules_iff_mem_rulesOf, rulesOf_addAll]

end GrammarKit.Grammar
