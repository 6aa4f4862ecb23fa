import GrammarKit.Proofs.Grammar.Leading

namespace GrammarKit

variable {K R : Type} [DecidableEq K] [TokenKind K]

/-- The rule without the outcome of the analysis. -/
def Rule.unanalysed (rule : Rule K R) : Rule K R := { rule with leading := ∅, mayBeEmpty := false }

theorem Rule.clauses_eq_of_unanalysed_eq {rule twin : Rule K R}
    (heq : twin.unanalysed = rule.unanalysed) :
    twin.clauses = rule.clauses :=
  (Rule.mk.inj heq).1

/-- Rules that differ in nothing, the outcome of the analysis included, are equal. -/
theorem Rule.eq_of_unanalysed_eq {rule twin : Rule K R} (heq : twin.unanalysed = rule.unanalysed)
    (hleading : twin.leading = rule.leading) (hempty : twin.mayBeEmpty = rule.mayBeEmpty) :
    twin = rule := by
  obtain ⟨clauses, reducer, affix, operations, isSubrule, isBypass, leading, mayBeEmpty⟩ := rule
  obtain ⟨_, _, _, _, _, _, _, _⟩ := twin
  simp only [unanalysed, mk.injEq, and_true] at heq hleading hempty ⊢
  exact ⟨heq.1, heq.2.1, heq.2.2.1, heq.2.2.2.1, heq.2.2.2.2.1, heq.2.2.2.2.2, hleading, hempty⟩

namespace Grammar

/-- Whether two grammars have the same non-terminals, each with the same rules
    in some order. What an analysis found for the rules is left aside. -/
structure Reorders (grammar other : Grammar K R) : Prop where
  names_eq : grammar.names = other.names
  rules : ∀ name, ((grammar.rulesOf name).map Rule.unanalysed).Perm
    ((other.rulesOf name).map Rule.unanalysed)

variable {grammar other : Grammar K R} {clauses : List (Clause K)} {word : List K} {kind : K}

theorem Reorders.symm (hreorders : grammar.Reorders other) : other.Reorders grammar :=
  ⟨hreorders.names_eq.symm, fun name => (hreorders.rules name).symm⟩

/-- Each rule has a twin among those of the other grammar. -/
theorem Reorders.exists_rule (hreorders : grammar.Reorders other) {name : String} {rule : Rule K R}
    (hrule : (name, rule) ∈ grammar.rules) :
    ∃ twin, (name, twin) ∈ other.rules ∧ twin.unanalysed = rule.unanalysed := by
  have hmem := (hreorders.rules name).subset
    (List.mem_map_of_mem (mem_rules_iff_mem_rulesOf.1 hrule))
  obtain ⟨twin, htwin, heq⟩ := List.mem_map.1 hmem
  exact ⟨twin, mem_rules_iff_mem_rulesOf.2 htwin, heq⟩

/-- Each rule has a twin with the same clauses. -/
theorem Reorders.exists_clauses (hreorders : grammar.Reorders other) (name : String)
    (rule : Rule K R) (hrule : (name, rule) ∈ grammar.rules) :
    ∃ twin, (name, twin) ∈ other.rules ∧ twin.clauses = rule.clauses := by
  obtain ⟨twin, htwin, heq⟩ := hreorders.exists_rule hrule
  exact ⟨twin, htwin, Rule.clauses_eq_of_unanalysed_eq heq⟩

theorem map_unanalysed_rulesOf_analyse (grammar : Grammar K R) (name : String) :
    (grammar.analyse.rulesOf name).map Rule.unanalysed =
      (grammar.rulesOf name).map Rule.unanalysed := by
  rw [analyse_eq_map, rulesOf_map, rulesOf]
  cases grammar.find? name with
  | none => rfl
  | some nonTerminal => simp [NonTerminal.analysed, Rule.analysed, Rule.unanalysed]

/-- The same rules in another order are still the same rules when they are analysed. -/
theorem Reorders.analyse (hreorders : grammar.Reorders other) :
    grammar.analyse.Reorders other.analyse where
  names_eq := by rw [names_analyse, names_analyse, hreorders.names_eq]
  rules name := by
    rw [map_unanalysed_rulesOf_analyse, map_unanalysed_rulesOf_analyse]
    exact hreorders.rules name

/-- The kinds noted for a rule of an analysed grammar are those that its clauses begin with. -/
theorem IsAnalysed.mem_leading_rule_iff (hanalysed : grammar.IsAnalysed) {name : String}
    {rule : Rule K R} (hrule : (name, rule) ∈ grammar.rules) :
    kind ∈ rule.leading ↔ grammar.Begins rule.clauses kind := by
  rw [hanalysed.leading_eq hrule, Rule.first]
  exact ⟨begins_of_mem_firstOfAll begins_of_mem_leadingTable _ kind, Begins.mem_firstOfAll⟩

section Mono

variable (hrules : ∀ (name : String) (rule : Rule K R), (name, rule) ∈ grammar.rules →
  ∃ twin, (name, twin) ∈ other.rules ∧ twin.clauses = rule.clauses)

include hrules

/-- More rules yield more words. -/
theorem Yields.mono (hyields : grammar.Yields clauses word) : other.Yields clauses word := by
  induction hyields with
  | nil => exact .nil
  | terminal _ ih => exact .terminal ih
  | @nonTerminal name _ _ rule _ _ _ hrule _ _ ihRule ihRest =>
    obtain ⟨twin, htwin, heq⟩ := hrules name rule hrule
    exact .nonTerminal htwin (heq ▸ ihRule) ihRest
  | group _ _ ihMembers ihRest => exact .group ihMembers ihRest
  | choice hmember _ _ ihMember ihRest => exact .choice hmember ihMember ihRest
  | absent _ ih => exact .absent ih
  | present _ _ ihInner ihRest => exact .present ihInner ihRest
  | zeroOrMore _ _ ihItems ihRest => exact .zeroOrMore ihItems ihRest
  | oneOrMore hne _ _ ihItems ihRest => exact .oneOrMore hne ihItems ihRest

/-- More rules begin with more kinds. -/
theorem Begins.mono (hbegins : grammar.Begins clauses kind) : other.Begins clauses kind := by
  induction hbegins with
  | terminal => exact .terminal
  | @nonTerminal name _ _ rule _ _ hrule _ ih =>
    obtain ⟨twin, htwin, heq⟩ := hrules name rule hrule
    exact .nonTerminal htwin (heq ▸ ih)
  | group _ ih => exact .group ih
  | choice hmember _ ih => exact .choice hmember ih
  | option _ ih => exact .option ih
  | zeroOrMore _ ih => exact .zeroOrMore ih
  | oneOrMore _ ih => exact .oneOrMore ih
  | skip hyields _ ih => exact .skip (hyields.mono hrules) ih

end Mono

namespace Reorders

variable (hreorders : grammar.Reorders other)

include hreorders

/-- Both grammars yield the same words. -/
theorem yields_iff : grammar.Yields clauses word ↔ other.Yields clauses word :=
  ⟨Yields.mono hreorders.exists_clauses, Yields.mono hreorders.symm.exists_clauses⟩

/-- Both grammars begin with the same kinds. -/
theorem begins_iff : grammar.Begins clauses kind ↔ other.Begins clauses kind :=
  ⟨Begins.mono hreorders.exists_clauses, Begins.mono hreorders.symm.exists_clauses⟩

variable (hanalysed : grammar.IsAnalysed) (hagain : other.IsAnalysed)

include hanalysed hagain

/-- Once both are analysed, a rule of one is a rule of the other, with all that
    was found for it. -/
theorem mem_rules_of_mem {name : String} {rule : Rule K R} (hrule : (name, rule) ∈ grammar.rules) :
    (name, rule) ∈ other.rules := by
  obtain ⟨twin, htwin, heq⟩ := hreorders.exists_rule hrule
  have hclauses := Rule.clauses_eq_of_unanalysed_eq heq
  have hleading : twin.leading = rule.leading := by
    refine KindSet.ext fun kind => ?_
    rw [hagain.mem_leading_rule_iff htwin, hanalysed.mem_leading_rule_iff hrule, hclauses,
      hreorders.begins_iff]
  have hempty : twin.mayBeEmpty = rule.mayBeEmpty := by
    refine Bool.eq_iff_iff.2 ?_
    rw [hagain.mayBeEmpty_eq htwin, hanalysed.mayBeEmpty_eq hrule, Rule.isNullable, Rule.isNullable,
      allNullable_iff, allNullable_iff, hclauses, hreorders.yields_iff]
  exact Rule.eq_of_unanalysed_eq heq hleading hempty ▸ htwin

theorem mem_rules_iff {name : String} {rule : Rule K R} :
    (name, rule) ∈ grammar.rules ↔ (name, rule) ∈ other.rules :=
  ⟨hreorders.mem_rules_of_mem hanalysed hagain, hreorders.symm.mem_rules_of_mem hagain hanalysed⟩

/-- A non-terminal of one is one of the other that begins with the same kinds. -/
theorem exists_find? {name : String} {nonTerminal : NonTerminal K R}
    (hfind : grammar.find? name = some nonTerminal) :
    ∃ twin, other.find? name = some twin ∧ twin.leading = nonTerminal.leading := by
  have hname : name ∈ other.names := by
    rw [← hreorders.names_eq]
    by_contra hnone
    rw [find?_eq_none_iff.2 hnone] at hfind
    cases hfind
  cases htwin : other.find? name with
  | none => exact absurd hname (find?_eq_none_iff.1 htwin)
  | some twin =>
    refine ⟨twin, rfl, KindSet.ext fun kind => ?_⟩
    rw [hagain.mem_leading_iff htwin, hanalysed.mem_leading_iff hfind, hreorders.begins_iff]

end Reorders

end Grammar

end GrammarKit
