import GrammarKit.Proofs.Grammar.Layers

namespace GrammarKit

open Grammar Precedence

variable {K R : Type} [DecidableEq K] [TokenKind K]

namespace Grammar

/-- What stands for clauses does not depend on the outcome of the analysis. -/
theorem Stands.analyse {grammar : Grammar K R} {clauses flats : List (Clause K)}
    (hstands : grammar.Stands clauses flats) :
    grammar.analyse.Stands clauses flats := by
  have hrules {name : String} {rule : Rule K R} (hrule : (name, rule) ∈ grammar.analyse.rules) :
      ∃ before, (name, before) ∈ grammar.rules ∧
        (∀ members, before.IsGroupOf members → rule.IsGroupOf members) ∧
        ∀ flat, before.IsAlternativeOf flat → rule.IsAlternativeOf flat := by
    obtain ⟨before, hbefore, rfl⟩ := mem_rules_analyse.1 hrule
    exact ⟨before, hbefore, fun _ => id, fun _ => id⟩
  induction hstands with
  | nil => exact .nil
  | terminal _ ih => exact .terminal ih
  | nonTerminal _ ih => exact .nonTerminal ih
  | group hgroup _ _ ihMembers ih =>
    refine .group (fun rule hrule => ?_) ihMembers ih
    obtain ⟨before, hbefore, hsame, -⟩ := hrules hrule
    exact hsame _ (hgroup before hbefore)
  | choice hchoice hall _ _ ihMembers ih =>
    refine .choice (fun hne rule hrule => ?_) (fun flat hflat => ?_) ihMembers ih
    · obtain ⟨before, hbefore, -, hsame⟩ := hrules hrule
      obtain ⟨flat, hflat, halternative⟩ := hchoice hne before hbefore
      exact ⟨flat, hflat, hsame flat halternative⟩
    · obtain ⟨before, hbefore, halternative⟩ := hall flat hflat
      exact ⟨_, mem_rules_analyse.2 ⟨before, hbefore, rfl⟩, halternative⟩
  | option _ _ ihInner ih => exact .option ihInner ih
  | zeroOrMore _ _ ihInner ih => exact .zeroOrMore ihInner ih
  | oneOrMore _ _ ihInner ih => exact .oneOrMore ihInner ih

end Grammar

/-- Declared rules and the operators over one of their non-terminals. -/
structure Layering (K R : Type) [DecidableEq K] [TokenKind K] where
  declared : Grammar K R
  root : String
  operand : String
  operations : List (Operation K R)

namespace Layering

/-- The declared rules with those of the layers. -/
def layered (layering : Layering K R) : Grammar K R :=
  layering.declared.withLayers layering.root layering.operand layering.operations

/-- The grammar that tokens are matched against. -/
def grammar (layering : Layering K R) : Grammar K R :=
  layering.layered.flatten.analyse

/-- Whether a name is made up neither for a part nor for a layer. -/
def IsFree (layering : Layering K R) (name : String) : Prop :=
  name ∉ layering.layered.partNames ∧ name ∉ layerNames layering.root layering.operations

/-- Whether a rule only leads on from a name to another one: from a layer to
    what comes next, or from the root to the lowest layer. -/
def PassesTo (layering : Layering K R) (name next : String) : Prop :=
  (∃ precedence, name = layerName layering.root precedence ∧
      LeadsTo layering.root layering.operand layering.operations precedence next) ∨
    ∃ lowest higher, precedences layering.operations = lowest :: higher ∧ name = layering.root ∧
      next = layerName layering.root lowest

/-- Whether the names that are made up for the parts and for the layers are new,
    and differ from each other and from the root. Every rule of the flat grammar
    is then one of a part, or it comes from a single rule that was declared or
    belongs to the layers. -/
structure IsApart (layering : Layering K R) : Prop where
  isPlain : ∀ entry ∈ layering.declared.rules, entry.2.IsPlain
  isFree : ∀ name ∈ layering.declared.names, layering.IsFree name
  operand_mem : layering.operations ≠ [] → layering.operand ∈ layering.declared.names
  partNames : ∀ name ∈ layering.layered.partNames,
    name ≠ layering.root ∧ name ∉ layerNames layering.root layering.operations

variable {layering : Layering K R}

namespace IsApart

variable (hapart : layering.IsApart)
include hapart

/-- The flat grammar is layered. -/
theorem isLayered : layering.grammar.IsLayered layering.root layering.operand layering.operations :=
  (isLayered_flatten hapart.isPlain fun _ hentry => rulesOf_eq_nil fun hname =>
    (hapart.isFree _ hname).1 (List.mem_map_of_mem hentry)).analyse

/-- No rule has the name of a part. -/
theorem partsAreNew (parent : String) : layering.layered.PartsAreNew parent := by
  intro entry hentry
  have hpart : entry.1 ∈ layering.layered.partNames :=
    List.mem_map_of_mem (mem_partRules.2 ⟨parent, hentry⟩)
  obtain ⟨hroot, hlayer⟩ := hapart.partNames entry.1 hpart
  refine List.eq_nil_iff_forall_not_mem.2 fun rule hrule => ?_
  rcases mem_rules_addAll.1 (mem_rules_iff_mem_rulesOf.2 hrule) with hdeclared | hadded
  · exact (hapart.isFree _ (mem_names_of_mem_rules hdeclared)).1 hpart
  · rcases mem_entries.1 hadded with ⟨precedence, _, hnext, heq, _⟩ | ⟨_, _, _, heq, _⟩
    · obtain ⟨lower, higher, hlevels, -⟩ := hnext
      refine hlayer (List.mem_map.2 ⟨precedence, ?_, heq.symm⟩)
      rw [hlevels]
      simp
    · exact hroot heq

/-- What layers lead to is no part. -/
theorem not_mem_partNames_of_leadsTo {precedence : Nat} {next : String}
    (hnext : LeadsTo layering.root layering.operand layering.operations precedence next) :
    next ∉ layering.layered.partNames := by
  intro hpart
  obtain ⟨lower, higher, hlevels, rfl⟩ := hnext
  cases higher with
  | nil =>
    have hlevel : precedence ∈ precedences layering.operations := by simp [hlevels]
    obtain ⟨operation, hoperation, -⟩ := mem_precedences.1 hlevel
    exact (hapart.isFree _ (hapart.operand_mem (List.ne_nil_of_mem hoperation))).1 hpart
  | cons following higher =>
    refine (hapart.partNames _ hpart).2 (List.mem_map_of_mem ?_)
    rw [hlevels]
    simp

/-- A rule of the flat grammar that is not one of a part was declared, or it
    belongs to the layers. -/
theorem exists_rule {name : String} (hname : name ∉ layering.layered.partNames) {index : Nat}
    {flat : Rule K R} (hflat : layering.grammar.rule? name index = some flat) :
    ∃ rule, (layering.declared.rule? name index = some rule ∨
        (name, rule) ∈ entries layering.root layering.operand layering.operations) ∧
      flat.isBypass = rule.isBypass ∧ flat.isSubrule = rule.isSubrule ∧ flat.affix = rule.affix ∧
        flat.reducer = rule.reducer ∧ layering.grammar.Stands rule.clauses flat.clauses := by
  rw [grammar, rule?_analyse, Option.map_eq_some_iff] at hflat
  obtain ⟨before, hbefore, rfl⟩ := hflat
  obtain ⟨rule, flats, hrule, rfl, hstands⟩ :=
    exists_of_rule?_flatten hname (hapart.partsAreNew name) hbefore
  refine ⟨rule, ?_, rfl, rfl, rfl, rfl, hstands.analyse⟩
  rw [rule?_eq_getElem?, layered, withLayers, rulesOf_addAll] at hrule
  rcases Nat.lt_or_ge index (layering.declared.rulesOf name).length with hlt | hle
  · rw [List.getElem?_append_left hlt] at hrule
    exact Or.inl ((rule?_eq_getElem? ..).trans hrule)
  · rw [List.getElem?_append_right hle] at hrule
    obtain ⟨entry, hentry, rfl⟩ := List.mem_map.1 (List.mem_of_getElem? hrule)
    obtain ⟨hmem, heq⟩ := List.mem_filter.1 hentry
    obtain rfl : entry.1 = name := by simpa using heq
    exact Or.inr hmem

theorem exists_rule_of_mem {name : String} (hname : name ∉ layering.layered.partNames)
    {flat : Rule K R} (hflat : (name, flat) ∈ layering.grammar.rules) :
    ∃ rule, ((name, rule) ∈ layering.declared.rules ∨
        (name, rule) ∈ entries layering.root layering.operand layering.operations) ∧
      flat.isBypass = rule.isBypass ∧ layering.grammar.Stands rule.clauses flat.clauses := by
  obtain ⟨index, hindex⟩ := List.mem_iff_getElem?.1 (mem_rules_iff_mem_rulesOf.1 hflat)
  rw [← rule?_eq_getElem?] at hindex
  obtain ⟨rule, hrule, hbypass, -, -, -, hstands⟩ := hapart.exists_rule hname hindex
  exact ⟨rule, hrule.imp_left mem_rules_of_rule?, hbypass, hstands⟩

/-- Whatever leads on leads to no part. -/
theorem not_mem_partNames_of_passesTo {name next : String} (hnext : layering.PassesTo name next) :
    next ∉ layering.layered.partNames := by
  rcases hnext with ⟨_, -, hnext⟩ | ⟨lowest, higher, hlevels, -, rfl⟩
  · exact hapart.not_mem_partNames_of_leadsTo hnext
  · refine fun hpart => (hapart.partNames _ hpart).2 (List.mem_map_of_mem ?_)
    rw [hlevels]
    exact List.mem_cons_self

/-- A rule that only leads on, and is not an alternative of a choice, leads
    through the layers. -/
theorem exists_next {name : String} (hname : name ∉ layering.layered.partNames) {rule : Rule K R}
    (hrule : (name, rule) ∈ layering.grammar.rules) (hbypass : rule.isBypass = true) :
    ∃ next, layering.PassesTo name next ∧ rule.clauses = [.ofName next] := by
  obtain ⟨before, hbefore, hsame, hstands⟩ := hapart.exists_rule_of_mem hname hrule
  rw [hsame] at hbypass
  have hlead {next : String} (hnext : layering.PassesTo name next)
      (heq : before = bypassRule next) :
      ∃ next, layering.PassesTo name next ∧ rule.clauses = [.ofName next] := by
    rw [heq] at hstands
    exact ⟨next, hnext, hstands.eq_ofName⟩
  rcases hbefore with hdeclared | hentry
  · rw [(hapart.isPlain _ hdeclared).1] at hbypass
    cases hbypass
  · rcases mem_entries.1 hentry with
      ⟨precedence, next, hnext, hlayer, ⟨affix, haffix⟩ | heq⟩ |
      ⟨lowest, higher, hlevels, hroot, heq⟩
    · obtain ⟨-, rfl⟩ := affixRule_eq_some_iff.1 haffix
      cases hbypass
    · exact hlead (Or.inl ⟨precedence, hlayer, hnext⟩) heq
    · exact hlead (Or.inr ⟨lowest, higher, hlevels, hroot, rfl⟩) heq

/-- Where a name leads on to another, there is a rule that does nothing else. -/
theorem exists_bypass {name next : String} (hnext : layering.PassesTo name next) :
    ∃ rule, (name, rule) ∈ layering.grammar.rules ∧ rule.isBypass = true ∧
      rule.clauses = [.ofName next] := by
  have hentry : (name, bypassRule next) ∈ entries layering.root layering.operand
      layering.operations := by
    rcases hnext with ⟨precedence, hname, hnext⟩ | ⟨lowest, higher, hlevels, hname, rfl⟩
    · exact mem_entries.2 (Or.inl ⟨precedence, next, hnext, hname, Or.inr rfl⟩)
    · exact mem_entries.2 (Or.inr ⟨lowest, higher, hlevels, hname, rfl⟩)
  obtain ⟨flats, hflats, hstands⟩ := exists_stands_of_mem_rules (hapart.partsAreNew name)
    (mem_rules_addAll.2 (Or.inr hentry))
  exact ⟨_, mem_rules_analyse.2 ⟨_, hflats, rfl⟩, rfl, hstands.eq_ofName⟩

/-- A rule without an operator that does not only lead on, and is not one of a
    part, was declared. -/
theorem exists_declared {name : String} (hname : name ∉ layering.layered.partNames) {index : Nat}
    {flat : Rule K R} (hflat : layering.grammar.rule? name index = some flat)
    (hbypass : flat.isBypass = false) (haffix : flat.affix = none) :
    ∃ rule, layering.declared.rule? name index = some rule ∧ flat.isSubrule = false ∧
      flat.reducer = rule.reducer ∧
      layering.grammar.Stands rule.clauses flat.clauses := by
  obtain ⟨rule, hrule, hbypassEq, hsubrule, haffixEq, hreducer, hstands⟩ :=
    hapart.exists_rule hname hflat
  rw [hbypassEq] at hbypass
  rw [haffixEq] at haffix
  rcases hrule with hrule | hentry
  · have hplain := hapart.isPlain _ (mem_rules_of_rule? hrule)
    exact ⟨rule, hrule, hsubrule.trans hplain.2.1, hreducer, hstands⟩
  · rcases mem_entries.1 hentry with ⟨_, _, _, _, ⟨_, hrule⟩ | rfl⟩ | ⟨_, _, _, _, rfl⟩
    · obtain ⟨-, rfl⟩ := affixRule_eq_some_iff.1 hrule
      cases haffix
    · cases hbypass
    · cases hbypass

end IsApart

end Layering

end GrammarKit
