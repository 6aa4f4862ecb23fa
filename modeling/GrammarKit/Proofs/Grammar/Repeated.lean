import GrammarKit.Proofs.Grammar.Layering
import GrammarKit.SyntaxTree

namespace GrammarKit

variable {K R : Type}

namespace Clause

mutual

/-- The clauses that are repeated in a clause, at any depth. -/
def repeated : Clause K → List (Clause K)
  | terminal .. | nonTerminal .. => []
  | group clauses _ => repeatedIn clauses
  | choice alternatives _ => repeatedIn alternatives
  | option inner _ => repeated inner
  | zeroOrMore inner _ | oneOrMore inner _ => inner :: repeated inner

def repeatedIn : List (Clause K) → List (Clause K)
  | [] => []
  | clause :: rest => repeated clause ++ repeatedIn rest

end

/-- What is repeated in clauses is repeated in one of them. -/
theorem mem_repeatedIn {clauses : List (Clause K)} {inner : Clause K} :
    inner ∈ repeatedIn clauses ↔ ∃ clause ∈ clauses, inner ∈ clause.repeated := by
  induction clauses with
  | nil => simp [repeatedIn]
  | cons first rest ih => simp [repeatedIn, ih]

theorem mem_repeatedIn_singleton {clause inner : Clause K} :
    inner ∈ repeatedIn [clause] ↔ inner ∈ clause.repeated := by
  simp [mem_repeatedIn]

/-- Whether what holds of clauses holds of all that they are made of. -/
structure IsHereditary (holds : Clause K → Prop) (holdIn : List (Clause K) → Prop) : Prop where
  head : ∀ {clause rest}, holdIn (clause :: rest) → holds clause
  tail : ∀ {clause rest}, holdIn (clause :: rest) → holdIn rest
  group : ∀ {clauses discarded}, holds (.group clauses discarded) → holdIn clauses
  choice : ∀ {alternatives discarded}, holds (.choice alternatives discarded) → holdIn alternatives
  option : ∀ {inner discarded}, holds (.option inner discarded) → holds inner
  zeroOrMore : ∀ {inner discarded}, holds (.zeroOrMore inner discarded) → holds inner
  oneOrMore : ∀ {inner discarded}, holds (.oneOrMore inner discarded) → holds inner

namespace IsHereditary

variable {holds : Clause K → Prop} {holdIn : List (Clause K) → Prop}
    (hhereditary : IsHereditary holds holdIn)
include hhereditary

mutual

/-- A clause that is repeated is what a repetition is made of, and what holds of
    a clause holds of its repetitions. -/
theorem exists_of_mem_repeated :
    ∀ {clause inner : Clause K}, holds clause → inner ∈ clause.repeated →
    ∃ discarded, holds (.zeroOrMore inner discarded) ∨ holds (.oneOrMore inner discarded)
  | .terminal .., _, _, hinner | .nonTerminal .., _, _, hinner => nomatch hinner
  | .group _ _, _, hclause, hinner => exists_of_mem_repeatedIn (hhereditary.group hclause) hinner
  | .choice _ _, _, hclause, hinner => exists_of_mem_repeatedIn (hhereditary.choice hclause) hinner
  | .option _ _, _, hclause, hinner => exists_of_mem_repeated (hhereditary.option hclause) hinner
  | .zeroOrMore _ discarded, _, hclause, hinner => by
    rcases List.mem_cons.1 hinner with rfl | hinner
    · exact ⟨discarded, Or.inl hclause⟩
    · exact exists_of_mem_repeated (hhereditary.zeroOrMore hclause) hinner
  | .oneOrMore _ discarded, _, hclause, hinner => by
    rcases List.mem_cons.1 hinner with rfl | hinner
    · exact ⟨discarded, Or.inr hclause⟩
    · exact exists_of_mem_repeated (hhereditary.oneOrMore hclause) hinner

theorem exists_of_mem_repeatedIn :
    ∀ {clauses : List (Clause K)} {inner : Clause K}, holdIn clauses →
    inner ∈ repeatedIn clauses → ∃ discarded, holds (.zeroOrMore inner discarded) ∨
    holds (.oneOrMore inner discarded)
  | [], _, _, hinner => nomatch hinner
  | _ :: _, _, hclauses, hinner => by
    rcases List.mem_append.1 hinner with hinner | hinner
    · exact exists_of_mem_repeated (hhereditary.head hclauses) hinner
    · exact exists_of_mem_repeatedIn (hhereditary.tail hclauses) hinner

end

/-- What holds of clauses holds of each one that is repeated in them. -/
theorem of_mem_repeatedIn {clauses : List (Clause K)} {inner : Clause K} (hclauses : holdIn clauses)
    (hinner : inner ∈ repeatedIn clauses) : holds inner := by
  obtain ⟨_, hrepetition | hrepetition⟩ := hhereditary.exists_of_mem_repeatedIn hclauses hinner
  · exact hhereditary.zeroOrMore hrepetition
  · exact hhereditary.oneOrMore hrepetition

end IsHereditary

end Clause

variable [DecidableEq K] [TokenKind K]

namespace Grammar

/-- The forms of what matches of a clause are reduced to: none where that is not
    a single value. A rule that only leads on passes on what its clause is
    reduced to, and so does an option that does not expect the form. -/
inductive CanBe (grammar : Grammar K R) : Clause K → Option Shape → Prop
  | terminal {kind : K} {discarded : Bool} : CanBe grammar (.terminal kind discarded) (some .token)
  | passedOn {name : String} {role : Role} {discarded : Bool} {rule : Rule K R} {clause : Clause K}
      {form : Option Shape} : (name, rule) ∈ grammar.rules → rule.isBypass = true →
        rule.clauses = [clause] → CanBe grammar clause form →
        CanBe grammar (.nonTerminal name role discarded) form
  | node {name : String} {role : Role} {discarded : Bool} {rule : Rule K R} :
      (name, rule) ∈ grammar.rules → rule.isBypass = false →
        CanBe grammar (.nonTerminal name role discarded)
          (some (if rule.isSubrule then .group else .value))
  | absent {inner : Clause K} {discarded : Bool} : CanBe grammar (.option inner discarded) none
  | present {inner : Clause K} {discarded : Bool} {form : Option Shape} :
      CanBe grammar inner form →
        CanBe grammar (.option inner discarded) (if form = some inner.shape then none else form)
  | zeroOrMore {inner : Clause K} {discarded : Bool} :
      CanBe grammar (.zeroOrMore inner discarded) none
  | oneOrMore {inner : Clause K} {discarded : Bool} :
      CanBe grammar (.oneOrMore inner discarded) none

/-- Whether the matches of every clause that is repeated have the form that its
    repetition collects, and no other. A repetition collects values of one form
    only, so nothing is lost then. -/
def KeepsItems (grammar : Grammar K R) : Prop :=
  ∀ entry ∈ grammar.rules, ∀ inner ∈ Clause.repeatedIn entry.2.clauses, ∀ form,
    grammar.CanBe inner form →
    form = some inner.shape

end Grammar

namespace Flat

open Clause Grammar

variable {grammar : Grammar K R} {parent : String}

/-- The clauses that are repeated in rules. -/
def repeatedRules (entries : List (String × Rule K R)) : List (Clause K) :=
  entries.flatMap fun entry => repeatedIn entry.2.clauses

theorem mem_repeatedRules {entries : List (String × Rule K R)} {inner : Clause K} :
    inner ∈ repeatedRules entries ↔ ∃ entry ∈ entries, inner ∈ repeatedIn entry.2.clauses :=
  List.mem_flatMap

theorem repeatedRules_append (entries others : List (String × Rule K R)) :
    repeatedRules (entries ++ others) = repeatedRules entries ++ repeatedRules others :=
  List.flatMap_append

mutual

/-- What is repeated in a flat clause, or in the rules that were made for its
    parts, stands for a clause that was repeated before. -/
theorem exists_of_mem_repeated : ∀ {clause : Clause K} {next : Nat} {flat : Clause K},
    grammar.Owns (Flat.clause parent next clause).rules →
      flat ∈ (Flat.clause (R := R) parent next clause).value.repeated ++
          repeatedRules (Flat.clause (R := R) parent next clause).rules →
        ∃ original ∈ clause.repeated, grammar.Stands [original] [flat]
  | .terminal .., _, _, _, hflat | .nonTerminal .., _, _, _, hflat => nomatch hflat
  | .group members _, next, flat, howns, hflat => by
    refine exists_of_mem_repeatedIn (owns_members_of_group howns) ?_
    rw [Flat.clause, repeatedRules_append] at hflat
    simpa [repeated, repeatedRules, or_comm] using hflat
  | .choice members _, next, flat, howns, hflat => by
    refine exists_of_mem_repeatedIn (owns_members_of_choice howns) (List.mem_append.2 ?_)
    obtain ⟨entry, hentry, hflat⟩ := mem_repeatedRules.1 hflat
    rcases mem_rules_alternatives.1 hentry with hentry | ⟨alternative, halternative, rfl⟩
    · exact Or.inr (mem_repeatedRules.2 ⟨entry, hentry, hflat⟩)
    · obtain ⟨_, hsingle, hrepeated⟩ := mem_repeatedIn.1 hflat
      obtain rfl := List.mem_singleton.1 hsingle
      exact Or.inl (mem_repeatedIn.2 ⟨_, halternative, hrepeated⟩)
  | .option inner _, next, flat, howns, hflat => @exists_of_mem_repeated inner _ _ howns hflat
  | .zeroOrMore inner _, next, flat, howns, hflat => by
    rcases List.mem_cons.1 hflat with rfl | hflat
    · exact ⟨inner, List.mem_cons_self, clause_stands parent inner next howns⟩
    · obtain ⟨original, horiginal, hstands⟩ := @exists_of_mem_repeated inner _ _ howns hflat
      exact ⟨original, List.mem_cons_of_mem _ horiginal, hstands⟩
  | .oneOrMore inner _, next, flat, howns, hflat => by
    rcases List.mem_cons.1 hflat with rfl | hflat
    · exact ⟨inner, List.mem_cons_self, clause_stands parent inner next howns⟩
    · obtain ⟨original, horiginal, hstands⟩ := @exists_of_mem_repeated inner _ _ howns hflat
      exact ⟨original, List.mem_cons_of_mem _ horiginal, hstands⟩

theorem exists_of_mem_repeatedIn : ∀ {clauses : List (Clause K)} {next : Nat} {flat : Clause K},
    grammar.Owns (Flat.clauses parent next clauses).rules →
      flat ∈ repeatedIn (Flat.clauses (R := R) parent next clauses).value ++
          repeatedRules (Flat.clauses (R := R) parent next clauses).rules →
        ∃ original ∈ repeatedIn clauses, grammar.Stands [original] [flat]
  | [], _, _, _, hflat => nomatch hflat
  | first :: rest, next, flat, howns, hflat => by
    obtain ⟨hfirst, hrest⟩ := owns_of_cons howns
    simp only [Flat.clauses, repeatedIn, repeatedRules_append, List.mem_append] at hflat
    rw [repeatedIn]
    -- What is repeated in the first clause and in its parts stands on both sides.
    rcases hflat with (hvalue | hvalue) | hpart | hpart
    · obtain ⟨original, horiginal, hstands⟩ :=
        exists_of_mem_repeated hfirst (List.mem_append_left _ hvalue)
      exact ⟨original, List.mem_append_left _ horiginal, hstands⟩
    · obtain ⟨original, horiginal, hstands⟩ :=
        exists_of_mem_repeatedIn hrest (List.mem_append_left _ hvalue)
      exact ⟨original, List.mem_append_right _ horiginal, hstands⟩
    · obtain ⟨original, horiginal, hstands⟩ :=
        exists_of_mem_repeated hfirst (List.mem_append_right _ hpart)
      exact ⟨original, List.mem_append_left _ horiginal, hstands⟩
    · obtain ⟨original, horiginal, hstands⟩ :=
        exists_of_mem_repeatedIn hrest (List.mem_append_right _ hpart)
      exact ⟨original, List.mem_append_right _ horiginal, hstands⟩

end

/-- What is repeated in flat rules and in their parts stands for what was
    repeated in the rules. -/
theorem exists_of_mem_repeated_rules {rules : List (Rule K R)} {next : Nat} {flat : Clause K}
    (howns : grammar.Owns (Flat.rules parent next rules).rules)
    (hflat : (∃ rule ∈ (Flat.rules parent next rules).value, flat ∈ repeatedIn rule.clauses) ∨
      flat ∈ repeatedRules (Flat.rules parent next rules).rules) :
    ∃ rule ∈ rules, ∃ original ∈ repeatedIn rule.clauses, grammar.Stands [original] [flat] := by
  induction rules generalizing next with
  | nil => rcases hflat with ⟨_, hrule, -⟩ | hflat <;> contradiction
  | cons first rest ih =>
    obtain ⟨hfirst, hrest⟩ := owns_of_rules_cons howns
    simp only [Flat.rules, List.exists_mem_cons_iff, repeatedRules_append, List.mem_append]
      at hflat ⊢
    rcases hflat with (hvalue | hvalue) | hpart | hpart
    · exact Or.inl (exists_of_mem_repeatedIn hfirst (List.mem_append_left _ hvalue))
    · exact Or.inr (ih hrest (Or.inl hvalue))
    · exact Or.inl (exists_of_mem_repeatedIn hfirst (List.mem_append_right _ hpart))
    · exact Or.inr (ih hrest (Or.inr hpart))

end Flat

namespace Grammar

open Clause

/-- What a flat grammar repeats stands for what the grammar repeated before, if
    the names of the parts are new. -/
theorem exists_of_mem_repeated_flatten {grammar : Grammar K R}
    (hnew : ∀ parent, grammar.PartsAreNew parent) {name : String} {rule : Rule K R}
    (hrule : (name, rule) ∈ grammar.flatten.rules) {flat : Clause K}
    (hflat : flat ∈ repeatedIn rule.clauses) :
    ∃ entry ∈ grammar.rules, ∃ original ∈ repeatedIn entry.2.clauses,
      grammar.flatten.Stands [original] [flat] := by
  have hparent (parent : String)
      (hflat : (∃ rule ∈ (Flat.rules parent 0 (grammar.rulesOf parent)).value,
        flat ∈ repeatedIn rule.clauses) ∨
        flat ∈ Flat.repeatedRules (Flat.rules parent 0 (grammar.rulesOf parent)).rules) :
      ∃ entry ∈ grammar.rules, ∃ original ∈ repeatedIn entry.2.clauses,
      grammar.flatten.Stands [original] [flat] := by
    obtain ⟨rule, hrule, hstands⟩ := Flat.exists_of_mem_repeated_rules (hnew parent).owns hflat
    exact ⟨(parent, rule), mem_rules_iff_mem_rulesOf.2 hrule, hstands⟩
  rcases mem_rules_flatten.1 hrule with hvalue | hpart
  · exact hparent name (Or.inl ⟨rule, hvalue, hflat⟩)
  · obtain ⟨parent, hentry⟩ := mem_partRules.1 hpart
    exact hparent parent (Or.inr (Flat.mem_repeatedRules.2 ⟨_, hentry, hflat⟩))

end Grammar

namespace Layering

open Clause Grammar Precedence

variable {layering : Layering K R}

omit [DecidableEq K] [TokenKind K] in
/-- The clauses of operators repeat nothing. -/
theorem repeatedIn_affixClauses (name next : String) (operations : List (Operation K R))
    (affix : Affix) :
    repeatedIn (affixClauses name next (operatorClause operations) affix) = [] := by
  have hoperator : (operatorClause operations).repeated = [] := by
    unfold operatorClause
    split
    · rfl
    · refine List.eq_nil_iff_forall_not_mem.2 fun inner hinner => ?_
      obtain ⟨clause, hclause, hrepeated⟩ := mem_repeatedIn.1 hinner
      obtain ⟨operation, -, rfl⟩ := List.mem_map.1 hclause
      cases hrepeated
  cases affix <;> simp [affixClauses, repeatedIn, Clause.ofName, repeated, hoperator]

/-- The layers of operators repeat nothing, so what the grammar repeats stands
    for what the declared rules repeat. -/
theorem IsApart.exists_of_mem_repeated (hapart : layering.IsApart) {name : String} {rule : Rule K R}
    (hrule : (name, rule) ∈ layering.grammar.rules) {flat : Clause K}
    (hflat : flat ∈ repeatedIn rule.clauses) :
    ∃ entry ∈ layering.declared.rules, ∃ original ∈ repeatedIn entry.2.clauses,
      layering.grammar.Stands [original] [flat] := by
  obtain ⟨before, hbefore, rfl⟩ := mem_rules_analyse.1 hrule
  obtain ⟨⟨owner, original⟩, hentry, inner, hinner, hstands⟩ :=
    exists_of_mem_repeated_flatten hapart.partsAreNew hbefore hflat
  rcases mem_rules_addAll.1 hentry with hdeclared | hadded
  · exact ⟨_, hdeclared, inner, hinner, hstands.analyse⟩
  · rcases mem_entries.1 hadded with ⟨_, _, _, _, ⟨affix, haffix⟩ | rfl⟩ | ⟨_, _, _, _, rfl⟩
    · obtain ⟨-, rfl⟩ := affixRule_eq_some_iff.1 haffix
      rw [repeatedIn_affixClauses] at hinner
      cases hinner
    · cases hinner
    · cases hinner

/-- A rule that is neither one of a part nor leads on is that of a result. -/
theorem IsApart.isSubrule_eq_false (hapart : layering.IsApart) {name : String}
    (hname : name ∉ layering.layered.partNames) {rule : Rule K R}
    (hrule : (name, rule) ∈ layering.grammar.rules) (hbypass : rule.isBypass = false) :
    rule.isSubrule = false := by
  cases haffix : rule.affix with
  | none =>
    obtain ⟨index, hindex⟩ := List.mem_iff_getElem?.1 (mem_rules_iff_mem_rulesOf.1 hrule)
    rw [← rule?_eq_getElem?] at hindex
    obtain ⟨_, -, hsubrule, -⟩ := hapart.exists_declared hname hindex hbypass haffix
    exact hsubrule
  | some affix => exact (hapart.isLayered.not_isBypass hrule haffix).2

/-- What is not called like a part is always reduced to a result. -/
theorem IsApart.eq_of_canBe (hapart : layering.IsApart) {name : String} {role : Role}
    {discarded : Bool} {form : Option Shape}
    (hform : layering.grammar.CanBe (.nonTerminal name role discarded) form)
    (hname : name ∉ layering.layered.partNames) : form = some .value := by
  generalize hclause : (Clause.nonTerminal name role discarded : Clause K) = clause at hform
  induction hform generalizing name role discarded with
  | passedOn hrule hbypass hclauses _ ih =>
    obtain ⟨rfl, -, -⟩ := Clause.nonTerminal.inj hclause
    obtain ⟨next, hnext, hlead⟩ := hapart.exists_next hname hrule hbypass
    exact ih (hapart.not_mem_partNames_of_passesTo hnext)
      (List.singleton_inj.1 (hlead.symm.trans hclauses))
  | node hrule hbypass =>
    obtain ⟨rfl, -, -⟩ := Clause.nonTerminal.inj hclause
    rw [hapart.isSubrule_eq_false hname hrule hbypass]
    rfl
  | terminal | absent | present | zeroOrMore | oneOrMore => cases hclause

end Layering

end GrammarKit
