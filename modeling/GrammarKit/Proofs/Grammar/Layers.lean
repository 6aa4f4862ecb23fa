import GrammarKit.Proofs.Grammar.Flattening
import GrammarKit.Proofs.Grammar.Prepared
import Mathlib.Data.List.Sort

namespace GrammarKit

variable {K R : Type}

namespace Precedence

theorem nodup_eraseDups {α : Type} [DecidableEq α] : ∀ items : List α, items.eraseDups.Nodup
  | [] => by simp
  | first :: rest => by
    rw [List.eraseDups_cons, List.nodup_cons]
    exact ⟨by simp [List.mem_eraseDups], nodup_eraseDups _⟩
termination_by items => items.length
decreasing_by
  have := List.length_filter_le (fun item => !item == first) rest
  simp only [List.length_cons]
  omega

/-- The precedences are those of the operators. -/
theorem mem_precedences {operations : List (Operation K R)} {precedence : Nat} :
    precedence ∈ precedences operations ↔ ∃ operation ∈ operations,
      operation.precedence = precedence := by
  rw [precedences, (List.mergeSort_perm _ _).mem_iff, List.mem_eraseDups, List.mem_map]

/-- Every precedence is listed once, the lower ones first. -/
theorem pairwise_lt_precedences (operations : List (Operation K R)) :
    (precedences operations).Pairwise (· < ·) := by
  have hle := List.pairwise_mergeSort' (fun a b : Nat => a ≤ b)
    (operations.map fun operation => operation.precedence).eraseDups
  have hne : (precedences operations).Pairwise (· ≠ ·) :=
    (List.mergeSort_perm _ _).nodup_iff.2 (nodup_eraseDups _)
  exact (hle.and hne).imp fun h => Nat.lt_of_le_of_ne h.1 h.2

/-- Nothing but the list of all precedences in ascending order is the list of precedences. -/
theorem precedences_eq {operations : List (Operation K R)} {levels : List Nat}
    (hlevels : levels.Pairwise (· < ·))
    (hmem : ∀ precedence, precedence ∈ levels ↔ precedence ∈ operations.map fun operation =>
      operation.precedence) :
    precedences operations = levels := by
  refine List.Perm.eq_of_pairwise' (pairwise_lt_precedences operations) hlevels ?_
  refine (List.perm_ext_iff_of_nodup ?_ ?_).2 fun precedence => ?_
  · exact (pairwise_lt_precedences operations).imp Nat.ne_of_lt
  · exact hlevels.imp Nat.ne_of_lt
  · rw [mem_precedences, hmem, List.mem_map]

@[simp] theorem precedences_nil : precedences ([] : List (Operation K R)) = [] :=
  precedences_eq .nil (by simp)

variable [DecidableEq K] [TokenKind K]

/-- The names of the layers, from the lowest precedence up. -/
def layerNames (root : String) (operations : List (Operation K R)) : List String :=
  (precedences operations).map (layerName root)

omit [DecidableEq K] [TokenKind K] in
@[simp] theorem layerNames_nil (root : String) :
    layerNames root ([] : List (Operation K R)) = [] := by
  rw [layerNames, precedences_nil, List.map_nil]

/-- What the operands in front of the layers `higher` belong to. -/
def layerBefore (root operand : String) : List Nat → String
  | [] => operand
  | following :: _ => layerName root following

/-- Whether the layer of a precedence leads to `next`. The layers make up a
    chain: each one leads to the next, and the last one to the operand. -/
def LeadsTo (root operand : String) (operations : List (Operation K R)) (precedence : Nat)
    (next : String) : Prop :=
  ∃ lower higher, precedences operations = lower ++ precedence :: higher ∧
    next = layerBefore root operand higher

theorem layers_cons (root operand : String) (operations : List (Operation K R)) (precedence : Nat)
    (higher : List Nat) :
    layers root operand operations (precedence :: higher) =
      layerRules (layerName root precedence) (layerBefore root operand higher)
          (operations.filter fun operation => operation.precedence = precedence) ++
        layers root operand operations higher := by
  cases higher <;> rfl

/-- A rule of a layer is one that its own operators give rise to. -/
theorem mem_layers {root operand : String} {operations : List (Operation K R)} {levels : List Nat}
    {entry : String × Rule K R} :
    entry ∈ layers root operand operations levels ↔
      ∃ lower precedence higher, levels = lower ++ precedence :: higher ∧
      entry ∈ layerRules (layerName root precedence) (layerBefore root operand higher)
        (operations.filter fun operation => operation.precedence = precedence) := by
  induction levels with
  | nil => simp [layers]
  | cons first rest ih =>
    rw [layers_cons, List.mem_append, ih]
    constructor
    · rintro (hentry | ⟨lower, precedence, higher, rfl, hentry⟩)
      · exact ⟨[], first, rest, rfl, hentry⟩
      · exact ⟨first :: lower, precedence, higher, rfl, hentry⟩
    · rintro ⟨lower, precedence, higher, heq, hentry⟩
      cases lower with
      | nil =>
        obtain ⟨rfl, rfl⟩ := List.cons.inj heq
        exact Or.inl hentry
      | cons _ lower =>
        obtain ⟨rfl, rfl⟩ := List.cons.inj heq
        exact Or.inr ⟨lower, precedence, higher, rfl, hentry⟩

/-- A layer has a rule for each affix of its operators, and one that leads on. -/
theorem mem_layerRules {name next owner : String} {level : List (Operation K R)} {rule : Rule K R} :
    (owner, rule) ∈ layerRules name next level ↔
      owner = name ∧ ((∃ affix, affixRule name next affix level = some rule) ∨
        rule = bypassRule next) := by
  simp only [layerRules, List.mem_append, List.mem_map, List.mem_filterMap, List.mem_singleton,
    Prod.mk.injEq]
  constructor
  · rintro (⟨_, ⟨affix, -, hrule⟩, rfl, rfl⟩ | ⟨rfl, rfl⟩)
    · exact ⟨rfl, Or.inl ⟨affix, hrule⟩⟩
    · exact ⟨rfl, Or.inr rfl⟩
  · rintro ⟨rfl, ⟨affix, hrule⟩ | rfl⟩
    · exact Or.inl ⟨rule, ⟨affix, by cases affix <;> simp, hrule⟩, rfl, rfl⟩
    · exact Or.inr ⟨rfl, rfl⟩

/-- The rules that operators over the operand give rise to. -/
def entries (root operand : String) (operations : List (Operation K R)) :
    List (String × Rule K R) :=
  match precedences operations with
  | [] => []
  | lowest :: higher =>
    layers root operand operations (lowest :: higher) ++
      [(root, bypassRule (layerName root lowest))]

/-- Without operators there is nothing to add, whatever the operands. -/
theorem exists_entries_of_rules {root : String} {operands : List String}
    {operations : List (Operation K R)} {added : List (String × Rule K R)}
    (hrules : rules root operands operations = .ok added) :
    ∃ operand, added = entries root operand operations ∧
      (operations ≠ [] → operands = [operand]) := by
  rw [rules] at hrules
  cases hlevels : precedences operations with
  | nil =>
    rw [hlevels] at hrules
    refine ⟨"", by rw [entries, hlevels]; exact (Except.ok.inj hrules).symm, fun hne => ?_⟩
    obtain ⟨operation, hoperation⟩ := List.exists_mem_of_ne_nil _ hne
    have hmem : operation.precedence ∈ precedences operations :=
      mem_precedences.2 ⟨operation, hoperation, rfl⟩
    rw [hlevels] at hmem
    cases hmem
  | cons lowest higher =>
    rw [hlevels] at hrules
    match operands, hrules with
    | [operand], hrules =>
      exact ⟨operand, by rw [entries, hlevels]; exact (Except.ok.inj hrules).symm, fun _ => rfl⟩

/-- A rule of operators, or one that only leads on: from a layer to what comes
    next, or from the root to the lowest layer. -/
theorem mem_entries {root operand name : String} {operations : List (Operation K R)}
    {rule : Rule K R} :
    (name, rule) ∈ entries root operand operations ↔
      (∃ precedence next, LeadsTo root operand operations precedence next ∧
        name = layerName root precedence ∧
        ((∃ affix, affixRule name next affix
            (operations.filter fun operation => operation.precedence = precedence) = some rule) ∨
          rule = bypassRule next)) ∨
      ∃ lowest higher, precedences operations = lowest :: higher ∧ name = root ∧
        rule = bypassRule (layerName root lowest) := by
  rw [entries]
  cases hlevels : precedences operations with
  | nil => simp [LeadsTo, hlevels]
  | cons lowest higher =>
    simp only [List.mem_append, mem_layers, mem_layerRules, List.mem_singleton, Prod.mk.injEq,
      LeadsTo, hlevels, List.cons.injEq]
    constructor
    · rintro (⟨lower, precedence, above, heq, rfl, hrule⟩ | ⟨rfl, rfl⟩)
      · exact Or.inl ⟨precedence, _, ⟨lower, above, heq, rfl⟩, rfl, hrule⟩
      · exact Or.inr ⟨lowest, higher, ⟨rfl, rfl⟩, rfl, rfl⟩
    · rintro (⟨precedence, _, ⟨lower, above, heq, rfl⟩, rfl, hrule⟩ | ⟨_, _, ⟨rfl, rfl⟩, rfl, rfl⟩)
      · exact Or.inl ⟨lower, precedence, above, heq, rfl, hrule⟩
      · exact Or.inr ⟨rfl, rfl⟩

/-- Operators with an affix share a rule, if there are any. -/
theorem affixRule_eq_some_iff {name next : String} {affix : Affix} {level : List (Operation K R)}
    {rule : Rule K R} :
    affixRule name next affix level = some rule ↔
      (level.filter fun operation => operation.affix = affix) ≠ [] ∧
        rule =
          { clauses := affixClauses name next
              (operatorClause (level.filter fun operation => operation.affix = affix)) affix
            affix := some affix
            operations := level.filter fun operation => operation.affix = affix } := by
  rw [affixRule]
  by_cases hempty : (level.filter fun operation => operation.affix = affix) = []
  · simp [hempty]
  · rw [if_neg (by simpa only [List.isEmpty_iff] using hempty), Option.some.injEq, eq_comm]
    exact ⟨fun hrule => ⟨hempty, hrule⟩, fun h => h.2⟩

end Precedence

variable [DecidableEq K] [TokenKind K]

/-- Whether the rule is one as they are declared: neither of a part nor of the layers. -/
def Rule.IsPlain (rule : Rule K R) : Prop :=
  rule.isBypass = false ∧ rule.isSubrule = false ∧ rule.affix = none

namespace Grammar

open Precedence

/-- Whether all that a clause can match are tokens of these kinds. -/
def IsTokenChoice (grammar : Grammar K R) (kinds : List K) (clause : Clause K) : Prop :=
  (∃ kind ∈ kinds, clause = .ofKind kind) ∨
    ∃ name, clause = .nonTerminal name .tokenChoice false ∧
      ∀ rule, (name, rule) ∈ grammar.rules → ∃ kind ∈ kinds, rule.IsAlternativeOf (.ofKind kind)

/-- Whether a clause can match a token of this kind. -/
def Offers (grammar : Grammar K R) (kind : K) (clause : Clause K) : Prop :=
  clause = .ofKind kind ∨
    ∃ name, clause = .nonTerminal name .tokenChoice false ∧
      ∃ rule, (name, rule) ∈ grammar.rules ∧ rule.IsAlternativeOf (.ofKind kind)

/-- What the layers of operators make of a flat grammar: rules of operators
    occur in layers only, and their operators are tokens or choices between
    tokens. -/
structure IsLayered (grammar : Grammar K R) (root operand : String)
    (operations : List (Operation K R)) : Prop where
  exists_clause : ∀ {name : String} {rule : Rule K R}, (name, rule) ∈ grammar.rules →
    rule.isBypass = true →
    ∃ clause, rule.clauses = [clause]
  isLayer : ∀ {name : String} {rule : Rule K R} {affix : Affix}, (name, rule) ∈ grammar.rules →
    rule.affix = some affix →
      ∃ precedence next operator, LeadsTo root operand operations precedence next ∧
      name = layerName root precedence ∧ rule.clauses = affixClauses name next operator affix ∧
        grammar.IsTokenChoice (rule.operations.map fun operation => operation.kind) operator ∧
          ∀ operation ∈ rule.operations,
            operation ∈ operations ∧ operation.affix = affix ∧ operation.precedence = precedence
  not_isBypass : ∀ {name : String} {rule : Rule K R} {affix : Affix}, (name, rule) ∈ grammar.rules →
    rule.affix = some affix → rule.isBypass = false ∧ rule.isSubrule = false
  leads : ∀ {precedence : Nat} {next : String}, LeadsTo root operand operations precedence next →
    ∃ rule, (layerName root precedence, rule) ∈ grammar.rules ∧ rule.isBypass = true ∧
      rule.clauses = [.ofName next]
  offers : ∀ {operation : Operation K R} {next : String}, operation ∈ operations →
    LeadsTo root operand operations operation.precedence next →
      ∃ rule operator kinds, (layerName root operation.precedence, rule) ∈ grammar.rules ∧
        rule.clauses = affixClauses (layerName root operation.precedence) next operator
          operation.affix ∧
          grammar.Offers operation.kind operator ∧ grammar.IsTokenChoice kinds operator

/-- The clause of a single operator stays, and that of several becomes the name
    of a choice between them. -/
theorem Stands.operator_cases {grammar : Grammar K R} {operations : List (Operation K R)}
    {flat : Clause K} (hstands : grammar.Stands [operatorClause operations] [flat]) :
    (∃ operation, operations = [operation] ∧ flat = .ofKind operation.kind) ∨
      ∃ name inner, flat = .nonTerminal name .tokenChoice false ∧
        grammar.Stands (operations.map fun operation => .ofKind operation.kind) inner ∧
          (operations ≠ [] → ∀ rule, (name, rule) ∈ grammar.rules →
            ∃ flat ∈ inner, rule.IsAlternativeOf flat) ∧
            ∀ flat ∈ inner, ∃ rule, (name, rule) ∈ grammar.rules ∧ rule.IsAlternativeOf flat := by
  have hrole : Flat.choiceRole (operations.map fun operation => Clause.ofKind operation.kind) =
      .tokenChoice := by
    simp [Flat.choiceRole, Clause.ofKind, Clause.isTerminal]
  unfold operatorClause at hstands
  split at hstands
  · next operation =>
    cases hstands with
    | terminal => exact Or.inl ⟨operation, rfl, rfl⟩
  · cases hstands with
    | choice hrules hall hmembers =>
      refine Or.inr ⟨_, _, congrArg (Clause.nonTerminal _ · false) hrole, hmembers,
        fun hne => hrules ?_, hall⟩
      simpa using hne

/-- What stands for operators matches their tokens only. -/
theorem Stands.isTokenChoice {grammar : Grammar K R} {operations : List (Operation K R)}
    {flat : Clause K} (hne : operations ≠ [])
    (hstands : grammar.Stands [operatorClause operations] [flat]) :
    grammar.IsTokenChoice (operations.map fun operation => operation.kind) flat := by
  rcases hstands.operator_cases with ⟨operation, rfl, rfl⟩ | ⟨name, inner, rfl, hmembers, hrules, -⟩
  · exact Or.inl ⟨operation.kind, by simp, rfl⟩
  · refine Or.inr ⟨_, rfl, fun rule hrule => ?_⟩
    obtain ⟨flat, hflat, halternative⟩ := hrules hne rule hrule
    obtain ⟨clause, hclause, hstands⟩ := hmembers.exists_of_mem hflat
    obtain ⟨operation, hoperation, rfl⟩ := List.mem_map.1 hclause
    cases hstands with
    | terminal => exact ⟨operation.kind, List.mem_map_of_mem hoperation, halternative⟩

/-- What stands for operators can match the token of each. -/
theorem Stands.offers {grammar : Grammar K R} {operations : List (Operation K R)} {flat : Clause K}
    (hstands : grammar.Stands [operatorClause operations] [flat]) {operation : Operation K R}
    (hoperation : operation ∈ operations) : grammar.Offers operation.kind flat := by
  rcases hstands.operator_cases with ⟨single, rfl, rfl⟩ | ⟨name, inner, rfl, hmembers, -, hall⟩
  · exact Or.inl (List.mem_singleton.1 hoperation ▸ rfl)
  · obtain ⟨flat, hflat, hstands⟩ := hmembers.exists_flat_of_mem (List.mem_map_of_mem hoperation)
    cases hstands with
    | terminal => exact Or.inr ⟨name, rfl, hall _ hflat⟩

/-- The clauses of an operator keep their form, with a flat clause for the operator. -/
theorem Stands.exists_affixClauses {grammar : Grammar K R} {name next : String}
    {operator : Clause K} {affix : Affix} {flats : List (Clause K)}
    (hstands : grammar.Stands (affixClauses name next operator affix) flats) :
    ∃ flat, flats = affixClauses name next flat affix ∧ grammar.Stands [operator] [flat] := by
  cases affix with
  | prefixOp =>
    match flats, hstands with
    | flat :: flats, hstands =>
      obtain ⟨hoperator, hrest⟩ := hstands.uncons
      cases hrest with
      | nonTerminal hnil =>
        cases hnil
        exact ⟨flat, rfl, hoperator⟩
  | infixOp =>
    cases hstands with
    | nonTerminal hrest =>
      rename_i flats
      match flats, hrest with
      | flat :: flats, hrest =>
        obtain ⟨hoperator, hrest⟩ := hrest.uncons
        cases hrest with
        | nonTerminal hnil =>
          cases hnil
          exact ⟨flat, rfl, hoperator⟩
  | postfixOp =>
    cases hstands with
    | nonTerminal hrest =>
      rename_i flats
      match flats, hrest with
      | flat :: flats, hrest =>
        obtain ⟨hoperator, hnil⟩ := hrest.uncons
        cases hnil
        exact ⟨flat, rfl, hoperator⟩

/-- Adds the layers of operators over the operand. -/
def withLayers (declared : Grammar K R) (root operand : String)
    (operations : List (Operation K R)) : Grammar K R :=
  declared.addAll (entries root operand operations)

section Built

variable {declared : Grammar K R} {root operand : String} {operations : List (Operation K R)}

/-- The parts of layers are new if no declared rule has the name of a part. -/
theorem partsAreNew_layerName
    (hparts : ∀ entry ∈ (declared.withLayers root operand operations).partRules,
      declared.rulesOf entry.1 = [])
    (precedence : Nat) :
    (declared.withLayers root operand operations).PartsAreNew (layerName root precedence) := by
  intro entry hentry
  obtain ⟨number, -, -, hname⟩ := (Flat.rules_numbered _ _ 0).2 entry hentry
  refine List.eq_nil_iff_forall_not_mem.2 fun rule hrule => ?_
  rcases mem_rules_addAll.1 (mem_rules_iff_mem_rulesOf.2 hrule) with hdeclared | hadded
  · have hnone := hparts entry (mem_partRules.2 ⟨_, hentry⟩)
    exact List.eq_nil_iff_forall_not_mem.1 hnone rule (mem_rules_iff_mem_rulesOf.1 hdeclared)
  · rcases mem_entries.1 hadded with ⟨level, _, _, heq, _⟩ | ⟨_, _, _, heq, _⟩
    · exact hname.ne_layerName level heq
    · exact hname.ne_root heq

/-- A rule that is not plain belongs to a layer, leads to a layer, or is a part. -/
theorem exists_entry_of_not_isPlain (hplain : ∀ entry ∈ declared.rules, entry.2.IsPlain)
    {name : String} {flat : Rule K R}
    (hflat : (name, flat) ∈ (declared.withLayers root operand operations).flatten.rules)
    (hnot : ¬ flat.IsPlain) :
    (∃ (index : Nat) (rule : Rule K R), (declared.withLayers root operand operations).rule? name
      index = some rule ∧
        (declared.withLayers root operand operations).flatten.rule? name index = some flat ∧
          (name, rule) ∈ entries root operand operations ∧
          flat = { rule with clauses := flat.clauses } ∧
            flat.clauses.length = rule.clauses.length) ∨
      (∃ members, flat.IsGroupOf members) ∨ ∃ clause, flat.IsAlternativeOf clause := by
  refine (exists_of_mem_rules_flatten hflat).imp_left ?_
  rintro ⟨index, rule, hrule, hindex, hsame, hlength⟩
  refine ⟨index, rule, hrule, hindex, ?_, hsame, hlength⟩
  refine (mem_rules_addAll.1 (mem_rules_of_rule? hrule)).resolve_left fun hdeclared => hnot ?_
  rw [hsame]
  exact hplain _ hdeclared

/-- A flat rule that only leads on has a single clause. -/
theorem exists_clause_of_isBypass (hplain : ∀ entry ∈ declared.rules, entry.2.IsPlain)
    {name : String} {flat : Rule K R}
    (hflat : (name, flat) ∈ (declared.withLayers root operand operations).flatten.rules)
    (hbypass : flat.isBypass = true) :
    ∃ clause, flat.clauses = [clause] := by
  have hnot : ¬ flat.IsPlain := fun hplain => by simp [hplain.1] at hbypass
  rcases exists_entry_of_not_isPlain hplain hflat hnot with
    ⟨_, rule, -, -, hentry, hsame, hlength⟩ | ⟨_, -, -, hnone, -⟩ | ⟨clause, hclauses, -⟩
  · rw [hsame] at hbypass
    rcases mem_entries.1 hentry with ⟨_, _, _, _, ⟨affix, haffix⟩ | rfl⟩ | ⟨_, _, _, _, rfl⟩
    · obtain ⟨-, rfl⟩ := affixRule_eq_some_iff.1 haffix
      cases hbypass
    · exact List.length_eq_one_iff.1 hlength
    · exact List.length_eq_one_iff.1 hlength
  · simp [hnone] at hbypass
  · exact ⟨clause, hclauses⟩

/-- A flat rule of operators does not only lead on, and it is no group. -/
theorem not_isBypass_of_affix (hplain : ∀ entry ∈ declared.rules, entry.2.IsPlain) {name : String}
    {flat : Rule K R} {affix : Affix}
    (hflat : (name, flat) ∈ (declared.withLayers root operand operations).flatten.rules)
    (haffix : flat.affix = some affix) : flat.isBypass = false ∧ flat.isSubrule = false := by
  have hnot : ¬ flat.IsPlain := fun hplain => by simp [hplain.2.2] at haffix
  rcases exists_entry_of_not_isPlain hplain hflat hnot with
    ⟨_, rule, -, -, hentry, hsame, -⟩ | ⟨_, -, -, -, hnone⟩ | ⟨_, -, -, -, hnone⟩
  · rw [hsame] at haffix ⊢
    rcases mem_entries.1 hentry with ⟨_, _, _, _, ⟨affix', hsome⟩ | rfl⟩ | ⟨_, _, _, _, rfl⟩
    · obtain ⟨-, rfl⟩ := affixRule_eq_some_iff.1 hsome
      exact ⟨rfl, rfl⟩
    · cases haffix
    · cases haffix
  · simp [hnone] at haffix
  · simp [hnone] at haffix

/-- Layers over plain rules stay layers when groups and choices get names, if
    these names are new. -/
theorem isLayered_flatten (hplain : ∀ entry ∈ declared.rules, entry.2.IsPlain)
    (hparts : ∀ entry ∈ (declared.withLayers root operand operations).partRules,
      declared.rulesOf entry.1 = []) :
    (declared.withLayers root operand operations).flatten.IsLayered root operand operations where
  exists_clause := exists_clause_of_isBypass hplain
  isLayer := by
    intro name flat affix hflat haffix
    have hnot : ¬ flat.IsPlain := fun hplain => by simp [hplain.2.2] at haffix
    rcases exists_entry_of_not_isPlain hplain hflat hnot with
      ⟨index, rule, hrule, hindex, hentry, hsame, -⟩ | ⟨_, -, -, -, hnone⟩ | ⟨_, -, -, -, hnone⟩
    · rw [hsame] at haffix
      rcases mem_entries.1 hentry with ⟨precedence, next, hnext, rfl, ⟨affix', hsome⟩ | rfl⟩ |
        ⟨_, _, _, _, rfl⟩
      · obtain ⟨hne, hruleEq⟩ := affixRule_eq_some_iff.1 hsome
        obtain rfl : affix' = affix := by
          rw [hruleEq] at haffix
          exact Option.some.inj haffix
        obtain ⟨flats, hflats, hstands⟩ := exists_rule?_flatten
          (partsAreNew_layerName hparts precedence) hrule
        obtain rfl := Option.some.inj (hindex.symm.trans hflats)
        rw [hruleEq] at hstands
        obtain ⟨operator, rfl, hoperator⟩ := hstands.exists_affixClauses
        refine ⟨precedence, next, operator, hnext, rfl, rfl, ?_, ?_⟩
        · rw [hruleEq]
          exact hoperator.isTokenChoice hne
        · rw [hruleEq]
          intro operation hoperation
          simp only [List.mem_filter, decide_eq_true_eq] at hoperation
          exact ⟨hoperation.1.1, hoperation.2, hoperation.1.2⟩
      · cases haffix
      · cases haffix
    · simp [hnone] at haffix
    · simp [hnone] at haffix
  not_isBypass := not_isBypass_of_affix hplain
  leads := by
    intro precedence next hnext
    have hentry : (layerName root precedence, bypassRule next) ∈ entries root operand operations :=
      mem_entries.2 (Or.inl ⟨precedence, next, hnext, rfl, Or.inr rfl⟩)
    obtain ⟨flats, hflats, hstands⟩ := exists_stands_of_mem_rules
      (partsAreNew_layerName hparts precedence) (mem_rules_addAll.2 (Or.inr hentry))
    exact ⟨_, hflats, rfl, hstands.eq_ofName⟩
  offers := by
    intro operation next hoperation hnext
    have hmem : operation ∈ (operations.filter fun other => other.precedence =
        operation.precedence).filter fun other => other.affix = operation.affix := by
      simp [hoperation]
    obtain ⟨rule, haffix⟩ : ∃ rule, affixRule (layerName root operation.precedence) next
      operation.affix
        (operations.filter fun other => other.precedence = operation.precedence) = some rule :=
      ⟨_, affixRule_eq_some_iff.2 ⟨List.ne_nil_of_mem hmem, rfl⟩⟩
    have hentry : (layerName root operation.precedence, rule) ∈ entries root operand operations :=
      mem_entries.2 (Or.inl ⟨operation.precedence, next, hnext, rfl,
        Or.inl ⟨operation.affix, haffix⟩⟩)
    obtain ⟨flats, hflats, hstands⟩ := exists_stands_of_mem_rules
      (partsAreNew_layerName hparts operation.precedence) (mem_rules_addAll.2 (Or.inr hentry))
    obtain ⟨hne, rfl⟩ := affixRule_eq_some_iff.1 haffix
    obtain ⟨operator, rfl, hoperator⟩ := hstands.exists_affixClauses
    exact ⟨_, operator, _, hflats, rfl, hoperator.offers hmem, hoperator.isTokenChoice hne⟩

end Built

section Analysed

variable {grammar : Grammar K R}

theorem IsTokenChoice.analyse {kinds : List K} {clause : Clause K}
    (hchoice : grammar.IsTokenChoice kinds clause) :
    grammar.analyse.IsTokenChoice kinds clause := by
  refine hchoice.imp_right ?_
  rintro ⟨name, rfl, hrules⟩
  refine ⟨name, rfl, fun rule hrule => ?_⟩
  obtain ⟨before, hbefore, rfl⟩ := mem_rules_analyse.1 hrule
  exact hrules before hbefore

theorem Offers.analyse {kind : K} {clause : Clause K} (hoffers : grammar.Offers kind clause) :
    grammar.analyse.Offers kind clause := by
  refine hoffers.imp_right ?_
  rintro ⟨name, rfl, rule, hrule, halternative⟩
  exact ⟨name, rfl, _, mem_rules_analyse.2 ⟨rule, hrule, rfl⟩, halternative⟩

/-- The analysis is written where the layers do not show. -/
theorem IsLayered.analyse {root operand : String} {operations : List (Operation K R)}
    (hlayered : grammar.IsLayered root operand operations) :
    grammar.analyse.IsLayered root operand operations where
  exists_clause hrule hbypass := by
    obtain ⟨before, hbefore, rfl⟩ := mem_rules_analyse.1 hrule
    have hbypass : before.isBypass = true := hbypass
    have hsingle := hlayered.exists_clause hbefore hbypass
    exact hsingle
  isLayer hrule haffix := by
    obtain ⟨before, hbefore, rfl⟩ := mem_rules_analyse.1 hrule
    have haffix : before.affix = some _ := haffix
    obtain ⟨precedence, next, operator, hnext, hname, hclauses, hoperator, hoperations⟩ :=
      hlayered.isLayer hbefore haffix
    exact ⟨precedence, next, operator, hnext, hname, hclauses, hoperator.analyse, hoperations⟩
  not_isBypass hrule haffix := by
    obtain ⟨before, hbefore, rfl⟩ := mem_rules_analyse.1 hrule
    have haffix : before.affix = some _ := haffix
    have hneither := hlayered.not_isBypass hbefore haffix
    exact hneither
  leads hnext := by
    obtain ⟨rule, hrule, hbypass, hclauses⟩ := hlayered.leads hnext
    exact ⟨_, mem_rules_analyse.2 ⟨rule, hrule, rfl⟩, hbypass, hclauses⟩
  offers hoperation hnext := by
    obtain ⟨rule, operator, kinds, hrule, hclauses, hoffers, hchoice⟩ :=
      hlayered.offers hoperation hnext
    exact ⟨_, operator, kinds, mem_rules_analyse.2 ⟨rule, hrule, rfl⟩, hclauses, hoffers.analyse,
      hchoice.analyse⟩

end Analysed

end Grammar

end GrammarKit
