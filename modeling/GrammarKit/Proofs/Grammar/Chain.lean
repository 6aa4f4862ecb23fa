import GrammarKit.Proofs.Grammar.Language
import GrammarKit.Proofs.Grammar.Layering

namespace GrammarKit

/-- A chain: operands with one of the operators between each two. -/
inductive Alternates {K : Type} (operand : K) (operators : List K) : List K → Prop
  | single : Alternates operand operators [operand]
  | cons {operator : K} {rest : List K} :
      operator ∈ operators → Alternates operand operators rest →
        Alternates operand operators (operand :: operator :: rest)

namespace Alternates

variable {K : Type} {operand : K} {operators lower higher first rest word : List K}

theorem mono (halternates : Alternates operand higher word)
    (hsubset : ∀ kind ∈ higher, kind ∈ operators) :
    Alternates operand operators word := by
  induction halternates with
  | single => exact .single
  | cons hoperator _ ih => exact .cons (hsubset _ hoperator) ih

/-- Chains are put together by an operator. -/
theorem append {operator : K} (hfirst : Alternates operand operators first)
    (hoperator : operator ∈ operators) (hrest : Alternates operand operators rest) :
    Alternates operand operators (first ++ operator :: rest) := by
  induction hfirst with
  | single => exact .cons hoperator hrest
  | cons hother _ ih => exact .cons hother ih

/-- A longer chain goes on with an operator. -/
theorem mem_of_append {kind : K} (hword : Alternates operand operators word)
    (hlonger : Alternates operand operators (word ++ kind :: rest)) : kind ∈ operators := by
  induction hword with
  | single =>
    cases hlonger with
    | cons hkind => exact hkind
  | cons _ _ ih =>
    cases hlonger with
    | cons _ hlonger => exact ih hlonger

/-- No chain in front of the same kinds is longer than one that no operator follows. -/
theorem length_le {taken later : List K} (hword : Alternates operand operators word)
    (htaken : Alternates operand operators taken) (hkinds : taken <+: word ++ later)
    (hlater : ∀ kind ∈ later.head?, kind ∉ operators) : taken.length ≤ word.length := by
  rcases List.prefix_or_prefix_of_prefix hkinds (List.prefix_append word later) with
    hshorter | ⟨more, rfl⟩
  · exact hshorter.length_le
  · cases more with
    | nil => simp
    | cons kind more =>
      obtain ⟨behind, rfl⟩ := (List.prefix_append_right_inj word).1 hkinds
      exact absurd (hword.mem_of_append htaken) (hlater kind (by simp))

/-- A chain has none of the lower operators, or it can be taken apart at the first one. -/
theorem split (halternates : Alternates operand operators word)
    (hoperators : ∀ kind ∈ operators, kind ∈ lower ∨ kind ∈ higher) :
    Alternates operand higher word ∨ ∃ first operator rest, word = first ++ operator :: rest ∧
      Alternates operand higher first ∧ operator ∈ lower ∧ Alternates operand operators rest := by
  induction halternates with
  | single => exact Or.inl .single
  | @cons operator rest hoperator hrest ih =>
    rcases hoperators operator hoperator with hlower | hhigher
    · exact Or.inr ⟨[operand], operator, rest, rfl, .single, hlower, hrest⟩
    · rcases ih with hall | ⟨first, second, behind, rfl, hfirst, hsecond, hbehind⟩
      · exact Or.inl (.cons hhigher hall)
      · exact Or.inr ⟨operand :: operator :: first, second, behind, rfl, .cons hhigher hfirst,
          hsecond, hbehind⟩

end Alternates

variable {K R : Type}

/-- The kinds of the operators with one of these precedences. -/
def kindsAt (operations : List (Operation K R)) (levels : List Nat) : List K :=
  (operations.filter fun operation => operation.precedence ∈ levels).map fun operation =>
    operation.kind

theorem mem_kindsAt {operations : List (Operation K R)} {levels : List Nat} {kind : K} :
    kind ∈ kindsAt operations levels ↔
      ∃ operation ∈ operations, operation.precedence ∈ levels ∧ operation.kind = kind := by
  simp [kindsAt, and_assoc]

/-- The operators from one layer on are those of the layer and those of higher ones. -/
theorem mem_kindsAt_cons {operations : List (Operation K R)} {precedence : Nat} {higher : List Nat}
    {kind : K} :
    kind ∈ kindsAt operations (precedence :: higher) ↔
      kind ∈ kindsAt operations [precedence] ∨ kind ∈ kindsAt operations higher := by
  simp only [mem_kindsAt, List.mem_cons, List.not_mem_nil, or_false]
  constructor
  · rintro ⟨operation, hmem, hlevel | hlevel, hkind⟩
    · exact Or.inl ⟨operation, hmem, hlevel, hkind⟩
    · exact Or.inr ⟨operation, hmem, hlevel, hkind⟩
  · rintro (⟨operation, hmem, hlevel, hkind⟩ | ⟨operation, hmem, hlevel, hkind⟩)
    · exact ⟨operation, hmem, Or.inl hlevel, hkind⟩
    · exact ⟨operation, hmem, Or.inr hlevel, hkind⟩

open Grammar Precedence

/-- A layer leads to one name only. -/
theorem Precedence.LeadsTo.next_eq {root operand next other : String}
    {operations : List (Operation K R)} {precedence : Nat}
    (hnext : LeadsTo root operand operations precedence next)
    (hother : LeadsTo root operand operations precedence other) :
    next = other := by
  obtain ⟨lower, higher, hlevels, rfl⟩ := hnext
  obtain ⟨below, above, hsame, rfl⟩ := hother
  have hnodup : (precedences operations).Nodup :=
    (pairwise_lt_precedences operations).imp Nat.ne_of_lt
  rw [hlevels] at hnodup hsame
  obtain ⟨hhigher, hlower⟩ : precedence ∉ higher ∧ precedence ∉ lower := by
    grind [List.nodup_append, List.nodup_cons]
  have hequal := (List.append_cons_inj_of_notMem hlower hhigher).1 hsame
  rw [hequal.2.2]

variable [DecidableEq K] [TokenKind K]

namespace Grammar

variable {grammar : Grammar K R} {word : List K}

theorem IsTokenChoice.mono {kinds others : List K} {clause : Clause K}
    (hchoice : grammar.IsTokenChoice kinds clause) (hsubset : ∀ kind ∈ kinds, kind ∈ others) :
    grammar.IsTokenChoice others clause := by
  rcases hchoice with ⟨kind, hkind, rfl⟩ | ⟨name, rfl, hrules⟩
  · exact Or.inl ⟨kind, hsubset kind hkind, rfl⟩
  · refine Or.inr ⟨name, rfl, fun rule hrule => ?_⟩
    obtain ⟨kind, hkind, halternative⟩ := hrules rule hrule
    exact ⟨kind, hsubset kind hkind, halternative⟩

/-- A choice between tokens yields one of them. -/
theorem IsTokenChoice.exists_of_yields {kinds : List K} {clause : Clause K}
    (hchoice : grammar.IsTokenChoice kinds clause) (hyields : grammar.Yields [clause] word) :
    ∃ kind ∈ kinds, word = [kind] := by
  rcases hchoice with ⟨kind, hkind, rfl⟩ | ⟨name, rfl, hrules⟩
  · exact ⟨kind, hkind, yields_terminal_iff.1 hyields⟩
  · obtain ⟨rule, hrule, hyields⟩ := yields_nonTerminal_iff.1 hyields
    obtain ⟨kind, hkind, halternative, -⟩ := hrules rule hrule
    rw [halternative] at hyields
    exact ⟨kind, hkind, yields_terminal_iff.1 hyields⟩

end Grammar

namespace Layering

/-- Whether all operators are infix operators with tokens of their own, and
    operands are tokens of one kind. -/
structure IsChain (layering : Layering K R) (kind : K) : Prop extends layering.IsApart where
  ne_nil : layering.operations ≠ []
  affix_eq : ∀ operation ∈ layering.operations, operation.affix = .infixOp
  nodup_kinds : (layering.operations.map fun operation => operation.kind).Nodup
  isDeclared : ∃ rule, (layering.operand, rule) ∈ layering.declared.rules
  clauses_eq : ∀ rule, (layering.operand, rule) ∈ layering.declared.rules →
    ∃ discarded, rule.clauses = [.terminal kind discarded]
  root_not_mem : layering.root ∉ layering.declared.names

/-- Whether a name belongs to the root, to a layer or to the operand. -/
def IsLevel (layering : Layering K R) (name : String) : Prop :=
  name = layering.operand ∨ ∃ next, layering.PassesTo name next

/-- Whatever a level leads to is a level. -/
theorem PassesTo.isLevel {layering : Layering K R} {name next : String}
    (hnext : layering.PassesTo name next) :
    layering.IsLevel next := by
  rcases hnext with ⟨precedence, -, lower, higher, hlevels, rfl⟩ | ⟨lowest, higher, hlevels, -, rfl⟩
  · cases higher with
    | nil => exact Or.inl rfl
    | cons following higher =>
      exact Or.inr ⟨_, Or.inl ⟨following, rfl, lower ++ [precedence],
        higher, by simp [hlevels], rfl⟩⟩
  · exact Or.inr ⟨_, Or.inl ⟨lowest, rfl, [], higher, hlevels, rfl⟩⟩

namespace IsChain

variable {layering : Layering K R} {kind : K} (hchain : layering.IsChain kind)
include hchain

/-- A token belongs to a single operator. -/
theorem operation_eq {first second : Operation K R} (hfirst : first ∈ layering.operations)
    (hsecond : second ∈ layering.operations) (hkind : first.kind = second.kind) : first = second :=
  List.inj_on_of_nodup_map hchain.nodup_kinds hfirst hsecond hkind

/-- No token is an operator of two precedences. -/
theorem not_mem_kindsAt_higher {precedence : Nat} {lower higher : List Nat}
    (hlevels : precedences layering.operations = lower ++ precedence :: higher) {other : K}
    (hother : other ∈ kindsAt layering.operations [precedence]) :
    other ∉ kindsAt layering.operations higher := by
  intro hhigher
  obtain ⟨first, hfirst, hfirstLevel, hfirstKind⟩ := mem_kindsAt.1 hother
  obtain ⟨second, hsecond, hsecondLevel, hsecondKind⟩ := mem_kindsAt.1 hhigher
  obtain rfl := hchain.operation_eq hfirst hsecond (hfirstKind.trans hsecondKind.symm)
  obtain rfl : first.precedence = precedence := List.mem_singleton.1 hfirstLevel
  have hsorted := pairwise_lt_precedences layering.operations
  rw [hlevels] at hsorted
  obtain ⟨-, hsorted, -⟩ := List.pairwise_append.1 hsorted
  exact absurd (List.rel_of_pairwise_cons hsorted hsecondLevel) (Nat.lt_irrefl _)

/-- The operand is declared, so its name is not made up. -/
theorem operand_isFree : layering.IsFree layering.operand :=
  hchain.isFree _ (hchain.operand_mem hchain.ne_nil)

/-- The names of the layers are neither declared nor used for parts. -/
theorem layerName_isNew {precedence : Nat} {next : String}
    (hnext : LeadsTo layering.root layering.operand layering.operations precedence next) :
    layerName layering.root precedence ∉ layering.declared.names ∧
      layerName layering.root precedence ∉ layering.layered.partNames := by
  have hlayer : layerName layering.root precedence ∈ layerNames layering.root
      layering.operations := by
    obtain ⟨lower, higher, hlevels, -⟩ := hnext
    refine List.mem_map_of_mem ?_
    simp [hlevels]
  exact ⟨fun hname => (hchain.isFree _ hname).2 hlayer,
    fun hname => (hchain.partNames _ hname).2 hlayer⟩

/-- No level is a part. -/
theorem not_mem_partNames {name : String} (hlevel : layering.IsLevel name) :
    name ∉ layering.layered.partNames := by
  rcases hlevel with rfl | ⟨next, ⟨precedence, rfl, hnext⟩ | ⟨_, _, -, rfl, -⟩⟩
  · exact hchain.operand_isFree.1
  · exact (hchain.layerName_isNew hnext).2
  · exact fun hname => (hchain.partNames _ hname).1 rfl

/-- Of the levels only the operand is declared. -/
theorem eq_operand {name : String} (hlevel : layering.IsLevel name)
    (hname : name ∈ layering.declared.names) :
    name = layering.operand := by
  rcases hlevel with heq | ⟨next, ⟨precedence, rfl, hnext⟩ | ⟨_, _, -, rfl, -⟩⟩
  · exact heq
  · exact absurd hname (hchain.layerName_isNew hnext).1
  · exact absurd hname hchain.root_not_mem

/-- Every rule of the operand is its token. -/
theorem operand_rule {rule : Rule K R} (hrule : (layering.operand, rule) ∈ layering.grammar.rules) :
    ∃ discarded, rule.clauses = [.terminal kind discarded] := by
  obtain ⟨hpart, hlayer⟩ := hchain.operand_isFree
  obtain ⟨before, hdeclared | hentry, -, hstands⟩ := hchain.exists_rule_of_mem hpart hrule
  · obtain ⟨discarded, hclauses⟩ := hchain.clauses_eq before hdeclared
    exact ⟨discarded, (hclauses ▸ hstands).eq_terminal⟩
  · rcases mem_entries.1 hentry with ⟨precedence, _, ⟨lower, higher, hlevels, -⟩, heq, -⟩ |
      ⟨_, _, -, heq, -⟩
    · refine absurd (heq ▸ List.mem_map_of_mem ?_) hlayer
      simp [hlevels]
    · exact absurd (heq ▸ hchain.operand_mem hchain.ne_nil) hchain.root_not_mem

/-- The operand has a rule in the flat grammar. -/
theorem exists_operand_rule : ∃ rule, (layering.operand, rule) ∈ layering.grammar.rules := by
  obtain ⟨rule, hrule⟩ := hchain.isDeclared
  obtain ⟨flats, hflats, -⟩ := exists_stands_of_mem_rules (hchain.partsAreNew layering.operand)
    (mem_rules_addAll.2 (Or.inl hrule))
  exact ⟨_, mem_rules_analyse.2 ⟨_, hflats, rfl⟩⟩

/-- A rule of a layer leads on, or it puts an operator of the layer between two operands. -/
theorem layer_rule {precedence : Nat} {next : String} {rule : Rule K R}
    (hnext : LeadsTo layering.root layering.operand layering.operations precedence next)
    (hrule : (layerName layering.root precedence, rule) ∈ layering.grammar.rules) :
    rule.clauses = [.ofName next] ∨ ∃ operator,
      rule.clauses = [.ofName next, operator, .ofName (layerName layering.root precedence)] ∧
        layering.grammar.IsTokenChoice (kindsAt layering.operations [precedence]) operator := by
  obtain ⟨hdeclared, hpart⟩ := hchain.layerName_isNew hnext
  obtain ⟨before, hmem | hentry, -, hstands⟩ := hchain.exists_rule_of_mem hpart hrule
  · exact absurd (mem_names_of_mem_rules hmem) hdeclared
  generalize rule.clauses = flats at hstands ⊢
  rcases mem_entries.1 hentry with ⟨level, other, hother, hname, ⟨affix, haffix⟩ | rfl⟩ |
    ⟨_, _, -, hname, -⟩
  · obtain ⟨-, rfl⟩ := layerName_eq_iff.1 hname
    obtain rfl := hnext.next_eq hother
    obtain ⟨hne, rfl⟩ := affixRule_eq_some_iff.1 haffix
    obtain ⟨operator, rfl, hoperator⟩ := hstands.exists_affixClauses
    obtain ⟨operation, hoperation⟩ := List.exists_mem_of_ne_nil _ hne
    simp only [List.mem_filter, decide_eq_true_eq] at hoperation
    obtain ⟨⟨hmem, -⟩, rfl⟩ := hoperation
    rw [hchain.affix_eq operation hmem]
    refine Or.inr ⟨operator, rfl, (hoperator.isTokenChoice hne).mono fun kind hkind => ?_⟩
    obtain ⟨same, hsame, rfl⟩ := List.mem_map.1 hkind
    simp only [List.mem_filter, decide_eq_true_eq] at hsame
    exact mem_kindsAt.2 ⟨same, hsame.1.1, by simpa using hsame.1.2, rfl⟩
  · obtain ⟨-, rfl⟩ := layerName_eq_iff.1 hname
    obtain rfl := hnext.next_eq hother
    exact Or.inl hstands.eq_ofName
  · exact absurd hname (layerName_ne_root _ _)

/-- The only rule of the root leads to the lowest layer. -/
theorem root_rule {rule : Rule K R} (hrule : (layering.root, rule) ∈ layering.grammar.rules) :
    rule.clauses =
      [.ofName (layerBefore layering.root layering.operand (precedences layering.operations))] := by
  have hpart : layering.root ∉ layering.layered.partNames :=
    fun hname => (hchain.partNames _ hname).1 rfl
  obtain ⟨before, hmem | hentry, -, hstands⟩ := hchain.exists_rule_of_mem hpart hrule
  · exact absurd (mem_names_of_mem_rules hmem) hchain.root_not_mem
  generalize rule.clauses = flats at hstands ⊢
  rcases mem_entries.1 hentry with ⟨_, _, -, hname, -⟩ | ⟨lowest, higher, hlevels, -, rfl⟩
  · exact absurd hname.symm (layerName_ne_root _ _)
  · rw [hlevels]
    exact hstands.eq_ofName

theorem exists_passesTo_root : ∃ next, layering.PassesTo layering.root next := by
  obtain ⟨operation, hoperation⟩ := List.exists_mem_of_ne_nil _ hchain.ne_nil
  cases hlevels : precedences layering.operations with
  | nil =>
    have hlevel := mem_precedences.2 ⟨operation, hoperation, rfl⟩
    rw [hlevels] at hlevel
    cases hlevel
  | cons lowest higher => exact ⟨_, Or.inr ⟨lowest, higher, hlevels, rfl, rfl⟩⟩

/-- What the layers from one on stand for are chains of their operators. -/
theorem alternates {lower levels : List Nat}
    (hlevels : precedences layering.operations = lower ++ levels) {word : List K}
    (hyields : layering.grammar.Yields [.ofName (layerBefore layering.root layering.operand levels)]
      word) :
    Alternates kind (kindsAt layering.operations levels) word := by
  induction levels generalizing lower word with
  | nil =>
    obtain ⟨rule, hrule, hyields⟩ := yields_nonTerminal_iff.1 hyields
    obtain ⟨discarded, hclauses⟩ := hchain.operand_rule hrule
    rw [hclauses] at hyields
    rw [yields_terminal_iff.1 hyields]
    exact .single
  | cons precedence higher ih =>
    have hhigher {first : List K}
        (hfirst : layering.grammar.Yields
          [.ofName (layerBefore layering.root layering.operand higher)] first) :
        Alternates kind (kindsAt layering.operations (precedence :: higher)) first := by
      have hlevels : precedences layering.operations = (lower ++ [precedence]) ++ higher := by
        simpa using hlevels
      exact (ih hlevels hfirst).mono fun other hother => mem_kindsAt_cons.2 (Or.inr hother)
    -- the right operand of an operator belongs to the same layer, and is shorter
    induction hlength : word.length using Nat.strongRecOn generalizing word with
    | _ length ihLength =>
      obtain ⟨rule, hrule, hyields⟩ := yields_nonTerminal_iff.1 hyields
      rcases hchain.layer_rule ⟨lower, higher, hlevels, rfl⟩ hrule with hclauses |
        ⟨operator, hclauses, hchoice⟩
      · exact hhigher (hclauses ▸ hyields)
      · rw [hclauses] at hyields
        obtain ⟨first, later, rfl, hfirst, hyields⟩ := hyields.uncons
        obtain ⟨between, rest, rfl, hbetween, hrest⟩ := hyields.uncons
        obtain ⟨other, hother, rfl⟩ := hchoice.exists_of_yields hbetween
        have hshorter : rest.length < length := by
          rw [← hlength]
          simp only [List.length_append, List.length_singleton]
          omega
        exact (hhigher hfirst).append (mem_kindsAt_cons.2 (Or.inl hother))
          (ihLength _ hshorter hrest rfl)

/-- What the root stands for are chains of all operators. -/
theorem alternates_root {word : List K}
    (hyields : layering.grammar.Yields [.ofName layering.root] word) :
    Alternates kind (layering.operations.map fun operation => operation.kind) word := by
  obtain ⟨rule, hrule, hyields⟩ := yields_nonTerminal_iff.1 hyields
  rw [hchain.root_rule hrule] at hyields
  refine (hchain.alternates (List.nil_append _).symm hyields).mono fun other hother => ?_
  obtain ⟨operation, hoperation, -, rfl⟩ := mem_kindsAt.1 hother
  exact List.mem_map_of_mem hoperation

end IsChain

end Layering

end GrammarKit
