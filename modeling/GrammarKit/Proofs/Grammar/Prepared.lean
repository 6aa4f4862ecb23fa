import GrammarKit.Grammar.Diagnosis
import GrammarKit.Grammar.Flat
import GrammarKit.Proofs.Grammar.Lookup

namespace GrammarKit

/-- Whether a clause has neither groups nor choices at any depth. -/
def Clause.isFlat {K : Type} : Clause K → Bool
  | terminal .. | nonTerminal .. => true
  | group .. | choice .. => false
  | option inner _ | zeroOrMore inner _ | oneOrMore inner _ => isFlat inner

/-- Clauses refer to what one of them refers to. -/
theorem Clause.mem_referencesIn {K : Type} {clauses : List (Clause K)} {name : String} :
    name ∈ referencesIn clauses ↔ ∃ clause ∈ clauses, name ∈ clause.references := by
  induction clauses with
  | nil => simp [referencesIn]
  | cons first rest ih => simp [referencesIn, ih]

variable {K R : Type} [DecidableEq K] [TokenKind K]

/-- The clauses of rules refer to what one of the rules refers to. -/
theorem Clause.mem_referencesIn_flatMap {rules : List (Rule K R)} {name : String} :
    name ∈ referencesIn (rules.flatMap Rule.clauses) ↔
      ∃ rule ∈ rules, name ∈ referencesIn rule.clauses := by
  simp only [mem_referencesIn, List.mem_flatMap]
  grind

/-- Whether all clauses of a rule are flat. -/
def Rule.IsFlat (rule : Rule K R) : Prop := ∀ clause ∈ rule.clauses, clause.isFlat = true

instance (rule : Rule K R) : Decidable rule.IsFlat :=
  inferInstanceAs (Decidable (∀ clause ∈ rule.clauses, clause.isFlat = true))

namespace Flat

mutual

/-- What is left of a clause is flat, and so are the rules that were made. -/
theorem clause_isFlat (parent : String) : ∀ (clause : Clause K) (next : Nat),
    (Flat.clause (R := R) parent next clause).value.isFlat = true ∧
      ∀ entry ∈ (Flat.clause (R := R) parent next clause).rules, entry.2.IsFlat
  | .terminal .., _ => by simp [Flat.clause, Clause.isFlat]
  | .nonTerminal .., _ => by simp [Flat.clause, Clause.isFlat]
  | .group members _, next => by
    obtain ⟨hvalue, hrules⟩ := clauses_isFlat parent members (next + 1)
    simp only [Flat.clause, Clause.isFlat, List.mem_append, List.mem_singleton, true_and]
    rintro entry (hentry | rfl)
    · exact hrules entry hentry
    · exact hvalue
  | .choice members _, next => by
    simpa only [Flat.clause, Clause.isFlat, true_and] using
      alternatives_isFlat parent (choiceName parent next) members (next + 1)
  | .option inner _, next => by
    simpa only [Flat.clause, Flattened.map, Clause.isFlat] using clause_isFlat parent inner next
  | .zeroOrMore inner _, next => by
    simpa only [Flat.clause, Flattened.map, Clause.isFlat] using clause_isFlat parent inner next
  | .oneOrMore inner _, next => by
    simpa only [Flat.clause, Flattened.map, Clause.isFlat] using clause_isFlat parent inner next

theorem clauses_isFlat (parent : String) : ∀ (clauses : List (Clause K)) (next : Nat),
    (∀ clause ∈ (Flat.clauses (R := R) parent next clauses).value, clause.isFlat = true) ∧
      ∀ entry ∈ (Flat.clauses (R := R) parent next clauses).rules, entry.2.IsFlat
  | [], _ => by simp [Flat.clauses]
  | first :: rest, next => by
    obtain ⟨hfirst, hfirstRules⟩ := clause_isFlat parent first next
    obtain ⟨hrest, hrestRules⟩ := clauses_isFlat parent rest
      (Flat.clause (R := R) parent next first).next
    simp only [Flat.clauses, List.mem_cons, List.mem_append]
    refine ⟨?_, ?_⟩
    · rintro clause (rfl | hclause)
      · exact hfirst
      · exact hrest clause hclause
    · rintro entry (hentry | hentry)
      · exact hfirstRules entry hentry
      · exact hrestRules entry hentry

theorem alternatives_isFlat (parent name : String) : ∀ (members : List (Clause K)) (next : Nat),
    ∀ entry ∈ (Flat.alternatives (R := R) parent name next members).rules, entry.2.IsFlat
  | [], _ => by simp [Flat.alternatives]
  | first :: rest, next => by
    obtain ⟨hfirst, hfirstRules⟩ := clause_isFlat parent first next
    have hrest := alternatives_isFlat parent name rest (Flat.clause (R := R) parent next first).next
    simp only [Flat.alternatives, List.mem_cons, List.mem_append]
    rintro entry (hentry | rfl | hentry)
    · exact hfirstRules entry hentry
    · simpa [Rule.IsFlat] using hfirst
    · exact hrest entry hentry

end

/-- What is left of rules is flat, and so are the rules that were made. -/
theorem rules_isFlat (parent : String) (rules : List (Rule K R)) (next : Nat) :
    (∀ rule ∈ (Flat.rules parent next rules).value, rule.IsFlat) ∧
      ∀ entry ∈ (Flat.rules parent next rules).rules, entry.2.IsFlat := by
  induction rules generalizing next with
  | nil => simp [Flat.rules]
  | cons first rest ih =>
    obtain ⟨hfirst, hfirstRules⟩ := clauses_isFlat (R := R) parent first.clauses next
    obtain ⟨hrest, hrestRules⟩ := ih (Flat.clauses (R := R) parent next first.clauses).next
    simp only [Flat.rules, List.mem_cons, List.mem_append]
    refine ⟨?_, ?_⟩
    · rintro rule (rfl | hrule)
      · exact hfirst
      · exact hrest rule hrule
    · rintro entry (hentry | hentry)
      · exact hfirstRules entry hentry
      · exact hrestRules entry hentry

end Flat

namespace Grammar

/-- All clauses of all rules are flat. -/
def IsFlat (grammar : Grammar K R) : Prop := ∀ entry ∈ grammar.rules, entry.2.IsFlat

instance (grammar : Grammar K R) : Decidable grammar.IsFlat :=
  inferInstanceAs (Decidable (∀ entry ∈ grammar.rules, entry.2.IsFlat))

/-- Flat rules may be added to a flat grammar. -/
theorem IsFlat.addAll {grammar : Grammar K R} (hflat : grammar.IsFlat)
    {rules : List (String × Rule K R)} (hrules : ∀ entry ∈ rules, entry.2.IsFlat) :
    (grammar.addAll rules).IsFlat := by
  induction rules generalizing grammar with
  | nil => exact hflat
  | cons first rest ih =>
    have hadded : (grammar.add first.1 first.2).IsFlat := by
      intro entry hentry
      rcases mem_rules_add.1 hentry with rfl | hentry
      · exact hrules first List.mem_cons_self
      · exact hflat entry hentry
    exact ih hadded fun entry hentry => hrules entry (List.mem_cons_of_mem _ hentry)

/-- Whether everything that rules refer to has rules. -/
def IsClosed (grammar : Grammar K R) : Prop :=
  ∀ entry ∈ grammar.rules, ∀ name ∈ Clause.referencesIn entry.2.clauses, grammar.rulesOf name ≠ []

instance (grammar : Grammar K R) : Decidable grammar.IsClosed :=
  inferInstanceAs (Decidable (∀ entry ∈ grammar.rules, ∀ name ∈ Clause.referencesIn entry.2.clauses,
    grammar.rulesOf name ≠ []))

/-- Moving groups and choices into non-terminals of their own leaves none of them. -/
theorem isFlat_flatten (grammar : Grammar K R) : grammar.flatten.IsFlat := by
  refine IsFlat.addAll ?_ ?_
  · rintro ⟨name, rule⟩ hentry
    obtain ⟨nonTerminal, hfind, hrule⟩ := mem_rules_iff.1 hentry
    rw [find?_map, Option.map_eq_some_iff] at hfind
    obtain ⟨before, _, rfl⟩ := hfind
    exact (Flat.rules_isFlat before.name before.rules 0).1 rule hrule
  · intro entry hentry
    obtain ⟨nonTerminal, _, hentry⟩ := List.mem_flatMap.1 hentry
    exact (Flat.rules_isFlat nonTerminal.name nonTerminal.rules 0).2 entry hentry

end Grammar

/-- A rule with the outcome of the analysis. -/
def Rule.analysed (nullable : String → Bool) (leading : String → KindSet K) (rule : Rule K R) :
    Rule K R :=
  { rule with leading := rule.first nullable leading, mayBeEmpty := rule.isNullable nullable }

/-- A non-terminal with the outcome of the analysis. -/
def NonTerminal.analysed (nullable : String → Bool) (leading : String → KindSet K)
    (nonTerminal : NonTerminal K R) :
    NonTerminal K R :=
  { nonTerminal with
    rules := nonTerminal.rules.map (Rule.analysed nullable leading), leading :=
      leading nonTerminal.name }

@[simp] theorem NonTerminal.name_analysed (nullable : String → Bool) (leading : String → KindSet K)
    (nonTerminal : NonTerminal K R) :
    (nonTerminal.analysed nullable leading).name = nonTerminal.name := rfl

/-- The analysis looks at clauses only, so it does not see what it wrote before. -/
theorem NonTerminal.isNullable_analysed (nullable known : String → Bool)
    (leading : String → KindSet K) (nonTerminal : NonTerminal K R) :
    (nonTerminal.analysed nullable leading).isNullable known = nonTerminal.isNullable known := by
  simp only [analysed, isNullable, List.any_map]
  rfl

theorem NonTerminal.first_analysed (nullable known : String → Bool)
    (leading table : String → KindSet K) (nonTerminal : NonTerminal K R) :
    (nonTerminal.analysed nullable leading).first known table = nonTerminal.first known table := by
  simp [analysed, first, List.foldl_map, Rule.first, Rule.analysed]

/-- What is noted as nullable is the same when the rules carry an outcome. -/
theorem NonTerminal.noteNullable_analysed (nullable : String → Bool) (leading : String → KindSet K)
    (known : List String) (nonTerminal : NonTerminal K R) :
    noteNullable known (nonTerminal.analysed nullable leading) =
      noteNullable known nonTerminal := by
  rw [noteNullable, isNullable_analysed, name_analysed, noteNullable]

/-- What is noted as leading is the same when the rules carry an outcome. -/
theorem NonTerminal.noteLeading_analysed (nullable known : String → Bool)
    (leading : String → KindSet K) (table : LeadingTable K) (nonTerminal : NonTerminal K R) :
    noteLeading known table (nonTerminal.analysed nullable leading) =
      noteLeading known table nonTerminal := by
  rw [noteLeading, first_analysed, name_analysed, noteLeading]

namespace Grammar

/-- The analysis changes each non-terminal by itself once both tables are known. -/
theorem analyse_eq_map (grammar : Grammar K R) :
    grammar.analyse = grammar.map (NonTerminal.analysed grammar.nullable.contains
      grammar.leadingTable.get)
      (NonTerminal.name_analysed _ _) := rfl

theorem nonTerminals_analyse (grammar : Grammar K R) :
    grammar.analyse.nonTerminals =
      grammar.nonTerminals.map (NonTerminal.analysed grammar.nullable.contains
        grammar.leadingTable.get) := rfl

theorem start_analyse (grammar : Grammar K R) : grammar.analyse.start = grammar.start := rfl

/-- A name leads to the non-terminal with the outcome of the analysis. -/
theorem find?_analyse (grammar : Grammar K R) (name : String) :
    grammar.analyse.find? name =
      (grammar.find? name).map (NonTerminal.analysed grammar.nullable.contains
        grammar.leadingTable.get) := by
  rw [analyse_eq_map, find?_map]

/-- The rules of an analysed grammar are those that it had, with the outcome of the analysis. -/
theorem mem_rules_analyse {grammar : Grammar K R} {name : String} {rule : Rule K R} :
    (name, rule) ∈ grammar.analyse.rules ↔ ∃ before, (name, before) ∈ grammar.rules ∧
      before.analysed grammar.nullable.contains grammar.leadingTable.get = rule := by
  simp only [mem_rules_iff, find?_analyse, Option.map_eq_some_iff]
  constructor
  · rintro ⟨_, ⟨nonTerminal, hfind, rfl⟩, hrule⟩
    obtain ⟨before, hbefore, rfl⟩ := List.mem_map.1 hrule
    exact ⟨before, ⟨nonTerminal, hfind, hbefore⟩, rfl⟩
  · rintro ⟨before, ⟨nonTerminal, hfind, hbefore⟩, rfl⟩
    exact ⟨_, ⟨nonTerminal, hfind, rfl⟩, List.mem_map_of_mem hbefore⟩

theorem rule?_analyse (grammar : Grammar K R) (name : String) (index : Nat) :
    grammar.analyse.rule? name index =
      (grammar.rule? name index).map (Rule.analysed grammar.nullable.contains
        grammar.leadingTable.get) := by
  rw [rule?, rule?, find?_analyse]
  cases grammar.find? name with
  | none => rfl
  | some nonTerminal => exact List.getElem?_map

/-- A flat grammar remains flat. -/
theorem IsFlat.analyse {grammar : Grammar K R} (hflat : grammar.IsFlat) :
    grammar.analyse.IsFlat := by
  rintro ⟨name, rule⟩ hentry
  obtain ⟨before, hbefore, rfl⟩ := mem_rules_analyse.1 hentry
  exact hflat (name, before) hbefore

theorem names_analyse (grammar : Grammar K R) : grammar.analyse.names = grammar.names := by
  rw [analyse_eq_map, names_map]

/-- The names that can match nothing are found again. -/
theorem nullable_analyse (grammar : Grammar K R) : grammar.analyse.nullable = grammar.nullable := by
  have hpass : grammar.analyse.nullablePass = grammar.nullablePass := by
    funext known
    simp only [nullablePass, nonTerminals_analyse, List.foldl_map,
      NonTerminal.noteNullable_analysed]
  rw [nullable, hpass, nonTerminals_analyse, List.length_map, nullable]

/-- The kinds that names begin with are found again. -/
theorem leadingTable_analyse (grammar : Grammar K R) :
    grammar.analyse.leadingTable = grammar.leadingTable := by
  have hpass (nullable : String → Bool) : grammar.analyse.leadingPass nullable =
      grammar.leadingPass nullable := by
    funext table
    simp only [leadingPass, nonTerminals_analyse, List.foldl_map, NonTerminal.noteLeading_analysed]
  have hblank : grammar.analyse.blankTable = grammar.blankTable := by
    simp only [blankTable, nonTerminals_analyse, List.map_map, Function.comp_def,
      NonTerminal.name_analysed]
  rw [leadingTable, nullable_analyse, hpass, hblank, nonTerminals_analyse,
    List.length_map, leadingTable]

/-- The analysis has no effect on what is left recursive. -/
theorem leftRecursions_analyse (grammar : Grammar K R) :
    grammar.analyse.leftRecursions = grammar.leftRecursions := by
  have hleftmost (nullable : String → Bool) : grammar.analyse.leftmost nullable =
      grammar.leftmost nullable := by
    funext name
    simp only [leftmost, find?_analyse]
    cases grammar.find? name with
    | none => rfl
    | some nonTerminal => simp [NonTerminal.analysed, List.flatMap_map, Rule.analysed]
  have hcycles (nullable : String → Bool) (known names : List String) :
      grammar.analyse.cyclesFrom nullable known names =
      grammar.cyclesFrom nullable known names := by
    induction names generalizing known with
    | nil => rfl
    | cons name rest ih => simp only [cyclesFrom, cycleFrom, hleftmost, names_analyse, ih]
  rw [leftRecursions, hcycles, nullable_analyse, names_analyse, leftRecursions]

/-- The analysis of a grammar was written into its rules. -/
def IsAnalysed (grammar : Grammar K R) : Prop := grammar.analyse = grammar

theorem ext_nonTerminals :
    ∀ {a b : Grammar K R}, a.start = b.start → a.nonTerminals = b.nonTerminals → a = b
  | ⟨_, _, _⟩, ⟨_, _, _⟩, rfl, rfl => rfl

/-- Analysing a grammar once more changes nothing. -/
theorem isAnalysed_analyse (grammar : Grammar K R) : grammar.analyse.IsAnalysed := by
  refine ext_nonTerminals (start_analyse _) ?_
  rw [nonTerminals_analyse, nullable_analyse, leadingTable_analyse, nonTerminals_analyse,
    List.map_map]
  refine List.map_congr_left fun nonTerminal _ => ?_
  simp [NonTerminal.analysed, Rule.analysed, Rule.first, Rule.isNullable]

/-- A rule of an analysed grammar says whether it is nullable. -/
theorem IsAnalysed.mayBeEmpty_eq {grammar : Grammar K R} (hanalysed : grammar.IsAnalysed)
    {name : String} {rule : Rule K R} (hrule : (name, rule) ∈ grammar.rules) :
    rule.mayBeEmpty = rule.isNullable grammar.nullable.contains := by
  rw [← show grammar.analyse = grammar from hanalysed] at hrule
  obtain ⟨before, _, rfl⟩ := mem_rules_analyse.1 hrule
  rfl

/-- A rule of an analysed grammar has the kinds that it can begin with. -/
theorem IsAnalysed.leading_eq {grammar : Grammar K R} (hanalysed : grammar.IsAnalysed)
    {name : String} {rule : Rule K R} (hrule : (name, rule) ∈ grammar.rules) :
    rule.leading = rule.first grammar.nullable.contains grammar.leadingTable.get := by
  rw [← show grammar.analyse = grammar from hanalysed] at hrule
  obtain ⟨before, _, rfl⟩ := mem_rules_analyse.1 hrule
  rfl

end Grammar

end GrammarKit
