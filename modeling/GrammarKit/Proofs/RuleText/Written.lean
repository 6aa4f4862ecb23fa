import GrammarKit.Proofs.Grammar.Prepared
import GrammarKit.Proofs.Reduction.Visit
import GrammarKit.RuleText.Reader

namespace GrammarKit

namespace Clause

variable {K : Type}

/-- Whether the clause is neither an option nor a repetition. -/
def isAtom : Clause K → Bool
  | terminal .. | nonTerminal .. | group .. | choice .. => true
  | option .. | zeroOrMore .. | oneOrMore .. => false

/-- Whether the clause is a name without any mark. -/
def isMereName : Clause K → Bool
  | terminal _ discarded => !discarded
  | nonTerminal _ role discarded => role = .rule && !discarded
  | _ => false

mutual

/-- Whether a clause is one that can be written in rule notation: a modifier
    stands behind a name, a group or a choice, and a choice is between names, of
    which there is at least one. -/
def IsWritten : Clause K → Prop
  | terminal .. => True
  | nonTerminal _ role _ => role = .rule
  | group clauses _ => AreWritten clauses
  | choice alternatives _ => alternatives ≠ [] ∧
      ∀ alternative ∈ alternatives, alternative.isMereName = true
  | option inner _ => inner.isDiscarded = false ∧ inner.isAtom = true ∧ IsWritten inner
  | zeroOrMore inner _ => inner.isDiscarded = false ∧ inner.isAtom = true ∧ IsWritten inner
  | oneOrMore inner _ => inner.isDiscarded = false ∧ inner.isAtom = true ∧ IsWritten inner

def AreWritten : List (Clause K) → Prop
  | [] => True
  | clause :: rest => IsWritten clause ∧ AreWritten rest

end

/-- A clause that can be written can be written with a mark for discarding. -/
theorem IsWritten.discard {clause : Clause K} (hwritten : clause.IsWritten) :
    clause.discard.IsWritten := by
  cases clause <;> exact hwritten

end Clause

namespace RuleText

open Clause Reduction

mutual

/-- Whether no choice is empty, at any depth. -/
def ClauseText.HasNames : ClauseText → Prop
  | .name .. => True
  | .group clauses _ _ => HaveNames clauses
  | .choice names _ _ => names ≠ []

def HaveNames : List ClauseText → Prop
  | [] => True
  | clause :: rest => clause.HasNames ∧ HaveNames rest

end

/-- Clauses have names in their choices when each of them has. -/
theorem haveNames_iff {clauses : List ClauseText} :
    HaveNames clauses ↔ ∀ clause ∈ clauses, clause.HasNames := by
  induction clauses with
  | nil => simp [HaveNames]
  | cons first rest ih => simp [HaveNames, ih]

/-- Marks take no names away. -/
theorem ClauseText.HasNames.withMarks {clause : ClauseText} (hnames : clause.HasNames)
    (modifier : Option Modifier) (discarded : Bool) :
    (clause.withMarks modifier discarded).HasNames := by
  cases clause <;> exact hnames

section Clauses

variable {K : Type}

/-- A modifier and a mark behind a name, a group or a choice can be written. -/
theorem isWritten_finish {clause : Clause K} (hdiscarded : clause.isDiscarded = false)
    (hatom : clause.isAtom = true) (hwritten : clause.IsWritten) (modifier : Option Modifier)
    (discarded : Bool) :
    (finish modifier discarded clause).IsWritten := by
  have hmarked {repeated : Clause K} (hrepeated : repeated.IsWritten) :
      (if discarded then repeated.discard else repeated).IsWritten := by
    split
    · exact hrepeated.discard
    · exact hrepeated
  match modifier with
  | none => exact hmarked hwritten
  | some .optional | some .zeroOrMore | some .oneOrMore =>
    exact hmarked ⟨hdiscarded, hatom, hwritten⟩

variable [DecidableEq K] [TokenKind K]

theorem isMereName_namedClause (name : String) :
    (namedClause name : Clause K).isMereName = true := by
  unfold namedClause
  split <;> rfl

mutual

/-- A clause whose choices have names can be written. -/
theorem ClauseText.HasNames.isWritten :
    ∀ {clause : ClauseText}, clause.HasNames → (clause.toClause : Clause K).IsWritten
  | .name name _ _, _ => by
    rw [ClauseText.toClause, namedClause]
    split <;> exact isWritten_finish rfl rfl (by simp [ofKind, ofName, IsWritten]) _ _
  | .group clauses _ _, hnames => by
    have hgroup : (Clause.group (toClauses clauses) false : Clause K).IsWritten :=
      HaveNames.areWritten hnames
    rw [ClauseText.toClause]
    exact isWritten_finish rfl rfl hgroup _ _
  | .choice names _ _, hnames => by
    have hchoice : (Clause.choice (names.map namedClause) false : Clause K).IsWritten := by
      refine ⟨fun hnil => hnames (List.map_eq_nil_iff.1 hnil), fun alternative halternative => ?_⟩
      obtain ⟨name, -, rfl⟩ := List.mem_map.1 halternative
      exact isMereName_namedClause name
    rw [ClauseText.toClause]
    exact isWritten_finish rfl rfl hchoice _ _

theorem HaveNames.areWritten :
    ∀ {clauses : List ClauseText}, HaveNames clauses → AreWritten (toClauses (K := K) clauses)
  | [], _ => trivial
  | _ :: _, hnames => ⟨ClauseText.HasNames.isWritten hnames.1, HaveNames.areWritten hnames.2⟩

end

end Clauses

end RuleText

namespace Arguments

open Reduction

variable {K O : Type}

/-- Looking at the arguments takes none of them. -/
theorem yields_get {σ ε : Type} {before found after : σ}
    (hget : Yields (get : ExceptT ε (StateM σ) σ) before found after) :
    before = found ∧ before = after := by
  obtain ⟨hfound, hafter⟩ := Prod.mk.inj hget
  exact ⟨Except.ok.inj hfound, hafter⟩

/-- What is taken is one of the arguments, and what is left are other ones. -/
theorem mem_of_yields_take {index : Nat} {arguments after : Arguments K O} {value : Value K O}
    (htake : Yields (take index) arguments value after) :
    some value ∈ arguments.slots ∧ ∀ other, some other ∈ after.slots →
    some other ∈ arguments.slots := by
  obtain ⟨_, _, hget, htake⟩ := yields_bind_iff.1 htake
  obtain ⟨rfl, rfl⟩ := yields_get hget
  split at htake
  · next found hfound =>
    obtain ⟨_, _, hget, htake⟩ := yields_bind_iff.1 htake
    obtain ⟨rfl, rfl⟩ := yields_get hget
    obtain ⟨_, _, hset, hpure⟩ := yields_bind_iff.1 htake
    obtain ⟨-, rfl⟩ := Prod.mk.inj hset
    obtain ⟨rfl, rfl⟩ := yields_pure_iff.1 hpure
    refine ⟨?_, fun other hother => ?_⟩
    · rw [get?, Option.join_eq_some_iff] at hfound
      exact List.mem_of_getElem? hfound
    · rcases List.mem_or_eq_of_mem_set hother with hmem | hnone
      · exact hmem
      · cases hnone
  · exact absurd htake not_yields_throw

/-- What is taken in a form is one of the arguments, in this form. -/
theorem exists_of_yields_takeAs {α : Type} {expected : Variant} {read : Value K O → Option α}
    {index : Nat} {arguments after : Arguments K O} {result : α}
    (htake : Yields (takeAs expected read index) arguments result after) :
    (∃ value, some value ∈ arguments.slots ∧ read value = some result) ∧
      ∀ other, some other ∈ after.slots → some other ∈ arguments.slots := by
  obtain ⟨value, _, htake, hread⟩ := yields_bind_iff.1 htake
  obtain ⟨hmem, hafter⟩ := mem_of_yields_take htake
  split at hread
  · next inner hinner =>
    obtain ⟨rfl, rfl⟩ := yields_pure_iff.1 hread
    exact ⟨⟨value, hmem, hinner⟩, hafter⟩
  · exact absurd hread not_yields_throw

end Arguments

namespace Parser

variable {K O C : Type} [DecidableEq K] [TokenKind K]

/-- A text has a value if and only if it has a tree that is reduced to it. -/
theorem parseFrom_eq_ok_iff {parser : Parser K O C} {source start : String} {context after : C}
    {value : O} :
    parser.parseFrom source start context = (.ok value, after) ↔
      ∃ tree, parser.syntaxTreeFrom source start = .ok tree ∧
        Reduction.Yields (Reduction.reduce parser.grammar tree) context value after := by
  constructor
  · intro hparse
    unfold parseFrom at hparse
    split at hparse
    · cases hparse
    · next tree htree =>
      split at hparse
      · next hreduce =>
        obtain ⟨heq, rfl⟩ := Prod.mk.inj hparse
        obtain rfl := Except.ok.inj heq
        exact ⟨tree, htree, hreduce⟩
      · cases hparse
  · rintro ⟨tree, htree, hreduce⟩
    have hrun : (Reduction.reduce parser.grammar tree).run.run context = (.ok value, after) :=
      hreduce
    simp only [parseFrom, htree, hrun]

/-- A value comes from a tree. -/
theorem exists_of_parse_eq_ok [Inhabited C] {parser : Parser K O C} {source : String} {value : O}
    (hparse : parser.parse source = .ok value) :
    ∃ tree after, parser.syntaxTree source = .ok tree ∧
      Reduction.Yields (Reduction.reduce parser.grammar tree) default value after := by
  obtain ⟨tree, htree, hreduce⟩ := parseFrom_eq_ok_iff.1 (Prod.ext hparse rfl)
  exact ⟨tree, _, htree, hreduce⟩

end Parser

namespace RuleText

open Arguments Reduction

/-- Whether no choice in a part of a rule is empty. -/
def Part.HasNames : Part → Prop
  | .rule written => HaveNames written.clauses
  | .clause text => text.HasNames
  | .atom text => text.HasNames
  | .modifier _ | .name _ => True

/-- Whether no choice in any of the arguments is empty. -/
def ArgumentsHaveNames (arguments : Arguments RuleToken Part) : Prop :=
  ∀ value, some value ∈ arguments.slots → ∀ part ∈ value.results, part.HasNames

/-- A reducer that makes a good part of good arguments keeps parts good. -/
theorem keeps_ofTaking {taking : Taking Part}
    (hkeeps : ∀ {arguments after : Arguments RuleToken Part} {part : Part},
      ArgumentsHaveNames arguments → Yields taking arguments part after → part.HasNames) :
    Keeps Part.HasNames (Reducer.ofTaking taking : PartReducer) := by
  intro values context part after hvalues hcall
  obtain ⟨hresult, -⟩ := Prod.mk.inj hcall
  have hyields : Yields taking (.ofValues values) part (taking.run.run (.ofValues values)).2 :=
    Prod.ext hresult rfl
  refine hkeeps (fun value hvalue => ?_) hyields
  obtain ⟨_, hmem, heq⟩ := List.mem_map.1 hvalue
  exact Option.some.inj heq ▸ hvalues _ hmem

section Reducers

variable {arguments after : Arguments RuleToken Part}

/-- Taking a token leaves good arguments. -/
theorem ArgumentsHaveNames.takeToken (harguments : ArgumentsHaveNames arguments) {index : Nat}
    {token : Token RuleToken} (htake : Yields (takeToken index) arguments token after) :
    ArgumentsHaveNames after :=
  fun value hvalue => harguments value ((exists_of_yields_takeAs htake).2 value hvalue)

/-- A good argument is taken. -/
theorem ArgumentsHaveNames.takeValue (harguments : ArgumentsHaveNames arguments) {index : Nat}
    {part : Part} (htake : Yields (takeValue index) arguments part after) : part.HasNames := by
  obtain ⟨⟨value, hvalue, hread⟩, -⟩ := exists_of_yields_takeAs htake
  cases value with
  | value found =>
    obtain rfl := Option.some.inj hread
    exact harguments _ hvalue _ (List.mem_singleton_self _)
  | _ => cases hread

/-- Good arguments are taken. -/
theorem ArgumentsHaveNames.takeValues (harguments : ArgumentsHaveNames arguments) {index : Nat}
    {parts : List Part} (htake : Yields (takeValues index) arguments parts after) :
    ∀ part ∈ parts, part.HasNames := by
  obtain ⟨⟨value, hvalue, hread⟩, -⟩ := exists_of_yields_takeAs htake
  cases value with
  | values found =>
    obtain rfl := Option.some.inj hread
    exact harguments _ hvalue
  | _ => cases hread

/-- Only clauses are taken for clauses. -/
theorem eq_clause_of_yields {part : Part} {clause : ClauseText}
    (hclause : Yields (asClause part) arguments clause after) :
    part = .clause clause := by
  cases part with
  | clause text =>
    obtain ⟨rfl, -⟩ := yields_pure_iff.1 hclause
    rfl
  | _ => cases hclause

/-- Only clauses without marks are taken for what can be marked. -/
theorem eq_atom_of_yields {part : Part} {clause : ClauseText}
    (hatom : Yields (asAtom part) arguments clause after) :
    part = .atom clause := by
  cases part with
  | atom text =>
    obtain ⟨rfl, -⟩ := yields_pure_iff.1 hatom
    rfl
  | _ => cases hatom

/-- Clauses that are taken from good parts have names in their choices. -/
theorem haveNames_of_yields_mapM {parts : List Part} {clauses : List ClauseText}
    (hparts : ∀ part ∈ parts, part.HasNames)
    (hclauses : Yields (parts.mapM asClause) arguments clauses after) :
    HaveNames clauses := by
  refine haveNames_iff.2 fun clause hclause => ?_
  obtain ⟨part, hpart, _, _, hyields⟩ := exists_of_mem_right
    (forall₂_of_yields_mapM hclauses) hclause
  have hnames := hparts part hpart
  rw [eq_clause_of_yields hyields] at hnames
  exact hnames

theorem keeps_readRule : Keeps Part.HasNames (Reducer.ofTaking readRule : PartReducer) :=
  keeps_ofTaking fun harguments hrule => by
    obtain ⟨_, _, htoken, hrule⟩ := yields_bind_iff.1 hrule
    obtain ⟨_, _, hvalues, hrule⟩ := yields_bind_iff.1 hrule
    obtain ⟨_, _, hclauses, hpure⟩ := yields_bind_iff.1 hrule
    obtain ⟨rfl, -⟩ := yields_pure_iff.1 hpure
    exact haveNames_of_yields_mapM ((harguments.takeToken htoken).takeValues hvalues) hclauses

theorem keeps_readClause : Keeps Part.HasNames (Reducer.ofTaking readClause : PartReducer) :=
  keeps_ofTaking fun harguments hclause => by
    obtain ⟨_, _, hvalue, hclause⟩ := yields_bind_iff.1 hclause
    obtain ⟨atom, _, hatom, hclause⟩ := yields_bind_iff.1 hclause
    obtain ⟨_, _, _, hclause⟩ := yields_bind_iff.1 hclause
    obtain ⟨_, _, _, hclause⟩ := yields_bind_iff.1 hclause
    obtain ⟨_, _, _, hpure⟩ := yields_bind_iff.1 hclause
    obtain ⟨rfl, -⟩ := yields_pure_iff.1 hpure
    have hnames := harguments.takeValue hvalue
    rw [eq_atom_of_yields hatom] at hnames
    exact ClauseText.HasNames.withMarks hnames _ _

theorem keeps_readName : Keeps Part.HasNames (Reducer.ofTaking readName : PartReducer) :=
  keeps_ofTaking fun _ hname => by
    obtain ⟨_, _, _, hpure⟩ := yields_bind_iff.1 hname
    obtain ⟨rfl, -⟩ := yields_pure_iff.1 hpure
    trivial

theorem keeps_readGroup : Keeps Part.HasNames (Reducer.ofTaking readGroup : PartReducer) :=
  keeps_ofTaking fun harguments hgroup => by
    obtain ⟨_, _, hvalues, hgroup⟩ := yields_bind_iff.1 hgroup
    obtain ⟨_, _, hclauses, hpure⟩ := yields_bind_iff.1 hgroup
    obtain ⟨rfl, -⟩ := yields_pure_iff.1 hpure
    exact haveNames_of_yields_mapM (harguments.takeValues hvalues) hclauses

theorem keeps_readChoice : Keeps Part.HasNames (Reducer.ofTaking readChoice : PartReducer) :=
  keeps_ofTaking fun _ hchoice => by
    obtain ⟨_, _, _, hchoice⟩ := yields_bind_iff.1 hchoice
    obtain ⟨_, _, _, hchoice⟩ := yields_bind_iff.1 hchoice
    obtain ⟨_, _, _, hpure⟩ := yields_bind_iff.1 hchoice
    obtain ⟨rfl, -⟩ := yields_pure_iff.1 hpure
    exact List.cons_ne_nil _ _

theorem keeps_readAlternative :
    Keeps Part.HasNames (Reducer.ofTaking readAlternative : PartReducer) :=
  keeps_ofTaking fun _ halternative => by
    obtain ⟨_, _, _, hpure⟩ := yields_bind_iff.1 halternative
    obtain ⟨rfl, -⟩ := yields_pure_iff.1 hpure
    trivial

theorem keeps_modifier (modifier : Modifier) :
    Keeps Part.HasNames (Reducer.ofTaking (return .modifier modifier) : PartReducer) :=
  keeps_ofTaking fun _ hmodifier => by
    obtain ⟨rfl, -⟩ := yields_pure_iff.1 hmodifier
    trivial

/-- No reducer of rule notation makes a choice out of nothing. -/
theorem keeps_of_mem_rules {name : String} {rule : Rule RuleToken PartReducer}
    (hrule : (name, rule) ∈ grammar.rules) :
    rule.operations = [] ∧ ∀ reducer, rule.reducer = some reducer →
    Keeps Part.HasNames reducer := by
  obtain ⟨before, hbefore, rfl⟩ := Grammar.mem_rules_analyse.1 hrule
  have hentry := (Grammar.mem_rules_addAll.1 hbefore).resolve_left nofun
  simp only [List.mem_cons, List.not_mem_nil, or_false, Prod.mk.injEq] at hentry
  rcases hentry with ⟨-, rfl⟩ | ⟨-, rfl⟩ | ⟨-, rfl⟩ | ⟨-, rfl⟩ | ⟨-, rfl⟩ | ⟨-, rfl⟩ | ⟨-, rfl⟩ |
    ⟨-, rfl⟩ | ⟨-, rfl⟩
  all_goals refine ⟨rfl, fun reducer hreducer => ?_⟩
  all_goals obtain rfl := Option.some.inj hreducer
  · exact keeps_readRule
  · exact keeps_readClause
  · exact keeps_readName
  · exact keeps_readGroup
  · exact keeps_readChoice
  · exact keeps_readAlternative
  · exact keeps_modifier .optional
  · exact keeps_modifier .zeroOrMore
  · exact keeps_modifier .oneOrMore

/-- Whichever reducer a node has, it keeps parts good. -/
theorem keeps_of_reducer? {label : NodeLabel RuleToken} {reducer : PartReducer}
    (hreducer : reducer? grammar label = some reducer) : Keeps Part.HasNames reducer := by
  obtain ⟨rule, hrule, hreducer⟩ := Option.bind_eq_some_iff.1 hreducer
  obtain ⟨hnone, hkeeps⟩ := keeps_of_mem_rules (Grammar.mem_rules_of_rule? hrule)
  split at hreducer
  · simp [Rule.operation?, hnone] at hreducer
  · exact hkeeps reducer hreducer

end Reducers

/-- Choices that are read have names. -/
theorem haveNames_of_readSyntax {text : String} {rule : RuleSyntax}
    (hread : readSyntax text = .ok rule) :
    HaveNames rule.clauses := by
  unfold readSyntax at hread
  split at hread
  · next found hparse =>
    obtain rfl := Except.ok.inj hread
    obtain ⟨tree, _, -, hreduce⟩ := Parser.exists_of_parse_eq_ok hparse
    exact (evaluates_of_yields_reduce hreduce).forall_results (fun _ _ => keeps_of_reducer?) _
      (List.mem_singleton_self _)
  · cases hread
  · cases hread

/-- All clauses that are read are as rule notation has them. -/
theorem isWritten_of_read {K : Type} [DecidableEq K] [TokenKind K] {text name : String}
    {dialect : Dialect} {clauses : List (Clause K)}
    (hread : read text dialect = .ok (name, clauses)) : Clause.AreWritten clauses := by
  unfold read at hread
  split at hread
  · cases hread
  · next rule hsyntax =>
    split at hread
    · cases hread
    · obtain ⟨-, rfl⟩ := Prod.mk.inj (Except.ok.inj hread)
      exact (haveNames_of_readSyntax hsyntax).areWritten

end RuleText

end GrammarKit
