import GrammarKit.Proofs.Grammar.Mentions
import GrammarKit.Proofs.Parser.Generated

namespace GrammarKit

variable {K : Type} [DecidableEq K] [TokenKind K]

/-- No problem with the text of a rule is one of an unused name. -/
theorem RuleText.Problem.code_ne (problem : RuleText.Problem) :
    problem.code ≠ .unreachableNonTerminal := by
  cases problem <;> simp [code]

/-- Of all problems, only unused names are reported as such. -/
theorem Grammar.filter_problems {R : Type} (grammar : Grammar K R) :
    grammar.problems.filter (fun problem => problem.code = .unreachableNonTerminal) =
      grammar.unused.map .unused := by
  have hstart : grammar.startProblem?.toList.filter
      (fun problem => problem.code = .unreachableNonTerminal) = [] := by
    rw [startProblem?]
    split <;> rfl
  rw [problems, List.filter_append, List.filter_append, List.filter_append,
    List.filter_append, hstart]
  simp [List.filter_map, Function.comp_def, Problem.code]

namespace Parser

variable {O C : Type}

/-- What a reading keeps to: it leaves the start alone, has rules for all its
    names, and reports no unused names. -/
structure Reading.IsSound (reading : Reading K O C) (start : String) : Prop where
  start_eq : reading.grammar.start = start
  exists_rule : ∀ name ∈ reading.grammar.names, ∃ rule, (name, rule) ∈ reading.grammar.rules
  code_ne : ∀ diagnostic ∈ reading.diagnostics, diagnostic.code ≠ .unreachableNonTerminal

namespace Reading.IsSound

variable {reading : Reading K O C} {start : String}

/-- An added rule is there under its name. -/
theorem exists_rule_add (hsound : reading.IsSound start) {name : String}
    {rule : Rule K (Reducer K O C)} :
    ∀ other ∈ (reading.grammar.add name rule).names,
      ∃ rule', (other, rule') ∈ (reading.grammar.add name rule).rules := by
  intro other hother
  rcases Grammar.mem_names_add.1 hother with rfl | hother
  · exact ⟨rule, Grammar.mem_rules_add.2 (Or.inl rfl)⟩
  · obtain ⟨rule', hrule'⟩ := hsound.exists_rule other hother
    exact ⟨rule', Grammar.mem_rules_add.2 (Or.inr hrule')⟩

/-- Reading a declaration keeps to it. -/
theorem insert (hsound : reading.IsSound start) (dialect : Dialect)
    (declaration : Declaration K O C) :
    (reading.insert dialect declaration).IsSound start := by
  cases declaration with
  | clauses name clauses reducer => exact ⟨hsound.start_eq, hsound.exists_rule_add, hsound.code_ne⟩
  | text text reducer isOperand =>
    rw [Reading.insert]
    split
    · next problem hread =>
      refine ⟨hsound.start_eq, hsound.exists_rule, fun diagnostic hdiagnostic => ?_⟩
      rcases List.mem_append.1 hdiagnostic with hold | hnew
      · exact hsound.code_ne diagnostic hold
      · obtain rfl := List.mem_singleton.1 hnew
        exact problem.code_ne
    · exact ⟨hsound.start_eq, hsound.exists_rule_add, hsound.code_ne⟩

end Reading.IsSound

variable {declarations : List (Declaration K O C)} {options : ParserOptions} {start name : String}

/-- The reading of all declarations keeps to it. -/
theorem isSound_declared : (declared declarations options start).IsSound start := by
  have hempty : (Reading.empty start : Reading K O C).IsSound start :=
    ⟨rfl, fun _ hname => absurd hname List.not_mem_nil, fun _ hdiagnostic =>
      absurd hdiagnostic List.not_mem_nil⟩
  exact List.foldlRecOn (motive := fun reading : Reading K O C => reading.IsSound start)
    declarations _ hempty fun reading hreading declaration _ =>
      hreading.insert options.dialect declaration

/-- The names are those of declared rules. -/
theorem mem_names_declared_iff :
    name ∈ (declared declarations options start).grammar.names ↔
    IsDeclared options.dialect declarations name := by
  constructor
  · intro hname
    obtain ⟨rule, hrule⟩ := isSound_declared.exists_rule name hname
    obtain ⟨declaration, hmem, hdeclares⟩ := mem_rules_declared.1 hrule
    exact ⟨declaration, hmem, rule, hdeclares⟩
  · rintro ⟨declaration, hmem, rule, hdeclares⟩
    exact Grammar.mem_names_of_mem_rules (mem_rules_declared.2 ⟨declaration, hmem, hdeclares⟩)

/-- Whether a name counts as unused: it is declared and not the start, it is not
    called like a group or a choice, no rule declared for another name refers to
    it at any depth, and its own rules do so at most outside groups and
    choices. -/
structure IsUnused (declarations : List (Declaration K O C)) (options : ParserOptions)
    (start name : String) : Prop where
  isDeclared : IsDeclared options.dialect declarations name
  ne_start : name ≠ start
  not_mem_madeNames : name ∉ (unflattened declarations [] options start).madeNames
  not_mem_references : ∀ declaration ∈ declarations, ∀ other rule,
    Declares options.dialect declaration other rule →
    other ≠ name → name ∉ Clause.referencesIn rule.clauses
  not_mem_enclosed : ∀ declaration ∈ declarations, ∀ rule,
    Declares options.dialect declaration name rule →
    name ∉ Clause.enclosedIn rule.clauses

/-- A name is referred to when a declared rule of another name refers to it. -/
theorem mentions_declared_iff : Mentions (declared declarations options start).grammar.rules name ↔
    ∃ declaration ∈ declarations, ∃ other rule, Declares options.dialect declaration other rule ∧
      other ≠ name ∧
      name ∈ Clause.referencesIn rule.clauses := by
  simp only [Mentions, Prod.exists, mem_rules_declared]
  grind

/-- A name refers to itself inside a group or a choice when one of its declared rules does. -/
theorem mem_enclosedIn_declared_iff :
    name ∈ Clause.enclosedIn ((declared declarations options start).grammar.clausesOf name) ↔
      ∃ declaration ∈ declarations, ∃ rule, Declares options.dialect declaration name rule ∧
        name ∈ Clause.enclosedIn rule.clauses := by
  simp only [Clause.enclosedIn, Grammar.clausesOf, List.flatMap_assoc, List.mem_flatMap (b := name),
    ← Grammar.mem_rules_iff_mem_rulesOf, mem_rules_declared]
  grind

theorem mem_unused_iff : name ∈ (unflattened declarations [] options start).flatten.unused ↔
    IsUnused declarations options start name := by
  have hdeclared : unflattened declarations [] options start =
      (declared declarations options start).grammar :=
    congrArg Reading.grammar (insertOperations_nil _ _)
  rw [Grammar.mem_unused_flatten_iff, hdeclared, mem_names_declared_iff, isSound_declared.start_eq,
    mentions_declared_iff, mem_enclosedIn_declared_iff]
  constructor
  · rintro ⟨hname, hstart, hmade, hmentions, henclosed⟩
    exact
      { isDeclared := hname
        ne_start := hstart
        not_mem_madeNames := hdeclared ▸ hmade
        not_mem_references := fun declaration hmem other rule hdeclares hne hreferences =>
          hmentions ⟨declaration, hmem, other, rule, hdeclares, hne, hreferences⟩
        not_mem_enclosed := fun declaration hmem rule hdeclares hreferences =>
          henclosed ⟨declaration, hmem, rule, hdeclares, hreferences⟩ }
  · rintro ⟨hname, hstart, hmade, hreferences, henclosed⟩
    refine ⟨hname, hstart, hdeclared ▸ hmade, ?_, ?_⟩
    · rintro ⟨declaration, hmem, other, rule, hdeclares, hne, hmentions⟩
      exact hreferences declaration hmem other rule hdeclares hne hmentions
    · rintro ⟨declaration, hmem, rule, hdeclares, hinside⟩
      exact henclosed declaration hmem rule hdeclares hinside

/-- Unused names are reported exactly. A build without operators warns once of
    each declared name that counts as unused, and of no other. -/
theorem unused_reported (lexer : Lexer K) (declarations : List (Declaration K O C))
    (options : ParserOptions) (start : String) :
    ∃ names : List String, names.Nodup ∧ (∀ name, name ∈ names ↔
      IsUnused declarations options start name) ∧
      (build lexer declarations [] options start).diagnostics.filter
          (fun diagnostic => diagnostic.code = .unreachableNonTerminal) =
        names.map fun name =>
          { level := .warn, code := .unreachableNonTerminal,
            message := s!"non terminal {name} is never used" } := by
  refine ⟨(unflattened declarations [] options start).flatten.unused, ?_,
    fun name => mem_unused_iff, ?_⟩
  · exact (Grammar.nodup_names _).filter _
  · have hread : (declared declarations options start).diagnostics.filter
        (fun diagnostic => diagnostic.code = .unreachableNonTerminal) = [] :=
      List.filter_eq_nil_iff.2 fun diagnostic hdiagnostic => by
        simpa using isSound_declared.code_ne diagnostic hdiagnostic
    change (((declared declarations options start).insertOperations options.expressionRoot
      []).diagnostics ++ (unflattened declarations [] options start).flatten.problems.map
        Grammar.Problem.diagnostic).filter _ = _
    have hproblems := (unflattened declarations [] options start).flatten.filter_problems
    rw [insertOperations_nil, List.filter_append, hread, List.nil_append, List.filter_map]
    exact (congrArg (List.map Grammar.Problem.diagnostic) hproblems).trans List.map_map

namespace Sample

/-- A list that nothing but itself refers to. -/
def lists : List (Declaration (Kind symbols) Nat Unit) :=
  [.text "line : INT" counting false, .text "list : INT ( PLUS list )?" counting false]

theorem read_single :
    (RuleText.read "line : INT" .ebnf : Except _ (String × List (Clause (Kind symbols)))) =
    .ok ("line", [.ofKind int]) :=
  RuleText.read_eq_ok (by decide +kernel)

theorem read_list : (RuleText.read "list : INT ( PLUS list )?" .ebnf :
    Except _ (String × List (Clause (Kind symbols)))) =
      .ok ("list", [.ofKind int, .option (.group [.ofKind plus, .ofName "list"] false) false]) :=
  RuleText.read_eq_ok (by decide +kernel)

/-- The two rules as they are read. -/
def listRules : Grammar (Kind symbols) (Reducer (Kind symbols) Nat Unit) :=
  ((Grammar.empty "line").add "line"
    { clauses := [.ofKind int], reducer := some counting }).add "list"
    { clauses := [.ofKind int, .option (.group [.ofKind plus, .ofName "list"] false) false],
      reducer := some counting }

theorem insertOperations_lists : (declared lists {} "line").insertOperations "expressions" [] =
    { grammar := listRules, operands := [] } := by
  simp only [insertOperations_nil, declared, lists, List.foldl, Reading.insert,
    read_single, read_list]
  rfl

theorem unflattened_lists : unflattened lists [] {} "line" = listRules :=
  congrArg Reading.grammar insertOperations_lists

/-- A list that refers to itself inside a group is not reported. -/
theorem build_lists : build lexer lists [] {} "line" =
    ⟨some ⟨lexer, listRules.flatten.analyse, {}⟩, [], fun h => nomatch h⟩ :=
  build_eq insertOperations_lists (by decide +kernel)

end Sample

open Sample in
/-- A build has nothing to say about a name that no rule of another name refers
    to if it refers to itself in a group. -/
theorem exists_unused_not_reported : ∃ parser : Parser (Kind symbols) Nat Unit,
    build Sample.lexer lists [] {} "line" = ⟨some parser, [], fun h => nomatch h⟩ ∧
      (unflattened lists [] {} "line").NamesAreNew ∧ IsDeclared .ebnf lists "list" ∧
      "list" ≠ "line" ∧
      ∀ declaration ∈ lists, ∀ other rule, Declares .ebnf declaration other rule → other ≠ "list" →
        "list" ∉ Clause.referencesIn rule.clauses := by
  refine ⟨_, build_lists, ?_, ?_, by decide, ?_⟩
  · rw [unflattened_lists]
    exact ⟨by decide, by decide⟩
  · exact ⟨_, List.mem_cons_of_mem _ List.mem_cons_self, _, .text read_list⟩
  · intro declaration hmem other rule hdeclares hne
    rcases List.mem_cons.1 hmem with rfl | hmem
    · cases hdeclares with
      | text hread =>
        rw [read_single] at hread
        obtain ⟨-, rfl⟩ := Prod.mk.inj (Except.ok.inj hread)
        decide
    · obtain rfl := List.mem_singleton.1 hmem
      cases hdeclares with
      | text hread =>
        rw [read_list] at hread
        exact absurd (Prod.mk.inj (Except.ok.inj hread)).1.symm hne

end Parser

end GrammarKit
