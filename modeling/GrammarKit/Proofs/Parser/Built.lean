import GrammarKit.Parser.Build
import GrammarKit.Proofs.Grammar.Layering
import GrammarKit.Proofs.Matching.Parse
import GrammarKit.Proofs.RuleText.Reading

namespace GrammarKit

namespace BuildResult

variable {α : Type}

/-- Nothing blocks a value that results. -/
theorem of_value_eq_some {value : Option α} {diagnostics : List Diagnostic} {result : α}
    (hresult : (BuildResult.of value diagnostics).value = some result) :
    value = some result ∧ ∀ diagnostic ∈ diagnostics, diagnostic.isBlocking = false := by
  simp only [BuildResult.of] at hresult
  split at hresult
  · cases hresult
  · next hnone => exact ⟨hresult, by simpa using hnone⟩

end BuildResult

namespace Parser

open Precedence

variable {K O C : Type} [DecidableEq K] [TokenKind K]

/-- Whether a declaration is for this rule of the non-terminal `name`. -/
inductive Declares (dialect : Dialect) : Declaration K O C → String → Rule K (Reducer K O C) → Prop
  | text {text name : String} {reducer : Reducer K O C} {isOperand : Bool}
      {clauses : List (Clause K)} : RuleText.read text dialect = .ok (name, clauses) →
        Declares dialect (.text text reducer isOperand) name { clauses, reducer := some reducer }
  | clauses {name : String} {clauses : List (Clause K)} {reducer : Reducer K O C} :
      Declares dialect (.clauses name clauses reducer) name { clauses, reducer := some reducer }

/-- A declared rule is neither one of a part nor of the layers. -/
theorem Declares.isPlain {dialect : Dialect} {declaration : Declaration K O C} {name : String}
    {rule : Rule K (Reducer K O C)} (hdeclares : Declares dialect declaration name rule) :
    rule.IsPlain := by
  cases hdeclares <;> exact ⟨rfl, rfl, rfl⟩

/-- A declared rule has a reducer. -/
theorem Declares.exists_reducer {dialect : Dialect} {declaration : Declaration K O C}
    {name : String} {rule : Rule K (Reducer K O C)}
    (hdeclares : Declares dialect declaration name rule) :
    ∃ reducer, rule.reducer = some reducer := by
  cases hdeclares <;> exact ⟨_, rfl⟩

/-- The rules that are declared, before the layers of operators are added. -/
def declared (declarations : List (Declaration K O C)) (options : ParserOptions) (start : String) :
    Reading K O C :=
  declarations.foldl (Reading.insert options.dialect) (.empty start)

/-- The grammar with the layers of operators, before groups and choices get names. -/
def unflattened (declarations : List (Declaration K O C))
    (operations : List (Operation K (Reducer K O C))) (options : ParserOptions) (start : String) :
    Grammar K (Reducer K O C) :=
  ((declared declarations options start).insertOperations options.expressionRoot operations).grammar

/-- A declaration adds the rule that it is for, and nothing else. -/
theorem mem_rules_insert {dialect : Dialect} {reading : Reading K O C}
    {declaration : Declaration K O C} {name : String} {rule : Rule K (Reducer K O C)} :
    (name, rule) ∈ (reading.insert dialect declaration).grammar.rules ↔
      (name, rule) ∈ reading.grammar.rules ∨ Declares dialect declaration name rule := by
  constructor
  · intro hrule
    cases declaration with
    | text text reducer isOperand =>
      simp only [Reading.insert] at hrule
      split at hrule
      · exact Or.inl hrule
      · next name' clauses hread =>
        rcases Grammar.mem_rules_add.1 hrule with heq | hold
        · obtain ⟨rfl, rfl⟩ := Prod.mk.inj heq
          exact Or.inr (.text hread)
        · exact Or.inl hold
    | clauses name' clauses reducer =>
      rcases Grammar.mem_rules_add.1 hrule with heq | hold
      · obtain ⟨rfl, rfl⟩ := Prod.mk.inj heq
        exact Or.inr .clauses
      · exact Or.inl hold
  · rintro (hold | hdeclares)
    · cases declaration with
      | text text reducer isOperand =>
        simp only [Reading.insert]
        split
        · exact hold
        · exact Grammar.mem_rules_add.2 (Or.inr hold)
      | clauses name' clauses reducer => exact Grammar.mem_rules_add.2 (Or.inr hold)
    · cases hdeclares with
      | text hread =>
        simp only [Reading.insert, hread]
        exact Grammar.mem_rules_add.2 (Or.inl rfl)
      | clauses => exact Grammar.mem_rules_add.2 (Or.inl rfl)

/-- Declarations add the rules that they are for, and nothing else. -/
theorem mem_rules_foldl_insert {dialect : Dialect} {declarations : List (Declaration K O C)}
    {reading : Reading K O C} {name : String} {rule : Rule K (Reducer K O C)} :
    (name, rule) ∈ (declarations.foldl (Reading.insert dialect) reading).grammar.rules ↔
      (name, rule) ∈ reading.grammar.rules ∨ ∃ declaration ∈ declarations,
        Declares dialect declaration name rule := by
  induction declarations generalizing reading with
  | nil => simp
  | cons first rest ih =>
    rw [List.foldl_cons, ih, mem_rules_insert, or_assoc]
    simp

/-- The rules of the declared grammar are those that were declared. -/
theorem mem_rules_declared {declarations : List (Declaration K O C)} {options : ParserOptions}
    {start name : String} {rule : Rule K (Reducer K O C)} :
    (name, rule) ∈ (declared declarations options start).grammar.rules ↔
      ∃ declaration ∈ declarations, Declares options.dialect declaration name rule := by
  rw [declared, mem_rules_foldl_insert]
  exact or_iff_right fun hnone => nomatch hnone

/-- All declared rules are plain. -/
theorem isPlain_of_mem_rules {declarations : List (Declaration K O C)} {options : ParserOptions}
    {start : String} :
    ∀ entry ∈ (declared declarations options start).grammar.rules, entry.2.IsPlain := by
  rintro ⟨name, rule⟩ hrule
  obtain ⟨_, -, hdeclares⟩ := mem_rules_declared.1 hrule
  exact hdeclares.isPlain

/-- Operands are names for which a rule was declared. -/
theorem exists_rule_of_mem_operands_foldl {dialect : Dialect}
    {declarations : List (Declaration K O C)} {reading : Reading K O C}
    (hreading : ∀ name ∈ reading.operands, ∃ rule, (name, rule) ∈ reading.grammar.rules) :
    ∀ name ∈ (declarations.foldl (Reading.insert dialect) reading).operands,
      ∃ rule,
        (name, rule) ∈ (declarations.foldl (Reading.insert dialect) reading).grammar.rules := by
  induction declarations generalizing reading with
  | nil => exact hreading
  | cons first rest ih =>
    refine ih fun name hname => ?_
    cases first with
    | text text reducer isOperand =>
      simp only [Reading.insert] at hname ⊢
      split at hname
      · exact hreading name hname
      · next name' clauses hread =>
        have hcases : name ∈ reading.operands ∨ name = name' := by
          dsimp only at hname
          split at hname
          · exact (List.mem_append.1 hname).imp_right List.mem_singleton.1
          · exact Or.inl hname
        rcases hcases with hold | rfl
        · obtain ⟨rule, hrule⟩ := hreading name hold
          exact ⟨rule, Grammar.mem_rules_add.2 (Or.inr hrule)⟩
        · exact ⟨_, Grammar.mem_rules_add.2 (Or.inl rfl)⟩
    | clauses name' clauses reducer =>
      obtain ⟨rule, hrule⟩ := hreading name hname
      exact ⟨rule, Grammar.mem_rules_add.2 (Or.inr hrule)⟩

/-- Operands have rules. -/
theorem exists_rule_of_mem_operands {declarations : List (Declaration K O C)}
    {options : ParserOptions} {start name : String}
    (hname : name ∈ (declared declarations options start).operands) :
    ∃ rule, (name, rule) ∈ (declared declarations options start).grammar.rules :=
  exists_rule_of_mem_operands_foldl (fun _ hnone => absurd hnone List.not_mem_nil) name hname

/-- Without operators there are no layers. -/
theorem insertOperations_nil (reading : Reading K O C) (root : String) :
    reading.insertOperations root [] = reading := by
  rw [Reading.insertOperations, Precedence.rules, precedences_nil]
  rfl

/-- A build that finds nothing wrong. -/
theorem build_eq {lexer : Lexer K} {declarations : List (Declaration K O C)}
    {operations : List (Operation K (Reducer K O C))} {options : ParserOptions} {start : String}
    {whole : Grammar K (Reducer K O C)} {operands : List String}
    (hwhole : (declared declarations options start).insertOperations options.expressionRoot
      operations = { grammar := whole, operands })
    (hproblems : whole.flatten.problems = []) :
    build lexer declarations operations options start =
      ⟨some ⟨lexer, whole.flatten.analyse, options⟩, [], fun h => nomatch h⟩ := by
  show BuildResult.of (some (Parser.mk lexer
      ((declared declarations options start).insertOperations options.expressionRoot
        operations).grammar.flatten.analyse options))
    (((declared declarations options start).insertOperations options.expressionRoot
      operations).diagnostics ++ ((declared declarations options start).insertOperations
      options.expressionRoot operations).grammar.flatten.problems.map
        Grammar.Problem.diagnostic) = _
  rw [hwhole, hproblems]
  rfl

/-- What is known of a parser that was built: the layers stand over the only
    operand, and none of the problems is there that would keep a build from
    succeeding. -/
structure IsBuilt (declarations : List (Declaration K O C))
    (operations : List (Operation K (Reducer K O C))) (options : ParserOptions)
    (start operand : String) (parser : Parser K O C) : Prop where
  operands : operations ≠ [] → (declared declarations options start).operands = [operand]
  unflattened_eq : unflattened declarations operations options start =
    (declared declarations options start).grammar.withLayers options.expressionRoot
    operand operations
  grammar_eq : parser.grammar = (unflattened declarations operations options start).flatten.analyse
  leftRecursions_eq : parser.grammar.leftRecursions = []
  undeclared_eq : (unflattened declarations operations options start).flatten.undeclared = []
  mixedChoices_eq : (unflattened declarations operations options start).flatten.mixedChoices = []

/-- A build that succeeds is made of what a build is made of. -/
theorem exists_isBuilt {lexer : Lexer K} {declarations : List (Declaration K O C)}
    {operations : List (Operation K (Reducer K O C))} {options : ParserOptions} {start : String}
    {parser : Parser K O C}
    (hbuild : (build lexer declarations operations options start).value = some parser) :
    ∃ operand, IsBuilt declarations operations options start operand parser := by
  obtain ⟨hparser, hclear⟩ := BuildResult.of_value_eq_some hbuild
  obtain rfl := Option.some.inj hparser
  have hproblem : ∀ problem ∈ (unflattened declarations operations options start).flatten.problems,
      problem.level = .warn := by
    intro problem hmem
    have hblocking := hclear problem.diagnostic (List.mem_append_right _ (List.mem_map_of_mem hmem))
    simpa [Diagnostic.isBlocking, Grammar.Problem.diagnostic] using hblocking
  have hrules : ∃ added, Precedence.rules options.expressionRoot
      (declared declarations options start).operands operations = .ok added := by
    cases hrules : Precedence.rules options.expressionRoot
      (declared declarations options start).operands operations with
    | ok added => exact ⟨added, rfl⟩
    | error problem =>
      have hblocking := hclear problem.diagnostic (List.mem_append_left _ (by
        simp [Reading.insertOperations, show declarations.foldl (Reading.insert options.dialect)
          (.empty start) = declared declarations options start from rfl, hrules]))
      cases hblocking
  obtain ⟨added, hadded⟩ := hrules
  obtain ⟨operand, hentries, hoperands⟩ := Precedence.exists_entries_of_rules hadded
  refine ⟨operand, hoperands, ?_, rfl, ?_, ?_, ?_⟩
  · simp only [unflattened, Reading.insertOperations, hadded, hentries]
    rfl
  · refine (Grammar.leftRecursions_analyse
      (unflattened declarations operations options start).flatten).trans ?_
    refine List.eq_nil_iff_forall_not_mem.2 fun cycle hcycle => ?_
    have hlevel := hproblem (.leftRecursion cycle) (by simp [Grammar.problems, hcycle])
    cases hlevel
  · refine List.eq_nil_iff_forall_not_mem.2 fun reference hreference => ?_
    have hlevel := hproblem (.undeclared reference) (by simp [Grammar.problems, hreference])
    cases hlevel
  · refine List.eq_nil_iff_forall_not_mem.2 fun name hname => ?_
    have hlevel := hproblem (.mixedChoice name) (by simp [Grammar.problems, hname])
    cases hlevel

/-- Whether the names that are made up for groups, choices and layers differ
    from each other and from the expression root, and no rules are declared for
    them. -/
structure NamesAreApart (declarations : List (Declaration K O C))
    (operations : List (Operation K (Reducer K O C))) (options : ParserOptions) (start : String) :
    Prop where
  parts : ∀ name ∈ (unflattened declarations operations options start).partNames,
    name ≠ options.expressionRoot ∧ name ∉ layerNames options.expressionRoot operations
  names : ∀ name ∈ (declared declarations options start).grammar.names,
    name ∉ (unflattened declarations operations options start).partNames ∧
      name ∉ layerNames options.expressionRoot operations

/-- The declared rules and the operators over the operand. -/
def layering (declarations : List (Declaration K O C))
    (operations : List (Operation K (Reducer K O C))) (options : ParserOptions)
    (start operand : String) : Layering K (Reducer K O C) where
  declared := (declared declarations options start).grammar
  root := options.expressionRoot
  operand := operand
  operations := operations

namespace IsBuilt

variable {declarations : List (Declaration K O C)} {operations : List (Operation K (Reducer K O C))}
  {options : ParserOptions} {start operand : String} {parser : Parser K O C}

/-- The grammar of a parser is flat. -/
theorem isFlat (hbuilt : IsBuilt declarations operations options start operand parser) :
    parser.grammar.IsFlat := by
  rw [hbuilt.grammar_eq]
  exact (Grammar.isFlat_flatten _).analyse

/-- The layers are there, unless a rule is called like a group or a choice. -/
theorem isLayered (hbuilt : IsBuilt declarations operations options start operand parser)
    (hnew : ∀ name ∈ (declared declarations options start).grammar.names,
      name ∉ (unflattened declarations operations options start).partNames) :
    parser.grammar.IsLayered options.expressionRoot operand operations := by
  rw [hbuilt.unflattened_eq] at hnew
  rw [hbuilt.grammar_eq, hbuilt.unflattened_eq]
  refine (Grammar.isLayered_flatten isPlain_of_mem_rules fun entry hentry =>
    Grammar.rulesOf_eq_nil fun hname => ?_).analyse
  exact hnew _ hname (List.mem_map_of_mem hentry)

/-- What a parser matches is derived. -/
theorem derives (hbuilt : IsBuilt declarations operations options start operand parser)
    {tokens : Array (Token K)} {memoize : Bool} {first : String} {tree : SyntaxTree K}
    (hparse : Matching.parse parser.grammar tokens memoize first = .ok tree) :
    parser.grammar.Derives [.ofName first] [tree] := by
  obtain ⟨_, -, hreads⟩ := Matching.reads_of_parse_eq_ok hbuilt.isFlat hbuilt.leftRecursions_eq
    hparse
  exact hreads.derives

/-- The grammar before groups and choices get names has the layers over the operand. -/
theorem layered_eq (hbuilt : IsBuilt declarations operations options start operand parser) :
    (layering declarations operations options start operand).layered =
      unflattened declarations operations options start :=
  hbuilt.unflattened_eq.symm

/-- The grammar of a parser is that of the declared rules and the operators. -/
theorem grammar_eq_layering
    (hbuilt : IsBuilt declarations operations options start operand parser) :
    parser.grammar = (layering declarations operations options start operand).grammar := by
  rw [hbuilt.grammar_eq, ← hbuilt.layered_eq]
  rfl

/-- Where the names that are made up are apart, so are the layers. -/
theorem isApart (hbuilt : IsBuilt declarations operations options start operand parser)
    (hnames : NamesAreApart declarations operations options start) :
    (layering declarations operations options start operand).IsApart where
  isPlain := isPlain_of_mem_rules
  isFree name hname := by
    rw [Layering.IsFree, hbuilt.layered_eq]
    exact hnames.names name hname
  operand_mem hne := by
    have hmem : operand ∈ (declared declarations options start).operands := by
      rw [hbuilt.operands hne]
      exact List.mem_singleton_self operand
    obtain ⟨rule, hrule⟩ := exists_rule_of_mem_operands hmem
    exact Grammar.mem_names_of_mem_rules hrule
  partNames name hname := by
    rw [hbuilt.layered_eq] at hname
    exact hnames.parts name hname

/-- Matching may be tried out without memory, which is what can be evaluated. -/
theorem syntaxTreeFrom_withMemoize_eq
    (hbuilt : IsBuilt declarations operations options start operand parser) (memoize : Bool)
    (source first : String) :
    (parser.withMemoize memoize).syntaxTreeFrom source first = parser.syntaxTreeFrom source first :=
  syntaxTreeFrom_withMemoize hbuilt.isFlat hbuilt.leftRecursions_eq memoize source first

/-- What is matched has a tree. -/
theorem exists_syntaxTreeFrom
    (hbuilt : IsBuilt declarations operations options start operand parser) {source first : String}
    (hok : ((parser.withMemoize false).syntaxTreeFrom source first).isOk = true) :
    ∃ tree, parser.syntaxTreeFrom source first = .ok tree := by
  rw [hbuilt.syntaxTreeFrom_withMemoize_eq] at hok
  cases htree : parser.syntaxTreeFrom source first with
  | ok tree => exact ⟨tree, rfl⟩
  | error failure =>
    rw [htree] at hok
    cases hok

end IsBuilt

/-- A tree that results is the normal form of one that was matched. -/
theorem exists_parse_of_syntaxTreeFrom {parser : Parser K O C} {source first : String}
    {tree : SyntaxTree K} (htree : parser.syntaxTreeFrom source first = .ok tree) :
    ∃ tokens raw, parser.tokens source = .ok tokens ∧
      Matching.parse parser.grammar tokens.toArray parser.options.memoize first = .ok raw ∧
        tree = raw.normalize parser.grammar := by
  rw [syntaxTreeFrom] at htree
  split at htree
  · split at htree
    · cases htree
    · next tokens htokens =>
      split at htree
      · cases htree
      · next raw hraw => exact ⟨tokens, raw, htokens, hraw, (Except.ok.inj htree).symm⟩
  · cases htree

namespace Sample

def symbols : Alphabet := ⟨["INT", "PLUS", "MINUS", "POWER"], by decide⟩

def int : Kind symbols := ⟨(0 : Fin 4)⟩

def plus : Kind symbols := ⟨(1 : Fin 4)⟩

def minus : Kind symbols := ⟨(2 : Fin 4)⟩

def power : Kind symbols := ⟨(3 : Fin 4)⟩

/-- The kind that a character is a token of. -/
def symbol (c : Char) : Kind symbols :=
  if c = '+' then plus else if c = '-' then minus else if c = '^' then power else int

/-- A token for every character. -/
def scan (source : String) : List (Token (Kind symbols)) :=
  withEndOfStream (source.toList.map fun c => .ofSpan (symbol c) (String.singleton c) .start)

def lexer : Lexer (Kind symbols) where
  tokenize source := .ok (scan source)

def counting :
    Reducer (Kind symbols) Nat Unit := fun arguments context => (.ok arguments.length, context)

/-- Sums and differences of powers. -/
def operations : List (Operation (Kind symbols) (Reducer (Kind symbols) Nat Unit)) :=
  [⟨⟨10, .left, .infixOp, plus⟩, counting⟩, ⟨⟨10, .left, .infixOp, minus⟩, counting⟩,
   ⟨⟨20, .right, .infixOp, power⟩, counting⟩]

def calculator : List (Declaration (Kind symbols) Nat Unit) := [.text "term : INT" counting true]

theorem read_term :
    (RuleText.read "term : INT" .ebnf : Except _ (String × List (Clause (Kind symbols)))) =
    .ok ("term", [.ofKind int]) :=
  RuleText.read_eq_ok (by decide +kernel)

theorem declared_calculator : declared calculator {} "expressions" =
    { grammar := (Grammar.empty "expressions").add "term"
        { clauses := [.ofKind int], reducer := some counting }
      operands := ["term"] } := by
  simp only [declared, calculator, List.foldl, Reading.insert, read_term]
  rfl

theorem precedences_operations : Precedence.precedences operations = [10, 20] :=
  Precedence.precedences_eq (by decide) fun precedence => by simp [operations, or_comm]

/-- The rules of the calculator with its two layers. -/
def layered : Grammar (Kind symbols) (Reducer (Kind symbols) Nat Unit) :=
  ((Grammar.empty "expressions").add "term"
    { clauses := [.ofKind int], reducer := some counting }).addAll
      (Precedence.layers "expressions" "term" operations [10, 20] ++
        [("expressions", Precedence.bypassRule "expressions_10")])

theorem insertOperations_calculator :
    (declared calculator {} "expressions").insertOperations "expressions" operations =
      { grammar := layered, operands := ["term"] } := by
  rw [declared_calculator, Reading.insertOperations, Precedence.rules, precedences_operations]
  rfl

theorem unflattened_calculator : unflattened calculator operations {} "expressions" = layered :=
  congrArg Reading.grammar insertOperations_calculator

/-- The calculator. -/
def calculatorParser : Parser (Kind symbols) Nat Unit := ⟨lexer, layered.flatten.analyse, {}⟩

/-- The calculator is built. -/
theorem build_calculator :
    (build lexer calculator operations {} "expressions").value = some calculatorParser := by
  rw [build_eq insertOperations_calculator (by decide +kernel)]
  rfl

theorem layerNames_operations :
    layerNames "expressions" operations = ["expressions_10", "expressions_20"] := by
  rw [layerNames, precedences_operations]
  decide

theorem namesAreApart : NamesAreApart calculator operations {} "expressions" := by
  constructor
  · rw [unflattened_calculator, layerNames_operations]
    decide
  · rw [declared_calculator, unflattened_calculator, layerNames_operations]
    decide

/-- Names of the calculator are not made up. -/
theorem declared_not_mem_partNames : ∀ name ∈ (declared calculator {} "expressions").grammar.names,
    name ∉ (unflattened calculator operations {} "expressions").partNames :=
  fun name hname => (namesAreApart.names name hname).1

/-- The calculator reads a difference and a power. -/
theorem exists_syntaxTree :
    ∃ tree, calculatorParser.syntaxTreeFrom "1-1-1^1" "expressions" = .ok tree := by
  obtain ⟨operand, hbuilt⟩ := exists_isBuilt build_calculator
  exact hbuilt.exists_syntaxTreeFrom (by decide +kernel)

end Sample

end Parser

end GrammarKit
