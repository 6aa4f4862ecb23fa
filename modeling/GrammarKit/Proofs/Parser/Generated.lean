import GrammarKit.Proofs.Grammar.Generated
import GrammarKit.Proofs.Parser.Built

namespace GrammarKit.Parser

open Precedence

variable {K O C : Type} [DecidableEq K] [TokenKind K]

/-- Whether a declaration is for rules of this name. -/
def IsDeclared (dialect : Dialect) (declarations : List (Declaration K O C)) (name : String) :
    Prop :=
  ∃ declaration ∈ declarations, ∃ rule, Declares dialect declaration name rule

/-- A name has no rules before the layers are added if no declaration is for it. -/
theorem rulesOf_declared_eq_nil_iff {declarations : List (Declaration K O C)}
    {options : ParserOptions} {start name : String} :
    (declared declarations options start).grammar.rulesOf name = [] ↔
      ¬ IsDeclared options.dialect declarations name := by
  simp only [List.eq_nil_iff_forall_not_mem, ← Grammar.mem_rules_iff_mem_rulesOf,
    mem_rules_declared, IsDeclared]
  grind

/-- In a parser that was built, no two parts have the same name and no two
    layers, and a layer is called like a part only under a root that ends like
    the stem of one. Under every name stand the rules declared for it, those
    that the operators add and those of parts, in this order. So the rules under
    a name that was made up are the generated ones if and only if nothing else
    uses the name: no declaration, and nothing that was made up in the other
    way. -/
theorem rulesOf_generated {lexer : Lexer K} {declarations : List (Declaration K O C)}
    {operations : List (Operation K (Reducer K O C))} {options : ParserOptions} {start : String}
    {parser : Parser K O C}
    (hbuild : (build lexer declarations operations options start).value = some parser) :
    ∃ (operand : String) (whole : Grammar K (Reducer K O C)),
      (operations ≠ [] → (declared declarations options start).operands = [operand]) ∧
      whole = unflattened declarations operations options start ∧
      parser.grammar = whole.flatten.analyse ∧
      whole.madeNames.Nodup ∧
      (layerNames options.expressionRoot operations).Nodup ∧
      (∀ name ∈ whole.madeNames, name ∈ layerNames options.expressionRoot operations → ∃ parent,
        options.expressionRoot = parent ++ "__group" ∨
        options.expressionRoot = parent ++ "__choice") ∧
      (∀ name, whole.flatten.rulesOf name =
        (Flat.rules name 0 ((declared declarations options start).grammar.rulesOf name ++
            rulesNamed name (entries options.expressionRoot operand operations))).value ++
          rulesNamed name whole.partRules) ∧
      (∀ name ∈ whole.madeNames, whole.flatten.rulesOf name = rulesNamed name whole.partRules ↔
        ¬ IsDeclared options.dialect declarations name ∧
          name ∉ layerNames options.expressionRoot operations ∧
          ¬ (operations ≠ [] ∧ name = options.expressionRoot)) ∧
      ∀ name ∈ layerNames options.expressionRoot operations, whole.flatten.rulesOf name =
          (Flat.rules name 0
            (rulesNamed name (entries options.expressionRoot operand operations))).value ↔
        ¬ IsDeclared options.dialect declarations name ∧ name ∉ whole.partNames := by
  obtain ⟨operand, hbuilt⟩ := exists_isBuilt hbuild
  refine ⟨operand, _, hbuilt.operands, rfl, hbuilt.grammar_eq, Grammar.nodup_madeNames _,
    nodup_layerNames _ _, fun name hmade hlayer => ?_, fun name => ?_, fun name _ => ?_,
      fun name _ => ?_⟩
  · obtain ⟨parent, -, number, hpart⟩ := Grammar.exists_isPartName_of_mem_madeNames hmade
    obtain ⟨precedence, -, rfl⟩ := List.mem_map.1 hlayer
    exact ⟨parent, (isPartName_layerName_iff.1 hpart).1⟩
  · rw [hbuilt.unflattened_eq]
    exact Grammar.rulesOf_flatten_withLayers ..
  · rw [hbuilt.unflattened_eq, Grammar.rulesOf_flatten_eq_partRules_iff,
      rulesOf_declared_eq_nil_iff]
  · rw [hbuilt.unflattened_eq, Grammar.rulesOf_flatten_eq_entries_iff, rulesOf_declared_eq_nil_iff]

open Sample in
/-- The two operators of the lowest layer are a choice, and nothing else uses its name. -/
theorem rulesOf_generated_calculator :
    (build Sample.lexer calculator operations {} "expressions").value = some calculatorParser ∧
      "expressions_10__choice_0" ∈ layered.madeNames ∧
      layered.flatten.rulesOf "expressions_10__choice_0" = rulesNamed "expressions_10__choice_0"
        layered.partRules ∧
      (layered.flatten.rulesOf "expressions_10").length = 2 := by
  have hmade : "expressions_10__choice_0" ∈ layered.madeNames := by decide
  have hfree : ¬ IsDeclared ({} : ParserOptions).dialect calculator "expressions_10__choice_0" := by
    rw [← @rulesOf_declared_eq_nil_iff _ _ _ _ _ _ _ "expressions", declared_calculator]
    exact Grammar.rulesOf_eq_nil (by decide)
  obtain ⟨operand, whole, -, hwhole, -, -, -, -, -, hparts, -⟩ := rulesOf_generated build_calculator
  obtain rfl := hwhole.trans unflattened_calculator
  refine ⟨build_calculator, hmade, (hparts _ hmade).2 ⟨hfree, ?_, by decide⟩, by decide⟩
  rw [show ({} : ParserOptions).expressionRoot = "expressions" from rfl, layerNames_operations]
  decide

namespace Sample

/-- A pair whose second part is called like the group that it begins with. -/
def pair : List (Declaration (Kind symbols) Nat Unit) :=
  [.clauses "pair" [.group [.ofKind int] false, .ofName "pair__group_0"] counting,
   .clauses "pair__group_0" [.ofKind plus] counting]

/-- The two rules as they were declared. -/
def pairs : Grammar (Kind symbols) (Reducer (Kind symbols) Nat Unit) :=
  ((Grammar.empty "pair").add "pair"
    { clauses := [.group [.ofKind int] false, .ofName "pair__group_0"],
      reducer := some counting }).add "pair__group_0"
        { clauses := [.ofKind plus], reducer := some counting }

theorem insertOperations_pair : (declared pair {} "pair").insertOperations "expressions" [] =
    { grammar := pairs, operands := [] } :=
  insertOperations_nil _ _

theorem unflattened_pair :
    unflattened pair [] {} "pair" = pairs := congrArg Reading.grammar insertOperations_pair

/-- The parser of pairs. -/
def pairParser : Parser (Kind symbols) Nat Unit := ⟨lexer, pairs.flatten.analyse, {}⟩

/-- The parser of pairs is built without a word. -/
theorem build_pair : build lexer pair [] {} "pair" = ⟨some pairParser, [], fun h => nomatch h⟩ :=
  build_eq insertOperations_pair (by decide +kernel)

end Sample

open Sample in
/-- A build has nothing to say about a rule that is declared for the name of a
    group. The rule is then an alternative to the group, so two tokens are read
    of which the first is none that the group stands for. -/
theorem exists_generated_isDeclared : ∃ parser : Parser (Kind symbols) Nat Unit,
    (build Sample.lexer pair [] {} "pair").value = some parser ∧
      (build Sample.lexer pair [] {} "pair").diagnostics = [] ∧
      "pair__group_0" ∈ (unflattened pair [] {} "pair").madeNames ∧
      IsDeclared ({} : ParserOptions).dialect pair "pair__group_0" ∧
      (parser.grammar.rulesOf "pair__group_0").map Rule.clauses = [[.ofKind plus], [.ofKind int]] ∧
      (unflattened pair [] {} "pair").flatten.rulesOf "pair__group_0" ≠
        rulesNamed "pair__group_0" (unflattened pair [] {} "pair").partRules ∧
      ∃ tree, parser.syntaxTreeFrom "++" "pair" = .ok tree := by
  have hbuild : (build Sample.lexer pair [] {} "pair").value = some pairParser := by rw [build_pair]
  obtain ⟨operand, hbuilt⟩ := exists_isBuilt hbuild
  rw [build_pair, unflattened_pair]
  refine ⟨pairParser, rfl, rfl, by decide, ?_, by decide, fun heq => ?_,
    hbuilt.exists_syntaxTreeFrom (by decide)⟩
  · exact ⟨_, List.mem_cons_of_mem _ List.mem_cons_self, _, .clauses⟩
  · -- Reducers cannot be compared, so the rules are counted.
    have hlength := congrArg List.length heq
    revert hlength
    decide

end GrammarKit.Parser
