import GrammarKit.Proofs.Parser.Built
import GrammarKit.Proofs.SyntaxTree.Normal

namespace GrammarKit.Parser

open SyntaxTree

variable {K O C : Type} [DecidableEq K] [TokenKind K]

/-- The normal form of a tree that a built parser matches has the same tokens in
    the same order. None of its nodes only leads on, each node of an expression
    has the operator that is declared for the token among its children, and no
    operator that groups to the left has another infix operator of its
    precedence for its last child. Normalising once more changes nothing. Rules
    must not be called like groups or choices; what they mention does not
    matter. -/
theorem normalize_faithful {lexer : Lexer K} {declarations : List (Declaration K O C)}
    {operations : List (Operation K (Reducer K O C))} {options : ParserOptions} {start : String}
    {parser : Parser K O C}
    (hbuild : (build lexer declarations operations options start).value = some parser)
    (hnew : ∀ name ∈ (declared declarations options start).grammar.names,
      name ∉ (unflattened declarations operations options start).partNames)
    {tokens : Array (Token K)} {memoize : Bool} {first : String} {raw : SyntaxTree K}
    (hparse : Matching.parse parser.grammar tokens memoize first = .ok raw) :
    (raw.normalize parser.grammar).leaves = raw.leaves ∧
      (raw.normalize parser.grammar).Everywhere (fun label children => label.isBypass = false ∧
        (label.isExpression = true → parser.grammar.Carries operations label children) ∧
        ¬ IsMisgrouped label children) ∧
      (raw.normalize parser.grammar).normalize parser.grammar = raw.normalize parser.grammar := by
  obtain ⟨operand, hbuilt⟩ := exists_isBuilt hbuild
  have hlayered := hbuilt.isLayered hnew
  have hnormal := (hbuilt.derives hparse).normal hlayered
  have heverywhere := hnormal.everywhere_isNormalNode hlayered (raw.normalize parser.grammar)
    List.mem_cons_self
  refine ⟨leaves_normalize parser.grammar raw, ?_, Grammar.normalize_eq_self heverywhere⟩
  refine heverywhere.strengthen fun label children hnode => ?_
  have hlabel := (everywhere_node_iff.1 hnode).1
  have hsettled : (node label children).Everywhere IsSettled := fun entry hentry =>
    (hnode entry hentry).isSettled
  exact ⟨hlabel.isBypass_eq_false, hlabel.carries, not_isMisgrouped hsettled⟩

open Sample in
/-- Differences, which are matched from the right and group to the left. -/
theorem normalize_faithful_calculator :
    ∃ (parser : Parser (Kind symbols) Nat Unit) (raw : SyntaxTree (Kind symbols)),
      (build Sample.lexer calculator operations {} "expressions").value = some parser ∧
        (∀ name ∈ (declared calculator {} "expressions").grammar.names,
          name ∉ (unflattened calculator operations {} "expressions").partNames) ∧
        Matching.parse parser.grammar (scan "1-1-1^1").toArray false "expressions" = .ok raw ∧
          (raw.normalize parser.grammar).leaves = raw.leaves ∧
            (raw.normalize parser.grammar).Everywhere
              (fun label children => label.isBypass = false ∧
              (label.isExpression = true → parser.grammar.Carries operations label children) ∧
                ¬ IsMisgrouped label children) ∧
            (raw.normalize parser.grammar).normalize parser.grammar =
              raw.normalize parser.grammar := by
  have hok : (Matching.parse calculatorParser.grammar (scan "1-1-1^1").toArray false
      "expressions").isOk = true := by
    decide +kernel
  cases hparse : Matching.parse calculatorParser.grammar (scan "1-1-1^1").toArray false
    "expressions" with
  | ok raw =>
    exact ⟨calculatorParser, raw, build_calculator, declared_not_mem_partNames, hparse,
      normalize_faithful build_calculator declared_not_mem_partNames hparse⟩
  | error failure =>
    rw [hparse] at hok
    cases hok

end GrammarKit.Parser
