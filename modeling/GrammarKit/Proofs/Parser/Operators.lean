import GrammarKit.Proofs.Matching.Chain
import GrammarKit.Proofs.Parser.Built
import GrammarKit.Proofs.SyntaxTree.Chain

namespace GrammarKit.Parser

open SyntaxTree

variable {K O C : Type} [DecidableEq K] [TokenKind K]

/-- Whether all operators are infix operators with tokens of their own, over a
    single operand whose rules are all one token, and the name of the expression
    root is free for them. -/
structure DeclaresChain (declarations : List (Declaration K O C))
    (operations : List (Operation K (Reducer K O C))) (options : ParserOptions)
    (start operand : String) (kind : K) : Prop
    extends NamesAreApart declarations operations options start where
  operands_eq : (declared declarations options start).operands = [operand]
  ne_nil : operations ≠ []
  affix_eq : ∀ operation ∈ operations, operation.affix = .infixOp
  nodup_kinds : (operations.map fun operation => operation.kind).Nodup
  clauses_eq : ∀ rule, (operand, rule) ∈ (declared declarations options start).grammar.rules →
    ∃ discarded, rule.clauses = [.terminal kind discarded]
  root_not_mem : options.expressionRoot ∉ (declared declarations options start).grammar.names

section Built

variable {declarations : List (Declaration K O C)} {operations : List (Operation K (Reducer K O C))}
  {options : ParserOptions} {start operand : String} {parser : Parser K O C} {kind : K}

/-- A parser whose declarations are those of a chain is one of a chain. -/
theorem IsBuilt.isChain (hbuilt : IsBuilt declarations operations options start operand parser)
    (hchain : DeclaresChain declarations operations options start operand kind) :
    (layering declarations operations options start operand).IsChain kind where
  toIsApart := hbuilt.isApart hchain.toNamesAreApart
  ne_nil := hchain.ne_nil
  affix_eq := hchain.affix_eq
  nodup_kinds := hchain.nodup_kinds
  isDeclared := exists_rule_of_mem_operands (hchain.operands_eq ▸ List.mem_singleton_self operand)
  clauses_eq := hchain.clauses_eq
  root_not_mem := hchain.root_not_mem

/-- A text is accepted when its tokens are matched. -/
theorem exists_syntaxTreeFrom_iff {source first : String} {tokens : List (Token K)}
    (hcontains : parser.grammar.contains first = true)
    (htokens : parser.tokens source = .ok tokens) :
    (∃ tree, parser.syntaxTreeFrom source first = .ok tree) ↔
      ∃ raw, Matching.parse parser.grammar tokens.toArray parser.options.memoize first =
        .ok raw := by
  constructor
  · rintro ⟨tree, htree⟩
    obtain ⟨same, raw, hsame, hraw, -⟩ := exists_parse_of_syntaxTreeFrom htree
    obtain rfl := Except.ok.inj (htokens.symm.trans hsame)
    exact ⟨raw, hraw⟩
  · rintro ⟨raw, hraw⟩
    refine ⟨raw.normalize parser.grammar, ?_⟩
    rw [syntaxTreeFrom, if_pos hcontains, htokens]
    simp only [hraw]

end Built

/-- Whatever a text is read as, its tree has the tokens of the text in order,
    and all of its operations are nested as the operators demand. No operand is
    an operation of a lower precedence, that of a prefix or postfix operator is
    one of a higher precedence, and of infix operations with the same precedence
    the left one is an operand of the right one where they group to the left,
    and the right one of the left one elsewhere. The operands and operators of a
    chain therefore determine how they are nested.

    Where infix operators stand between single tokens, exactly the chains of
    them are read as the expression root, and their tokens alone tell what the
    tree is. -/
theorem operations_nested {lexer : Lexer K} {declarations : List (Declaration K O C)}
    {operations : List (Operation K (Reducer K O C))} {options : ParserOptions} {start : String}
    {parser : Parser K O C}
    (hbuild : (build lexer declarations operations options start).value = some parser)
    (hnew : ∀ name ∈ (declared declarations options start).grammar.names,
      name ∉ (unflattened declarations operations options start).partNames)
    (huniform : IsUniform operations) {source : String} {tokens : List (Token K)}
    (htokens : parser.tokens source = .ok tokens) (hends : Matching.EndsOnce tokens.toArray) :
    (∀ first tree, parser.syntaxTreeFrom source first = .ok tree → tree.leaves = tokens.dropLast ∧
      tree.Everywhere fun label children => (label.isExpression = true →
        label.operator.isSome = true) ∧
        BindsOperands operations label children ∧ ¬ IsMisgrouped label children ∧
          Grouping.nest (node label children).grouping.first (node label children).grouping.links =
            (node label children).grouping) ∧
      ∀ operand kind, DeclaresChain declarations operations options start operand kind →
        ((∃ tree, parser.syntaxTreeFrom source options.expressionRoot = .ok tree) ↔
          Alternates kind (operations.map fun operation => operation.kind)
            (tokens.dropLast.filterMap Token.kind)) ∧
        ∀ tree, parser.syntaxTreeFrom source options.expressionRoot = .ok tree →
          tree.grouping = .ofChain (operations.map Operation.toOperator) tokens.dropLast := by
  obtain ⟨operand, hbuilt⟩ := exists_isBuilt hbuild
  have hlayered := hbuilt.isLayered hnew
  have hleaves {first : String} {tree : SyntaxTree K}
      (htree : parser.syntaxTreeFrom source first = .ok tree) :
      tree.leaves = tokens.dropLast ∧ parser.grammar.Normal [.ofName first] [tree] := by
    obtain ⟨same, raw, hsame, hraw, rfl⟩ := exists_parse_of_syntaxTreeFrom htree
    obtain rfl := Except.ok.inj (htokens.symm.trans hsame)
    have hreads := Matching.Plain.outcome_sound first 0 raw _
      ((Matching.parse_eq_ok_iff hbuilt.isFlat hbuilt.leftRecursions_eq hends).1 hraw)
    have hraw : raw.leaves = tokens.dropLast := by simpa using hreads.spans.eq_dropLast
    exact ⟨(leaves_normalize parser.grammar raw).trans hraw, hreads.derives.normal hlayered⟩
  refine ⟨fun first tree htree => ?_, fun operand kind hchain => ?_⟩
  · obtain ⟨htree, hnormal⟩ := hleaves htree
    have hbinds := hnormal.everywhere_bindsOperands hlayered hbuilt.leftRecursions_eq huniform tree
      List.mem_cons_self
    have hgrouped := hnormal.everywhere_not_isMisgrouped hlayered tree List.mem_cons_self
    have hnodes := hnormal.everywhere_isNormalNode hlayered tree List.mem_cons_self
    refine ⟨htree, fun entry hentry => ⟨fun hexpression => ?_, hbinds entry hentry,
      hgrouped entry hentry, ?_⟩⟩
    · obtain ⟨_, _, _, _, _, operation, -, -, -, -, -, -, -, hoperator⟩ :=
        (hnodes entry hentry).carries hexpression
      rw [hoperator]
      rfl
    · exact (isNested_grouping huniform (everywhere_of_mem_nodes hbinds entry hentry)
        (everywhere_of_mem_nodes hgrouped entry hentry)).nest_eq
  · obtain ⟨other, hbuilt⟩ := exists_isBuilt hbuild
    obtain rfl : other = operand :=
      List.singleton_inj.1 ((hbuilt.operands hchain.ne_nil).symm.trans hchain.operands_eq)
    have hlayering := hbuilt.isChain hchain
    have hgrammar := hbuilt.grammar_eq_layering
    obtain ⟨next, hnext⟩ := hlayering.exists_passesTo_root
    obtain ⟨rule, hrule, -⟩ := hlayering.exists_bypass hnext
    have hcontains : parser.grammar.contains options.expressionRoot = true := by
      obtain ⟨nonTerminal, hfind, -⟩ := Grammar.mem_rules_iff.1 hrule
      rw [hgrammar, Grammar.contains]
      exact Option.isSome_iff_exists.2 ⟨nonTerminal, hfind⟩
    have hacyclic := hbuilt.leftRecursions_eq
    refine ⟨?_, fun tree htree => ?_⟩
    · rw [exists_syntaxTreeFrom_iff hcontains htokens, hgrammar]
      exact Matching.parse_root_eq_ok_iff hlayering (hgrammar ▸ hbuilt.isFlat)
        (hgrammar ▸ hacyclic) hends _
    · obtain ⟨htokens, hnormal⟩ := hleaves htree
      rw [← htokens]
      exact hlayering.grouping_eq huniform (hgrammar ▸ hacyclic) (hgrammar ▸ hnormal)

namespace Sample

/-- The operators of the calculator are uniform. -/
theorem isUniform_operations : IsUniform operations := by
  unfold IsUniform
  decide

theorem declaresChain_calculator :
    DeclaresChain calculator operations {} "expressions" "term" int where
  toNamesAreApart := namesAreApart
  operands_eq := by rw [declared_calculator]
  ne_nil := by decide
  affix_eq := by decide
  nodup_kinds := by decide
  clauses_eq rule hrule := by
    rw [declared_calculator] at hrule
    rcases Grammar.mem_rules_add.1 hrule with heq | hnone
    · obtain ⟨-, rfl⟩ := Prod.mk.inj heq
      exact ⟨false, rfl⟩
    · cases hnone
  root_not_mem := by
    rw [declared_calculator]
    decide

/-- The tokens of a difference and a power. -/
def difference : List (Token (Kind symbols)) := numbered (scan "1-1-1^1")

theorem endsOnce_difference : Matching.EndsOnce difference.toArray := ⟨by decide, by decide⟩

end Sample

open Sample in
/-- Operators that group to the left and one that groups to the right. -/
theorem operations_nested_calculator :
    (build Sample.lexer calculator operations {} "expressions").value = some calculatorParser ∧
      (∀ name ∈ (declared calculator {} "expressions").grammar.names,
        name ∉ (unflattened calculator operations {} "expressions").partNames) ∧
      IsUniform operations ∧ calculatorParser.tokens "1-1-1^1" = .ok difference ∧
        Matching.EndsOnce difference.toArray ∧
          DeclaresChain calculator operations {} "expressions" "term" int ∧
          ∃ tree, calculatorParser.syntaxTreeFrom "1-1-1^1" "expressions" = .ok tree ∧
            tree.leaves = difference.dropLast ∧
              tree.grouping = .ofChain (operations.map Operation.toOperator)
                difference.dropLast := by
  have htokens : calculatorParser.tokens "1-1-1^1" = .ok difference := rfl
  obtain ⟨hnested, hchain⟩ := operations_nested build_calculator declared_not_mem_partNames
    isUniform_operations htokens endsOnce_difference
  obtain ⟨tree, htree⟩ := exists_syntaxTree
  exact ⟨build_calculator, declared_not_mem_partNames, isUniform_operations, htokens,
    endsOnce_difference, declaresChain_calculator, tree, htree,
      (hnested "expressions" tree htree).1,
    (hchain "term" int declaresChain_calculator).2 tree htree⟩

end GrammarKit.Parser
