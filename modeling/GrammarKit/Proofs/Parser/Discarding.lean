import GrammarKit.Proofs.Parser.Built
import GrammarKit.Proofs.SyntaxTree.Discarding
import GrammarKit.Proofs.SyntaxTree.Visited

namespace GrammarKit

open SyntaxTree

namespace SyntaxTree

variable {K : Type}

theorem setDiscarded_eq_self {tree : SyntaxTree K} (hdiscarded : tree.isDiscarded = true) :
    tree.setDiscarded true = tree := by
  cases tree with
  | leaf | many | present | absent => exact hdiscarded ▸ rfl
  | node label => cases label with | mk => exact hdiscarded ▸ rfl

/-- A part of a part is a part. -/
theorem Contains.trans {tree part inner : SyntaxTree K} (hpart : tree.Contains part)
    (hinner : part.Contains inner) :
    tree.Contains inner := by
  induction hpart with
  | refl => exact hinner
  | node hchild _ ih => exact .node hchild (ih hinner)
  | many hchild _ ih => exact .many hchild (ih hinner)
  | present _ ih => exact .present (ih hinner)

end SyntaxTree

namespace Reduction

variable {K O C : Type} [DecidableEq K] [TokenKind K] {grammar : Grammar K (Reducer K O C)}

/-- Leaving out trees that are discarded makes no difference. -/
theorem visitShown_map_filter {normalized : SyntaxTree K → SyntaxTree K}
    {isKept : SyntaxTree K → Bool} {trees : List (SyntaxTree K)}
    (hleft : ∀ tree ∈ trees, isKept tree = false → (normalized tree).isDiscarded = true) :
    visitShown grammar ((trees.filter isKept).map normalized) =
      visitShown grammar (trees.map normalized) := by
  induction trees with
  | nil => rfl
  | cons tree rest ih =>
    obtain ⟨hfirst, hrest⟩ := List.forall_mem_cons.1 hleft
    rw [List.map_cons, visitShown]
    cases hkept : isKept tree with
    | true => rw [List.filter_cons_of_pos hkept, List.map_cons, visitShown, ih hrest]
    | false => rw [List.filter_cons_of_neg (by simp [hkept]), ih hrest, if_pos (hfirst hkept)]

end Reduction

namespace Parser

open Reduction

variable {K O C : Type} [DecidableEq K] [TokenKind K]

/-- The rules of operators have their operands. -/
theorem IsBuilt.hasOperands {declarations : List (Declaration K O C)}
    {operations : List (Operation K (Reducer K O C))} {options : ParserOptions}
    {start operand : String} {parser : Parser K O C}
    (hbuilt : IsBuilt declarations operations options start operand parser) :
    parser.grammar.HasOperands := by
  rw [hbuilt.grammar_eq, hbuilt.unflattened_eq]
  exact Grammar.HasOperands.analyse (Grammar.hasOperands_flatten isPlain_of_mem_rules)

/-- Marking a part of a matched tree for discarding before it is normalised
    leaves one more mark in its normal form. It is at the root, unless the part
    is an operation that groups to the left and has another of its precedence
    for its last child: then the mark is as far down the left edge as the
    operation is rotated. The parts that clauses match are marked as the clauses
    are, and of the marked ones reducers see those that are rotated at most. -/
theorem normalize_setDiscarded {lexer : Lexer K} {declarations : List (Declaration K O C)}
    {operations : List (Operation K (Reducer K O C))} {options : ParserOptions} {start : String}
    {parser : Parser K O C}
    (hbuild : (build lexer declarations operations options start).value = some parser)
    {tokens : Array (Token K)} {memoize : Bool} {first : String} {raw : SyntaxTree K}
    (hparse : Matching.parse parser.grammar tokens memoize first = .ok raw) :
    (∀ part, raw.Contains part →
        (part.setDiscarded true).normalize parser.grammar =
            (part.normalize parser.grammar).discardAt (rootDepth parser.grammar part) ∧
          (rootDepth parser.grammar part = 0 ↔ ¬ IsRotated parser.grammar part)) ∧
      ∀ label children, raw.Contains (.node label children) → ∃ rule,
        parser.grammar.rule? label.name label.rule = some rule ∧
          children.map isDiscarded = rule.clauses.map Clause.isDiscarded ∧
            (∀ child ∈ children, child.isDiscarded = true → ¬ IsRotated parser.grammar child →
              (child.normalize parser.grammar).isDiscarded = true) ∧
            visitShown parser.grammar (normalizeEach parser.grammar children) =
              visitShown parser.grammar (normalizeEach parser.grammar
                (children.filter fun child => !child.isDiscarded || rootDepth parser.grammar
                  child != 0)) := by
  obtain ⟨operand, hbuilt⟩ := exists_isBuilt hbuild
  have hderives := hbuilt.derives hparse
  have hpart (part : SyntaxTree K) (hcontains : raw.Contains part) :
      (part.setDiscarded true).normalize parser.grammar =
          (part.normalize parser.grammar).discardAt (rootDepth parser.grammar part) ∧
        (rootDepth parser.grammar part = 0 ↔ ¬ IsRotated parser.grammar part) := by
    obtain ⟨clause, hclause⟩ := Grammar.Derives.of_contains hcontains hderives
    have hsettled := hclause.everywhere_isSettled_children hbuilt.hasOperands
    exact ⟨normalize_discard hsettled, rootDepth_eq_zero_iff hsettled⟩
  refine ⟨hpart, fun label children hcontains => ?_⟩
  have hdiscarded (child : SyntaxTree K) (hchild : child ∈ children)
      (hmarked : child.isDiscarded = true)
      (hzero : rootDepth parser.grammar child = 0) : (child.normalize parser.grammar).isDiscarded =
      true := by
    have hnormal := (hpart child (hcontains.trans (.node hchild (.refl child)))).1
    rw [setDiscarded_eq_self hmarked, hzero, discardAt] at hnormal
    rw [hnormal]
    exact isDiscarded_setDiscarded true _
  obtain ⟨clause, hclause⟩ := Grammar.Derives.of_contains hcontains hderives
  cases hclause with
  | @nonTerminal name role discarded index rule _ _ _ hrule hchildren _ =>
    refine ⟨rule, hrule, hchildren.map_isDiscarded, fun child hchild hmarked hnot => ?_, ?_⟩
    · exact hdiscarded child hchild hmarked
        ((hpart child (hcontains.trans (.node hchild (.refl child)))).2.2 hnot)
    · rw [Grammar.normalizeEach_eq_map, Grammar.normalizeEach_eq_map]
      refine (visitShown_map_filter fun child hchild hleft => ?_).symm
      simp only [Bool.or_eq_false_iff, Bool.not_eq_false', bne_eq_false_iff_eq] at hleft
      exact hdiscarded child hchild hleft.1 hleft.2

namespace Sample

/-- Two differences with a sign in between. The first one is discarded. -/
def ledger : List (Declaration (Kind symbols) Nat Unit) :=
  [.text "term : INT" counting true, .text "line : expressions_10[d] POWER expressions"
    counting false]

/-- Differences only. -/
def differences : List (Operation (Kind symbols) (Reducer (Kind symbols) Nat Unit)) :=
  [⟨⟨10, .left, .infixOp, minus⟩, counting⟩]

theorem read_line : (RuleText.read "line : expressions_10[d] POWER expressions" .ebnf :
    Except _ (String × List (Clause (Kind symbols)))) =
      .ok ("line", [.nonTerminal "expressions_10" .rule true, .ofKind power,
        .ofName "expressions"]) :=
  RuleText.read_eq_ok (by decide +kernel)

/-- The rules of lines with the layer of differences. -/
def ledgerRules : Grammar (Kind symbols) (Reducer (Kind symbols) Nat Unit) :=
  (((Grammar.empty "line").add "term"
    { clauses := [.ofKind int], reducer := some counting }).add "line"
    { clauses := [.nonTerminal "expressions_10" .rule true, .ofKind power, .ofName "expressions"]
      reducer := some counting }).addAll
    (Precedence.layers "expressions" "term" differences [10] ++
      [("expressions", Precedence.bypassRule "expressions_10")])

theorem precedences_differences : Precedence.precedences differences = [10] :=
  Precedence.precedences_eq (by decide) fun precedence => by simp [differences]

theorem insertOperations_ledger :
    (declared ledger {} "line").insertOperations "expressions" differences =
    { grammar := ledgerRules, operands := ["term"] } := by
  simp only [declared, ledger, List.foldl, Reading.insert, read_term, read_line]
  rw [Reading.insertOperations, Precedence.rules, precedences_differences]
  rfl

/-- The parser of lines. -/
def ledgerParser : Parser (Kind symbols) Nat Unit := ⟨lexer, ledgerRules.flatten.analyse, {}⟩

/-- The parser of lines is built without a word. -/
theorem build_ledger :
    build lexer ledger differences {} "line" = ⟨some ledgerParser, [], fun h => nomatch h⟩ :=
  build_eq insertOperations_ledger (by decide +kernel)

/-- The first child of a node. -/
def firstChild? : SyntaxTree (Kind symbols) → Option (SyntaxTree (Kind symbols))
  | .node _ (child :: _) => some child
  | _ => none

/-- The first child of a node is a part of it. -/
theorem contains_of_firstChild? {tree child : SyntaxTree (Kind symbols)}
    (hchild : firstChild? tree = some child) :
    tree.Contains child := by
  match tree, hchild with
  | .node _ (_ :: _), rfl => exact .node List.mem_cons_self (.refl child)

/-- The match of the clause that is marked has its mark one level down in normal form. -/
theorem exists_rotated : ∃ raw part,
    Matching.parse ledgerParser.grammar (scan "1-1-1^1").toArray false "line" = .ok raw ∧
      raw.Contains part ∧
      part.isDiscarded = true ∧ rootDepth ledgerParser.grammar part = 1 ∧
        (part.normalize ledgerParser.grammar).isDiscarded = false := by
  have hcheck :
      ((Matching.parse ledgerParser.grammar (scan "1-1-1^1").toArray false "line").toOption.bind
        firstChild?).any (fun part =>
          part.isDiscarded && rootDepth ledgerParser.grammar part == 1 &&
            !(part.normalize ledgerParser.grammar).isDiscarded) = true := by
    decide +kernel
  obtain ⟨part, hpart, hmarks⟩ := (Option.any_eq_true _ _).1 hcheck
  obtain ⟨raw, hraw, hchild⟩ := Option.bind_eq_some_iff.1 hpart
  have hparse : Matching.parse ledgerParser.grammar (scan "1-1-1^1").toArray false "line" =
      .ok raw := by
    cases hresult : Matching.parse ledgerParser.grammar (scan "1-1-1^1").toArray false "line" with
    | ok tree =>
      rw [hresult] at hraw
      exact congrArg Except.ok (Option.some.inj hraw)
    | error failure =>
      rw [hresult] at hraw
      cases hraw
  simp only [Bool.and_eq_true, Bool.not_eq_true', beq_iff_eq] at hmarks
  exact ⟨raw, part, hparse, contains_of_firstChild? hchild, hmarks.1.1, hmarks.1.2, hmarks.2⟩

end Sample

open Sample in
/-- A discarded difference of differences. -/
theorem normalize_setDiscarded_ledger : ∃ raw part,
    (build Sample.lexer ledger differences {} "line").value = some ledgerParser ∧
      Matching.parse ledgerParser.grammar (scan "1-1-1^1").toArray false "line" = .ok raw ∧
        raw.Contains part ∧
        (part.setDiscarded true).normalize ledgerParser.grammar =
          (part.normalize ledgerParser.grammar).discardAt 1 ∧
          IsRotated ledgerParser.grammar part := by
  have hbuild : (build Sample.lexer ledger differences {} "line").value = some ledgerParser := by
    rw [build_ledger]
  obtain ⟨raw, part, hparse, hpart, -, hdepth, -⟩ := exists_rotated
  obtain ⟨hnormal, hzero⟩ := (normalize_setDiscarded hbuild hparse).1 part hpart
  rw [hdepth] at hnormal hzero
  exact ⟨raw, part, hbuild, hparse, hpart, hnormal, not_not.1 fun hnot =>
    one_ne_zero (hzero.2 hnot)⟩

open Sample in
/-- A build has nothing to say about a clause that is marked and names a layer.
    What it matches does not have the mark at its root when it is normal, and
    the reducer gets it as one of three arguments. -/
theorem exists_discarded_seen : ∃ raw part, build Sample.lexer ledger differences {} "line" =
      ⟨some ledgerParser, [], fun h => nomatch h⟩ ∧
    Matching.parse ledgerParser.grammar (scan "1-1-1^1").toArray false "line" = .ok raw ∧
      raw.Contains part ∧
      part.isDiscarded = true ∧ (part.normalize ledgerParser.grammar).isDiscarded = false ∧
        (part.setDiscarded true).normalize ledgerParser.grammar ≠
          (part.normalize ledgerParser.grammar).setDiscarded true ∧
            (ledgerParser.parseFrom "1-1-1^1" "line" ()).1.toOption = some 3 := by
  have hbuild : (build Sample.lexer ledger differences {} "line").value = some ledgerParser := by
    rw [build_ledger]
  obtain ⟨raw, part, hparse, hpart, hmarked, -, hseen⟩ := exists_rotated
  obtain ⟨operand, hbuilt⟩ := exists_isBuilt hbuild
  refine ⟨raw, part, build_ledger, hparse, hpart, hmarked, hseen, fun hsame => ?_, ?_⟩
  · rw [setDiscarded_eq_self hmarked] at hsame
    have hdiscarded := congrArg isDiscarded hsame
    rw [hseen, isDiscarded_setDiscarded] at hdiscarded
    cases hdiscarded
  · rw [parseFrom, ← hbuilt.syntaxTreeFrom_withMemoize_eq false]
    decide +kernel

end Parser

end GrammarKit
