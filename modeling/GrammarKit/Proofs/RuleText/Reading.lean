import GrammarKit.Proofs.Matching.Transparency
import GrammarKit.RuleText.Reader

namespace GrammarKit

namespace Parser

variable {K O C : Type} [DecidableEq K] [TokenKind K]

/-- The same parser, with or without a memory. -/
def withMemoize (parser : Parser K O C) (memoize : Bool) : Parser K O C :=
  { parser with options := { parser.options with memoize } }

/-- A memory changes no tree and no error. -/
theorem syntaxTreeFrom_withMemoize {parser : Parser K O C} (hflat : parser.grammar.IsFlat)
    (hacyclic : parser.grammar.leftRecursions = []) (memoize : Bool) (source start : String) :
    (parser.withMemoize memoize).syntaxTreeFrom source start =
      parser.syntaxTreeFrom source start := by
  simp only [syntaxTreeFrom, withMemoize, Matching.parse_eq_resultOf hflat hacyclic]
  rfl

/-- A memory changes no value. -/
theorem parse_withMemoize [Inhabited C] {parser : Parser K O C} (hflat : parser.grammar.IsFlat)
    (hacyclic : parser.grammar.leftRecursions = []) (memoize : Bool) (source : String) :
    (parser.withMemoize memoize).parse source = parser.parse source := by
  simp only [parse, parseWith, parseFrom, syntaxTreeFrom_withMemoize hflat hacyclic]
  rfl

end Parser

namespace RuleText

/-- Rule notation has no groups and no choices in its own grammar. -/
theorem isFlat_grammar : grammar.IsFlat := by decide

/-- Rule notation is not left recursive. -/
theorem leftRecursions_grammar : grammar.leftRecursions = [] := by decide +kernel

variable {K : Type} [DecidableEq K] [TokenKind K]

/-- The name and the clauses of a rule that is read without a memory. -/
def readDirectly? (text : String) : Option (String × List (Clause K)) :=
  match (parser.withMemoize false).parse text with
  | .ok (.rule rule) => some (rule.name, toClauses rule.clauses)
  | _ => none

/-- A rule that is read without a memory is read. -/
theorem read_eq_ok {text name : String} {clauses : List (Clause K)}
    (hread : readDirectly? text = some (name, clauses)) :
    read text .ebnf = .ok (name, clauses) := by
  rw [readDirectly?, Parser.parse_withMemoize isFlat_grammar leftRecursions_grammar] at hread
  split at hread
  · next rule hparse =>
    obtain ⟨rfl, rfl⟩ := Prod.mk.inj (Option.some.inj hread)
    rw [read, readSyntax, hparse]
    rfl
  · cases hread

end RuleText

end GrammarKit
