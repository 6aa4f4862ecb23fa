import GrammarKit.Diagnostic
import GrammarKit.Grammar.First
import GrammarKit.Parser
import GrammarKit.RuleText.Syntax
import GrammarKit.RuleText.Token

namespace GrammarKit.RuleText

open Arguments

/-- What the parts of a rule are reduced to. -/
inductive Part where
  | rule (rule : RuleSyntax)
  | clause (clause : ClauseText)
  | atom (clause : ClauseText)
  | modifier (modifier : Modifier)
  | name (name : String)

abbrev Taking (α : Type) := Arguments.Taking RuleToken Part α

abbrev PartReducer := Reducer RuleToken Part Unit

open Text in
/-- A part as it is shown for inspection, under the name of its shape. -/
def Part.inspect : Part → String
  | rule written => written.inspect
  | clause text => "Clause" ++ showTuple [text.inspect]
  | atom text => "Atom" ++ showTuple [text.inspectAtom]
  | modifier mark => "Modifier" ++ showTuple [mark.inspect]
  | name text => "Name" ++ showTuple [quoteString text]

private def unexpected {α : Type} (what : String) (found : Part) : Taking α :=
  throw (.custom s!"expected a {what}, found {found.inspect}")

def asClause : Part → Taking ClauseText
  | .clause clause => return clause
  | found => unexpected "clause" found

def asAtom : Part → Taking ClauseText
  | .atom clause => return clause
  | found => unexpected "atom" found

private def asModifier : Part → Taking Modifier
  | .modifier modifier => return modifier
  | found => unexpected "modifier" found

private def asName : Part → Taking String
  | .name name => return name
  | found => unexpected "name" found

def readRule : Taking Part := do
  let name := (← takeToken 0).value
  let clauses ← (← takeValues 1).mapM asClause
  return .rule ⟨name, clauses⟩

def readClause : Taking Part := do
  let atom ← asAtom (← takeValue 0)
  let modifier ← (← takeValueOption 1).mapM asModifier
  let discarded := (← takeTokenOption 2).isSome
  return .clause (atom.withMarks modifier discarded)

def readName : Taking Part := do
  return .atom (.name (← takeToken 0).value none false)

def readGroup : Taking Part := do
  return .atom (.group (← (← takeValues 0).mapM asClause) none false)

def readChoice : Taking Part := do
  let first := (← takeToken 0).value
  let others ← (← takeValues 1).mapM asName
  return .atom (.choice (first :: others) none false)

def readAlternative : Taking Part := do
  return .name (← takeToken 0).value

private def hidden (kind : RuleToken) : Clause RuleToken := .terminal kind true

private def ruleOf (clauses : List (Clause RuleToken)) (taking : Taking Part) :
    Rule RuleToken PartReducer where
  clauses := clauses
  reducer := some (.ofTaking taking)

/-- The grammar of rule notation, which is read by a parser like any other:

    rule        : Identifier Colon[d] clause*
    clause      : atom modifier? Discard?
    atom        : Identifier
    atom        : OpenParen[d] clause+ CloseParen[d]
    atom        : OpenBracket[d] Identifier alternative* CloseBracket[d]
    alternative : Or[d] Identifier
    modifier    : Optional
    modifier    : ZeroOrMore
    modifier    : OneOrMore -/
def grammar : Grammar RuleToken PartReducer :=
  Grammar.analyse <| Grammar.addAll (.empty "rule")
    [("rule", ruleOf
       [.ofKind .identifier, hidden .colon, .zeroOrMore (.ofName "clause") false] readRule),
     ("clause", ruleOf
       [.ofName "atom", .option (.ofName "modifier") false, .option (.ofKind .discard) false]
       readClause),
     ("atom", ruleOf [.ofKind .identifier] readName),
     ("atom", ruleOf
       [hidden .openParen, .oneOrMore (.ofName "clause") false, hidden .closeParen] readGroup),
     ("atom", ruleOf
       [hidden .openBracket, .ofKind .identifier, .zeroOrMore (.ofName "alternative") false,
        hidden .closeBracket] readChoice),
     ("alternative", ruleOf [hidden .or, .ofKind .identifier] readAlternative),
     ("modifier", ruleOf [.ofKind .optional] (return .modifier .optional)),
     ("modifier", ruleOf [.ofKind .zeroOrMore] (return .modifier .zeroOrMore)),
     ("modifier", ruleOf [.ofKind .oneOrMore] (return .modifier .oneOrMore))]

def parser : Parser RuleToken Part Unit where
  lexer := lexer
  grammar := grammar
  options := {}

/-- What is wrong with a rule. -/
inductive Problem where
  | invalid (text : String) (error : ParseError RuleToken)
  | incomplete (text : String) (found : Part)
  | notPlain (text : String)

namespace Problem

def code : Problem → Code
  | invalid .. | incomplete .. => .ruleParsing
  | notPlain _ => .ebnfInBnfGrammar

def message : Problem → String
  | invalid text error => s!"invalid rule '{text}': {error.message}"
  | incomplete text found => s!"rule '{text}' reduced to {found.inspect}"
  | notPlain text => s!"rule '{text}' uses EBNF constructs in a BNF grammar"

def diagnostic (problem : Problem) : Diagnostic where
  level := .error
  code := problem.code
  message := problem.message

end Problem

/-- Reads a rule as it is written. -/
def readSyntax (text : String) : Except Problem RuleSyntax :=
  match parser.parse text with
  | .ok (.rule rule) => .ok rule
  | .ok found => .error (.incomplete text found)
  | .error error => .error (.invalid text error)

variable {K : Type} [DecidableEq K] [TokenKind K]

/-- Reads the name and the clauses of a rule. In the plain dialect every clause
    has to be a mere name. -/
def read (text : String) (dialect : Dialect) : Except Problem (String × List (Clause K)) :=
  match readSyntax text with
  | .error problem => .error problem
  | .ok rule =>
    if dialect = .bnf && !rule.clauses.all ClauseText.isPlain then .error (.notPlain text)
    else .ok (rule.name, toClauses rule.clauses)

end GrammarKit.RuleText
