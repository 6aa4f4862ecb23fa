import GrammarKit.Grammar.Diagnosis
import GrammarKit.Grammar.Flat
import GrammarKit.Grammar.Precedence
import GrammarKit.RuleText.Reader

namespace GrammarKit.Parser

variable {K O C : Type} [DecidableEq K] [TokenKind K]

/-- A rule in rule notation or by its clauses. The rules of operands say what
    operators apply to. -/
inductive Declaration (K O C : Type) where
  | text (text : String) (reducer : Reducer K O C) (isOperand : Bool)
  | clauses (name : String) (clauses : List (Clause K)) (reducer : Reducer K O C)

/-- The rules read so far, the names of operands among them, and the problems found. -/
structure Reading (K O C : Type) [DecidableEq K] [TokenKind K] where
  grammar : Grammar K (Reducer K O C)
  operands : List String := []
  diagnostics : List Diagnostic := []

namespace Reading

def empty (start : String) : Reading K O C where
  grammar := .empty start

def insert (dialect : Dialect) (reading : Reading K O C) : Declaration K O C → Reading K O C
  | .text text reducer isOperand =>
    match RuleText.read text dialect with
    | .error problem => { reading with diagnostics := reading.diagnostics ++ [problem.diagnostic] }
    | .ok (name, clauses) =>
      { reading with
        grammar := reading.grammar.add name { clauses, reducer := some reducer }
        operands :=
          if isOperand && !reading.operands.contains name then reading.operands ++ [name]
          else reading.operands }
  | .clauses name clauses reducer =>
    { reading with grammar := reading.grammar.add name { clauses, reducer := some reducer } }

/-- Adds the layers of operators. -/
def insertOperations (reading : Reading K O C) (root : String)
    (operations : List (Operation K (Reducer K O C))) :
    Reading K O C :=
  match Precedence.rules root reading.operands operations with
  | .ok rules => { reading with grammar := reading.grammar.addAll rules }
  | .error problem => { reading with diagnostics := reading.diagnostics ++ [problem.diagnostic] }

end Reading

/-- Builds the parser that reads a whole text as `start`. Rules are read, the
    layers of operators are added, groups and choices get names, and the grammar
    is checked and analysed. Every problem met on the way is reported. -/
def build (lexer : Lexer K) (declarations : List (Declaration K O C))
    (operations : List (Operation K (Reducer K O C))) (options : ParserOptions) (start : String) :
    BuildResult (Parser K O C) :=
  let rules := declarations.foldl (Reading.insert options.dialect) (.empty start)
  let complete := rules.insertOperations options.expressionRoot operations
  let grammar := complete.grammar.flatten
  .of (some { lexer, grammar := grammar.analyse, options })
    (complete.diagnostics ++ grammar.problems.map Grammar.Problem.diagnostic)

end GrammarKit.Parser
