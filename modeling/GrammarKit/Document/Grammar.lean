import GrammarKit.Document.Lexing
import GrammarKit.Grammar

namespace GrammarKit.Document

variable {K : Type} [DecidableEq K] [TokenKind K]

def roleName? : Role → Option String
  | .rule => none
  | .group => some "Group"
  | .tokenChoice => some "TerminalChoice"
  | .valueChoice => some "Choice"

private def roles : List Role := [.group, .tokenChoice, .valueChoice]

def toRole? (value : Json) : Option Role :=
  match given? value "role" with
  | none => some .rule
  | some role => roles.find? fun known => roleName? known = role.asString?

private def ifDiscarded (discarded : Bool) : List (String × Json) :=
  if discarded then [("d", .bool true)] else []

mutual

/-- A clause as a document. What is not discarded says nothing about it. -/
def ofClause : Clause K → Json
  | .terminal kind discarded => .object (("t", ofKind kind) :: ifDiscarded discarded)
  | .nonTerminal name role discarded =>
    .object (("n", .string name) ::
      (((roleName? role).map fun role => ("role", Json.string role)).toList ++
        ifDiscarded discarded))
  | .group clauses discarded => .object (("g", .array (ofEachClause clauses)) ::
      ifDiscarded discarded)
  | .choice alternatives discarded =>
    .object (("c", .array (ofEachClause alternatives)) :: ifDiscarded discarded)
  | .option inner discarded => .object (("?", ofClause inner) :: ifDiscarded discarded)
  | .zeroOrMore inner discarded => .object (("*", ofClause inner) :: ifDiscarded discarded)
  | .oneOrMore inner discarded => .object (("+", ofClause inner) :: ifDiscarded discarded)

def ofEachClause : List (Clause K) → List Json
  | [] => []
  | clause :: rest => ofClause clause :: ofEachClause rest

end

mutual

/-- The member that says what kind of clause it is decides. -/
def toClause? : Json → Option (Clause K)
  | .object members => toClauseAmong? (toRole? (.object members))
      (flag (.object members) "d") members
  | _ => none

private def toClauseAmong? (role : Option Role) (discarded : Bool) :
    List (String × Json) → Option (Clause K)
  | [] => none
  | ("t", kind) :: _ => (toKind? kind).map (Clause.terminal · discarded)
  | ("n", name) :: _ => return .nonTerminal (← name.asString?) (← role) discarded
  | ("g", .array clauses) :: _ => (toClauses? clauses).map (Clause.group · discarded)
  | ("c", .array alternatives) :: _ => (toClauses? alternatives).map (Clause.choice · discarded)
  | ("?", inner) :: _ => (toClause? inner).map (Clause.option · discarded)
  | ("*", inner) :: _ => (toClause? inner).map (Clause.zeroOrMore · discarded)
  | ("+", inner) :: _ => (toClause? inner).map (Clause.oneOrMore · discarded)
  | _ :: members => toClauseAmong? role discarded members

def toClauses? : List Json → Option (List (Clause K))
  | [] => some []
  | item :: rest => return (← toClause? item) :: (← toClauses? rest)

end

def toAffix? : Json → Option Affix
  | .string "prefix" => some .prefixOp
  | .string "infix" => some .infixOp
  | .string "postfix" => some .postfixOp
  | _ => none

/-- The associativity of an operator, which has none unless it is given. -/
def toAssociativity? (value : Json) : Option Associativity :=
  match given? value "assoc" with
  | none => some .nonassoc
  | some (.string "none") => some .nonassoc
  | some (.string "left") => some .left
  | some (.string "right") => some .right
  | some _ => none

def toOperator? (value : Json) : Option (Operator K) := do
  return {
    precedence := ← (← value.get? "precedence").asNat?
    associativity := ← toAssociativity? value
    affix := ← toAffix? (← value.get? "affix")
    kind := ← toKind? (← value.get? "operator") }

def ofOperator (operator : Operator K) : Json :=
  .object
    [("precedence", number operator.precedence), ("assoc", .string operator.associativity.name),
     ("affix", .string operator.affix.name), ("operator", ofKind operator.kind)]

def toDialect? (value : Json) : Option Dialect :=
  match given? value "type" with
  | none => some .ebnf
  | some (.string "ebnf") => some .ebnf
  | some (.string "bnf") => some .bnf
  | some _ => none

def ofKinds (set : KindSet K) : Json := texts set.names

variable {R : Type}

def ofOperation (operation : Operation K R) : Json :=
  .array
    [ofKind operation.kind, number operation.precedence, .string operation.affix.name,
     .string operation.associativity.name]

/-- A rule with its operators and the outcome of the analysis. -/
def ofRule (name : String) (rule : Rule K R) : Json :=
  .object
    [("text", .string (rule.describe name)), ("clauses", .array (rule.clauses.map ofClause)),
     ("reducer", .bool rule.reducer.isSome),
     ("operations", .array (rule.operationTable.map ofOperation)),
     ("subrule", .bool rule.isSubrule), ("bypass", .bool rule.isBypass),
     ("expression", .bool rule.isExpression), ("affix", text (rule.affix.map Affix.name)),
     ("leading", ofKinds rule.leading), ("may_be_empty", .bool rule.mayBeEmpty)]

def ofNonTerminal (nonTerminal : NonTerminal K R) : Json :=
  .object
    [("name", .string nonTerminal.name), ("is_group", .bool nonTerminal.isGroup),
     ("leading", ofKinds nonTerminal.leading),
     ("rules", .array (nonTerminal.rules.map (ofRule nonTerminal.name)))]

def ofRules (grammar : Grammar K R) : Json := .array (grammar.nonTerminals.map ofNonTerminal)

end GrammarKit.Document
