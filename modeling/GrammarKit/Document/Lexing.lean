import GrammarKit.Automaton.Condition
import GrammarKit.Document
import GrammarKit.Lexer.Declaration

namespace GrammarKit.Document

variable {K : Type} [DecidableEq K] [TokenKind K]

def ofKind (kind : K) : Json := .string (TokenKind.name kind)

def toKind? (value : Json) : Option K := value.asString?.bind TokenKind.ofName?

/-- The bit pattern of a number; one text stands for all that are not a number. -/
def ofDouble (value : Number.Binary64) : Json := .string (if value.isNaN then "nan" else value.hex)

def ofComment : CommentKind → Json
  | .single => .string "Single"
  | .multi => .string "Multi"

/-- A token with its values and its place. -/
def ofToken (token : Token K) : Json :=
  .object
    [("kind", optional ofKind token.kind), ("span", .string token.span),
      ("value", .string token.value), ("pos", ofPosition token.position),
      ("end", number token.endIndex),
     ("comment", optional ofComment token.comment), ("is_comment", .bool token.isComment),
     ("empty", .bool token.isEndOfStream), ("discarded", .bool token.discarded),
     ("stream", number token.streamIndex), ("int", text (token.intValue?.map toString)),
     ("double", optional ofDouble token.doubleValue?), ("char", optional ofChar token.charValue?),
     ("unquoted", .string token.unquoted)]

def ofLexicalError (error : LexicalError) : Json :=
  .object
    [("error", .string "lexical"), ("char", ofChar error.character),
      ("pos", ofPosition error.position), ("message", .string error.message)]

/-- A cut inside a character ends everything. -/
def ofMiscut : Json := .object [("error", .string "panic")]

/-- The tokens of a text, or why it has none. -/
def ofTokens : Except TokenizeError (List (Token K)) → Json
  | .ok tokens => .array (tokens.map ofToken)
  | .error (.lexical error) => ofLexicalError error
  | .error (.miscut _) => ofMiscut

def ofNode (node : Node K) : Json :=
  .object
    [("kind", optional ofKind node.kind), ("end", .bool node.isEnd), ("mark", text node.mark),
     ("callback", .bool node.callback.isSome)]

/-- An automaton with all nodes and edges. -/
def ofAutomaton (automaton : Automaton K) : Json :=
  .object
    [("nodes", .array (automaton.nodes.map ofNode)),
     ("transitions", texts (automaton.transitions.flatten.map Transition.describe))]

def toCharClass? : Json → Option CharClass
  | .array [.string "char", c] => return .single (← toChar? c)
  | .array [.string "range", first, last] => return .range (← toChar? first) (← toChar? last)
  | .array [.string "multi", ranges] => return .oneOf (← toRanges? ranges)
  | .array [.string "any"] => some .any
  | .array [.string "except", excluded] => return .except (← toChars? excluded)
  | _ => none

def toCondition? : Json → Option Automaton.Condition
  | .array [.string "max_len", limit] => return .maxLength (← limit.asNat?)
  | .array [.string "min_len", limit] => return .minLength (← limit.asNat?)
  | .array [.string "eq", .string text] => some (.equals text)
  | .array [.string "starts", .string text] => some (.startsWith text)
  | .array [.string "ends", .string text] => some (.endsWith text)
  | .array [.string "not_contains", .string text] => some (.lacks text)
  | _ => none

def toGuard? (value : Json) : Option Guard := (toCondition? value).map Automaton.Condition.holds

def toAdjustment? : Json → Option (Automaton.Adjustment K)
  | .array [.string "retag", .string text, kind] => return .retag text (← toKind? kind)
  | .array [.string "reject", .string text] => some (.reject text)
  | .array [.string "value", .string text] => some (.prepend text)
  | _ => none

/-- An instruction; the kind of an end without one is `declared`. -/
def toInstruction? (declared : Option K) : Json → Option (Automaton.Instruction K)
  | .array (.string name :: arguments) =>
    match name, arguments with
    | "transition", [c] => return .move (.single (← toChar? c)) none
    | "transition_if", [c, guard] => return .move (.single (← toChar? c)) (some (← toGuard? guard))
    | "safe", [c] => return .follow (← toChar? c)
    | "range", [first, last] => return .move (.range (← toChar? first) (← toChar? last)) none
    | "range_if", [first, last, guard] =>
      return .move (.range (← toChar? first) (← toChar? last)) (some (← toGuard? guard))
    | "multi", [ranges] => return .move (.oneOf (← toRanges? ranges)) none
    | "multi_if", [ranges, guard] =>
      return .move (.oneOf (← toRanges? ranges)) (some (← toGuard? guard))
    | "except", [excluded] => return .move (.except (← toChars? excluded)) none
    | "except_if", [excluded, guard] =>
      return .move (.except (← toChars? excluded)) (some (← toGuard? guard))
    | "any", [] => some (.move .any none)
    | "any_if", [guard] => return .move .any (some (← toGuard? guard))
    | "repeat", [count, check] => return .chain (← count.asNat?) (← toCharClass? check)
    | "transition_to", [c, .string mark] => return .moveTo (.single (← toChar? c)) mark
    | "range_to", [first, last, .string mark] =>
      return .moveTo (.range (← toChar? first) (← toChar? last)) mark
    | "multi_to", [ranges, .string mark] => return .moveTo (.oneOf (← toRanges? ranges)) mark
    | "except_to", [excluded, .string mark] => return .moveTo (.except (← toChars? excluded)) mark
    | "any_to", [.string mark] => some (.moveTo .any mark)
    | "mark", [.string mark] => some (.mark mark)
    | "goto", [.string mark] => some (.goto mark)
    | "goto_node", [id] => return .gotoNode (← id.asNat?)
    | "end", [] => declared.map .accept
    | "end", [kind] => return .accept (← toKind? kind)
    | "callback", [adjustment] => (toAdjustment? adjustment).map fun made => .callback made.apply
    | "ignore_whitespace", [.bool ignore] => some (.ignoreWhitespace ignore)
    | "whitespace", [chars] => return .whitespace (← toChars? chars)
    | "ignore_eol", [.bool ignore] => some (.ignoreEol ignore)
    | _, _ => none
  | _ => none

private def toMarkers? : Json → Option (String × String)
  | .array [.string first, .string last] => some (first, last)
  | _ => none

/-- A family by its name and what it declares. -/
def toFamily? (kind : K) (value : Json) : Option (Lexer.Family K) := do
  match ← text? value "as" with
  | "identifier" => some .identifier
  | "int" => some .int
  | "double" => some .double
  | "keyword" => return .keyword (← text? value "text")
  | "sugar" => return .sugar (← text? value "text")
  | "string" => return .string (← char? value "delimiter") (← char? value "escape")
  | "char" => return .char (← char? value "delimiter") (← char? value "escape")
  | "line_comment" => return .comment (some (← text? value "start")) none
  | "block_comment" => return .comment none (some (← text? value "start", ← text? value "end"))
  | "comment" => return .comment (text? value "single") ((value.get? "multi").bind toMarkers?)
  | "extension" =>
    let instructions ← (items value "steps").mapM (toInstruction? (some kind))
    return .extension (.ofInstructions fun _ => instructions)
  | _ => none

def toPattern? (value : Json) : Option Lexer.PatternDeclaration := do
  let pattern ← text? value "pattern"
  match ← text? value "as" with
  | "regex" => some { pattern }
  | "skip" => some { pattern, skip := true }
  | "line_ending" => some { pattern, skip := flag value "skip", lineEnding := true }
  | _ => none

def toDeclaration? (value : Json) : Option (K × Lexer.Declaration K) := do
  let kind ← toKind? (← value.get? "kind")
  match toFamily? kind value with
  | some family => return (kind, .family family)
  | none => return (kind, .pattern (← toPattern? value))

end GrammarKit.Document
