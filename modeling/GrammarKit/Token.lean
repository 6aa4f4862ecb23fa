import GrammarKit.Kind
import GrammarKit.Number.Binary64
import GrammarKit.Position

namespace GrammarKit

/-- Whether a comment ends with its line or at an end marker. -/
inductive CommentKind where
  | single
  | multi
  deriving DecidableEq, Repr

/-- A lexical unit: the text it covers, where that text starts, and its value,
    which differs from the text where a literal was unescaped. A token without a
    kind marks the end of the stream. -/
structure Token (K : Type) where
  kind : Option K
  span : String
  value : String
  position : Position
  comment : Option CommentKind := none
  discarded : Bool := false
  streamIndex : Nat := 0
  deriving DecidableEq, Repr

namespace Token

variable {K : Type}

def ofSpan (kind : K) (span : String) (position : Position) : Token K where
  kind := some kind
  span := span
  value := span
  position := position

def endOfStream (position : Position) : Token K where
  kind := none
  span := ""
  value := ""
  position := position

def isEndOfStream (token : Token K) : Bool := token.kind.isNone

def isComment (token : Token K) : Bool := token.comment.isSome

/-- The byte index right after the text the token covers. -/
def endIndex (token : Token K) : Nat :=
  token.position.index + token.span.utf8ByteSize

def intValue? (token : Token K) : Option Int :=
  Number.readInt64? token.value

def doubleValue? (token : Token K) : Option Number.Binary64 :=
  Number.readBinary64? token.value

/-- The characters of the value without the first and the last one, which are
    the delimiters of a string or character literal. -/
def unquotedChars (token : Token K) : List Char :=
  token.value.toList.tail.dropLast

def unquoted (token : Token K) : String :=
  String.ofList token.unquotedChars

/-- The character of a character literal. -/
def charValue? (token : Token K) : Option Char :=
  match token.unquotedChars with
  | [c] => some c
  | _ => none

variable [DecidableEq K]

def is (token : Token K) (kind : K) : Bool := token.kind = some kind

variable [TokenKind K]

def kindName (token : Token K) : String :=
  match token.kind with
  | some kind => TokenKind.name kind
  | none => "<end of stream>"

def describe (token : Token K) : String :=
  match token.kind with
  | some kind => s!"{TokenKind.name kind} ({token.value})"
  | none => "end of stream"

end Token

end GrammarKit
