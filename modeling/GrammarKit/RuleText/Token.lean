import GrammarKit.Lexer

namespace GrammarKit.RuleText

inductive RuleToken where
  | identifier
  | colon
  | zeroOrMore
  | oneOrMore
  | optional
  | discard
  | openParen
  | closeParen
  | openBracket
  | closeBracket
  | or
  deriving DecidableEq, Repr

namespace RuleToken

def all : List RuleToken :=
  [identifier, colon, zeroOrMore, oneOrMore, optional, discard, openParen, closeParen, openBracket,
    closeBracket, or]

def name : RuleToken → String
  | identifier => "Identifier"
  | colon => "Colon"
  | zeroOrMore => "ZeroOrMore"
  | oneOrMore => "OneOrMore"
  | optional => "Optional"
  | discard => "Discard"
  | openParen => "OpenParen"
  | closeParen => "CloseParen"
  | openBracket => "OpenBracket"
  | closeBracket => "CloseBracket"
  | or => "Or"

instance : TokenKind RuleToken where
  all := all
  name := name
  mem_all kind := by cases kind <;> decide
  nodup_all := by decide
  name_injective a b := by cases a <;> cases b <;> decide

end RuleToken

def isSpace (c : Char) : Bool := c = ' ' || c = '\t' || c = '\r' || c = '\n'

def isLetter (c : Char) : Bool := c.isAlpha || c = '_'

def isLetterOrDigit (c : Char) : Bool := c.isAlphanum || c = '_'

/-- The token that a character is by itself. -/
def symbol? (c : Char) : Option RuleToken :=
  match c with
  | ':' => some .colon
  | '*' => some .zeroOrMore
  | '+' => some .oneOrMore
  | '?' => some .optional
  | '(' => some .openParen
  | ')' => some .closeParen
  | '[' => some .openBracket
  | ']' => some .closeBracket
  | '|' => some .or
  | _ => none

/-- The token that begins with `c`, and how many of the characters after `c`
    belong to it. The longest token is taken, so the mark for discarding wins
    over an opening bracket. -/
def scan? (c : Char) (rest : List Char) : Option (RuleToken × Nat) :=
  if isLetter c then some (.identifier, (rest.takeWhile isLetterOrDigit).length)
  else if c = '[' && ['d', ']'].isPrefixOf rest then some (.discard, 2)
  else (symbol? c).map fun kind => (kind, 0)

/-- The tokens of a text that starts at `position`, without the end of the stream. -/
def tokensFrom (position : Position) : List Char → Except LexicalError (List (Token RuleToken))
  | [] => .ok []
  | c :: rest =>
    if isSpace c then tokensFrom (position.advance c) rest
    else
      match scan? c rest with
      | none => .error ⟨c, position⟩
      | some (kind, length) =>
        let text := c :: rest.take length
        (tokensFrom (position.advanceOver text) (rest.drop length)).map fun tokens =>
          .ofSpan kind (String.ofList text) position :: tokens
termination_by text => text.length
decreasing_by
  · simp
  · simp only [List.length_drop, List.length_cons]
    omega

/-- The tokens of rule notation, such as `list : item ( COMMA[d] item )*`, with
    the end of the stream. Blanks and line ends are skipped. -/
def tokenize (source : String) : Except LexicalError (List (Token RuleToken)) :=
  (tokensFrom .start source.toList).map withEndOfStream

def lexer : Lexer RuleToken where
  tokenize source := (tokenize source).mapError .lexical

end GrammarKit.RuleText
