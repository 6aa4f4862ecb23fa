import GrammarKit.Automaton.Run
import GrammarKit.Lexer
import GrammarKit.Lexer.Assembly

namespace GrammarKit.Lexer

open Automaton

variable {K : Type}

/-- The beginning of a text up to the first occurrence of a marker, which is included. -/
def takeThrough (marker : List Char) : List Char → List Char
  | [] => []
  | c :: rest =>
    if marker.isPrefixOf (c :: rest) then marker else c :: takeThrough marker rest

/-- The body of a comment whose start marker was read, up to the end of the line
    or the first end marker. Without an end marker it is the whole text. -/
def CommentEnd.body (ending : CommentEnd) (text : List Char) : List Char :=
  match ending with
  | endOfLine => text.takeWhile fun c => c ≠ '\n' && c ≠ '\r'
  | marker last => takeThrough last.toList text

def CommentEnd.kind : CommentEnd → CommentKind
  | endOfLine => .single
  | marker _ => .multi

/-- Extends the token of a start marker over the body of its comment. -/
def extendComment (ending : CommentEnd) (token : Token K) (matched : List Char) (place : Place) :
    Token K × Place :=
  let body := ending.body place.rest
  let span := String.ofList (matched ++ body)
  ({ token with span, value := span, comment := some ending.kind },
    ⟨place.position.advanceOver body, place.rest.drop body.length⟩)

/-- Extends a token when it is the start marker of a comment. -/
def finishToken (comments : CommentTable) (token : Token K) (node : Nat) (matched : List Char)
    (place : Place) : Token K × Place :=
  match comments.ending? node with
  | some ending => extendComment ending token matched place
  | none => (token, place)

theorem finishToken_length_le (comments : CommentTable) (token : Token K) (node : Nat)
    (matched : List Char) (place : Place) :
    (finishToken comments token node matched place).2.rest.length ≤ place.rest.length := by
  unfold finishToken
  split
  · simp [extendComment]
  · exact Nat.le_refl _

namespace FamilyLexer

/-- The tokens from a place on, without the end of the stream. The automaton
    only finds the start markers of comments; their bodies are read here. -/
def tokensFrom (lexer : FamilyLexer K) (place : Place) : Except TokenizeError (List (Token K)) :=
  match _hrun : lexer.automaton.run place with
  | (.endOfStream _, _) => .ok []
  | (.failure character position, _) => .error (.lexical ⟨character, position⟩)
  | (.miscut cause, _) => .error (.miscut cause)
  | (.success token node matched, after) =>
    let finished := finishToken lexer.comments token node matched after
    (lexer.tokensFrom finished.2).map fun tokens => finished.1 :: tokens
termination_by place.rest.length
decreasing_by
  exact Nat.lt_of_le_of_lt (finishToken_length_le ..) (run_success_length_lt _hrun)

def tokenize (lexer : FamilyLexer K) (source : String) : Except TokenizeError (List (Token K)) :=
  (lexer.tokensFrom (.atStart source.toList)).map withEndOfStream

end FamilyLexer

end GrammarKit.Lexer
