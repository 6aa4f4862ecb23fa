import GrammarKit.Text.Quoted
import GrammarKit.Token

namespace GrammarKit

/-- A character at which no token can be read. -/
structure LexicalError where
  character : Char
  position : Position
  deriving DecidableEq, Repr

def LexicalError.message (error : LexicalError) : String :=
  s!"Lexical error: unrecognized character {Text.quoteChar error.character} at " ++
    error.position.describe

/-- Why a text has no tokens: one of its characters belongs to none, or a token
    was to be cut inside a character. -/
inductive TokenizeError where
  | lexical (error : LexicalError)
  | miscut (cause : Miscut)
  deriving DecidableEq, Repr

/-- Turns a text into tokens, of which the last and only the last marks the end
    of the stream. -/
structure Lexer (K : Type) where
  tokenize : String → Except TokenizeError (List (Token K))

variable {K : Type}

/-- The position right after the last of the tokens, counted on from where it starts. -/
def endPosition (tokens : List (Token K)) : Position :=
  match tokens.getLast? with
  | some last => last.position.advanceOver last.span.toList
  | none => .start

/-- Closes a list of tokens with the one that marks the end of the stream. -/
def withEndOfStream (tokens : List (Token K)) : List (Token K) :=
  tokens ++ [.endOfStream (endPosition tokens)]

end GrammarKit
