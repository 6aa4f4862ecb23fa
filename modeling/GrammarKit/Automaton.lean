import GrammarKit.Options
import GrammarKit.Token

namespace GrammarKit

/-- The characters that an edge of an automaton accepts. -/
inductive CharClass where
  | single (c : Char)
  | range (first last : Char)
  | oneOf (ranges : List CharRange)
  | any
  | except (excluded : List Char)
  deriving DecidableEq, Repr

namespace CharClass

def accepts : CharClass → Char → Bool
  | single expected, c => c = expected
  | range first last, c => first ≤ c && c ≤ last
  | oneOf ranges, c => inRanges ranges c
  | any, _ => true
  | except excluded, c => !excluded.contains c

def describe : CharClass → String
  | single c => Text.quoteChar c
  | range first last => s!"[{first}-{last}]"
  | oneOf ranges => "[" ++ String.join (ranges.map fun (first, last) => s!"{first}-{last}") ++ "]"
  | any => "*"
  | except excluded => "[^" ++ String.join (excluded.map Text.asciiEscape) ++ "]"

end CharClass

/-- What is skipped in front of a token. -/
structure Blanks where
  ignoreWhitespace : Bool := true
  whitespace : List Char := [' ', '\t']
  ignoreEol : Bool := true
  deriving DecidableEq, Repr

def Blanks.ignores (blanks : Blanks) (c : Char) : Bool :=
  (blanks.ignoreWhitespace && blanks.whitespace.contains c) ||
    (blanks.ignoreEol && (c = '\n' || c = '\r'))

def LexerOptions.blanks (options : LexerOptions) : Blanks where
  ignoreWhitespace := options.ignoreWhitespace
  whitespace := options.whitespace
  ignoreEol := options.ignoreEol

/-- A test of the text matched so far, under which an edge can be taken. -/
abbrev Guard := List Char → Bool

/-- A change made to a matched token; without a token the match is rejected. The
    change can come to a text that it cannot cut. -/
abbrev Callback (K : Type) := Token K → Except Miscut (Option (Token K))

/-- A state of an automaton. The scan can stop in an end node, which says what
    kind of token it found. -/
structure Node (K : Type) where
  id : Nat
  kind : Option K := none
  isEnd : Bool := false
  mark : Option String := none
  callback : Option (Callback K) := none

/-- What a node makes of a token that was matched in it. -/
def Node.finish {K : Type} (node : Node K) (token : Token K) : Except Miscut (Option (Token K)) :=
  match node.callback with
  | some callback => callback token
  | none => .ok (some token)

/-- An edge from one node to another. -/
structure Transition where
  source : Nat
  target : Nat
  check : CharClass
  guard : Option Guard := none

def Transition.accepts (transition : Transition) (c : Char) (matched : List Char) : Bool :=
  transition.check.accepts c && transition.guard.all fun guard => guard matched

/-- A deterministic automaton: at each node the first edge that accepts the next
    character is taken. The scan starts in node zero; `transitions` lists the
    edges by the node they leave. -/
structure Automaton (K : Type) where
  nodes : List (Node K)
  transitions : List (List Transition)
  blanks : Blanks := {}

namespace Automaton

variable {K : Type}

def startNode : Nat := 0

def node? (automaton : Automaton K) (id : Nat) : Option (Node K) :=
  automaton.nodes[id]?

def transitionsFrom (automaton : Automaton K) (id : Nat) : List Transition :=
  automaton.transitions[id]?.getD []

/-- The node reached from `id` by `c`, after the text `matched`. -/
def next? (automaton : Automaton K) (id : Nat) (matched : List Char) (c : Char) : Option Nat :=
  ((automaton.transitionsFrom id).find? fun transition => transition.accepts c matched).map
    Transition.target

def isEnd (automaton : Automaton K) (id : Nat) : Bool :=
  (automaton.node? id).any Node.isEnd

end Automaton

def Transition.describe (transition : Transition) : String :=
  s!"{transition.source} -{transition.check.describe}-> {transition.target}" ++
    if transition.guard.isSome then " (guarded)" else ""

variable {K : Type} [DecidableEq K] [TokenKind K]

def Node.inspect (node : Node K) : String :=
  Text.showRecord "FsmNode"
    [("id", toString node.id),
     ("value", Text.showOption (node.kind.map TokenKind.name)),
     ("is_end", Text.showBool node.isEnd),
     ("mark", Text.showOption (node.mark.map Text.quoteString)),
     ("callback", Text.showBool node.callback.isSome)]

def Automaton.inspect (automaton : Automaton K) : String :=
  Text.showRecord "Fsm"
    [("nodes", Text.showList (automaton.nodes.map Node.inspect)),
     ("transitions", Text.showList
       (automaton.transitions.map fun edges => Text.showList (edges.map Transition.describe)))]

end GrammarKit
