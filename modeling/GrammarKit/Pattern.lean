import GrammarKit.Text.CaseFold
import GrammarKit.Text.Occurrence
import GrammarKit.Text.WordChar

namespace GrammarKit

/-- A set of characters. -/
inductive CharSet where
  | any
  | range (first last : Char)
  | digit
  | blank
  | word
  | complement (set : CharSet)
  | union (a b : CharSet)
  | inter (a b : CharSet)
  /-- All characters that differ at most in case from one in the set. -/
  | folded (set : CharSet)
  deriving Repr

namespace CharSet

def empty : CharSet := complement any

def single (c : Char) : CharSet := range c c

def contains : CharSet → Char → Bool
  | any, _ => true
  | range first last, c => first ≤ c && c ≤ last
  | digit, c => Text.isDecimalDigit c
  | blank, c => Text.isBlank c
  | word, c => Text.isWordChar c
  | complement set, c => !set.contains c
  | union a b, c => a.contains c || b.contains c
  | inter a b, c => a.contains c && b.contains c
  | folded set, c => (Text.caseVariants c).any set.contains

end CharSet

/-- A condition on the characters around a place in a text. -/
inductive Assertion where
  | textStart
  | textEnd
  | lineStart
  | lineEnd
  | wordBoundary
  | noWordBoundary
  | wordStart
  | wordEnd
  deriving DecidableEq, Repr

/-- A regular expression. -/
inductive Pattern where
  | empty
  | char (set : CharSet)
  | assert (assertion : Assertion)
  | seq (a b : Pattern)
  | alt (a b : Pattern)
  /-- At least `least` and at most `most` rounds, without an upper bound for `none`. -/
  | rounds (body : Pattern) (least : Nat) (most : Option Nat) (greedy : Bool)
  deriving Repr

namespace Pattern

/-- A place in a text: the character before it and the text after it. -/
structure Spot where
  before : Option Char
  rest : List Char

namespace Spot

/-- The number of characters after a place. It tells the places of one text apart. -/
def size (spot : Spot) : Nat := spot.rest.length

private def isWord (c : Option Char) : Bool := c.any Text.isWordChar

def satisfies (spot : Spot) : Assertion → Bool
  | .textStart => spot.before.isNone
  | .textEnd => spot.rest.isEmpty
  | .lineStart => spot.before.isNone || spot.before == some '\n'
  | .lineEnd => spot.rest.isEmpty || spot.rest.head? == some '\n'
  | .wordBoundary => isWord spot.before != isWord spot.rest.head?
  | .noWordBoundary => isWord spot.before == isWord spot.rest.head?
  | .wordStart => !isWord spot.before && isWord spot.rest.head?
  | .wordEnd => isWord spot.before && !isWord spot.rest.head?

end Spot

/-- Removes the places that occurred before. -/
def distinct (seen : List Nat) : List Spot → List Spot
  | [] => []
  | spot :: spots =>
    if seen.contains spot.size then distinct seen spots
    else spot :: distinct (spot.size :: seen) spots

/-- Exactly `count` rounds of `step`. -/
def exactly (step : Spot → List Spot) : Nat → List Spot → List Spot
  | 0, spots => spots
  | count + 1, spots => exactly step count (distinct [] (spots.flatMap step))

/-- Places found, in order of preference, and the ones tried, with the number of rounds left. -/
private abbrev Found := List Spot × List (Nat × Option Nat)

/-- Further rounds of `step`, at most `most` of them. A round that consumes
    nothing is the last one, and no place is tried twice with the same number of
    rounds left. The number of characters left bounds the depth, which `fuel`
    counts down. -/
private def upTo (step : Spot → List Spot) (greedy : Bool) :
    Nat → Option Nat → Spot → List (Nat × Option Nat) → Found
  | 0, _, spot, tried => ([spot], tried)
  | fuel + 1, most, spot, tried =>
    if tried.contains (spot.size, most) then ([], tried)
    else if most = some 0 then ([spot], tried)
    else
      let tried := (spot.size, most) :: tried
      let (more, tried) := (step spot).foldl
        (fun (found, tried) next =>
          if next.size < spot.size then
            let (ends, tried) := upTo step greedy fuel (most.map (· - 1)) next tried
            (found ++ ends, tried)
          else (found ++ [next], tried))
        ([], tried)
      (if greedy then more ++ [spot] else spot :: more, tried)

/-- The places where a match from `spot` can end, the preferred one first. Not
    the longest match counts: earlier alternatives come first, and a repetition
    takes as many rounds as it can, or as few when it is lazy. -/
def ends : Pattern → Spot → List Spot
  | empty, spot => [spot]
  | char set, spot =>
    match spot.rest with
    | c :: rest => if set.contains c then [⟨some c, rest⟩] else []
    | [] => []
  | assert assertion, spot => if spot.satisfies assertion then [spot] else []
  | seq a b, spot => distinct [] ((a.ends spot).flatMap b.ends)
  | alt a b, spot => distinct [] (a.ends spot ++ b.ends spot)
  | rounds body least most greedy, spot =>
    distinct [] ((exactly body.ends least [spot]).flatMap fun reached =>
      (upTo body.ends greedy (reached.size + 1) (most.map (· - least)) reached []).1)

/-- The leftmost match at or after a place that has `skipped` characters before
    it: how many characters stand in front of the match, and where it ends. -/
def search (pattern : Pattern) (before : Option Char) (skipped : Nat) :
    List Char → Option (Nat × Spot)
  | [] => (pattern.ends ⟨before, []⟩).head?.map fun spot => (skipped, spot)
  | c :: rest =>
    match (pattern.ends ⟨before, c :: rest⟩).head? with
    | some spot => some (skipped, spot)
    | none => pattern.search (some c) (skipped + 1) rest

/-- The leftmost match in a text. -/
def find (pattern : Pattern) : Finder := fun text =>
  (pattern.search none 0 text).map fun (skipped, spot) =>
    .slice text skipped (text.length - skipped - spot.size)

end Pattern

end GrammarKit
