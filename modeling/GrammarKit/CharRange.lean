namespace GrammarKit

/-- An inclusive range of characters. -/
abbrev CharRange := Char × Char

def CharRange.contains (range : CharRange) (c : Char) : Bool :=
  range.1 ≤ c && c ≤ range.2

/-- Whether one of the ranges holds the character. -/
def inRanges (ranges : List CharRange) (c : Char) : Bool :=
  ranges.any fun range => CharRange.contains range c

end GrammarKit
