namespace GrammarKit

/-- A part of a text, with what stands before and after it. -/
structure Occurrence (text : List Char) where
  before : List Char
  found : List Char
  after : List Char
  split : before ++ found ++ after = text

/-- Looks for something in a text, such as the first match of a regular expression. -/
abbrev Finder := (text : List Char) → Option (Occurrence text)

namespace Occurrence

variable {text : List Char}

/-- The part of this length behind the first `skipped` characters. -/
def slice (text : List Char) (skipped length : Nat) : Occurrence text where
  before := text.take skipped
  found := (text.drop skipped).take length
  after := (text.drop skipped).drop length
  split := by rw [List.append_assoc, List.take_append_drop, List.take_append_drop]

/-- The text up to the end of the part. -/
def upToEnd (occurrence : Occurrence text) : List Char :=
  occurrence.before ++ occurrence.found

theorem upToEnd_prefix (occurrence : Occurrence text) : occurrence.upToEnd <+: text :=
  ⟨occurrence.after, occurrence.split⟩

/-- Where the part begins the text, nothing else stands in front of its end. -/
theorem upToEnd_eq_found {occurrence : Occurrence text} (hbefore : occurrence.before = []) :
    occurrence.upToEnd = occurrence.found := by
  rw [upToEnd, hbefore, List.nil_append]

end Occurrence

end GrammarKit
