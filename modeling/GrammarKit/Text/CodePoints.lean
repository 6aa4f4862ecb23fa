namespace GrammarKit.Text

/-- A set of code points, listed as inclusive ranges. -/
abbrev CodePoints := List (Nat × Nat)

def CodePoints.contains (ranges : CodePoints) (c : Char) : Bool :=
  ranges.any fun (first, last) => first ≤ c.toNat && c.toNat ≤ last

/-- A partial map on code points. A run `(first, last, step, shift)` sends every
    `step`-th code point from `first` to `last` to the one `shift` further
    on. -/
abbrev CodePointMap := List (Nat × Nat × Nat × Int)

private def inRun (first last step code : Nat) : Bool :=
  first ≤ code && code ≤ last && (code - first) % step == 0

private def shifted (code : Nat) (shift : Int) : Char :=
  Char.ofNat ((code : Int) + shift).toNat

/-- The image of `c`, which is `c` itself outside of every run. -/
def CodePointMap.apply (runs : CodePointMap) (c : Char) : Char :=
  match runs.find? fun (first, last, step, _) => inRun first last step c.toNat with
  | some (_, _, _, shift) => shifted c.toNat shift
  | none => c

/-- All characters that a run of the map sends to `c`. -/
def CodePointMap.preimages (runs : CodePointMap) (c : Char) : List Char :=
  runs.filterMap fun (first, last, step, shift) =>
    let source := (c.toNat : Int) - shift
    if 0 ≤ source && inRun first last step source.toNat then some (Char.ofNat source.toNat)
    else none

end GrammarKit.Text
