namespace GrammarKit

/-- A place in a text: the number of bytes before it, its line, and the number
    of characters between the start of that line and the place. All three count
    from zero. -/
structure Position where
  index : Nat
  line : Nat
  column : Nat
  deriving DecidableEq, Repr, Inhabited

namespace Position

def start : Position := ⟨0, 0, 0⟩

/-- The place right after `c`. Only a line feed begins a new line. -/
def advance (pos : Position) (c : Char) : Position :=
  if c = '\n' then ⟨pos.index + c.utf8Size, pos.line + 1, 0⟩
  else ⟨pos.index + c.utf8Size, pos.line, pos.column + 1⟩

def advanceOver (pos : Position) (text : List Char) : Position :=
  text.foldl advance pos

/-- Positions are ordered by index first, then line, then column. -/
def le (a b : Position) : Bool :=
  if a.index ≠ b.index then a.index < b.index
  else if a.line ≠ b.line then a.line < b.line
  else a.column ≤ b.column

def sort (positions : List Position) : List Position :=
  positions.mergeSort le

/-- Lines and columns are shown counting from one. -/
def describe (pos : Position) : String :=
  s!"line {pos.line + 1}, column {pos.column + 1}"

@[simp] theorem advanceOver_nil (pos : Position) : pos.advanceOver [] = pos := rfl

@[simp] theorem advanceOver_cons (pos : Position) (c : Char) (text : List Char) :
    pos.advanceOver (c :: text) = (pos.advance c).advanceOver text := rfl

theorem advanceOver_append (pos : Position) (before after : List Char) :
    pos.advanceOver (before ++ after) = (pos.advanceOver before).advanceOver after := by
  simp [advanceOver]

theorem index_advance (pos : Position) (c : Char) :
    (pos.advance c).index = pos.index + c.utf8Size := by
  rw [advance]
  split <;> rfl

end Position

/-- The number of bytes that a text takes up in UTF-8. -/
def byteSize : List Char → Nat
  | [] => 0
  | c :: text => c.utf8Size + byteSize text

@[simp] theorem byteSize_nil : byteSize [] = 0 := rfl

@[simp] theorem byteSize_cons (c : Char) (text : List Char) :
    byteSize (c :: text) = c.utf8Size + byteSize text := rfl

@[simp] theorem byteSize_append (before after : List Char) :
    byteSize (before ++ after) = byteSize before + byteSize after := by
  induction before with
  | nil => simp
  | cons c before ih => simp [ih, Nat.add_assoc]

theorem Position.index_advanceOver (pos : Position) (text : List Char) :
    (pos.advanceOver text).index = pos.index + byteSize text := by
  induction text generalizing pos with
  | nil => rfl
  | cons c text ih => rw [advanceOver_cons, ih, index_advance, byteSize_cons, Nat.add_assoc]

/-- What is left of a text after its first `index` bytes, when these end between
    two characters. -/
def dropBytes : Nat → List Char → Option (List Char)
  | 0, text => some text
  | _ + 1, [] => none
  | index + 1, c :: text =>
    if c.utf8Size ≤ index + 1 then dropBytes (index + 1 - c.utf8Size) text else none

theorem dropBytes_append (before left : List Char) :
    dropBytes (byteSize before) (before ++ left) = some left := by
  induction before with
  | nil => cases left <;> rfl
  | cons c before ih =>
    obtain ⟨size, hsize⟩ : ∃ size, c.utf8Size + byteSize before = size + 1 :=
      Nat.exists_eq_succ_of_ne_zero (Nat.ne_of_gt (Nat.add_pos_left c.utf8Size_pos _))
    have hleft : size + 1 - c.utf8Size = byteSize before := by omega
    rw [byteSize_cons, hsize, List.cons_append, dropBytes, if_pos (by omega), hleft, ih]

theorem dropBytes_utf8Size (c : Char) (rest : List Char) :
    dropBytes c.utf8Size (c :: rest) = some rest :=
  dropBytes_append [c] rest

/-- Dropping bytes takes a beginning of exactly that size off a text. -/
theorem dropBytes_eq_some_iff {index : Nat} {source left : List Char} :
    dropBytes index source = some left ↔ ∃ before, source = before ++ left ∧
    byteSize before = index := by
  constructor
  · intro hdrop
    fun_induction dropBytes index source with
    | case1 text => exact ⟨[], Option.some.inj hdrop, rfl⟩
    | case2 index => cases hdrop
    | case3 index c text hfits ih =>
      obtain ⟨before, rfl, hsize⟩ := ih hdrop
      exact ⟨c :: before, rfl, by rw [byteSize_cons]; omega⟩
    | case4 index c text hfits => cases hdrop
  · rintro ⟨before, rfl, rfl⟩
    exact dropBytes_append before left

/-- A position that moves over what comes next in a text stands between two characters again. -/
theorem dropBytes_advanceOver {pos : Position} {source text left : List Char}
    (hdrop : dropBytes pos.index source = some (text ++ left)) :
    dropBytes (pos.advanceOver text).index source = some left := by
  obtain ⟨before, rfl, hsize⟩ := dropBytes_eq_some_iff.1 hdrop
  refine dropBytes_eq_some_iff.2 ⟨before ++ text, (List.append_assoc ..).symm, ?_⟩
  rw [byteSize_append, hsize, Position.index_advanceOver]

/-- A text was to be cut inside one of its characters. -/
structure Miscut where
  text : String
  deriving DecidableEq, Repr

/-- The character that starts at a byte index of `source`, if one does. -/
def charAt? (source : String) (index : Nat) : Option Char :=
  (dropBytes index source.toList).bind List.head?

theorem charAt?_eq_head? {source : String} {index : Nat} {left : List Char}
    (hdrop : dropBytes index source.toList = some left) : charAt? source index = left.head? := by
  rw [charAt?, hdrop, Option.bind_some]

end GrammarKit
