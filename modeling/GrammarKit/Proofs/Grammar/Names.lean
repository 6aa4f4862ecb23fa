import GrammarKit.Grammar.Flat
import GrammarKit.Grammar.Precedence
import Mathlib.Data.List.Basic

namespace GrammarKit

/-- A number has no low line in it. -/
theorem lowLine_not_mem_number (number : Nat) : '_' ∉ (toString number).toList := by
  intro hmem
  rw [Nat.toString_eq_repr, Nat.toList_repr] at hmem
  have hdigit := Nat.isDigit_of_mem_toDigits (by omega) (by omega) hmem
  revert hdigit
  decide

/-- What follows the last low line tells where it is. -/
theorem eq_nil_of_cons_append {before number rest : List Char} (hnumber : '_' ∉ number)
    (heq : '_' :: number = before ++ '_' :: rest) : before = [] := by
  cases before with
  | nil => rfl
  | cons first before =>
    obtain ⟨-, rfl⟩ := List.cons.inj heq
    exact absurd (List.mem_append_right before List.mem_cons_self) hnumber

/-- A name that was made up tells its stem and its number. -/
theorem numbered_eq_iff {stem other : String} {number count : Nat} :
    stem ++ "_" ++ toString number = other ++ "_" ++ toString count ↔ stem = other ∧
    number = count := by
  constructor
  · intro heq
    have hlist := congrArg String.toList heq
    simp only [String.toList_append, List.append_assoc, String.reduceToList, List.cons_append,
      List.nil_append] at hlist
    have hstem : stem = other := by
      rcases List.append_eq_append_iff.1 hlist with ⟨between, hother, hrest⟩ |
        ⟨between, hstem, hrest⟩
      · obtain rfl := eq_nil_of_cons_append (lowLine_not_mem_number number) hrest
        exact String.toList_inj.1 (by simpa using hother.symm)
      · obtain rfl := eq_nil_of_cons_append (lowLine_not_mem_number count) hrest
        exact String.toList_inj.1 (by simpa using hstem)
    subst hstem
    have hdigits := (List.cons.inj (List.append_cancel_left hlist)).2
    simp only [Nat.toString_eq_repr, Nat.toList_repr] at hdigits
    have hread := congrArg (fun digits => Nat.ofDigitChars 10 digits 0) hdigits
    simp only [Nat.ofDigitChars_toDigits (b := 10) (by decide) (by decide)] at hread
    exact ⟨rfl, hread⟩
  · rintro ⟨rfl, rfl⟩
    rfl

namespace Flat

/-- The name of a group has a stem and a number. -/
theorem groupName_eq (parent : String) (number : Nat) :
    groupName parent number = parent ++ "__group" ++ "_" ++ toString number := by
  rw [@String.append_assoc parent]
  rfl

/-- The name of a choice has a stem and a number. -/
theorem choiceName_eq (parent : String) (number : Nat) :
    choiceName parent number = parent ++ "__choice" ++ "_" ++ toString number := by
  rw [@String.append_assoc parent]
  rfl

/-- The name of a group tells where it is. -/
theorem groupName_eq_iff {parent other : String} {number count : Nat} :
    groupName parent number = groupName other count ↔ parent = other ∧ number = count := by
  rw [groupName_eq, groupName_eq, numbered_eq_iff, String.append_left_inj]

/-- The name of a choice tells where it is. -/
theorem choiceName_eq_iff {parent other : String} {number count : Nat} :
    choiceName parent number = choiceName other count ↔ parent = other ∧ number = count := by
  rw [choiceName_eq, choiceName_eq, numbered_eq_iff, String.append_left_inj]

/-- No group is called like a choice. -/
theorem groupName_ne_choiceName (parent other : String) (number count : Nat) :
    groupName parent number ≠ choiceName other count := by
  rw [groupName_eq, choiceName_eq, Ne, numbered_eq_iff]
  rintro ⟨hstem, -⟩
  have hlast := congrArg (fun name => name.toList.getLast?) hstem
  simp at hlast

end Flat

namespace Precedence

theorem layerName_eq (root : String) (precedence : Nat) :
    layerName root precedence = root ++ "_" ++ toString precedence := rfl

/-- The name of a layer tells its root and its precedence. -/
theorem layerName_eq_iff {root other : String} {precedence level : Nat} :
    layerName root precedence = layerName other level ↔ root = other ∧ precedence = level := by
  rw [layerName_eq, layerName_eq, numbered_eq_iff]

theorem layerName_ne_root (root : String) (precedence : Nat) :
    layerName root precedence ≠ root := by
  intro heq
  have hlength := congrArg String.length heq
  simp only [layerName_eq, String.length_append] at hlength
  have hline : ("_" : String).length = 1 := rfl
  omega

end Precedence

/-- Whether a name is that of the group or the choice with this number in the
    rules of `parent`. -/
def IsPartName (parent : String) (number : Nat) (name : String) : Prop :=
  name = Flat.groupName parent number ∨ name = Flat.choiceName parent number

namespace IsPartName

variable {parent other name : String} {number count : Nat}

/-- A part belongs to one non-terminal, which numbers each of its parts once. -/
theorem inj (hname : IsPartName parent number name) (hother : IsPartName other count name) :
    parent = other ∧ number = count := by
  rcases hname with rfl | rfl <;> rcases hother with heq | heq
  · exact Flat.groupName_eq_iff.1 heq
  · exact absurd heq (Flat.groupName_ne_choiceName _ _ _ _)
  · exact absurd heq.symm (Flat.groupName_ne_choiceName _ _ _ _)
  · exact Flat.choiceName_eq_iff.1 heq

/-- A part has a longer name than what it belongs to. -/
theorem length_lt (hname : IsPartName parent number name) : parent.length < name.length := by
  have hmark : 0 < "_".length := by decide
  rcases hname with rfl | rfl
  · simp only [Flat.groupName_eq, String.length_append]
    omega
  · simp only [Flat.choiceName_eq, String.length_append]
    omega

/-- The stem of the name of a part is longer than the non-terminal that the part belongs to. -/
theorem length_lt_of_eq_numbered {stem : String} (hname : IsPartName parent number name)
    (heq : name = stem ++ "_" ++ toString count) : parent.length < stem.length := by
  have hgroup : 0 < "__group".length := by decide
  have hchoice : 0 < "__choice".length := by decide
  rcases hname with rfl | rfl
  · rw [Flat.groupName_eq, numbered_eq_iff] at heq
    rw [← heq.1, String.length_append]
    omega
  · rw [Flat.choiceName_eq, numbered_eq_iff] at heq
    rw [← heq.1, String.length_append]
    omega

/-- The parts of a layer are called neither like a layer of the same root nor like the root. -/
theorem ne_layerName {root : String} {precedence : Nat}
    (hname : IsPartName (Precedence.layerName root precedence) number name) (level : Nat) :
    name ≠ Precedence.layerName root level := by
  intro heq
  have hlength := hname.length_lt_of_eq_numbered (heq.trans (Precedence.layerName_eq root level))
  simp only [Precedence.layerName_eq, String.length_append] at hlength
  omega

theorem ne_root {root : String} {precedence : Nat}
    (hname : IsPartName (Precedence.layerName root precedence) number name) : name ≠ root := by
  rintro rfl
  have hlength := hname.length_lt
  simp only [Precedence.layerName_eq, String.length_append] at hlength
  omega

end IsPartName

end GrammarKit
