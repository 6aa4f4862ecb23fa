import GrammarKit.Lexer.Assembly
import GrammarKit.Proofs.Lexer.Branches

namespace GrammarKit.Lexer

open Automaton

variable {K : Type}

/-- What is added to a drawing. Of kinds and callbacks the newest comes first. -/
structure Addition (K : Type) where
  names : List Spot := []
  arrows : List (Arrow Spot) := []
  kinds : List (Spot × K) := []
  callbacks : List (Spot × Callback K) := []

namespace Addition

/-- One addition behind another one. -/
def append (first second : Addition K) : Addition K where
  names := first.names ++ second.names
  arrows := first.arrows ++ second.arrows
  kinds := second.kinds ++ first.kinds
  callbacks := second.callbacks ++ first.callbacks

end Addition

/-- Whether a drawing came from another one by an addition. -/
structure Adds (addition : Addition K) (before after : Drawing Spot K) : Prop where
  names : after.names = before.names ++ addition.names
  arrows : after.arrows = before.arrows ++ addition.arrows
  kinds : after.kinds = addition.kinds ++ before.kinds
  callbacks : after.callbacks = addition.callbacks ++ before.callbacks
  blanks : after.blanks = before.blanks

/-- Additions may be made one after the other. -/
theorem Adds.trans {first second : Addition K} {before middle after : Drawing Spot K}
    (hfirst : Adds first before middle) (hsecond : Adds second middle after) :
    Adds (first.append second) before after where
  names := by rw [hsecond.names, hfirst.names, List.append_assoc]; rfl
  arrows := by rw [hsecond.arrows, hfirst.arrows, List.append_assoc]; rfl
  kinds := by rw [hsecond.kinds, hfirst.kinds, ← List.append_assoc]; rfl
  callbacks := by rw [hsecond.callbacks, hfirst.callbacks, ← List.append_assoc]; rfl
  blanks := hsecond.blanks.trans hfirst.blanks

namespace Families

/-- The kind that the node of words goes by, whatever the word. -/
def wordPlaceholder? (families : Families K) : Option K :=
  families.identifier.or (families.keywords.head?.map Prod.fst)

/-- What words add: a node that leads to itself. -/
def wordAddition (families : Families K) (options : LexerOptions) : Addition K :=
  match families.wordPlaceholder? with
  | none => {}
  | some kind =>
    { names := [.word]
      arrows := [⟨.start, .oneOf options.identifier.startRanges, .word⟩,
        ⟨.word, .oneOf options.identifier.restRanges, .word⟩]
      kinds := [(.word, kind)]
      callbacks := [(.word, families.wordKind options)] }

/-- What whole numbers add: a node for digits. -/
def wholeAddition (families : Families K) : Addition K :=
  match families.int.or families.double with
  | none => {}
  | some kind =>
    { names := [.whole]
      arrows := [⟨.start, digit, .whole⟩, ⟨.whole, digit, .whole⟩]
      kinds := [(.whole, kind)] }

/-- What fractions add: a node for the separator, and one for the digits behind it. -/
def fractionAddition (families : Families K) (options : LexerOptions) : Addition K :=
  match families.double with
  | none => {}
  | some kind =>
    { names := [.point, .fraction]
      arrows := [⟨.whole, .single options.decimalSeparator, .point⟩, ⟨.point, digit, .fraction⟩,
        ⟨.fraction, digit, .fraction⟩]
      kinds := [(.fraction, kind)] }

end Families

/-- A declared string or character literal. -/
structure LiteralForm (K : Type) where
  isString : Bool
  kind : K
  delimiter : Char
  escape : Char

namespace LiteralForm

/-- The instructions of a literal. -/
def instructions (form : LiteralForm K) : List (Instruction K) :=
  if form.isString then Families.stringEdges form.kind form.delimiter form.escape
  else Families.charEdges form.kind form.delimiter form.escape

/-- What a literal adds: nodes of its own, whose names tell how far a scan has come. -/
def addition (form : LiteralForm K) : Addition K :=
  let opened : Spot := .literal form.delimiter .opened
  let escaped : Spot := .literal form.delimiter .escaped
  let body : Spot := .literal form.delimiter .body
  let closed : Spot := .literal form.delimiter .closed
  let start : Arrow Spot := ⟨.start, .single form.delimiter, opened⟩
  let kinds := [(closed, form.kind)]
  let callbacks := [(closed, Families.unescaping form.delimiter form.escape)]
  if form.isString then
    if form.escape = form.delimiter then
      { names := [opened, closed]
        arrows := [start, ⟨opened, .except [form.delimiter], opened⟩,
          ⟨opened, .single form.delimiter, closed⟩, ⟨closed, .single form.delimiter, opened⟩]
        kinds, callbacks }
    else
      { names := [opened, escaped, closed]
        arrows := [start, ⟨opened, .except [form.delimiter, form.escape], opened⟩,
          ⟨opened, .single form.escape, escaped⟩, ⟨escaped, .any, opened⟩,
          ⟨opened, .single form.delimiter, closed⟩]
        kinds, callbacks }
  else
    { names := [opened, body, closed, escaped]
      arrows := [start, ⟨opened, .except [form.delimiter, form.escape], body⟩,
        ⟨body, .single form.delimiter, closed⟩, ⟨opened, .single form.escape, escaped⟩,
        ⟨escaped, .any, body⟩]
      kinds, callbacks }

end LiteralForm

section Edges

attribute [local simp] Drawing.stand Drawing.grow Drawing.link Drawing.mark Drawing.accept
  Drawing.callback Drawing.marked? Addition.append

variable {before : Drawing Spot K}

/-- The instructions of words make the addition of words. -/
theorem draws_identifierEdges (families : Families K) (options : LexerOptions)
    (hstart : before.names[startNode]? = some .start) (hword : .word ∉ before.names) :
    ∃ after, Draws (families.identifierEdges options) before after ∧
      Adds (families.wordAddition options) before after := by
  rw [Families.identifierEdges, Families.wordAddition, Families.wordPlaceholder?]
  cases families.identifier.or (families.keywords.head?.map Prod.fst) with
  | none => exact ⟨before, .nil before, by constructor <;> simp⟩
  | some kind =>
    refine ⟨_, .gotoNode hstart (.move .word hword
      (.mark (.accept (.callback (.moveTo .word ?_ (.nil _)))))), ?_⟩
    · rfl
    · constructor <;> simp

/-- The instructions of numbers make the additions of whole numbers and of fractions. -/
theorem draws_numberEdges (families : Families K) (options : LexerOptions)
    (hstart : before.names[startNode]? = some .start) (hwhole : .whole ∉ before.names)
    (hpoint : .point ∉ before.names) (hfraction : .fraction ∉ before.names) :
    ∃ after, Draws (families.numberEdges options) before after ∧
      Adds (families.wholeAddition.append (families.fractionAddition options)) before after := by
  rw [Families.numberEdges, Families.wholeAddition, Families.fractionAddition]
  cases hkind : families.int.or families.double with
  | none =>
    rw [(Option.or_eq_none_iff.1 hkind).2]
    exact ⟨before, .nil before, by constructor <;> simp⟩
  | some kind =>
    cases families.double with
    | none =>
      refine ⟨_,
        .gotoNode hstart (.move .whole hwhole (.mark (.accept (.moveTo .whole ?_ (.nil _))))), ?_⟩
      · rfl
      · constructor <;> simp
    | some double =>
      refine ⟨_, .gotoNode hstart (.move .whole hwhole (.mark (.accept (.moveTo .whole ?_
        (.goto .whole ?_ (.move .point ?_ (.move .fraction ?_
          (.mark (.accept (.moveTo .fraction ?_ (.nil _))))))))))), ?_⟩
      · rfl
      · rfl
      · simp [hpoint]
      · simp [hfraction]
      · rfl
      · constructor <;> simp

theorem charMarks_ne (delimiter : Char) :
    s!"char_open_{delimiter}" ≠ s!"char_body_{delimiter}" := by
  intro heq
  have hchars := congrArg (fun text => text.toList[5]?) heq
  simp [toString] at hchars

/-- The instructions of a literal make its addition, at the start node. -/
theorem draws_literal (form : LiteralForm K) (hstart : before.names[startNode]? = some .start)
    (hfresh : ∀ phase, .literal form.delimiter phase ∉ before.names) :
    ∃ after, Draws form.instructions before after ∧ Adds form.addition before after := by
  rw [LiteralForm.instructions, LiteralForm.addition]
  split
  · rw [Families.stringEdges]
    split
    · refine ⟨_, .gotoNode hstart (.move _ (hfresh .opened)
        (.mark (.moveTo (.literal form.delimiter .opened) ?_
          (.goto (.literal form.delimiter .opened) ?_ (.move (.literal form.delimiter .closed) ?_
          (.accept (.callback (.moveTo (.literal form.delimiter .opened) ?_ (.nil _))))))))), ?_⟩
      · simp
      · simp
      · simp [hfresh]
      · simp
      · constructor <;> simp
    · refine ⟨_, .gotoNode hstart (.move _ (hfresh .opened)
        (.mark (.moveTo (.literal form.delimiter .opened) ?_
          (.goto (.literal form.delimiter .opened) ?_ (.move (.literal form.delimiter .escaped) ?_
          (.moveTo (.literal form.delimiter .opened) ?_ (.goto (.literal form.delimiter .opened) ?_
            (.move (.literal form.delimiter .closed) ?_ (.accept (.callback (.nil _))))))))))), ?_⟩
      · simp
      · simp
      · simp [hfresh]
      · simp
      · simp
      · simp [hfresh]
      · constructor <;> simp
  · rw [Families.charEdges]
    refine ⟨_, .gotoNode hstart (.move _ (hfresh .opened)
      (.mark (.move (.literal form.delimiter .body) ?_
        (.mark (.move (.literal form.delimiter .closed) ?_ (.accept (.callback
        (.goto (.literal form.delimiter .opened) ?_ (.move (.literal form.delimiter .escaped) ?_
          (.moveTo (.literal form.delimiter .body) ?_ (.nil _))))))))))), ?_⟩
    · simp [hfresh]
    · simp [hfresh]
    · have hmarks := charMarks_ne form.delimiter
      simp [hmarks.symm]
    · simp [hfresh]
    · simp
    · constructor <;> simp

end Edges

end GrammarKit.Lexer
