import GrammarKit.Proofs.Automaton.Drawing
import Mathlib.Data.List.Induction

namespace GrammarKit.Lexer

open Automaton

variable {K : Type}

/-- How far a scan has come in a literal. In a string, `opened` stands for all of its inside. -/
inductive Phase where
  | opened
  | escaped
  | body
  | closed
  deriving DecidableEq

/-- What the nodes of a lexer stand for. The start node is the empty path. -/
inductive Spot where
  | path (text : List Char)
  | word
  | whole
  | point
  | fraction
  | literal (delimiter : Char) (phase : Phase)
  deriving DecidableEq

namespace Spot

def start : Spot := path []

/-- Whether a word that is followed can come by. -/
inductive IsOpen : Spot → Prop
  | path (text : List Char) : IsOpen (path text)
  | literal (delimiter : Char) (phase : Phase) : IsOpen (literal delimiter phase)

/-- The first character of each word that comes by. -/
def head? : Spot → Option Char
  | path text => text.head?
  | literal delimiter _ => some delimiter
  | _ => none

end Spot

/-- Whether a text starts with one of the characters. -/
def StartsIn (chars : List Char) (text : List Char) : Prop :=
  ∃ c ∈ text.head?, c ∈ chars

@[simp] theorem startsIn_cons {chars : List Char} {c : Char} {text : List Char} :
    StartsIn chars (c :: text) ↔ c ∈ chars := by
  simp [StartsIn]

/-- Only the beginning of a text tells where it starts. -/
theorem startsIn_append_of_ne_nil {chars before : List Char} (hne : before ≠ [])
    (after : List Char) :
    StartsIn chars (before ++ after) ↔ StartsIn chars before := by
  cases before with
  | nil => exact absurd rfl hne
  | cons => simp

/-- What holds of the arrows along which words are followed from the start node,
    when literals have these delimiters. A node that is new on the way is named
    by the text that leads to it. A marker may also run into the nodes of a
    literal, when it starts with its delimiter. -/
structure Branches (delimiters : List Char) (drawing : Drawing Spot K) : Prop where
  traced : ∀ text, .path text ∈ drawing.names → drawing.trace? .start text = some (.path text)
  leads : ∀ arrow ∈ drawing.arrows, ∀ c, arrow.check = .single c → arrow.source.IsOpen →
    arrow.target.IsOpen ∧ arrow.target.head? = arrow.source.head?.or (some c)
  single : ∀ arrow ∈ drawing.arrows, ∀ text, arrow.source = .path text → text ≠ [] →
    ∃ c, arrow.check = .single c
  onward : ∀ arrow ∈ drawing.arrows, ∀ text, arrow.source = .path text → text ≠ [] →
    ∃ longer, arrow.target = .path longer
  straight : ∀ arrow ∈ drawing.arrows, ∀ text c, arrow.source = .path text →
    arrow.check = .single c →
    ¬StartsIn delimiters (text ++ [c]) → arrow.target = .path (text ++ [c])

/-- Whether an arrow was added when `word` was followed. -/
structure IsTwig (word : List Char) (arrow : Arrow Spot) : Prop where
  single : ∃ c ∈ word, arrow.check = .single c
  isOpen : arrow.source.IsOpen
  head : arrow.target.head? = word.head?
  isPath : ∃ text, arrow.target = .path text

/-- Whether a drawing grew by nothing but what it takes to follow `word`. -/
structure Sprouts (word : List Char) (before after : Drawing Spot K) : Prop where
  arrows : ∃ twigs, after.arrows = before.arrows ++ twigs ∧ ∀ twig ∈ twigs, IsTwig word twig
  names : ∃ paths : List (List Char), after.names = before.names ++ paths.map .path ∧
    ∀ path ∈ paths, path <+: word
  kinds : after.kinds = before.kinds
  callbacks : after.callbacks = before.callbacks
  blanks : after.blanks = before.blanks

namespace Sprouts

variable {word : List Char} {before middle after : Drawing Spot K}

theorem refl (word : List Char) (drawing : Drawing Spot K) : Sprouts word drawing drawing where
  arrows := ⟨[], by simp, fun _ htwig => nomatch htwig⟩
  names := ⟨[], by simp, fun _ hpath => nomatch hpath⟩
  kinds := rfl
  callbacks := rfl
  blanks := rfl

/-- A word may be followed in several parts. -/
theorem trans (hfirst : Sprouts word before middle) (hsecond : Sprouts word middle after) :
    Sprouts word before after := by
  obtain ⟨twigs, htwigs, hall⟩ := hfirst.arrows
  obtain ⟨more, hmore, hevery⟩ := hsecond.arrows
  obtain ⟨paths, hpaths, hpre⟩ := hfirst.names
  obtain ⟨others, hothers, heach⟩ := hsecond.names
  refine ⟨⟨twigs ++ more, ?_, fun twig htwig => ?_⟩, ⟨paths ++ others, ?_, fun path hpath => ?_⟩,
    hsecond.kinds.trans hfirst.kinds, hsecond.callbacks.trans hfirst.callbacks,
      hsecond.blanks.trans hfirst.blanks⟩
  · rw [hmore, htwigs, List.append_assoc]
  · rcases List.mem_append.1 htwig with htwig | htwig
    · exact hall twig htwig
    · exact hevery twig htwig
  · rw [hothers, hpaths, List.append_assoc, List.map_append]
  · rcases List.mem_append.1 hpath with hpath | hpath
    · exact hpre path hpath
    · exact heach path hpath

/-- Following a word accepts nothing. -/
theorem kind?_eq (hsprouts : Sprouts word before after) : after.kind? = before.kind? := by
  funext spot
  rw [Drawing.kind?, hsprouts.kinds, Drawing.kind?]

theorem callback?_eq (hsprouts : Sprouts word before after) :
    after.callback? = before.callback? := by
  funext spot
  rw [Drawing.callback?, hsprouts.callbacks, Drawing.callback?]

end Sprouts

/-- Follows a word, where `before` was followed to the current node. -/
def followPath (drawing : Drawing Spot K) (before : List Char) : List Char → Drawing Spot K
  | [] => drawing
  | c :: text => followPath (drawing.follow c (.path (before ++ [c]))) (before ++ [c]) text

namespace Branches

variable {delimiters : List Char} {drawing : Drawing Spot K}

/-- Every word that comes by a node begins with the first character of the node. -/
theorem head?_of_trace? (hbranches : Branches delimiters drawing) {text : List Char} {spot : Spot}
    (htrace : drawing.trace? .start text = some spot) : spot.IsOpen ∧ spot.head? = text.head? := by
  induction text using List.reverseRecOn generalizing spot with
  | nil =>
    obtain rfl := Option.some.inj htrace
    exact ⟨.path [], rfl⟩
  | append_singleton before c ih =>
    rw [Drawing.trace?_concat] at htrace
    obtain ⟨middle, hmiddle, hfollow⟩ := Option.bind_eq_some_iff.1 htrace
    obtain ⟨hopen, hhead⟩ := ih hmiddle
    obtain ⟨hopen, hnext⟩ := hbranches.leads _ (Drawing.mem_of_follow? hfollow) c rfl hopen
    refine ⟨hopen, hnext.trans ?_⟩
    rw [hhead, List.head?_append]
    rfl

/-- A word that starts with no delimiter keeps to the nodes named after it. -/
theorem eq_path_of_trace? (hbranches : Branches delimiters drawing) {text : List Char}
    (hclean : ¬StartsIn delimiters text) {spot : Spot}
    (htrace : drawing.trace? .start text = some spot) :
    spot = .path text := by
  induction text using List.reverseRecOn generalizing spot with
  | nil => exact (Option.some.inj htrace).symm
  | append_singleton before c ih =>
    rw [Drawing.trace?_concat] at htrace
    obtain ⟨middle, hmiddle, hfollow⟩ := Option.bind_eq_some_iff.1 htrace
    have hbefore : ¬StartsIn delimiters before := by
      cases before with
      | nil => simp [StartsIn]
      | cons first before => simpa using hclean
    obtain rfl := ih hbefore hmiddle
    exact hbranches.straight _ (Drawing.mem_of_follow? hfollow) before c rfl rfl hclean

variable {before : List Char}

/-- Kinds, callbacks and marks have no effect on how words are followed. -/
theorem congr {other : Drawing Spot K} (hbranches : Branches delimiters drawing)
    (hnames : other.names = drawing.names) (harrows : other.arrows = drawing.arrows) :
    Branches delimiters other where
  traced text hmem := (Drawing.trace?_congr harrows .start text).trans
    (hbranches.traced text (hnames ▸ hmem))
  leads := harrows ▸ hbranches.leads
  single := harrows ▸ hbranches.single
  onward := harrows ▸ hbranches.onward
  straight := harrows ▸ hbranches.straight

/-- The node for a text is new when the text was not followed so far. -/
theorem path_not_mem (hbranches : Branches delimiters drawing)
    (hcurrent : drawing.trace? .start before = some drawing.current) {c : Char}
    (hnone : drawing.follow? drawing.current c = none) : .path (before ++ [c]) ∉ drawing.names := by
  intro hmem
  have htrace := hbranches.traced _ hmem
  rw [Drawing.trace?_concat, hcurrent, Option.bind_some, hnone] at htrace
  cases htrace

/-- A new node is added at the end of what was followed. -/
theorem grow (hbranches : Branches delimiters drawing)
    (hcurrent : drawing.trace? .start before = some drawing.current) {c : Char}
    (hnone : drawing.follow? drawing.current c = none) :
    Branches delimiters (drawing.grow (.single c) (.path (before ++ [c]))) := by
  obtain ⟨hopen, hhead⟩ := hbranches.head?_of_trace? hcurrent
  refine ⟨fun text hmem => ?_, fun arrow harrow => ?_, fun arrow harrow => ?_,
    fun arrow harrow => ?_, fun arrow harrow => ?_⟩
  · rcases List.mem_append.1 hmem with hmem | hmem
    · exact Drawing.trace?_of_append rfl (hbranches.traced text hmem)
    · obtain rfl : text = before ++ [c] := Spot.path.inj (List.mem_singleton.1 hmem)
      rw [Drawing.trace?_concat, Drawing.trace?_of_append rfl hcurrent]
      exact drawing.follow?_link c _ hnone
  · rcases List.mem_append.1 harrow with harrow | harrow
    · exact hbranches.leads arrow harrow
    · obtain rfl := List.mem_singleton.1 harrow
      rintro d hd -
      obtain rfl : c = d := CharClass.single.inj hd
      refine ⟨.path _, ?_⟩
      rw [hhead, Spot.head?, List.head?_append]
      rfl
  · rcases List.mem_append.1 harrow with harrow | harrow
    · exact hbranches.single arrow harrow
    · obtain rfl := List.mem_singleton.1 harrow
      exact fun _ _ _ => ⟨c, rfl⟩
  · rcases List.mem_append.1 harrow with harrow | harrow
    · exact hbranches.onward arrow harrow
    · obtain rfl := List.mem_singleton.1 harrow
      exact fun _ _ _ => ⟨_, rfl⟩
  · rcases List.mem_append.1 harrow with harrow | harrow
    · exact hbranches.straight arrow harrow
    · obtain rfl := List.mem_singleton.1 harrow
      intro text d hsource hd hclean
      obtain rfl : c = d := CharClass.single.inj hd
      have hsource : drawing.current = .path text := hsource
      suffices hbefore : before = text by rw [hbefore]
      rw [hsource] at hhead hcurrent
      by_cases hne : before = []
      · subst hne
        exact (Spot.path.inj (Option.some.inj hcurrent))
      · refine (Spot.path.inj (hbranches.eq_path_of_trace? ?_ hcurrent)).symm
        rintro ⟨first, hfirst, hmem⟩
        refine hclean ⟨first, ?_, hmem⟩
        rw [List.head?_append, show text.head? = before.head? from hhead, Option.mem_def.1 hfirst]
        rfl

/-- One character more of a word that is followed. -/
theorem follow (hbranches : Branches delimiters drawing)
    (hcurrent : drawing.trace? .start before = some drawing.current) {c : Char} {word : List Char}
    (hword : before ++ [c] <+: word) :
    Branches delimiters (drawing.follow c (.path (before ++ [c]))) ∧
      (drawing.follow c (.path (before ++ [c]))).trace? .start (before ++ [c]) =
        some (drawing.follow c (.path (before ++ [c]))).current ∧
      Sprouts word drawing (drawing.follow c (.path (before ++ [c]))) := by
  rw [Drawing.follow]
  cases hfollow : drawing.follow? drawing.current c with
  | some target =>
    dsimp only
    refine ⟨hbranches.congr rfl rfl, ?_, { Sprouts.refl word drawing with }⟩
    rw [Drawing.trace?_congr (show (drawing.stand target).arrows = drawing.arrows from rfl),
      Drawing.trace?_concat, hcurrent, Option.bind_some, hfollow]
    rfl
  | none =>
    dsimp only
    refine ⟨hbranches.grow hcurrent hfollow, ?_, ⟨_, rfl, fun twig htwig => ?_⟩,
      ⟨[before ++ [c]], rfl, ?_⟩, rfl, rfl, rfl⟩
    · rw [Drawing.trace?_concat, Drawing.trace?_of_append rfl hcurrent]
      exact drawing.follow?_link c _ hfollow
    · obtain rfl := List.mem_singleton.1 htwig
      obtain ⟨after, rfl⟩ := hword
      refine ⟨⟨c, by simp, rfl⟩, (hbranches.head?_of_trace? hcurrent).1, ?_, ⟨_, rfl⟩⟩
      rw [Spot.head?, List.head?_append, List.head?_append, List.head?_append]
      cases before.head? <;> rfl
    · simpa using hword

/-- A whole word that is followed, which leads to the node that is current then. -/
theorem followPath (hbranches : Branches delimiters drawing)
    (hcurrent : drawing.trace? .start before = some drawing.current) (text : List Char) :
    Branches delimiters (followPath drawing before text) ∧
      (Lexer.followPath drawing before text).trace? .start (before ++ text) =
        some (Lexer.followPath drawing before text).current ∧
      Sprouts (before ++ text) drawing (Lexer.followPath drawing before text) := by
  induction text generalizing drawing before with
  | nil =>
    rw [List.append_nil]
    exact ⟨hbranches, hcurrent, .refl _ _⟩
  | cons c text ih =>
    have hword : before ++ [c] <+: before ++ c :: text := by simp
    obtain ⟨hgrown, htrace, hsprouts⟩ := hbranches.follow hcurrent hword
    obtain ⟨hall, hend, hmore⟩ := ih hgrown htrace
    rw [List.append_assoc, List.singleton_append] at hend hmore
    exact ⟨hall, hend, hsprouts.trans hmore⟩

/-- The builder follows a word as the drawing does. -/
theorem shows_followAll (hbranches : Branches delimiters drawing)
    (hcurrent : drawing.trace? .start before = some drawing.current) {builder : Builder K}
    (hshows : Shows builder drawing) (text : List Char) :
    Shows (builder.followAll text) (Lexer.followPath drawing before text) := by
  induction text generalizing builder drawing before with
  | nil => exact hshows
  | cons c text ih =>
    obtain ⟨hgrown, htrace, -⟩ := hbranches.follow hcurrent (List.prefix_refl (before ++ [c]))
    exact ih hgrown htrace (hshows.follow fun hnone => hbranches.path_not_mem hcurrent hnone)

end Branches

/-- A word is followed by an instruction for each character. -/
theorem applyAll_follow (builder : Builder K) (text : List Char) :
    builder.applyAll (text.map .follow) = (builder.followAll text, none) := by
  induction text generalizing builder with
  | nil => rfl
  | cons c text ih => exact ih (builder.follow c)

end GrammarKit.Lexer
