import GrammarKit.Proofs.Lexer.Layout

namespace GrammarKit.Lexer

open Automaton

variable {K : Type} {families : Families K} {options : LexerOptions} {content : Content K}
    {drawing : Drawing Spot K}

@[simp] theorem accepts_single (expected c : Char) :
    (CharClass.single expected).accepts c = decide (c = expected) := rfl

@[simp] theorem accepts_oneOf (ranges : List CharRange) (c : Char) :
    (CharClass.oneOf ranges).accepts c = inRanges ranges c := rfl

@[simp] theorem accepts_any (c : Char) : CharClass.any.accepts c = true := rfl

@[simp] theorem accepts_except (excluded : List Char) (c : Char) :
    (CharClass.except excluded).accepts c = !excluded.contains c := rfl

@[simp] theorem digit_ne_single (c : Char) : Families.digit ≠ .single c := nofun

/-- Among arrows for single characters, the one that accepts a character is the one for it. -/
theorem find?_accepts_eq_of_single {arrows : List (Arrow Spot)}
    (hsingle : ∀ arrow ∈ arrows, ∃ c, arrow.check = .single c) (c : Char) :
    (arrows.find? fun arrow => arrow.check.accepts c) = arrows.find? fun arrow => arrow.check =
      .single c := by
  induction arrows with
  | nil => rfl
  | cons arrow arrows ih =>
    obtain ⟨d, hd⟩ := hsingle arrow List.mem_cons_self
    have hiff : arrow.check.accepts c = decide (arrow.check = .single c) := by
      rw [hd]
      simp [eq_comm]
    rw [List.find?_cons, List.find?_cons, hiff, ih fun other hother =>
      hsingle other (List.mem_cons_of_mem _ hother)]

namespace Layout

/-- Arrows of words and numbers come before all others. -/
theorem arrowsFrom_eq (hlayout : Layout families options content drawing) (spot : Spot) :
    ∃ others, drawing.arrowsFrom spot = ((families.base options).arrows.filter fun arrow =>
      arrow.source = spot) ++ others ∧
      ∀ arrow ∈ others, arrow.source = spot ∧ spot.IsOpen ∧
        (spot = .start → ∃ c, arrow.check = .single c) := by
  obtain ⟨others, harrows, hothers⟩ := hlayout.arrows
  refine ⟨others.filter fun arrow => arrow.source = spot, ?_, fun arrow harrow => ?_⟩
  · rw [Drawing.arrowsFrom, harrows, List.filter_append]
  · obtain ⟨hmem, hsource⟩ := List.mem_filter.1 harrow
    obtain rfl := of_decide_eq_true hsource
    exact ⟨rfl, hothers arrow hmem⟩

/-- Nodes that no word comes by have the arrows of their own family only. -/
theorem arrowsFrom_closed (hlayout : Layout families options content drawing) (spot : Spot)
    (hspot : ¬spot.IsOpen) :
    drawing.arrowsFrom spot = (families.base options).arrows.filter fun arrow =>
      arrow.source = spot := by
  obtain ⟨others, harrows, hothers⟩ := hlayout.arrowsFrom_eq spot
  cases others with
  | nil => rw [harrows, List.append_nil]
  | cons arrow others => exact absurd (hothers arrow List.mem_cons_self).2.1 hspot

/-- Words come first, then numbers, and then all that begins with a character of
    its own. Once they have begun, they keep to themselves. -/
theorem next?_start (hlayout : Layout families options content drawing) (c : Char) :
    drawing.next? .start c =
      if families.wordPlaceholder?.isSome ∧ inRanges options.identifier.startRanges c then
        some .word
      else if (families.int.or families.double).isSome ∧ Families.digit.accepts c then some .whole
      else drawing.follow? .start c := by
  obtain ⟨others, harrows, hothers⟩ := hlayout.arrowsFrom_eq .start
  have hfind := find?_accepts_eq_of_single (fun arrow harrow => (hothers arrow harrow).2.2 rfl) c
  rw [Drawing.next?, Drawing.follow?, harrows, List.find?_append, List.find?_append, hfind,
    Families.base, Addition.append, Addition.append, Families.wordAddition, Families.wholeAddition,
      Families.fractionAddition]
  cases hstart : inRanges options.identifier.startRanges c <;> cases hdigit :
    Families.digit.accepts c <;>
    cases families.wordPlaceholder? <;> cases families.int.or families.double <;>
      cases families.double <;>
      simp [Spot.start, hstart, hdigit]

/-- Words lead on by their characters. -/
theorem next?_word (hlayout : Layout families options content drawing) (c : Char) :
    drawing.next? .word c =
      if families.wordPlaceholder?.isSome ∧ inRanges options.identifier.restRanges c then some .word
      else none := by
  rw [Drawing.next?, hlayout.arrowsFrom_closed .word nofun, Families.base, Addition.append,
    Addition.append, Families.wordAddition, Families.wholeAddition, Families.fractionAddition]
  cases hrest : inRanges options.identifier.restRanges c <;> cases families.wordPlaceholder? <;>
    cases families.int.or families.double <;> cases families.double <;>
      simp [Spot.start, hrest]

/-- Whole numbers lead on by digits and, to a fraction, by the separator. -/
theorem next?_whole (hlayout : Layout families options content drawing) (c : Char) :
    drawing.next? .whole c =
      if (families.int.or families.double).isSome ∧ Families.digit.accepts c then some .whole
      else if families.double.isSome ∧ c = options.decimalSeparator then some .point else none := by
  rw [Drawing.next?, hlayout.arrowsFrom_closed .whole nofun, Families.base, Addition.append,
    Addition.append, Families.wordAddition, Families.wholeAddition, Families.fractionAddition]
  by_cases hseparator : c = options.decimalSeparator
  · subst hseparator
    cases hdigit : Families.digit.accepts options.decimalSeparator <;>
      cases families.wordPlaceholder? <;>
      cases families.int.or families.double <;> cases families.double <;> simp [Spot.start, hdigit]
  · cases hdigit : Families.digit.accepts c <;> cases families.wordPlaceholder? <;>
      cases families.int.or families.double <;> cases families.double <;>
        simp [Spot.start, hdigit, hseparator]

/-- A separator leads on by a digit. -/
theorem next?_point (hlayout : Layout families options content drawing) (c : Char) :
    drawing.next? .point c =
      if families.double.isSome ∧ Families.digit.accepts c then some .fraction else none := by
  rw [Drawing.next?, hlayout.arrowsFrom_closed .point nofun, Families.base, Addition.append,
    Addition.append, Families.wordAddition, Families.wholeAddition, Families.fractionAddition]
  cases hdigit : Families.digit.accepts c <;> cases families.wordPlaceholder? <;>
    cases families.int.or families.double <;> cases families.double <;> simp [Spot.start, hdigit]

/-- Fractions lead on by digits. -/
theorem next?_fraction (hlayout : Layout families options content drawing) (c : Char) :
    drawing.next? .fraction c =
      if families.double.isSome ∧ Families.digit.accepts c then some .fraction else none := by
  rw [Drawing.next?, hlayout.arrowsFrom_closed .fraction nofun, Families.base, Addition.append,
    Addition.append, Families.wordAddition, Families.wholeAddition, Families.fractionAddition]
  cases hdigit : Families.digit.accepts c <;> cases families.wordPlaceholder? <;>
    cases families.int.or families.double <;> cases families.double <;> simp [Spot.start, hdigit]

/-- Words that are followed lead on as they were followed. -/
theorem next?_path (hlayout : Layout families options content drawing) {text : List Char}
    (hne : text ≠ []) (c : Char) :
    drawing.next? (.path text) c = drawing.follow? (.path text) c := by
  rw [Drawing.next?, Drawing.follow?, find?_accepts_eq_of_single]
  intro arrow harrow
  obtain ⟨hmem, hsource⟩ := List.mem_filter.1 harrow
  exact hlayout.branches.single arrow hmem text (of_decide_eq_true hsource) hne

/-- A word that begins with no delimiter is read as it was followed. -/
theorem read?_path (hlayout : Layout families options content drawing) {before : List Char}
    (hne : before ≠ []) (hclean : ¬StartsIn families.delimiters before) (text : List Char) :
    drawing.read? (.path before) text = drawing.trace? (.path before) text := by
  induction text generalizing before with
  | nil => rfl
  | cons c text ih =>
    rw [Drawing.read?, Drawing.trace?, hlayout.next?_path hne]
    cases hfollow : drawing.follow? (.path before) c with
    | none => rfl
    | some target =>
      have hlonger : ¬StartsIn families.delimiters (before ++ [c]) := by
        rwa [startsIn_append_of_ne_nil hne]
      obtain rfl : target = .path (before ++ [c]) :=
        hlayout.branches.straight _ (Drawing.mem_of_follow? hfollow) before c rfl rfl hlonger
      exact ih (by simp) hlonger

/-- No followed word goes on from a node by a character that none of the words has there. -/
theorem next?_path_eq_none (hlayout : Layout families options content drawing) {builder : Builder K}
    (hshows : Shows builder drawing) {text : List Char} {c : Char} (hne : text ≠ [])
    (hclean : ¬StartsIn families.delimiters text)
    (hnone : ∀ word ∈ content.words, ¬text ++ [c] <+: word) :
    drawing.next? (.path text) c = none := by
  rw [hlayout.next?_path hne]
  cases hfollow : drawing.follow? (.path text) c with
  | none => rfl
  | some target =>
    have harrow := Drawing.mem_of_follow? hfollow
    obtain rfl : target = .path (text ++ [c]) :=
      hlayout.branches.straight _ harrow text c rfl rfl (by rwa [startsIn_append_of_ne_nil hne])
    obtain ⟨word, hword, hpre⟩ := hlayout.paths _ (hshows.target_mem harrow) (by simp)
    exact absurd hpre (hnone word hword)

/-- A text is read from where its first character leads. -/
theorem read?_start (hlayout : Layout families options content drawing) {c : Char}
    {text : List Char} (hclean : c ∉ families.delimiters)
    (hnext : drawing.next? .start c = drawing.follow? .start c) :
    drawing.read? .start (c :: text) = drawing.trace? .start (c :: text) := by
  rw [Drawing.read?, Drawing.trace?, hnext]
  cases hfollow : drawing.follow? .start c with
  | none => rfl
  | some target =>
    have hstarts : ¬StartsIn families.delimiters ([] ++ [c]) := by simpa using hclean
    obtain rfl : target = .path ([] ++ [c]) :=
      hlayout.branches.straight _ (Drawing.mem_of_follow? hfollow) [] c rfl rfl hstarts
    exact hlayout.read?_path (by simp) hstarts text

end Layout

namespace LiteralForm

/-- The phase of a literal after one character more. -/
def step (form : LiteralForm K) : Phase → Char → Option Phase
  | .opened, c =>
    if form.isString then
      if c = form.delimiter then some .closed
      else if c = form.escape then some .escaped
      else some .opened
    else if c = form.escape then some .escaped
    else if c = form.delimiter then none
    else some .body
  | .escaped, _ =>
    if form.isString then if form.escape = form.delimiter then none else some .opened
    else some .body
  | .body, c => if !form.isString && c = form.delimiter then some .closed else none
  | .closed, c =>
    if form.isString && form.escape = form.delimiter && c = form.delimiter then some .opened
    else none

/-- The phase of a literal after a text. -/
def run (form : LiteralForm K) (phase : Phase) : List Char → Option Phase
  | [] => some phase
  | c :: text => (form.step phase c).bind fun next => form.run next text

/-- The arrows of a literal take its steps. -/
theorem find?_addition (form : LiteralForm K) (phase : Phase) (c : Char) :
    (((form.addition.arrows.filter fun arrow => arrow.source = .literal form.delimiter phase).find?
      fun arrow => arrow.check.accepts c).map Arrow.target) = (form.step phase c).map
        (.literal form.delimiter) := by
  obtain ⟨isString, kind, delimiter, escape⟩ := form
  rw [addition]
  cases isString <;> cases phase <;> by_cases hescape : escape = delimiter <;> by_cases hdelimiter :
    c = delimiter <;>
    by_cases hc : c = escape <;> simp_all [step, Spot.start]

end LiteralForm

namespace Layout

/-- A node of a literal has the arrows of the literal alone, if no word begins
    with its delimiter. -/
theorem arrowsFrom_literal (hlayout : Layout families options content drawing)
    {form : LiteralForm K} (hform : form ∈ content.literals)
    (hwords : ∀ word ∈ content.words, word.head? ≠ some form.delimiter) (phase : Phase) :
    drawing.arrowsFrom (.literal form.delimiter phase) =
      form.addition.arrows.filter fun arrow => arrow.source = .literal form.delimiter phase := by
  obtain ⟨twigs, htwigs, hall⟩ := hlayout.inside form hform phase
  cases twigs with
  | nil => rw [htwigs, List.append_nil]
  | cons twig twigs =>
    obtain ⟨word, hword, hsingle, hopen, hhead, -⟩ := hall twig List.mem_cons_self
    obtain ⟨c, -, hc⟩ := hsingle
    have hmem : twig ∈ drawing.arrowsFrom (.literal form.delimiter phase) := by
      rw [htwigs]
      exact List.mem_append_right _ List.mem_cons_self
    obtain ⟨harrow, hsource⟩ := List.mem_filter.1 hmem
    have hleads := (hlayout.branches.leads twig harrow c hc hopen).2
    rw [of_decide_eq_true hsource, hhead] at hleads
    exact absurd hleads (hwords word hword)

/-- A literal is read in its own nodes, unless a word runs into them. -/
theorem read?_literal (hlayout : Layout families options content drawing) {form : LiteralForm K}
    (hform : form ∈ content.literals)
    (hwords : ∀ word ∈ content.words, word.head? ≠ some form.delimiter) (phase : Phase)
    (text : List Char) :
    drawing.read? (.literal form.delimiter phase) text = (form.run phase text).map
      (.literal form.delimiter) := by
  induction text generalizing phase with
  | nil => rfl
  | cons c text ih =>
    rw [Drawing.read?, Drawing.next?, hlayout.arrowsFrom_literal hform hwords, form.find?_addition,
      LiteralForm.run]
    cases form.step phase c with
    | none => rfl
    | some next => exact ih next

end Layout

end GrammarKit.Lexer
