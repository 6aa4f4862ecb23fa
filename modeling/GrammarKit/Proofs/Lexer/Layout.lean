import GrammarKit.Proofs.Lexer.Declared
import GrammarKit.Proofs.Lexer.Edges
import Mathlib.Tactic.MkIffOfInductiveProp

namespace GrammarKit.Lexer

open Automaton

variable {K : Type}

/-- A comment marker and the node that it leads to. -/
structure Marker (K : Type) where
  kind : K
  text : List Char
  spot : Spot
  ending : CommentEnd

/-- What was added to words and numbers. -/
structure Content (K : Type) where
  sugars : List (K × String) := []
  literals : List (LiteralForm K) := []
  markers : List (Marker K) := []

/-- The words that were followed from the start node. -/
def Content.words (content : Content K) : List (List Char) :=
  content.sugars.map (fun entry => entry.2.toList) ++ content.markers.map Marker.text

namespace Families

/-- What words and numbers add, which come first at the start node. -/
def base (families : Families K) (options : LexerOptions) : Addition K :=
  (families.wordAddition options).append (families.wholeAddition.append
    (families.fractionAddition options))

/-- The declared literals, strings before characters. -/
def literals (families : Families K) : List (LiteralForm K) :=
  families.strings.map (fun (kind, delimiter, escape) => ⟨true, kind, delimiter, escape⟩) ++
    families.chars.map fun (kind, delimiter, escape) => ⟨false, kind, delimiter, escape⟩

/-- The delimiters of all literals. -/
def delimiters (families : Families K) : List Char :=
  families.literals.map LiteralForm.delimiter

/-- The delimiters are those of the literals. -/
theorem delimiters_eq (families : Families K) :
    families.delimiters = (families.strings ++ families.chars).map fun entry => entry.2.1 := by
  simp [delimiters, literals, Function.comp_def]

/-- No sugar begins with the delimiter of a literal. -/
theorem IsSound.not_startsIn {families : Families K} {options : LexerOptions}
    (hsound : families.IsSound options) :
    ∀ entry ∈ families.sugars, ¬StartsIn families.delimiters entry.2.toList := by
  intro entry hentry
  obtain ⟨c, rest, htext, -, hc⟩ := hsound.sugars entry hentry
  rwa [htext, startsIn_cons, families.delimiters_eq]

/-- The edges of the families are those of words, of numbers, of sugars and of literals. -/
theorem edges_eq (families : Families K) (options : LexerOptions) :
    families.edges options = (families.identifierEdges options ++ families.numberEdges options) ++
      families.sugars.flatMap (fun (kind, text) => sugarEdges kind text) ++
        families.literals.flatMap LiteralForm.instructions := by
  simp [edges, literals, List.flatMap_append, List.flatMap_map, LiteralForm.instructions]

end Families

/-- The nodes in which scans end, and the kinds of the tokens found there. -/
@[mk_iff]
inductive Ends (families : Families K) (content : Content K) : Spot → K → Prop
  | word {kind : K} (hword : families.wordPlaceholder? = some kind) :
      Ends families content .word kind
  | whole {kind : K} (hwhole : families.int.or families.double = some kind) :
      Ends families content .whole kind
  | fraction {kind : K} (hdouble : families.double = some kind) :
      Ends families content .fraction kind
  | sugar {kind : K} {text : String} (hsugar : (kind, text) ∈ content.sugars) :
      Ends families content (.path text.toList) kind
  | literal {form : LiteralForm K} (hliteral : form ∈ content.literals) :
      Ends families content (.literal form.delimiter .closed) form.kind
  | marker {marker : Marker K} (hmarker : marker ∈ content.markers) :
      Ends families content marker.spot marker.kind

/-- The changes made to tokens that are found in a node. -/
@[mk_iff]
inductive Changes (families : Families K) (options : LexerOptions) (content : Content K) :
    Spot → Callback K → Prop
  | word (hword : families.wordPlaceholder?.isSome) : Changes families options content .word
      (families.wordKind options)
  | literal {form : LiteralForm K} (hliteral : form ∈ content.literals) :
      Changes families options content (.literal form.delimiter .closed)
      (Families.unescaping form.delimiter form.escape)

section Concat

variable {families : Families K} {options : LexerOptions} {content : Content K} {spot : Spot}
    {kind found : K}

/-- One sugar more has an end of its own. -/
theorem Ends.concat_sugar {text : String} :
    Ends families { content with sugars := content.sugars ++ [(kind, text)] } spot found ↔
      Ends families content spot found ∨ .path text.toList = spot ∧ kind = found := by
  simp only [ends_iff, List.mem_append, List.mem_singleton]
  grind

/-- One literal more has an end of its own. -/
theorem Ends.concat_literal {form : LiteralForm K} :
    Ends families { content with literals := content.literals ++ [form] } spot found ↔
      Ends families content spot found ∨ .literal form.delimiter .closed = spot ∧
      form.kind = found := by
  simp only [ends_iff, List.mem_append, List.mem_singleton]
  grind

/-- One marker more has an end of its own. -/
theorem Ends.concat_marker {marker : Marker K} :
    Ends families { content with markers := content.markers ++ [marker] } spot found ↔
      Ends families content spot found ∨ marker.spot = spot ∧ marker.kind = found := by
  simp only [ends_iff, List.mem_append, List.mem_singleton]
  grind

theorem Ends.of_markers_nil (hends : Ends families { content with markers := [] } spot kind) :
    Ends families content spot kind := by
  simp only [ends_iff] at hends ⊢
  grind

/-- One literal more has a change of its own. -/
theorem Changes.concat_literal {form : LiteralForm K} {change : Callback K} :
    Changes families options { content with literals := content.literals ++ [form] } spot change ↔
      Changes families options content spot change ∨
        .literal form.delimiter .closed = spot ∧
        Families.unescaping form.delimiter form.escape = change := by
  simp only [changes_iff, List.mem_append, List.mem_singleton]
  grind

end Concat

/-- What a drawing of the whole automaton looks like in which all of `content`
    was drawn. Words and numbers come first at the start node, each literal
    keeps to nodes of its own, and sugars and comment markers branch from the
    start node. -/
structure Layout (families : Families K) (options : LexerOptions) (content : Content K)
    (drawing : Drawing Spot K) :
    Prop where
  first : drawing.names[startNode]? = some .start
  blanks : drawing.blanks = options.blanks
  branches : Branches families.delimiters drawing
  arrows : ∃ others, drawing.arrows = (families.base options).arrows ++ others ∧
    ∀ arrow ∈ others, arrow.source.IsOpen ∧ (arrow.source = .start → ∃ c, arrow.check = .single c)
  paths : ∀ text, .path text ∈ drawing.names → text ≠ [] → ∃ word ∈ content.words, text <+: word
  literals : ∀ delimiter phase, .literal delimiter phase ∈ drawing.names →
    delimiter ∈ content.literals.map LiteralForm.delimiter
  heads : ∀ c target, ⟨.start, .single c, target⟩ ∈ drawing.arrows →
    c ∈ content.literals.map LiteralForm.delimiter ∨ ∃ word ∈ content.words, word.head? = some c
  opened : ∀ form ∈ content.literals,
    drawing.follow? .start form.delimiter = some (.literal form.delimiter .opened)
  inside : ∀ form ∈ content.literals, ∀ phase, ∃ twigs,
    drawing.arrowsFrom (.literal form.delimiter phase) =
      (form.addition.arrows.filter fun arrow => arrow.source = .literal form.delimiter phase) ++
        twigs ∧
    ∀ twig ∈ twigs, ∃ word ∈ content.words, IsTwig word twig
  kind : ∀ spot kind, drawing.kind? spot = some kind ↔ Ends families content spot kind
  callback : ∀ spot change, drawing.callback? spot = some change ↔
    Changes families options content spot change
  sugars : ∀ entry ∈ content.sugars,
    drawing.trace? .start entry.2.toList = some (.path entry.2.toList)
  markers : ∀ marker ∈ content.markers, drawing.trace? .start marker.text = some marker.spot

namespace Families

/-- The nodes of words and numbers. -/
inductive IsBase : Spot → Prop
  | word : IsBase .word
  | whole : IsBase .whole
  | point : IsBase .point
  | fraction : IsBase .fraction

/-- The nodes of words and numbers are named as such. -/
theorem isBase_of_mem_names {families : Families K} {options : LexerOptions} :
    ∀ spot ∈ (families.base options).names, IsBase spot := by
  rw [base, Addition.append, Addition.append, wordAddition, wholeAddition, fractionAddition]
  cases families.wordPlaceholder? <;> cases families.int.or families.double <;>
    cases families.double <;>
    simp [IsBase.word, IsBase.whole, IsBase.point, IsBase.fraction]

/-- Arrows of words and numbers start at nodes of their own, or at the start
    node and then for the characters of a range. -/
theorem isBase_of_mem_arrows {families : Families K} {options : LexerOptions} :
    ∀ arrow ∈ (families.base options).arrows,
      arrow.source = .start ∧ (∀ c, arrow.check ≠ .single c) ∨ IsBase arrow.source := by
  rw [base, Addition.append, Addition.append, wordAddition, wholeAddition, fractionAddition]
  cases families.wordPlaceholder? <;> cases families.int.or families.double <;>
    cases families.double <;>
    simp [IsBase.word, IsBase.whole, IsBase.point, IsBase.fraction, digit]

end Families

namespace Layout

variable {families : Families K} {options : LexerOptions} {content : Content K}
    {drawing : Drawing Spot K}

theorem eq_start_or_isBase
    (hadds : Adds (families.base options) (.new .start options.blanks) drawing) {spot : Spot}
    (hspot : spot ∈ drawing.names) : spot = .start ∨ Families.IsBase spot := by
  rw [hadds.names] at hspot
  rcases List.mem_append.1 hspot with hspot | hspot
  · exact Or.inl (List.mem_singleton.1 hspot)
  · exact Or.inr (Families.isBase_of_mem_names spot hspot)

theorem eq_nil_of_path_mem
    (hadds : Adds (families.base options) (.new .start options.blanks) drawing) {text : List Char}
    (htext : .path text ∈ drawing.names) : text = [] := by
  rcases eq_start_or_isBase hadds htext with heq | hbase
  · exact Spot.path.inj heq
  · cases hbase

/-- Words and numbers begin with characters of some range. -/
theorem isBase_of_single (hadds : Adds (families.base options) (.new .start options.blanks) drawing)
    {arrow : Arrow Spot} (harrow : arrow ∈ drawing.arrows) {c : Char}
    (hc : arrow.check = .single c) : Families.IsBase arrow.source := by
  rw [hadds.arrows] at harrow
  rcases Families.isBase_of_mem_arrows arrow harrow with ⟨-, hsingle⟩ | hbase
  · exact absurd hc (hsingle c)
  · exact hbase

theorem source_ne_path (hadds : Adds (families.base options) (.new .start options.blanks) drawing)
    {arrow : Arrow Spot} (harrow : arrow ∈ drawing.arrows) {text : List Char} (hne : text ≠ []) :
    arrow.source ≠ .path text := by
  intro hsource
  rw [hadds.arrows] at harrow
  rcases Families.isBase_of_mem_arrows arrow harrow with ⟨hstart, -⟩ | hbase
  · exact hne (Spot.path.inj (hsource.symm.trans hstart))
  · rw [hsource] at hbase
    cases hbase

/-- Words and numbers leave room for words that are followed. -/
theorem branches_base (hadds : Adds (families.base options) (.new .start options.blanks) drawing)
    (delimiters : List Char) :
    Branches delimiters drawing where
  traced text htext := by
    rw [eq_nil_of_path_mem hadds htext]
    rfl
  leads arrow harrow c hc hopen := by
    have hbase := isBase_of_single hadds harrow hc
    generalize arrow.source = source at hopen hbase
    cases hopen <;> cases hbase
  single arrow harrow _ hsource hne := absurd hsource (source_ne_path hadds harrow hne)
  onward arrow harrow _ hsource hne := absurd hsource (source_ne_path hadds harrow hne)
  straight arrow harrow text c hsource hc := by
    have hbase := isBase_of_single hadds harrow hc
    rw [hsource] at hbase
    cases hbase

/-- The drawing of words and numbers looks as it should. -/
theorem of_base (hadds : Adds (families.base options) (.new .start options.blanks) drawing) :
    Layout families options {} drawing where
  first := by
    rw [hadds.names]
    rfl
  blanks := hadds.blanks
  branches := branches_base hadds families.delimiters
  arrows := ⟨[], hadds.arrows.trans (List.append_nil _).symm, fun _ harrow => nomatch harrow⟩
  paths text htext hne := absurd (eq_nil_of_path_mem hadds htext) hne
  literals delimiter phase hmem := by
    rcases eq_start_or_isBase hadds hmem with heq | hbase
    · cases heq
    · cases hbase
  heads c target harrow := by cases isBase_of_single hadds harrow rfl
  opened _ hform := nomatch hform
  inside _ hform := nomatch hform
  kind spot kind := by
    rw [ends_iff, Drawing.kind?, hadds.kinds, Families.base, Addition.append, Addition.append,
      Families.wordAddition, Families.wholeAddition, Families.fractionAddition]
    cases families.wordPlaceholder? <;> cases families.int.or families.double <;>
      cases families.double <;>
      cases spot <;> simp [Drawing.new]
  callback spot change := by
    rw [changes_iff, Drawing.callback?, hadds.callbacks, Families.base, Addition.append,
      Addition.append, Families.wordAddition, Families.wholeAddition, Families.fractionAddition]
    cases families.wordPlaceholder? <;> cases families.int.or families.double <;>
      cases families.double <;>
      cases spot <;> simp [Drawing.new, eq_comm]
  sugars _ hsugar := nomatch hsugar
  markers _ hmarker := nomatch hmarker

/-- Words and numbers alone. -/
theorem exists_base (families : Families K) (options : LexerOptions) :
    ∃ drawing, Draws (families.identifierEdges options ++ families.numberEdges options)
      (.new .start options.blanks)
      drawing ∧ Layout families options {} drawing := by
  obtain ⟨middle, hmiddle, hword⟩ := draws_identifierEdges families options
    (show (Drawing.new Spot.start options.blanks : Drawing Spot K).names[startNode]? =
      some .start from rfl) (by simp [Drawing.new, Spot.start])
  have hfresh : ∀ spot ∈ middle.names, spot = .start ∨ spot = .word := by
    rw [hword.names, Families.wordAddition]
    cases families.wordPlaceholder? <;> simp [Drawing.new]
  obtain ⟨after, hafter, hnumber⟩ := draws_numberEdges families options
    (show middle.names[startNode]? = some .start by rw [hword.names]; rfl)
    (fun hmem => by simpa [Spot.start] using hfresh _ hmem)
    (fun hmem => by simpa [Spot.start] using hfresh _ hmem)
    (fun hmem => by simpa [Spot.start] using hfresh _ hmem)
  exact ⟨after, hmiddle.append hafter, .of_base (hword.trans hnumber)⟩

/-- What follows a word from the start node, and the node that it leads to. -/
theorem followed (hlayout : Layout families options content drawing) (word : List Char) :
    let grown := followPath (drawing.stand .start) [] word
    Branches families.delimiters grown ∧ grown.trace? .start word = some grown.current ∧
      Sprouts word drawing grown := by
  have hbranches : Branches families.delimiters (drawing.stand .start) :=
    hlayout.branches.congr rfl rfl
  have hcurrent : (drawing.stand .start).trace? .start [] = some (drawing.stand .start).current :=
    rfl
  obtain ⟨hgrown, htrace, hsprouts⟩ := hbranches.followPath hcurrent word
  exact ⟨hgrown, htrace, { hsprouts with }⟩

/-- A word is followed and accepted where nothing was accepted before. -/
theorem accept_word (hlayout : Layout families options content drawing) {word : List Char}
    {kind : K} {other : Content K} (hliterals : other.literals = content.literals)
    (hwords : ∀ old ∈ content.words, old ∈ other.words) (hword : word ∈ other.words)
    (hfree : ∀ kind, ¬Ends families content (followPath (drawing.stand .start) [] word).current
      kind)
    (hends : ∀ spot found, Ends families other spot found ↔ Ends families content spot found ∨
      (followPath (drawing.stand .start) [] word).current = spot ∧ kind = found)
    (hsugars : ∀ entry ∈ other.sugars, entry ∈ content.sugars ∨ entry.2.toList = word ∧
      (followPath (drawing.stand .start) [] word).current = .path word)
    (hmarkers : ∀ marker ∈ other.markers, marker ∈ content.markers ∨ marker.text = word ∧
      (followPath (drawing.stand .start) [] word).current = marker.spot) :
    Layout families options other ((followPath (drawing.stand .start) [] word).accept kind) := by
  obtain ⟨hbranches, htrace, hsprouts⟩ := hlayout.followed word
  generalize followPath (drawing.stand .start) [] word = grown at *
  obtain ⟨twigs, htwigs, hall⟩ := hsprouts.arrows
  obtain ⟨paths, hpaths, hpre⟩ := hsprouts.names
  exact {
    first := by
      rw [Drawing.names_accept, hpaths]
      exact getElem?_append_of_eq_some hlayout.first _
    blanks := hsprouts.blanks.trans hlayout.blanks
    branches := hbranches.congr rfl rfl
    arrows := by
      obtain ⟨others, hothers, hopen⟩ := hlayout.arrows
      refine ⟨others ++ twigs, ?_, fun arrow harrow => ?_⟩
      · rw [Drawing.arrows_accept, htwigs, hothers, List.append_assoc]
      · rcases List.mem_append.1 harrow with harrow | harrow
        · exact hopen arrow harrow
        · obtain ⟨c, -, hc⟩ := (hall arrow harrow).single
          exact ⟨(hall arrow harrow).isOpen, fun _ => ⟨c, hc⟩⟩
    paths := fun text htext hne => by
      rw [Drawing.names_accept, hpaths] at htext
      rcases List.mem_append.1 htext with htext | htext
      · obtain ⟨old, hold, hpre⟩ := hlayout.paths text htext hne
        exact ⟨old, hwords old hold, hpre⟩
      · obtain ⟨path, hpath, heq⟩ := List.mem_map.1 htext
        obtain rfl := Spot.path.inj heq
        exact ⟨word, hword, hpre path hpath⟩
    literals := fun delimiter phase hmem => by
      rw [Drawing.names_accept, hpaths] at hmem
      rw [hliterals]
      rcases List.mem_append.1 hmem with hmem | hmem
      · exact hlayout.literals delimiter phase hmem
      · simp at hmem
    heads := fun c target harrow => by
      have hmem : ⟨.start, .single c, target⟩ ∈ drawing.arrows ++ twigs := htwigs ▸ harrow
      rw [hliterals]
      rcases List.mem_append.1 hmem with hmem | hmem
      · rcases hlayout.heads c target hmem with hdelimiter | ⟨old, hold, hhead⟩
        · exact Or.inl hdelimiter
        · exact Or.inr ⟨old, hwords old hold, hhead⟩
      · refine Or.inr ⟨word, hword, ?_⟩
        rw [← (hall _ hmem).head]
        exact (hbranches.leads _ harrow c rfl (hall _ hmem).isOpen).2
    opened := fun form hform => Drawing.follow?_of_append htwigs
      (hlayout.opened form (hliterals ▸ hform))
    inside := fun form hform phase => by
      obtain ⟨old, hold, hevery⟩ := hlayout.inside form (hliterals ▸ hform) phase
      refine ⟨old ++ twigs.filter fun arrow => arrow.source = .literal form.delimiter phase, ?_,
        fun twig htwig => ?_⟩
      · rw [← List.append_assoc, ← hold]
        exact (congrArg _ htwigs).trans (List.filter_append ..)
      · rcases List.mem_append.1 htwig with htwig | htwig
        · obtain ⟨word, hword, htwig⟩ := hevery twig htwig
          exact ⟨word, hwords word hword, htwig⟩
        · exact ⟨word, hword, hall twig (List.mem_of_mem_filter htwig)⟩
    kind := fun spot found => by
      rw [hends, Drawing.kind?_accept, ← hlayout.kind, hsprouts.kind?_eq]
      split
      · next heq =>
        have hnone : drawing.kind? spot = none :=
          Option.eq_none_iff_forall_ne_some.2 fun kind hkind =>
            hfree kind (heq ▸ (hlayout.kind spot kind).1 hkind)
        simp [hnone, heq]
      · next hne => simp [hne]
    callback := fun spot change => by
      rw [changes_iff, hliterals, ← changes_iff, ← hlayout.callback, Drawing.callback?_accept,
        hsprouts.callback?_eq]
    sugars := fun entry hentry => by
      rw [Drawing.trace?_congr (grown.arrows_accept kind)]
      rcases hsugars entry hentry with hold | ⟨rfl, hcurrent⟩
      · exact Drawing.trace?_of_append htwigs (hlayout.sugars entry hold)
      · rw [htrace, hcurrent]
    markers := fun marker hmarker => by
      rw [Drawing.trace?_congr (grown.arrows_accept kind)]
      rcases hmarkers marker hmarker with hold | ⟨rfl, hcurrent⟩
      · exact Drawing.trace?_of_append htwigs (hlayout.markers marker hold)
      · rw [htrace, hcurrent] }

/-- One sugar more. -/
theorem sugar (hlayout : Layout families options content drawing) (kind : K) {text : String}
    (hclean : ¬StartsIn families.delimiters text.toList)
    (hfresh : text ∉ content.sugars.map Prod.snd) (hmarkers : content.markers = []) :
    ∃ after, Draws (Families.sugarEdges kind text) drawing after ∧
      Layout families options { content with sugars := content.sugars ++ [(kind, text)] }
        after := by
  obtain ⟨hbranches, htrace, -⟩ := hlayout.followed text.toList
  have hcurrent : (followPath (drawing.stand .start) [] text.toList).current = .path text.toList :=
    hbranches.eq_path_of_trace? hclean htrace
  refine ⟨(followPath (drawing.stand .start) [] text.toList).accept kind,
    .gotoNode hlayout.first (.append ?_ (.accept (.nil _))),
    hlayout.accept_word rfl ?_ ?_ ?_ ?_ ?_ ?_⟩
  · intro builder hshows
    have hstand : Branches families.delimiters (drawing.stand .start) :=
      hlayout.branches.congr rfl rfl
    have hhere : (drawing.stand .start).trace? .start [] = some (drawing.stand .start).current :=
      rfl
    exact ⟨_, applyAll_follow builder text.toList, hstand.shows_followAll hhere hshows text.toList⟩
  · intro old hold
    simp only [Content.words, List.mem_append, List.map_append] at hold ⊢
    exact hold.imp_left Or.inl
  · simp [Content.words]
  · intro found hfound
    rw [hcurrent] at hfound
    simp only [ends_iff, hmarkers, reduceCtorEq, and_false, exists_false, List.not_mem_nil,
      false_and, or_false, false_or, Spot.path.injEq, String.toList_inj] at hfound
    obtain ⟨other, hother, rfl⟩ := hfound
    exact hfresh (List.mem_map_of_mem hother)
  · intro spot found
    rw [hcurrent, Ends.concat_sugar]
  · intro entry hentry
    rcases List.mem_append.1 hentry with hold | hnew
    · exact Or.inl hold
    · rw [List.mem_singleton.1 hnew]
      exact Or.inr ⟨rfl, hcurrent⟩
  · exact fun marker hmarker => Or.inl hmarker

end Layout

/-- Looking up a key in a list in which one key was put that had no value. -/
theorem find?_cons_eq_some_iff {V : Type} {entries : List (Spot × V)} {key spot : Spot}
    {value found : V} (hfree : (entries.find? fun entry => entry.1 = key).map Prod.snd = none) :
    (((key, value) :: entries).find? fun entry => entry.1 = spot).map Prod.snd = some found ↔
      (entries.find? fun entry => entry.1 = spot).map Prod.snd = some found ∨ key = spot ∧
      value = found := by
  rw [List.find?_cons]
  by_cases hkey : key = spot
  · subst hkey
    simp [Option.map_eq_none_iff.1 hfree]
  · simp [hkey]

/-- A literal adds nothing but nodes of its own, and one arrow that leads to
    them from the start node. -/
theorem LiteralForm.mem_names {form : LiteralForm K} :
    ∀ spot ∈ form.addition.names, ∃ phase, spot = .literal form.delimiter phase := by
  rw [addition]
  split
  · split <;> simp
  · simp

/-- The arrows of a literal lead to its own nodes. -/
theorem LiteralForm.mem_arrows {form : LiteralForm K} :
    ∀ arrow ∈ form.addition.arrows, (∃ phase, arrow.target = .literal form.delimiter phase) ∧
      (arrow.source = .start ∧ arrow.check = .single form.delimiter ∨ ∃ phase,
        arrow.source = .literal form.delimiter phase) := by
  rw [addition]
  split
  · split <;> simp
  · simp

theorem LiteralForm.source_ne_path {form : LiteralForm K} {arrow : Arrow Spot}
    (harrow : arrow ∈ form.addition.arrows) {text : List Char} (hne : text ≠ []) :
    arrow.source ≠ .path text := by
  intro hsource
  obtain ⟨-, ⟨hstart, -⟩ | ⟨phase, hphase⟩⟩ := mem_arrows arrow harrow
  · exact hne (Spot.path.inj (hsource.symm.trans hstart))
  · cases hsource.symm.trans hphase

/-- A literal is entered from the start node by its delimiter. -/
theorem LiteralForm.exists_arrows (form : LiteralForm K) :
    ∃ inside, form.addition.arrows = ⟨.start, .single form.delimiter,
      .literal form.delimiter .opened⟩ :: inside := by
  rw [addition]
  split
  · split <;> exact ⟨_, rfl⟩
  · exact ⟨_, rfl⟩

/-- Nodes of other literals get no arrows. -/
theorem LiteralForm.filter_addition_of_ne (form : LiteralForm K) {delimiter : Char}
    (hne : delimiter ≠ form.delimiter) (phase : Phase) :
    (form.addition.arrows.filter fun arrow => arrow.source = .literal delimiter phase) = [] := by
  refine List.filter_eq_nil_iff.2 fun arrow harrow hsource => hne ?_
  obtain ⟨-, ⟨hstart, -⟩ | ⟨inner, hinner⟩⟩ := LiteralForm.mem_arrows arrow harrow
  · cases hstart.symm.trans (of_decide_eq_true hsource)
  · exact (Spot.literal.inj (hinner.symm.trans (of_decide_eq_true hsource))).1.symm

/-- A scan of a literal ends where it is closed. -/
theorem LiteralForm.kinds_addition (form : LiteralForm K) :
    form.addition.kinds = [(.literal form.delimiter .closed, form.kind)] ∧
      form.addition.callbacks =
        [(.literal form.delimiter .closed, Families.unescaping form.delimiter form.escape)] := by
  rw [addition]
  split
  · split <;> exact ⟨rfl, rfl⟩
  · exact ⟨rfl, rfl⟩

namespace Layout

variable {families : Families K} {options : LexerOptions} {content : Content K}
    {drawing after : Drawing Spot K}

/-- No word has come by where a literal begins. -/
theorem follow?_start_eq_none (hlayout : Layout families options content drawing) {delimiter : Char}
    (hfresh : delimiter ∉ content.literals.map LiteralForm.delimiter)
    (hwords : ∀ word ∈ content.words, word.head? ≠ some delimiter) :
    drawing.follow? .start delimiter = none := by
  cases hfollow : drawing.follow? .start delimiter with
  | none => rfl
  | some target =>
    rcases hlayout.heads delimiter target (Drawing.mem_of_follow? hfollow) with hliteral |
      ⟨word, hword, hhead⟩
    · exact absurd hliteral hfresh
    · exact absurd hhead (hwords word hword)

/-- A literal leaves room for words that are followed. -/
theorem branches_literal (hlayout : Layout families options content drawing) {form : LiteralForm K}
    (hdelimiter : form.delimiter ∈ families.delimiters) (hadds : Adds form.addition drawing after) :
    Branches families.delimiters after := by
  have harrows : ∀ arrow ∈ after.arrows, arrow ∈ drawing.arrows ∨ arrow ∈ form.addition.arrows := by
    intro arrow harrow
    rw [hadds.arrows] at harrow
    exact List.mem_append.1 harrow
  refine ⟨fun text htext => ?_, fun arrow harrow c hc hopen => ?_,
    fun arrow harrow text hsource hne => ?_, fun arrow harrow text hsource hne => ?_,
      fun arrow harrow text c hsource hc hclean => ?_⟩
  · rw [hadds.names] at htext
    rcases List.mem_append.1 htext with htext | htext
    · exact Drawing.trace?_of_append hadds.arrows (hlayout.branches.traced text htext)
    · obtain ⟨phase, hphase⟩ := LiteralForm.mem_names _ htext
      cases hphase
  · rcases harrows arrow harrow with hold | hnew
    · exact hlayout.branches.leads arrow hold c hc hopen
    · obtain ⟨⟨phase, htarget⟩, ⟨hsource, hcheck⟩ | ⟨old, hsource⟩⟩ :=
        LiteralForm.mem_arrows arrow hnew
      · rw [htarget, hsource]
        obtain rfl : form.delimiter = c := CharClass.single.inj (hcheck.symm.trans hc)
        exact ⟨.literal _ phase, rfl⟩
      · rw [htarget, hsource]
        exact ⟨.literal _ phase, rfl⟩
  · rcases harrows arrow harrow with hold | hnew
    · exact hlayout.branches.single arrow hold text hsource hne
    · exact absurd hsource (LiteralForm.source_ne_path hnew hne)
  · rcases harrows arrow harrow with hold | hnew
    · exact hlayout.branches.onward arrow hold text hsource hne
    · exact absurd hsource (LiteralForm.source_ne_path hnew hne)
  · rcases harrows arrow harrow with hold | hnew
    · exact hlayout.branches.straight arrow hold text c hsource hc hclean
    · obtain ⟨-, ⟨hstart, hcheck⟩ | ⟨phase, hphase⟩⟩ := LiteralForm.mem_arrows arrow hnew
      · obtain rfl : text = [] := Spot.path.inj (hsource.symm.trans hstart)
        obtain rfl : form.delimiter = c := CharClass.single.inj (hcheck.symm.trans hc)
        exact absurd (startsIn_cons.2 hdelimiter) hclean
      · cases hsource.symm.trans hphase

/-- One literal more. -/
theorem literal (hlayout : Layout families options content drawing) {builder : Builder K}
    (hshows : Shows builder drawing) {form : LiteralForm K}
    (hdelimiter : form.delimiter ∈ families.delimiters)
    (hfresh : form.delimiter ∉ content.literals.map LiteralForm.delimiter)
    (hwords : ∀ word ∈ content.words, word.head? ≠ some form.delimiter) :
    ∃ after, Draws form.instructions drawing after ∧
      Layout families options { content with literals := content.literals ++ [form] } after := by
  have hunused : ∀ phase, .literal form.delimiter phase ∉ drawing.names :=
    fun phase hmem => hfresh (hlayout.literals _ phase hmem)
  obtain ⟨after, hdraws, hadds⟩ := draws_literal form hlayout.first hunused
  refine ⟨after, hdraws, ?_⟩
  obtain ⟨hkinds, hcallbacks⟩ := form.kinds_addition
  exact {
    first := by
      rw [hadds.names]
      exact getElem?_append_of_eq_some hlayout.first _
    blanks := hadds.blanks.trans hlayout.blanks
    branches := hlayout.branches_literal hdelimiter hadds
    arrows := by
      obtain ⟨others, hothers, hopen⟩ := hlayout.arrows
      refine ⟨others ++ form.addition.arrows, by rw [hadds.arrows, hothers,
        List.append_assoc], fun arrow harrow => ?_⟩
      rcases List.mem_append.1 harrow with harrow | harrow
      · exact hopen arrow harrow
      · obtain ⟨-, ⟨hsource, hcheck⟩ | ⟨phase, hsource⟩⟩ := LiteralForm.mem_arrows arrow harrow
        · exact ⟨hsource ▸ .path [], fun _ => ⟨_, hcheck⟩⟩
        · exact ⟨hsource ▸ .literal _ phase, fun hstart => by cases hsource.symm.trans hstart⟩
    paths := fun text htext hne => by
      rw [hadds.names] at htext
      rcases List.mem_append.1 htext with htext | htext
      · exact hlayout.paths text htext hne
      · obtain ⟨phase, hphase⟩ := LiteralForm.mem_names _ htext
        cases hphase
    literals := fun delimiter phase hmem => by
      rw [hadds.names] at hmem
      rw [List.map_append]
      rcases List.mem_append.1 hmem with hmem | hmem
      · exact List.mem_append_left _ (hlayout.literals delimiter phase hmem)
      · obtain ⟨other, hother⟩ := LiteralForm.mem_names _ hmem
        obtain ⟨rfl, -⟩ := Spot.literal.inj hother
        exact List.mem_append_right _ (List.mem_singleton_self _)
    heads := fun c target harrow => by
      rw [hadds.arrows] at harrow
      rw [List.map_append]
      rcases List.mem_append.1 harrow with harrow | harrow
      · exact (hlayout.heads c target harrow).imp_left (List.mem_append_left _)
      · obtain ⟨-, ⟨-, hcheck⟩ | ⟨phase, hsource⟩⟩ := LiteralForm.mem_arrows _ harrow
        · rw [CharClass.single.inj hcheck]
          exact Or.inl (List.mem_append_right _ (List.mem_singleton_self _))
        · cases hsource
    opened := fun other hother => by
      rcases List.mem_append.1 hother with hold | hnew
      · exact Drawing.follow?_of_append hadds.arrows (hlayout.opened other hold)
      · obtain rfl := List.mem_singleton.1 hnew
        have hnone := hlayout.follow?_start_eq_none hfresh hwords
        obtain ⟨inside, hinside⟩ := other.exists_arrows
        rw [Drawing.follow?, Option.map_eq_none_iff] at hnone
        rw [Drawing.follow?, Drawing.arrowsFrom, hadds.arrows, List.filter_append,
          List.find?_append]
        rw [Drawing.arrowsFrom] at hnone
        simp [hnone, hinside]
    inside := fun other hother phase => by
      rw [Drawing.arrowsFrom, hadds.arrows, List.filter_append]
      rcases List.mem_append.1 hother with hold | hnew
      · have hother : other.delimiter ≠ form.delimiter :=
          fun heq => hfresh (heq ▸ List.mem_map_of_mem hold)
        rw [form.filter_addition_of_ne hother, List.append_nil]
        exact hlayout.inside other hold phase
      · obtain rfl := List.mem_singleton.1 hnew
        exact ⟨[], by rw [← Drawing.arrowsFrom,
          hshows.arrowsFrom_eq_nil (hunused phase)]; simp, by simp⟩
    kind := fun spot found => by
      rw [Ends.concat_literal, ← hlayout.kind, Drawing.kind?, hadds.kinds, hkinds,
        List.singleton_append]
      exact find?_cons_eq_some_iff (hshows.kind?_eq_none (hunused .closed))
    callback := fun spot change => by
      rw [Changes.concat_literal, ← hlayout.callback, Drawing.callback?,
        hadds.callbacks, hcallbacks, List.singleton_append]
      exact find?_cons_eq_some_iff (hshows.callback?_eq_none (hunused .closed))
    sugars := fun entry hentry => Drawing.trace?_of_append hadds.arrows
      (hlayout.sugars entry hentry)
    markers := fun marker hmarker => Drawing.trace?_of_append hadds.arrows
      (hlayout.markers marker hmarker) }

variable {builder : Builder K}

/-- All sugars, one after the other. -/
theorem exists_sugars (hlayout : Layout families options content drawing)
    (hshows : Shows builder drawing) (hmarkers : content.markers = []) {sugars : List (K × String)}
    (hclean : ∀ entry ∈ sugars, ¬StartsIn families.delimiters entry.2.toList)
    (hnodup : ((content.sugars ++ sugars).map Prod.snd).Nodup) :
    ∃ built after, builder.applyAll (sugars.flatMap fun (kind, text) =>
      Families.sugarEdges kind text) = (built, none) ∧
      Shows built after ∧
        Layout families options { content with sugars := content.sugars ++ sugars } after := by
  induction sugars generalizing content drawing builder with
  | nil => exact ⟨builder, drawing, rfl, hshows, by rwa [List.append_nil]⟩
  | cons entry sugars ih =>
    obtain ⟨kind, text⟩ := entry
    have hfresh : text ∉ content.sugars.map Prod.snd := by
      rw [List.map_append, List.nodup_append] at hnodup
      exact fun hmem => hnodup.2.2 text hmem text List.mem_cons_self rfl
    obtain ⟨middle, hdraws, hmiddle⟩ := hlayout.sugar kind (hclean _ List.mem_cons_self)
      hfresh hmarkers
    obtain ⟨grown, hgrown, hshown⟩ := hdraws builder hshows
    rw [List.append_cons] at hnodup
    obtain ⟨built, after, hbuilt, hlast, hall⟩ := ih hmiddle hshown hmarkers
      (fun entry hentry => hclean entry (List.mem_cons_of_mem _ hentry)) hnodup
    refine ⟨built, after, ?_, hlast, ?_⟩
    · rw [List.flatMap_cons, applyAll_append hgrown]
      exact hbuilt
    · rw [List.append_cons]
      exact hall

/-- All literals, one after the other. -/
theorem exists_literals (hlayout : Layout families options content drawing)
    (hshows : Shows builder drawing) {literals : List (LiteralForm K)}
    (hdelimiters : ∀ form ∈ literals, form.delimiter ∈ families.delimiters)
    (hwords : ∀ word ∈ content.words, ¬StartsIn families.delimiters word)
    (hnodup : ((content.literals ++ literals).map LiteralForm.delimiter).Nodup) :
    ∃ built after, builder.applyAll (literals.flatMap LiteralForm.instructions) = (built, none) ∧
      Shows built after ∧
        Layout families options { content with literals := content.literals ++ literals } after := by
  induction literals generalizing content drawing builder with
  | nil => exact ⟨builder, drawing, rfl, hshows, by rwa [List.append_nil]⟩
  | cons form literals ih =>
    have hfresh : form.delimiter ∉ content.literals.map LiteralForm.delimiter := by
      rw [List.map_append, List.nodup_append] at hnodup
      exact fun hmem => hnodup.2.2 _ hmem _ List.mem_cons_self rfl
    have hdelimiter := hdelimiters form List.mem_cons_self
    obtain ⟨middle, hdraws, hmiddle⟩ := hlayout.literal hshows hdelimiter hfresh
      (fun word hword hhead => hwords word hword ⟨form.delimiter, hhead, hdelimiter⟩)
    obtain ⟨grown, hgrown, hshown⟩ := hdraws builder hshows
    rw [List.append_cons] at hnodup
    obtain ⟨built, after, hbuilt, hlast, hall⟩ := ih hmiddle hshown
      (fun other hother => hdelimiters other (List.mem_cons_of_mem _ hother)) hwords hnodup
    refine ⟨built, after, ?_, hlast, ?_⟩
    · rw [List.flatMap_cons, applyAll_append hgrown]
      exact hbuilt
    · rw [List.append_cons]
      exact hall

end Layout

/-- Whether a table of comments lists the nodes in which these markers end. -/
def Lists (names : List Spot) (table : CommentTable) (markers : List (Marker K)) : Prop :=
  List.Forall₂ (fun entry marker => names[entry.1]? = some marker.spot ∧
    entry.2 = marker.ending) table markers

/-- Whether comment markers lead to nodes of their own, in which no other scan ends. -/
structure AreApart (families : Families K) (content : Content K) : Prop where
  nodup : (content.markers.map Marker.spot).Nodup
  others : ∀ marker ∈ content.markers, ∀ kind,
    ¬Ends families { content with markers := [] } marker.spot kind

/-- One marker more stays apart if nothing ends at its node. -/
theorem AreApart.concat {families : Families K} {content : Content K}
    (hapart : AreApart families content) {marker : Marker K}
    (hfree : ∀ kind, ¬Ends families content marker.spot kind) :
    AreApart families { content with markers := content.markers ++ [marker] } where
  nodup := by
    rw [List.map_append, List.nodup_append]
    refine ⟨hapart.nodup, List.nodup_singleton _, fun spot hspot last hlast => ?_⟩
    obtain ⟨other, hother, rfl⟩ := List.mem_map.1 hspot
    obtain rfl := List.mem_singleton.1 hlast
    exact fun heq => hfree other.kind (heq ▸ .marker hother)
  others other hother kind := by
    rcases List.mem_append.1 hother with hold | hnew
    · exact hapart.others other hold kind
    · obtain rfl := List.mem_singleton.1 hnew
      exact fun hends => hfree kind (Ends.of_markers_nil hends)

namespace Layout

variable {families : Families K} {options : LexerOptions} {content : Content K}
    {drawing : Drawing Spot K} {builder built : Builder K} {table last : CommentTable}

/-- One comment marker more, which leads to a node where nothing was accepted before. -/
theorem marker (hlayout : Layout families options content drawing) (kind : K) (text : List Char)
    (ending : CommentEnd)
    (hfree : drawing.kind? (followPath (drawing.stand .start) [] text).current = none) :
    Layout families options
      { content with
        markers := content.markers ++
          [⟨kind, text, (followPath (drawing.stand .start) [] text).current, ending⟩] }
      ((followPath (drawing.stand .start) [] text).accept kind) := by
  refine hlayout.accept_word rfl (fun old hold => ?_) (by simp [Content.words])
    (fun found hfound => ?_) (fun spot found => Ends.concat_marker)
    (fun entry hentry => Or.inl hentry) fun other hother => ?_
  · simp only [Content.words, List.mem_append, List.map_append] at hold ⊢
    exact hold.imp_right Or.inl
  · rw [← hlayout.kind, hfree] at hfound
    cases hfound
  · rcases List.mem_append.1 hother with hold | hnew
    · exact Or.inl hold
    · rw [List.mem_singleton.1 hnew]
      exact Or.inr ⟨rfl, rfl⟩

/-- All comment markers, one after the other. -/
theorem exists_markers (hlayout : Layout families options content drawing)
    (hshows : Shows builder drawing) (hlists : Lists drawing.names table content.markers)
    (hapart : AreApart families content) {comments : List (K × String × CommentEnd)}
    (hadd : addComments builder table comments = (built, last, [])) :
    ∃ after markers, Shows built after ∧ Lists after.names last (content.markers ++ markers) ∧
      AreApart families { content with markers := content.markers ++ markers } ∧
      comments = markers.map (fun marker => (marker.kind, String.ofList marker.text,
        marker.ending)) ∧
      Layout families options { content with markers := content.markers ++ markers } after := by
  induction comments generalizing content drawing builder table with
  | nil =>
    obtain ⟨rfl, rfl⟩ : builder = built ∧ table = last := by simpa [addComments] using hadd
    refine ⟨drawing, [], hshows, ?_, ?_, rfl, ?_⟩ <;> rwa [List.append_nil]
  | cons comment comments ih =>
    obtain ⟨kind, text, ending⟩ := comment
    have hstand : Branches families.delimiters (drawing.stand .start) :=
      hlayout.branches.congr rfl rfl
    have hhere : (drawing.stand .start).trace? .start [] = some (drawing.stand .start).current :=
      rfl
    have hreached := hstand.shows_followAll hhere (hshows.gotoNode hlayout.first) text.toList
    obtain ⟨-, -, hsprouts⟩ := hlayout.followed text.toList
    obtain ⟨paths, hpaths, -⟩ := hsprouts.names
    have hmarker := hlayout.marker kind text.toList ending
    rw [addComments] at hadd
    split at hadd
    · cases congrArg (fun result => result.2.2) hadd
    · next hfree =>
      have hnone : drawing.kind? (followPath (drawing.stand .start) [] text.toList).current =
          none := by
        obtain ⟨node, hnode, -, hend, -⟩ := hreached.nodes _ _ hreached.current
        rw [Bool.or_eq_true, not_or, Builder.node?, hnode, Option.any_some, hend, hsprouts.kind?_eq]
          at hfree
        exact Option.not_isSome_iff_eq_none.1 hfree.1
      let marker : Marker K :=
        ⟨kind, text.toList, (followPath (drawing.stand .start) [] text.toList).current, ending⟩
      have hlisted : Lists (followPath (drawing.stand .start) [] text.toList).names
          (table ++ [(((builder.gotoNode startNode).followAll text.toList).current, ending)])
          (content.markers ++ [marker]) := by
        refine List.rel_append (hlists.imp fun entry marker hentry => ⟨?_, hentry.2⟩)
          (.cons ⟨hreached.current, rfl⟩ .nil)
        rw [hpaths]
        exact getElem?_append_of_eq_some hentry.1 _
      have hgrown : AreApart families { content with markers := content.markers ++ [marker] } := by
        refine hapart.concat fun found hfound => ?_
        rw [← hlayout.kind, hnone] at hfound
        cases hfound
      obtain ⟨after, markers, hbuilt, hall, hrest, rfl, hlast⟩ :=
        ih (hmarker hnone) (hreached.accept kind) hlisted hgrown hadd
      have happend : content.markers ++ marker :: markers = content.markers ++ [marker] ++
          markers := List.append_cons ..
      refine ⟨after, marker :: markers, hbuilt, happend ▸ hall, happend ▸ hrest, ?_,
        happend ▸ hlast⟩
      rw [List.map_cons, String.ofList_toList]

end Layout

/-- All families but comments and extensions. -/
theorem Layout.exists_assembled {families : Families K} {options : LexerOptions}
    (hsound : families.IsSound options) :
    ∃ assembled drawing, ({ Builder.new with blanks := options.blanks } : Builder K).applyAll
      (families.edges options) =
        (assembled, none) ∧ Shows assembled drawing ∧
      Layout families options { sugars := families.sugars, literals := families.literals }
        drawing := by
  obtain ⟨base, hbase, hlayout⟩ := Layout.exists_base families options
  obtain ⟨first, hfirst, hshows⟩ := hbase _ (.new Spot.start options.blanks)
  have hclean := hsound.not_startsIn
  obtain ⟨second, sugared, hsecond, hshown, hsugars⟩ :=
    hlayout.exists_sugars hshows rfl hclean hsound.nodup_sugars
  have hwords : ∀ word ∈ Content.words ({ sugars := families.sugars } : Content K),
    ¬StartsIn families.delimiters word := by
    intro word hword
    simp only [Content.words, List.map_nil, List.append_nil, List.mem_map] at hword
    obtain ⟨entry, hentry, rfl⟩ := hword
    exact hclean entry hentry
  have hnodup : (families.literals.map LiteralForm.delimiter).Nodup := by
    have hdistinct := hsound.nodup_delimiters
    rwa [← families.delimiters_eq] at hdistinct
  obtain ⟨third, drawing, hthird, hdrawn, hliterals⟩ :=
    hsugars.exists_literals hshown (fun form hform => List.mem_map_of_mem hform) hwords hnodup
  have hsteps : ({ Builder.new with blanks := options.blanks } : Builder K).applyAll
      (families.edges options) = second.applyAll
      (families.literals.flatMap LiteralForm.instructions) := by
    rw [families.edges_eq]
    exact applyAll_append ((applyAll_append hfirst).trans hsecond)
  exact ⟨third, drawing, hsteps.trans hthird, hdrawn, hliterals⟩

/-- Whether a drawing shows the automaton of a lexer that was built from these
    declarations, with these markers. -/
structure FamilyLexer.IsLaidOut (declarations : List (K × Family K)) (options : LexerOptions)
    (lexer : FamilyLexer K) (drawing : Drawing Spot K) (markers : List (Marker K)) : Prop where
  duplicates : (Families.ofList declarations).2 = []
  sound : (Families.ofList declarations).1.IsSound options
  shows : ∃ built : Builder K, lexer.automaton = built.build ∧ Shows built drawing
  lists : Lists drawing.names lexer.comments markers
  apart : AreApart (Families.ofList declarations).1
    ⟨(Families.ofList declarations).1.sugars, (Families.ofList declarations).1.literals, markers⟩
  comments : (Families.ofList declarations).1.comments =
    markers.map fun marker => (marker.kind, String.ofList marker.text, marker.ending)
  layout : Layout (Families.ofList declarations).1 options
    ⟨(Families.ofList declarations).1.sugars, (Families.ofList declarations).1.literals,
      markers⟩ drawing

namespace FamilyLexer

variable [DecidableEq K] [TokenKind K]

/-- A lexer without extensions has a drawing. -/
theorem exists_isLaidOut {declarations : List (K × Family K)} {options : LexerOptions}
    {lexer : FamilyLexer K} (hbuild : (build declarations options).value = some lexer)
    (hextensions : (Families.ofList declarations).1.extensions = []) :
    ∃ drawing markers, IsLaidOut declarations options lexer drawing markers := by
  obtain ⟨hduplicates, hsound, assembled, extended, built, hassembled, hextended, hbuilt,
    hautomaton⟩ :=
    exists_steps_of_build hbuild
  suffices hlayout : ∃ (drawing : Drawing Spot K) (markers : List (Marker K)), Shows built drawing ∧
      Lists drawing.names lexer.comments markers ∧
      AreApart (Families.ofList declarations).1
        ⟨(Families.ofList declarations).1.sugars,
          (Families.ofList declarations).1.literals, markers⟩ ∧
      (Families.ofList declarations).1.comments =
        markers.map (fun marker => (marker.kind, String.ofList marker.text, marker.ending)) ∧
      Layout (Families.ofList declarations).1 options
        ⟨(Families.ofList declarations).1.sugars, (Families.ofList declarations).1.literals,
          markers⟩ drawing by
    obtain ⟨drawing, markers, hshows, hlists, hapart, hcomments, hlayout⟩ := hlayout
    exact ⟨drawing, markers, hduplicates, hsound, ⟨built, hautomaton, hshows⟩, hlists, hapart,
      hcomments, hlayout⟩
  generalize (Families.ofList declarations).1 = families at *
  rw [hextensions] at hextended
  obtain ⟨rfl, -⟩ : assembled = extended ∧ _ := Prod.mk.inj hextended
  obtain ⟨base, drawing, hbase, hdrawn, hliterals⟩ := Layout.exists_assembled hsound
  obtain rfl : assembled = base := congrArg Prod.fst (hassembled.symm.trans hbase)
  have hnone : AreApart families { sugars := families.sugars, literals := families.literals } :=
    ⟨List.nodup_nil, fun _ hmarker => nomatch hmarker⟩
  obtain ⟨after, markers, hshows, hlists, hapart, hcomments, hall⟩ :=
    hliterals.exists_markers hdrawn .nil hnone hbuilt
  exact ⟨after, markers, hshows, hlists, hapart, hcomments, hall⟩

end FamilyLexer

end GrammarKit.Lexer
