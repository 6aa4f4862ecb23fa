import GrammarKit.Proofs.Automaton.Reading
import GrammarKit.Proofs.Lexer.Read

namespace GrammarKit.Lexer

open Automaton

variable {K : Type}

/-- What a scan makes of a lexeme with this text and kind. -/
def Yields (result : Except Miscut (Option (Token K))) (text : List Char) (position : Position) :
    Option K → Prop
  | some kind => ∃ value,
      result = .ok (some { Token.ofSpan kind (String.ofList text) position with value })
  | none => result = .ok none

namespace FamilyLexer.IsLaidOut

variable {declarations : List (K × Family K)} {options : LexerOptions} {lexer : FamilyLexer K}
    {drawing : Drawing Spot K} {markers : List (Marker K)}
    (hlaid : IsLaidOut declarations options lexer drawing markers)

include hlaid

/-- A match at a plain node becomes a token of the kind of the node. -/
theorem yields_plain {spot : Spot} (hplain : spot.IsPlain) (kind : K) (text : List Char)
    (position : Position) :
    Yields (drawing.finish spot (.ofSpan kind (String.ofList text) position)) text position
      (some kind) :=
  ⟨_, hlaid.finish_plain hplain _⟩

/-- What becomes of the longest text after which a scan can stop is told by the
    node that it leads to. -/
theorem exists_run_of_read? {position : Position} {rest : List Char} {start : Place}
    (hstart : lexer.automaton.skipIgnored position rest = start) {text : List Char} {spot : Spot}
    {found : K}
    (hlongest : IsLongest (fun text => ∃ node, lexer.automaton.StopsAt text node) start.rest text)
    (hread : drawing.read? .start text = some spot) (hkind : drawing.kind? spot = some found) :
    ∃ node, drawing.names[node]? = some spot ∧ lexer.automaton.run ⟨position, rest⟩ =
      match drawing.finish spot (.ofSpan found (String.ofList text) start.position) with
      | .ok (some token) => (.success token node text,
          ⟨start.position.advanceOver text, start.rest.drop text.length⟩)
      | .ok none => (failureAt start, start)
      | .error cause => (.miscut cause, start) := by
  obtain ⟨built, hautomaton, hshows⟩ := hlaid.shows
  obtain ⟨node, hnode, hreach⟩ := hshows.exists_reach?_of_read? hlaid.layout.first hread
  have haccept (after : Place) : lexer.automaton.accept start ⟨node, text.reverse, after⟩ =
      drawing.finish spot (.ofSpan found (String.ofList text) start.position) := by
    rw [hautomaton, hshows.accept_eq hnode hkind, List.reverse_reverse]
  refine ⟨node, hnode, ?_⟩
  rw [Automaton.run_of_isLongest hstart hlongest (hautomaton ▸ hreach)]
  rcases hfinish : drawing.finish spot (.ofSpan found (String.ofList text) start.position) with
    cause | _ | token <;>
    simp only [haccept, hfinish]

/-- No lexeme is empty. -/
theorem ne_nil_of_isLexeme {text : List Char} {kind : Option K}
    (hlexeme : IsLexeme declarations options text kind) :
    text ≠ [] := by
  cases hlexeme with
  | word _ _ haccepts _ =>
    rintro rfl
    cases haccepts
  | int _ hne _ => exact hne
  | whole _ _ hne _ => exact hne
  | double => simp
  | sugar hsugar =>
    obtain ⟨c, rest, htext, -⟩ := hlaid.exists_sugar_eq_cons hsugar
    rw [htext]
    exact List.cons_ne_nil _ _
  | comment hdeclared hopens =>
    obtain ⟨marker, hmarker, -, rfl, -⟩ := hlaid.exists_marker hdeclared hopens
    obtain ⟨c, rest, hcons, -⟩ := hlaid.exists_marker_eq_cons hmarker
    rw [String.toList_ofList, hcons]
    exact List.cons_ne_nil _ _
  | string => simp
  | char => simp

variable (hsep : IsSeparated declarations options)

include hsep

/-- A literal is read to the node where it is closed. -/
theorem exists_read_literal (form : LiteralForm K)
    (hform : form ∈ (Families.ofList declarations).1.literals) {body : List Char}
    (hbody : form.IsBody body) :
    ∃ spot found, drawing.read? .start (form.delimiter :: body ++ [form.delimiter]) = some spot ∧
      drawing.kind? spot = some found ∧
      ∀ position, Yields
        (drawing.finish spot
          (.ofSpan found (String.ofList (form.delimiter :: body ++ [form.delimiter])) position))
        (form.delimiter :: body ++ [form.delimiter]) position (some form.kind) := by
  have hrun := form.run_eq_closed_iff.2 ⟨body, hbody, rfl⟩
  refine ⟨.literal form.delimiter .closed, form.kind, ?_,
    (hlaid.layout.kind _ _).2 (.literal hform), fun position => ?_⟩
  · rw [List.cons_append, hlaid.read?_literal hsep hform, hrun]
    rfl
  · exact ⟨_, hlaid.finish_quoted hform String.toList_ofList⟩

/-- Each lexeme is read to a node in which a scan can stop. -/
theorem exists_read {text : List Char} {kind : Option K}
    (hlexeme : IsLexeme declarations options text kind) :
    ∃ spot found, drawing.read? .start text = some spot ∧ drawing.kind? spot = some found ∧
      ∀ position, Yields (drawing.finish spot (.ofSpan found (String.ofList text) position))
        text position kind := by
  cases hlexeme with
  | word hdeclared hword haccepts hkind =>
    have hwords := (isSome_wordPlaceholder?_iff hlaid.duplicates).2 ⟨_, _, hdeclared, hword⟩
    obtain ⟨found, hfound⟩ := Option.isSome_iff_exists.1 hwords
    refine ⟨.word, found, hlaid.read?_word hwords haccepts,
      (hlaid.layout.kind _ _).2 (.word hfound), fun position => ?_⟩
    rw [hlaid.finish_word hwords, Families.wordKind, Token.ofSpan,
      (wordKind_iff hlaid.duplicates).1 hkind]
    cases kind with
    | none => rfl
    | some kind => exact ⟨_, rfl⟩
  | @int kind _ hint hne hdigits =>
    have hkind : (Families.ofList declarations).1.int = some kind :=
      hlaid.kind_of_declared .int hint
    have hnumbers : (Families.ofList declarations).1.int.or
        (Families.ofList declarations).1.double = some kind := by
      rw [hkind, Option.some_or]
    exact ⟨.whole, kind, hlaid.read?_digits hsep (Option.isSome_of_eq_some hnumbers) hne hdigits,
      (hlaid.layout.kind _ _).2 (.whole hnumbers), hlaid.yields_plain .whole kind _⟩
  | @whole kind _ hdouble hint hne hdigits =>
    have hkind : (Families.ofList declarations).1.double = some kind :=
      hlaid.kind_of_declared .double hdouble
    have hnone : (Families.ofList declarations).1.int = none := by
      refine Option.eq_none_iff_forall_ne_some.2 fun kind hkind => hint kind ?_
      exact (Families.kindOf?_ofList .int hlaid.duplicates).1 hkind
    have hnumbers : (Families.ofList declarations).1.int.or
        (Families.ofList declarations).1.double = some kind := by
      rw [hnone, Option.none_or, hkind]
    exact ⟨.whole, kind, hlaid.read?_digits hsep (Option.isSome_of_eq_some hnumbers) hne hdigits,
      (hlaid.layout.kind _ _).2 (.whole hnumbers), hlaid.yields_plain .whole kind _⟩
  | @double kind whole fraction hdouble hwhole hfraction hdigits =>
    have hkind : (Families.ofList declarations).1.double = some kind :=
      hlaid.kind_of_declared .double hdouble
    exact ⟨.fraction, kind, hlaid.read?_double hsep (Option.isSome_of_eq_some hkind) hwhole
      hfraction hdigits, (hlaid.layout.kind _ _).2 (.fraction hkind),
        hlaid.yields_plain .fraction kind _⟩
  | @sugar kind text hsugar =>
    exact ⟨.path text.toList, kind, hlaid.read?_sugar hsugar (hsep.not_beginsLikeWord_sugar hsugar),
      (hlaid.layout.kind _ _).2 (.sugar (mem_sugars_iff.2 hsugar)),
      hlaid.yields_plain (.path _) kind _⟩
  | @comment kind family marker ending hdeclared hopens =>
    obtain ⟨found, hfound, rfl, rfl, rfl⟩ := hlaid.exists_marker hdeclared hopens
    have hliteral := hlaid.not_beginsLikeLiteral hfound hsep.hasClearMarkers
    have hspot := hlaid.spot_eq_path hfound hliteral
    rw [String.toList_ofList]
    exact ⟨found.spot, found.kind, hlaid.read?_marker hfound hliteral
      (hsep.not_beginsLikeWord_marker hdeclared hopens), (hlaid.layout.kind _ _).2 (.marker hfound),
      hlaid.yields_plain (hspot ▸ .path _) found.kind _⟩
  | @string kind delimiter escape body hdeclared hbody =>
    exact hlaid.exists_read_literal hsep ⟨true, kind, delimiter, escape⟩
      (mem_literals_iff.2 hdeclared) hbody
  | @char kind delimiter escape body hdeclared hbody =>
    exact hlaid.exists_read_literal hsep ⟨false, kind, delimiter, escape⟩
      (mem_literals_iff.2 hdeclared) hbody

/-- A comment marker is read to a node of its own. -/
theorem spot_eq_path_of_isSeparated {marker : Marker K} (hmarker : marker ∈ markers) :
    marker.spot = .path marker.text :=
  hlaid.spot_eq_path hmarker (hlaid.not_beginsLikeLiteral hmarker hsep.hasClearMarkers)

section Stops

variable {c : Char} {rest : List Char} {spot : Spot} {found : K}
    (hkind : drawing.kind? spot = some found)

include hkind

/-- What begins with a digit and ends a scan is a number. -/
theorem exists_isLexeme_number (hc : c.isDigit)
    (hnumbers :
      ((Families.ofList declarations).1.int.or (Families.ofList declarations).1.double).isSome)
    (hread : drawing.read? .start (c :: rest) = some spot) :
    ∃ kind, IsLexeme declarations options (c :: rest) kind := by
  rw [hlaid.read?_number hsep hnumbers hc] at hread
  have hdouble : ∀ kind, (Families.ofList declarations).1.double = some kind →
      (kind, .double) ∈ declarations :=
    fun kind => (Families.kindOf?_ofList .double hlaid.duplicates).1
  rcases hlaid.layout.read?_whole_cases hread with
    ⟨-, hdigits⟩ | rfl | ⟨-, hsome, whole, fraction, rfl, hne, hdigits⟩
  · have hall : ∀ d ∈ c :: rest, d.isDigit := List.forall_mem_cons.2 ⟨hc, hdigits⟩
    obtain ⟨kind, hkind⟩ := Option.isSome_iff_exists.1 hnumbers
    cases hint : (Families.ofList declarations).1.int with
    | some kind =>
      exact ⟨_, .int ((Families.kindOf?_ofList .int hlaid.duplicates).1 hint)
        (List.cons_ne_nil _ _) hall⟩
    | none =>
      rw [hint, Option.none_or] at hkind
      refine ⟨_, .whole (hdouble kind hkind) (fun other hother => ?_) (List.cons_ne_nil _ _) hall⟩
      have hother := hlaid.kind_of_declared .int hother
      rw [Families.kindOf?, hint] at hother
      cases hother
  · rw [hlaid.kind?_point] at hkind
    cases hkind
  · obtain ⟨kind, hkind⟩ := Option.isSome_iff_exists.1 hsome
    have hall : ∀ d ∈ (c :: whole) ++ fraction, d.isDigit := List.forall_mem_cons.2 ⟨hc, hdigits⟩
    exact ⟨_, .double (hdouble kind hkind) (List.cons_ne_nil _ _) hne hall⟩

/-- What begins with a delimiter and ends a scan is a literal. -/
theorem exists_isLexeme_literal (hc : c ∈ (Families.ofList declarations).1.delimiters)
    (hread : drawing.read? .start (c :: rest) = some spot) :
    ∃ kind, IsLexeme declarations options (c :: rest) kind := by
  obtain ⟨form, hform, rfl⟩ := List.mem_map.1 hc
  rw [hlaid.read?_literal hsep hform] at hread
  obtain ⟨phase, hrun, rfl⟩ := Option.map_eq_some_iff.1 hread
  obtain rfl : phase = .closed := by
    generalize hspot : Spot.literal form.delimiter phase = spot at hkind
    cases (hlaid.layout.kind _ _).1 hkind with
    | literal => exact (Spot.literal.inj hspot).2
    | marker hmarker =>
      rw [hlaid.spot_eq_path_of_isSeparated hsep hmarker] at hspot
      cases hspot
    | _ => cases hspot
  obtain ⟨body, hbody, rfl⟩ := form.run_eq_closed_iff.1 hrun
  have hdeclared := mem_literals_iff.1 hform
  rw [LiteralForm.family] at hdeclared
  rw [LiteralForm.IsBody] at hbody
  cases hstring : form.isString with
  | true =>
    rw [hstring, if_pos rfl] at hdeclared hbody
    exact ⟨_, .string hdeclared hbody⟩
  | false =>
    rw [hstring, if_neg Bool.false_ne_true] at hdeclared hbody
    exact ⟨_, .char hdeclared hbody⟩

/-- What begins with any other character and ends a scan is a sugar or a comment marker. -/
theorem exists_isLexeme_symbol (hc : c ∉ (Families.ofList declarations).1.delimiters)
    (htrace : drawing.trace? .start (c :: rest) = some spot) :
    ∃ kind, IsLexeme declarations options (c :: rest) kind := by
  have hclean : ¬StartsIn (Families.ofList declarations).1.delimiters (c :: rest) := by
    rwa [startsIn_cons]
  obtain rfl := hlaid.layout.branches.eq_path_of_trace? hclean htrace
  generalize hspot : Spot.path (c :: rest) = spot at hkind
  cases (hlaid.layout.kind _ _).1 hkind with
  | sugar hsugar =>
    rw [Spot.path.inj hspot]
    exact ⟨_, .sugar (mem_sugars_iff.1 hsugar)⟩
  | @marker marker hmarker =>
    rw [hlaid.spot_eq_path_of_isSeparated hsep hmarker] at hspot
    obtain ⟨family, hdeclared, hopens⟩ := hlaid.mem_markers hmarker
    have hlexeme : IsLexeme declarations options (String.ofList marker.text).toList
        (some marker.kind) :=
      .comment hdeclared hopens
    rw [String.toList_ofList, ← Spot.path.inj hspot] at hlexeme
    exact ⟨_, hlexeme⟩
  | _ => cases hspot

end Stops

/-- Scans stop after lexemes only. -/
theorem exists_isLexeme {text : List Char} (hne : text ≠ []) {spot : Spot} {found : K}
    (hread : drawing.read? .start text = some spot) (hkind : drawing.kind? spot = some found) :
    ∃ kind, IsLexeme declarations options text kind := by
  cases text with
  | nil => exact absurd rfl hne
  | cons c rest =>
    by_cases hword : (Families.ofList declarations).1.wordPlaceholder?.isSome ∧
        inRanges options.identifier.startRanges c
    · rw [hlaid.read?_of_inRanges hword.1 hword.2] at hread
      split at hread
      · next hrest =>
        obtain ⟨declared, family, hdeclared, hfamily⟩ :=
          (isSome_wordPlaceholder?_iff hlaid.duplicates).1 hword.1
        refine ⟨_, .word hdeclared hfamily ?_ ((wordKind_iff hlaid.duplicates).2 rfl)⟩
        rw [IdentifierShape.accepts, hword.2, Bool.true_and]
        exact hrest
      · cases hread
    · by_cases hnumber :
        ((Families.ofList declarations).1.int.or (Families.ofList declarations).1.double).isSome ∧
        c.isDigit
      · exact hlaid.exists_isLexeme_number hsep hkind hnumber.2 hnumber.1 hread
      · by_cases hdelimiter : c ∈ (Families.ofList declarations).1.delimiters
        · exact hlaid.exists_isLexeme_literal hsep hkind hdelimiter hread
        · refine hlaid.exists_isLexeme_symbol hsep hkind hdelimiter ?_
          rw [← hread]
          refine (hlaid.layout.read?_start hdelimiter ?_).symm
          rw [hlaid.layout.next?_start, if_neg hword, Layout.digit_accepts, if_neg hnumber]

/-- Lexemes are all the texts after which a scan can stop. -/
theorem exists_stopsAt_iff {text : List Char} :
    (∃ node, lexer.automaton.StopsAt text node) ↔
      ∃ kind, IsLexeme declarations options text kind := by
  obtain ⟨built, hautomaton, hshows⟩ := hlaid.shows
  rw [hautomaton, hshows.exists_stopsAt_iff hlaid.layout.first]
  constructor
  · rintro ⟨hne, spot, hread, hkind⟩
    obtain ⟨found, hfound⟩ := Option.isSome_iff_exists.1 hkind
    exact hlaid.exists_isLexeme hsep hne hread hfound
  · rintro ⟨kind, hlexeme⟩
    obtain ⟨spot, found, hread, hkind, -⟩ := hlaid.exists_read hsep hlexeme
    exact ⟨hlaid.ne_nil_of_isLexeme hlexeme, spot, hread, Option.isSome_of_eq_some hkind⟩

/-- A scan makes a token of the longest lexeme, or rejects it when it has no kind. -/
theorem run_of_isLongest {position : Position} {rest : List Char} {start : Place}
    (hstart : lexer.automaton.skipIgnored position rest = start) {text : List Char}
    {kind : Option K}
    (hlongest : IsLongest (fun text => ∃ kind, IsLexeme declarations options text kind)
      start.rest text)
    (hlexeme : IsLexeme declarations options text kind) :
    ∃ result node, Yields result text start.position kind ∧ lexer.automaton.run ⟨position, rest⟩ =
      match result with
      | .ok (some token) => (.success token node text,
          ⟨start.position.advanceOver text, start.rest.drop text.length⟩)
      | .ok none => (failureAt start, start)
      | .error cause => (.miscut cause, start) := by
  obtain ⟨spot, found, hread, hkind, hyields⟩ := hlaid.exists_read hsep hlexeme
  have hstops : IsLongest (fun text => ∃ node, lexer.automaton.StopsAt text node) start.rest text :=
    hlongest.congr fun _ _ => (hlaid.exists_stopsAt_iff hsep).symm
  obtain ⟨node, -, hrun⟩ := hlaid.exists_run_of_read? hstart hstops hread hkind
  refine ⟨_, node, hyields start.position, ?_⟩
  rw [hrun]
  rcases drawing.finish spot (.ofSpan found (String.ofList text) start.position) with cause |
    _ | token <;> rfl

end FamilyLexer.IsLaidOut

namespace FamilyLexer

variable [DecidableEq K] [TokenKind K] {declarations : List (K × Family K)} {options : LexerOptions}
  {lexer : FamilyLexer K}

/-- At every place, after what is ignored there, the longest lexeme that follows
    becomes a token of its kind. A word without a kind is rejected, and so is a
    text that begins with no lexeme. -/
theorem run_longest_lexeme (hbuild : (build declarations options).value = some lexer)
    (hextensions : ¬HasExtensions declarations) (hsep : IsSeparated declarations options)
    (position : Position) {skipped rest : List Char}
    (hskipped : ∀ c ∈ skipped, options.blanks.ignores c = true) (hne : rest ≠ [])
    (hrest : ∀ c ∈ rest.head?, options.blanks.ignores c = false) :
    let start : Place := ⟨position.advanceOver skipped, rest⟩
    let run := lexer.automaton.run ⟨position, skipped ++ rest⟩
    (∀ text, IsLongest (fun text => ∃ kind, IsLexeme declarations options text kind) rest text →
      (∀ kind, IsLexeme declarations options text (some kind) → ∃ token node,
        run = (.success token node text, ⟨start.position.advanceOver text, rest.drop text.length⟩) ∧
        token.kind = some kind ∧ token.span = String.ofList text ∧
        token.position = start.position) ∧
      (IsLexeme declarations options text none → run = (failureAt start, start))) ∧
    ((∀ text kind, text <+: rest → ¬IsLexeme declarations options text kind) →
      ∃ character failed, run = (.failure character failed, start)) := by
  obtain ⟨drawing, markers, hlaid⟩ := exists_isLaidOut hbuild (extensions_eq_nil hextensions)
  have hstart : lexer.automaton.skipIgnored position (skipped ++ rest) =
      ⟨position.advanceOver skipped, rest⟩ :=
    skipIgnored_append (hlaid.blanks_eq ▸ hskipped) (hlaid.blanks_eq ▸ hrest) position
  refine ⟨fun text hlongest => ⟨fun kind hlexeme => ?_, fun hlexeme => ?_⟩, fun hnone => ?_⟩
  · obtain ⟨result, node, ⟨value, rfl⟩, hrun⟩ := hlaid.run_of_isLongest hsep hstart hlongest hlexeme
    exact ⟨_, node, hrun, rfl, rfl, rfl⟩
  · obtain ⟨result, node, hyields, hrun⟩ := hlaid.run_of_isLongest hsep hstart hlongest hlexeme
    obtain rfl : result = .ok none := hyields
    exact hrun
  · refine run_of_not_stopsAt hstart hne fun text node hpre hstops => ?_
    obtain ⟨kind, hlexeme⟩ := (hlaid.exists_stopsAt_iff hsep).1 ⟨node, hstops⟩
    exact hnone text kind hpre hlexeme

end FamilyLexer

namespace Sample

def sums : Alphabet := ⟨["NAME", "LET", "NUMBER", "PLUS", "INCREMENT", "NOTE"], by decide⟩

def name : Kind sums := ⟨(0 : Fin 6)⟩

def letWord : Kind sums := ⟨(1 : Fin 6)⟩

def number : Kind sums := ⟨(2 : Fin 6)⟩

def plus : Kind sums := ⟨(3 : Fin 6)⟩

def increment : Kind sums := ⟨(4 : Fin 6)⟩

def note : Kind sums := ⟨(5 : Fin 6)⟩

/-- Sums of names and numbers, with comments that have an end marker. -/
def declarations : List (Kind sums × Family (Kind sums)) :=
  [(name, .identifier), (letWord, .keyword "let"), (number, .int), (plus, .sugar "+"),
    (increment, .sugar "++"), (note, .comment none (some ("/*", "*/")))]

theorem isSome_build : (FamilyLexer.build declarations {}).value.isSome = true := by decide

def lexer : FamilyLexer (Kind sums) :=
  (FamilyLexer.build declarations {}).value.get isSome_build

theorem build_eq : (FamilyLexer.build declarations {}).value = some lexer :=
  (Option.some_get isSome_build).symm

theorem not_hasExtensions : ¬HasExtensions declarations := by
  rintro ⟨kind, extension, hmem⟩
  simp [declarations] at hmem

/-- The families of the sample can be told apart. -/
theorem isSeparated : IsSeparated declarations {} where
  digits c hc := by
    simp only [Char.isDigit, Bool.and_eq_true, decide_eq_true_eq, UInt32.le_iff_toNat_le, ge_iff_le]
      at hc
    simp [inRanges, CharRange.contains, IdentifierShape.startRanges, Char.le_def,
      UInt32.le_iff_toNat_le] at hc ⊢
    omega
  delimiters kind family delimiter hmem hdelimits := by
    cases hdelimits <;> simp [declarations] at hmem
  sugars kind text c hmem hc := by
    simp only [declarations, List.mem_cons, Prod.mk.injEq, Family.sugar.injEq, reduceCtorEq,
      and_false, List.not_mem_nil, or_false, false_or] at hmem
    rcases hmem with ⟨-, rfl⟩ | ⟨-, rfl⟩
    · obtain rfl : '+' = c := by simpa using hc
      decide
    · obtain rfl : '+' = c := by simpa using hc
      decide
  markers kind family marker ending c hmem hopens hc := by
    cases hopens <;> simp [declarations] at hmem
    obtain ⟨-, -, rfl, rfl⟩ := hmem
    obtain rfl : '/' = c := by simpa using hc
    decide
  clear kind family marker ending other literal delimiter hmem hopens hliteral hdelimits := by
    cases hdelimits <;> simp [declarations] at hliteral
  separator := by decide

/-- The text `++a` is no lexeme, so `++` is the longest it begins with. -/
theorem isLongest_increment :
    IsLongest (fun text => ∃ kind, IsLexeme declarations {} text kind) "++a".toList
      "++".toList where
  holds := ⟨some increment, .sugar (by simp [declarations])⟩
  isPrefix := ⟨['a'], rfl⟩
  length_le other := by
    rintro ⟨kind, hlexeme⟩ hpre
    by_contra hlonger
    obtain rfl : other = "++a".toList := hpre.eq_of_length_le (by simp at hlonger ⊢; omega)
    generalize htext : "++a".toList = text at hlexeme
    cases hlexeme with
    | word _ _ haccepts _ =>
      rw [← htext] at haccepts
      revert haccepts
      decide
    | int _ _ hdigits => exact absurd (hdigits '+' (by simp [← htext])) (by decide)
    | whole _ _ _ hdigits => exact absurd (hdigits '+' (by simp [← htext])) (by decide)
    | double hdouble => simp [declarations] at hdouble
    | sugar hsugar =>
      simp only [declarations, List.mem_cons, Prod.mk.injEq, Family.sugar.injEq,
        reduceCtorEq, and_false, List.not_mem_nil, or_false, false_or] at hsugar
      rcases hsugar with ⟨-, rfl⟩ | ⟨-, rfl⟩ <;> simp at htext
    | comment hdeclared hopens =>
      cases hopens <;> simp [declarations] at hdeclared
      obtain ⟨-, -, rfl, rfl⟩ := hdeclared
      simp at htext
    | string hdeclared _ => simp [declarations] at hdeclared
    | char hdeclared _ => simp [declarations] at hdeclared

end Sample

theorem run_longest_lexeme_sums :
    ∃ lexer, (FamilyLexer.build Sample.declarations {}).value = some lexer ∧
      ¬HasExtensions Sample.declarations ∧
      IsSeparated Sample.declarations {} ∧
      (∀ c ∈ [' '], ({} : LexerOptions).blanks.ignores c = true) ∧
      (∀ c ∈ "++a".toList.head?, ({} : LexerOptions).blanks.ignores c = false) ∧
      ∃ token node, lexer.automaton.run ⟨.start, " ++a".toList⟩ =
          (.success token node "++".toList, ⟨⟨3, 0, 3⟩, ['a']⟩) ∧
        token.kind = some Sample.increment ∧ token.span = "++" ∧ token.position = ⟨1, 0, 1⟩ := by
  have hskipped : ∀ c ∈ [' '], ({} : LexerOptions).blanks.ignores c = true := by
    simp only [List.mem_singleton, forall_eq]
    rfl
  have hrest : ∀ c ∈ "++a".toList.head?, ({} : LexerOptions).blanks.ignores c = false := by
    rintro _ ⟨⟩
    rfl
  refine ⟨Sample.lexer, Sample.build_eq, Sample.not_hasExtensions, Sample.isSeparated,
    hskipped, hrest, ?_⟩
  have hrun := FamilyLexer.run_longest_lexeme Sample.build_eq Sample.not_hasExtensions
    Sample.isSeparated .start hskipped (by decide) hrest
  exact (hrun.1 _ Sample.isLongest_increment).1 Sample.increment
    (.sugar (by simp [Sample.declarations]))

end GrammarKit.Lexer
