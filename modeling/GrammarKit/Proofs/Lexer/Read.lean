import GrammarKit.Proofs.Lexer.Lexeme

namespace GrammarKit.Lexer

open Automaton

variable {K : Type}

namespace LiteralForm

/-- What can stand between the delimiters. -/
def IsBody (form : LiteralForm K) (body : List Char) : Prop :=
  if form.isString then StringBody form.delimiter form.escape body
  else CharBody form.delimiter form.escape body

/-- The inside of a string leads to where a delimiter closes it. -/
theorem run_stringBody {form : LiteralForm K} (hstring : form.isString = true) {body : List Char}
    (hbody : StringBody form.delimiter form.escape body) (rest : List Char) :
    form.run .opened (body ++ rest) = form.run .opened rest := by
  induction hbody with
  | nil => rfl
  | plain hdelimiter hescape _ ih =>
    rw [List.cons_append, run]
    simpa [step, hstring, hdelimiter, hescape] using ih
  | @escaped c body hdoubled _ ih =>
    rw [List.cons_append, List.cons_append, run, ← ih]
    by_cases hescape : form.escape = form.delimiter
    · simp [step, run, hstring, hescape, hdoubled hescape]
    · simp [step, run, hstring, hescape]

/-- Only the inside of a string leads to where a delimiter closes it. -/
theorem exists_stringBody_of_run {form : LiteralForm K} (hstring : form.isString = true)
    {text : List Char} (hrun : form.run .opened text = some .closed) :
    ∃ body, StringBody form.delimiter form.escape body ∧ text = body ++ [form.delimiter] := by
  induction hlength : text.length using Nat.strongRecOn generalizing text with
  | _ length ih =>
    subst hlength
    cases text with
    | nil => simp [run] at hrun
    | cons c rest =>
      by_cases hc : c = form.delimiter
      · cases rest with
        | nil => exact ⟨[], .nil, by rw [hc, List.nil_append]⟩
        | cons d rest =>
          by_cases hd : form.escape = form.delimiter ∧ d = form.delimiter
          · have hrest : form.run .opened rest = some .closed := by
              simpa [run, step, hstring, hc, hd.1, hd.2] using hrun
            obtain ⟨body, hbody, rfl⟩ := ih rest.length (by simp only [List.length_cons]; omega)
              hrest rfl
            refine ⟨form.escape :: d :: body, .escaped (fun _ => hd.2) hbody, ?_⟩
            rw [hc, hd.1]
            rfl
          · simp [run, step, hstring, hc, hd] at hrun
      · by_cases hescape : c = form.escape
        · have hother : form.escape ≠ form.delimiter := hescape ▸ hc
          cases rest with
          | nil => simp [run, step, hstring, hescape, hother] at hrun
          | cons d rest =>
            have hrest : form.run .opened rest = some .closed := by
              simpa [run, step, hstring, hescape, hother] using hrun
            obtain ⟨body, hbody, rfl⟩ := ih rest.length (by simp only [List.length_cons]; omega)
              hrest rfl
            refine ⟨form.escape :: d :: body, .escaped (fun heq => absurd heq hother) hbody, ?_⟩
            rw [hescape]
            rfl
        · have hrest : form.run .opened rest = some .closed := by
            simpa [run, step, hstring, hc, hescape] using hrun
          obtain ⟨body, hbody, rfl⟩ := ih rest.length (by simp) hrest rfl
          exact ⟨c :: body, .plain hc hescape hbody, rfl⟩

/-- The inside of a character literal leads to where a delimiter closes it. -/
theorem run_charBody {form : LiteralForm K} (hchar : form.isString = false) {body : List Char}
    (hbody : CharBody form.delimiter form.escape body) :
    form.run .opened (body ++ [form.delimiter]) = some .closed := by
  cases hbody with
  | plain hdelimiter hescape => simp [run, step, hchar, hdelimiter, hescape]
  | escaped c => simp [run, step, hchar]

/-- Only the inside of a character literal leads to where a delimiter closes it. -/
theorem exists_charBody_of_run {form : LiteralForm K} (hchar : form.isString = false)
    {text : List Char} (hrun : form.run .opened text = some .closed) :
    ∃ body, CharBody form.delimiter form.escape body ∧ text = body ++ [form.delimiter] := by
  have hclose : ∀ rest, form.run .body rest = some .closed → rest = [form.delimiter] := by
    intro rest hrest
    cases rest with
    | nil => simp [run] at hrest
    | cons c rest =>
      by_cases hc : c = form.delimiter
      · cases rest with
        | nil => rw [hc]
        | cons d rest => simp [run, step, hchar, hc] at hrest
      · simp [run, step, hchar, hc] at hrest
  cases text with
  | nil => simp [run] at hrun
  | cons c rest =>
    by_cases hescape : c = form.escape
    · cases rest with
      | nil => simp [run, step, hchar, hescape] at hrun
      | cons d rest =>
        have hrest : form.run .body rest = some .closed := by
          simpa [run, step, hchar, hescape] using hrun
        rw [hescape, hclose rest hrest]
        exact ⟨_, .escaped d, rfl⟩
    · by_cases hc : c = form.delimiter
      · have hother : form.delimiter ≠ form.escape := hc ▸ hescape
        simp [run, step, hchar, hc, hother] at hrun
      · have hrest : form.run .body rest = some .closed := by
          simpa [run, step, hchar, hc, hescape] using hrun
        rw [hclose rest hrest]
        exact ⟨_, .plain hc hescape, rfl⟩

/-- A literal is closed by its delimiter, which can stand inside it only escaped. -/
theorem run_eq_closed_iff {form : LiteralForm K} {text : List Char} :
    form.run .opened text = some .closed ↔ ∃ body, form.IsBody body ∧
    text = body ++ [form.delimiter] := by
  simp only [IsBody]
  cases hstring : form.isString with
  | true =>
    constructor
    · exact exists_stringBody_of_run hstring
    · rintro ⟨body, hbody, rfl⟩
      rw [run_stringBody hstring hbody]
      simp [run, step, hstring]
  | false =>
    constructor
    · exact exists_charBody_of_run hstring
    · rintro ⟨body, hbody, rfl⟩
      exact run_charBody hstring hbody

end LiteralForm

section Loops

variable {drawing : Drawing Spot K} {spot : Spot}

/-- A node that leads to itself by some characters and nowhere by others. -/
theorem read?_loop {p : Char → Bool}
    (hnext : ∀ c, drawing.next? spot c = if p c then some spot else none) (text : List Char) :
    drawing.read? spot text = if text.all p then some spot else none := by
  induction text with
  | nil => simp [Drawing.read?]
  | cons c text ih =>
    rw [Drawing.read?, hnext]
    by_cases hc : p c
    · simp [hc, ih]
    · simp [hc]

end Loops

namespace Layout

variable {families : Families K} {options : LexerOptions} {content : Content K}
    {drawing : Drawing Spot K}

theorem digit_accepts (c : Char) : Families.digit.accepts c = c.isDigit := rfl

/-- Words are read as far as their characters go. -/
theorem read?_word (hlayout : Layout families options content drawing)
    (hwords : families.wordPlaceholder?.isSome) (text : List Char) :
    drawing.read? .word text =
      if text.all (inRanges options.identifier.restRanges) then some .word else none := by
  refine read?_loop (fun c => ?_) text
  rw [hlayout.next?_word]
  simp [hwords]

/-- Fractions are read as far as their digits go. -/
theorem read?_fraction (hlayout : Layout families options content drawing)
    (hdouble : families.double.isSome) (text : List Char) :
    drawing.read? .fraction text = if text.all Char.isDigit then some .fraction else none := by
  refine read?_loop (fun c => ?_) text
  rw [hlayout.next?_fraction, digit_accepts]
  simp [hdouble]

/-- Whole numbers are read as far as their digits go. -/
theorem read?_whole_digits (hlayout : Layout families options content drawing)
    (hnumbers : (families.int.or families.double).isSome) {text : List Char}
    (hdigits : ∀ c ∈ text, c.isDigit) :
    drawing.read? .whole text = some .whole := by
  induction text with
  | nil => rfl
  | cons c text ih =>
    rw [Drawing.read?, hlayout.next?_whole, digit_accepts,
      if_pos ⟨hnumbers, hdigits c List.mem_cons_self⟩]
    exact ih fun d hd => hdigits d (List.mem_cons_of_mem _ hd)

theorem isSome_or_double (hdouble : families.double.isSome) :
    (families.int.or families.double).isSome := by
  rw [Option.isSome_or, hdouble, Bool.or_true]

/-- Behind digits the separator and digits are read as a fraction. -/
theorem read?_whole_double (hlayout : Layout families options content drawing)
    (hdouble : families.double.isSome) (hseparator : options.decimalSeparator.isDigit = false)
    {whole fraction : List Char} (hne : fraction ≠ [])
    (hdigits : ∀ c ∈ whole ++ fraction, c.isDigit) :
    drawing.read? .whole (whole ++ options.decimalSeparator :: fraction) = some .fraction := by
  cases fraction with
  | nil => exact absurd rfl hne
  | cons d fraction =>
    have hwhole := hlayout.read?_whole_digits (isSome_or_double hdouble) fun c hc =>
      hdigits c (List.mem_append_left _ hc)
    have hd : d.isDigit := hdigits d (by simp)
    rw [Drawing.read?_append, hwhole, Option.bind_some, Drawing.read?, hlayout.next?_whole,
      digit_accepts, hseparator, if_neg (by simp), if_pos ⟨hdouble, rfl⟩, Option.bind_some,
        Drawing.read?, hlayout.next?_point, digit_accepts,
      if_pos ⟨hdouble, hd⟩, Option.bind_some, hlayout.read?_fraction hdouble, if_pos]
    exact List.all_eq_true.2 fun c hc => hdigits c (by simp [hc])

/-- What can be read once a number has begun. -/
theorem read?_whole_cases (hlayout : Layout families options content drawing) {text : List Char}
    {spot : Spot} (hread : drawing.read? .whole text = some spot) :
    (spot = .whole ∧ ∀ c ∈ text, c.isDigit) ∨ spot = .point ∨
      spot = .fraction ∧ families.double.isSome ∧ ∃ whole fraction,
        text = whole ++ options.decimalSeparator :: fraction ∧ fraction ≠ [] ∧
        ∀ c ∈ whole ++ fraction, c.isDigit := by
  induction text with
  | nil => exact Or.inl ⟨(Option.some.inj hread).symm, fun _ hc => nomatch hc⟩
  | cons c text ih =>
    rw [Drawing.read?, hlayout.next?_whole, digit_accepts] at hread
    split at hread
    · next hc =>
      rcases ih hread with ⟨rfl, hdigits⟩ | hpoint |
        ⟨rfl, hdouble, whole, fraction, rfl, hne, hdigits⟩
      · refine Or.inl ⟨rfl, fun d hd => ?_⟩
        rcases List.mem_cons.1 hd with rfl | hd
        · exact hc.2
        · exact hdigits d hd
      · exact Or.inr (Or.inl hpoint)
      · refine Or.inr (Or.inr ⟨rfl, hdouble, c :: whole, fraction, rfl, hne, fun d hd => ?_⟩)
        rcases List.mem_cons.1 hd with rfl | hd
        · exact hc.2
        · exact hdigits d hd
    · split at hread
      · next hpoint =>
        obtain ⟨hdouble, rfl⟩ := hpoint
        rw [Option.bind_some] at hread
        cases text with
        | nil => exact Or.inr (Or.inl (Option.some.inj hread).symm)
        | cons d fraction =>
          rw [Drawing.read?, hlayout.next?_point, digit_accepts] at hread
          split at hread
          · next hd =>
            rw [Option.bind_some, hlayout.read?_fraction hdouble] at hread
            split at hread
            · next hdigits =>
              refine Or.inr (Or.inr ⟨(Option.some.inj hread).symm, hdouble, [], d :: fraction,
                rfl, by simp, ?_⟩)
              intro e he
              rcases List.mem_cons.1 he with rfl | he
              · exact hd.2
              · exact List.all_eq_true.1 hdigits e he
            · cases hread
          · cases hread
      · cases hread

end Layout

theorem isDigit_eq_false {c : Char} (hc : Text.isAlphanumeric c = false) : c.isDigit = false := by
  by_contra hdigit
  rw [Bool.not_eq_false] at hdigit
  have hlt : c.toNat < 128 := by
    simp only [Char.isDigit, Bool.and_eq_true, decide_eq_true_eq] at hdigit
    have hle : c.toNat ≤ 57 := hdigit.2
    omega
  rw [Text.isAlphanumeric, if_pos hlt, Char.isAlphanum, hdigit, Bool.or_true] at hc
  cases hc

/-- A literal between its delimiters can be cut. -/
theorem Families.unescaping_quoted {delimiter : Char} (escape : Char) {token : Token K}
    {body : List Char} (hspan : token.span.toList = delimiter :: body ++ [delimiter]) :
    unescaping delimiter escape token =
      .ok (some { token with
        value := String.ofList (Literal.unescapeBody delimiter escape token.span.toList body) }) := by
  refine unescaping_eq_ok_iff.2 ⟨_, ?_, rfl⟩
  rw [hspan]
  exact Literal.unescape_quoted delimiter escape body

/-- The nodes of numbers and of words that are followed. -/
inductive Spot.IsPlain : Spot → Prop
  | path (text : List Char) : IsPlain (.path text)
  | whole : IsPlain .whole
  | fraction : IsPlain .fraction

namespace FamilyLexer.IsLaidOut

variable {declarations : List (K × Family K)} {options : LexerOptions} {lexer : FamilyLexer K}
  {drawing : Drawing Spot K} {markers : List (Marker K)} {spot : Spot}
  (hlaid : IsLaidOut declarations options lexer drawing markers)

include hlaid

/-- A lexer without extensions ignores what the options say. -/
theorem blanks_eq : lexer.automaton.blanks = options.blanks := by
  obtain ⟨built, hautomaton, hshows⟩ := hlaid.shows
  rw [hautomaton, ← hlaid.layout.blanks, ← hshows.blanks]
  rfl

/-- A family that is declared once has the declared kind. -/
theorem kind_of_declared {family : Family K} {kind : K} (hsingle : Families.IsSingle family)
    (hdeclared : (kind, family) ∈ declarations) :
    (Families.ofList declarations).1.kindOf? family = some kind :=
  (Families.kindOf?_ofList hsingle hlaid.duplicates).2 hdeclared

/-- Delimiters are neither letters nor digits. -/
theorem isAlphanumeric_delimiter {c : Char} (hc : c ∈ (Families.ofList declarations).1.delimiters) :
    Text.isAlphanumeric c = false := by
  rw [Families.delimiters_eq, List.mem_map] at hc
  obtain ⟨entry, hentry, rfl⟩ := hc
  exact hlaid.sound.delimiters entry hentry

/-- Sugars begin with a character that is neither a letter nor a digit nor a delimiter. -/
theorem exists_sugar_eq_cons {kind : K} {text : String}
    (hsugar : (kind, .sugar text) ∈ declarations) :
    ∃ c rest, text.toList = c :: rest ∧ Text.isAlphanumeric c = false ∧
      c ∉ (Families.ofList declarations).1.delimiters := by
  obtain ⟨c, rest, htext, hletter, hdelimiter⟩ :=
    hlaid.sound.sugars (kind, text) (mem_sugars_iff.2 hsugar)
  rw [← Families.delimiters_eq] at hdelimiter
  exact ⟨c, rest, htext, hletter, hdelimiter⟩

section Markers

variable {marker : Marker K} (hmarker : marker ∈ markers)

include hmarker

/-- The markers are those declared. -/
theorem mem_markers :
    ∃ family, (marker.kind, family) ∈ declarations ∧
      family.Opens (String.ofList marker.text) marker.ending := by
  refine mem_comments_iff.1 ?_
  rw [hlaid.comments]
  exact List.mem_map_of_mem hmarker

/-- Markers begin with a character that is neither a letter nor a digit. -/
theorem exists_marker_eq_cons :
    ∃ c rest, marker.text = c :: rest ∧ Text.isAlphanumeric c = false := by
  obtain ⟨family, hdeclared, hopens⟩ := hlaid.mem_markers hmarker
  obtain ⟨c, rest, htext, hletter⟩ := hlaid.sound.comments _
    (mem_comments_iff.2 ⟨family, hdeclared, hopens⟩)
  exact ⟨c, rest, by rw [← htext, String.toList_ofList], hletter⟩

/-- A marker leads to a node that followed words come by. -/
theorem isOpen_spot : marker.spot.IsOpen :=
  (hlaid.layout.branches.head?_of_trace? (hlaid.layout.markers marker hmarker)).1

/-- No marker begins like a literal if all are clear. -/
theorem not_beginsLikeLiteral (hclear : HasClearMarkers declarations) :
    ¬BeginsLikeLiteral declarations (String.ofList marker.text) := by
  obtain ⟨family, hdeclared, hopens⟩ := hlaid.mem_markers hmarker
  exact hclear _ _ _ _ hdeclared hopens

/-- A marker that does not begin like a literal leads to a node of its own. -/
theorem spot_eq_path (hliteral : ¬BeginsLikeLiteral declarations (String.ofList marker.text)) :
    marker.spot = .path marker.text := by
  rw [beginsLikeLiteral_iff, String.toList_ofList] at hliteral
  exact hlaid.layout.branches.eq_path_of_trace? hliteral (hlaid.layout.markers marker hmarker)

end Markers

/-- No scan ends between the separator and the fraction of a number. -/
theorem kind?_point : drawing.kind? .point = none := by
  refine Option.eq_none_iff_forall_ne_some.2 fun kind hkind => ?_
  generalize hspot : Spot.point = spot at hkind
  cases (hlaid.layout.kind _ _).1 hkind with
  | marker hmarker =>
    have hopen := hlaid.isOpen_spot hmarker
    rw [← hspot] at hopen
    cases hopen
  | _ => cases hspot

/-- Fractions end tokens of the kind declared for them. -/
theorem double_of_kind?_fraction {kind : K} (hkind : drawing.kind? .fraction = some kind) :
    (kind, Family.double) ∈ declarations := by
  generalize hspot : Spot.fraction = spot at hkind
  cases (hlaid.layout.kind _ _).1 hkind with
  | fraction hdouble => exact (Families.kindOf?_ofList .double hlaid.duplicates).1 hdouble
  | marker hmarker =>
    have hopen := hlaid.isOpen_spot hmarker
    rw [← hspot] at hopen
    cases hopen
  | _ => cases hspot

/-- Each declared marker is followed. -/
theorem exists_marker {kind : K} {family : Family K} {text : String} {ending : CommentEnd}
    (hdeclared : (kind, family) ∈ declarations) (hopens : family.Opens text ending) :
    ∃ marker ∈ markers, marker.kind = kind ∧ String.ofList marker.text = text ∧
      marker.ending = ending := by
  have hmem := mem_comments_iff.2 ⟨family, hdeclared, hopens⟩
  rw [hlaid.comments, List.mem_map] at hmem
  simpa using hmem

/-- A word that is followed is a sugar or a start marker. -/
theorem mem_words_cases {word : List Char}
    (hword : word ∈ Content.words ⟨(Families.ofList declarations).1.sugars,
      (Families.ofList declarations).1.literals, markers⟩) :
    (∃ kind text, (kind, Family.sugar text) ∈ declarations ∧ text.toList = word) ∨
      ∃ kind family marker ending, (kind, family) ∈ declarations ∧ family.Opens marker ending ∧
        marker.toList = word := by
  rcases List.mem_append.1 hword with hfollowed | hfollowed
  · obtain ⟨⟨kind, text⟩, hsugar, rfl⟩ := List.mem_map.1 hfollowed
    exact Or.inl ⟨kind, text, mem_sugars_iff.1 hsugar, rfl⟩
  · obtain ⟨marker, hmarker, rfl⟩ := List.mem_map.1 hfollowed
    obtain ⟨family, hdeclared, hopens⟩ := hlaid.mem_markers hmarker
    exact Or.inr ⟨_, family, _, _, hdeclared, hopens, String.toList_ofList⟩

/-- No followed word begins with a delimiter that is clear. -/
theorem head?_ne_of_isClear {form : LiteralForm K}
    (hform : form ∈ (Families.ofList declarations).1.literals)
    (hclear : IsClear declarations form.delimiter) :
    ∀ word ∈ Content.words ⟨(Families.ofList declarations).1.sugars,
      (Families.ofList declarations).1.literals, markers⟩,
      word.head? ≠ some form.delimiter := by
  have hmem : form.delimiter ∈ (Families.ofList declarations).1.delimiters :=
    List.mem_map_of_mem hform
  intro word hword hhead
  rcases hlaid.mem_words_cases hword with ⟨kind, text, hsugar, rfl⟩ |
    ⟨kind, family, marker, ending, hdeclared, hopens, rfl⟩
  · obtain ⟨c, rest, htext, -, hc⟩ := hlaid.exists_sugar_eq_cons hsugar
    rw [htext] at hhead
    obtain rfl := Option.some.inj hhead
    exact hc hmem
  · exact hclear _ _ _ _ hdeclared hopens hhead

/-- No followed word begins with a delimiter if all are clear. -/
theorem head?_ne_of_mem_words (hclear : HasClearMarkers declarations) {form : LiteralForm K}
    (hform : form ∈ (Families.ofList declarations).1.literals) :
    ∀ word ∈ Content.words ⟨(Families.ofList declarations).1.sugars,
      (Families.ofList declarations).1.literals, markers⟩,
      word.head? ≠ some form.delimiter :=
  hlaid.head?_ne_of_isClear hform (hclear.isClear (mem_literals_iff.1 hform) (delimits_family form))

/-- Texts that begin neither like a word nor like a number or a literal are read
    as they were followed. -/
theorem read?_symbol {c : Char} {text : List Char}
    (hword : ¬((Families.ofList declarations).1.wordPlaceholder?.isSome ∧
      inRanges options.identifier.startRanges c))
    (hdigit : c.isDigit = false) (hdelimiter : c ∉ (Families.ofList declarations).1.delimiters) :
    drawing.read? .start (c :: text) = drawing.trace? .start (c :: text) := by
  refine hlaid.layout.read?_start hdelimiter ?_
  rw [hlaid.layout.next?_start, if_neg hword, Layout.digit_accepts, hdigit, if_neg (by simp)]

/-- A sugar is read to a node of its own, unless a word comes first. -/
theorem read?_sugar {kind : K} {text : String} (hsugar : (kind, .sugar text) ∈ declarations)
    (hword : ¬BeginsLikeWord declarations options text) :
    drawing.read? .start text.toList = some (.path text.toList) := by
  have htrace := hlaid.layout.sugars (kind, text) (mem_sugars_iff.2 hsugar)
  obtain ⟨c, rest, htext, hletter, hdelimiter⟩ := hlaid.exists_sugar_eq_cons hsugar
  rw [beginsLikeWord_iff hlaid.duplicates htext] at hword
  rw [htext] at htrace ⊢
  rw [hlaid.read?_symbol hword (isDigit_eq_false hletter) hdelimiter]
  exact htrace

/-- A marker is read to its node, unless a word or a literal comes first. -/
theorem read?_marker {marker : Marker K} (hmarker : marker ∈ markers)
    (hliteral : ¬BeginsLikeLiteral declarations (String.ofList marker.text))
    (hword : ¬BeginsLikeWord declarations options (String.ofList marker.text)) :
    drawing.read? .start marker.text = some marker.spot := by
  have htrace := hlaid.layout.markers marker hmarker
  obtain ⟨c, rest, htext, hletter⟩ := hlaid.exists_marker_eq_cons hmarker
  rw [htext] at htrace hliteral hword ⊢
  rw [beginsLikeLiteral_iff, String.toList_ofList, startsIn_cons] at hliteral
  rw [beginsLikeWord_iff hlaid.duplicates String.toList_ofList] at hword
  rw [hlaid.read?_symbol hword (isDigit_eq_false hletter) hliteral]
  exact htrace

/-- What begins like a word is read as one or not at all. -/
theorem read?_of_inRanges (hwords : (Families.ofList declarations).1.wordPlaceholder?.isSome)
    {c : Char} (hc : inRanges options.identifier.startRanges c = true) (text : List Char) :
    drawing.read? .start (c :: text) =
      if text.all (inRanges options.identifier.restRanges) then some .word else none := by
  rw [Drawing.read?, hlaid.layout.next?_start, if_pos ⟨hwords, hc⟩, Option.bind_some,
    hlaid.layout.read?_word hwords]

/-- A word is read to the node of words. -/
theorem read?_word (hwords : (Families.ofList declarations).1.wordPlaceholder?.isSome)
    {text : List Char} (haccepts : options.identifier.accepts text = true) :
    drawing.read? .start text = some .word := by
  cases text with
  | nil => cases haccepts
  | cons c text =>
    rw [IdentifierShape.accepts, Bool.and_eq_true] at haccepts
    rw [hlaid.read?_of_inRanges hwords haccepts.1, if_pos haccepts.2]

/-- What begins with the delimiter of a literal is read as this literal, if
    neither words nor comments begin with it. -/
theorem read?_delimiter {form : LiteralForm K}
    (hform : form ∈ (Families.ofList declarations).1.literals)
    (hstart : inRanges options.identifier.startRanges form.delimiter = false)
    (hclear : IsClear declarations form.delimiter) (text : List Char) :
    drawing.read? .start (form.delimiter :: text) = (form.run .opened text).map
      (.literal form.delimiter) := by
  have hmem : form.delimiter ∈ (Families.ofList declarations).1.delimiters :=
    List.mem_map_of_mem hform
  have hdigit := isDigit_eq_false (hlaid.isAlphanumeric_delimiter hmem)
  have hopened := hlaid.layout.opened form hform
  rw [Drawing.read?, hlaid.layout.next?_start, Layout.digit_accepts, hstart, hdigit,
    if_neg (by simp), if_neg (by simp), hopened, Option.bind_some]
  exact hlaid.layout.read?_literal hform (hlaid.head?_ne_of_isClear hform hclear) .opened text

section Separated

variable (hsep : IsSeparated declarations options)

include hsep

/-- A literal is read to the node where it is closed. -/
theorem read?_literal {form : LiteralForm K}
    (hform : form ∈ (Families.ofList declarations).1.literals) (text : List Char) :
    drawing.read? .start (form.delimiter :: text) = (form.run .opened text).map
      (.literal form.delimiter) := by
  have hdeclared := mem_literals_iff.1 hform
  have hdelimits := delimits_family form
  exact hlaid.read?_delimiter hform (hsep.delimiters _ _ _ hdeclared hdelimits)
    (hsep.hasClearMarkers.isClear hdeclared hdelimits) text

/-- What begins with a digit is read as a number. -/
theorem read?_number
    (hnumbers :
      ((Families.ofList declarations).1.int.or (Families.ofList declarations).1.double).isSome)
    {c : Char} (hc : c.isDigit) (text : List Char) :
    drawing.read? .start (c :: text) = drawing.read? .whole text := by
  rw [Drawing.read?, hlaid.layout.next?_start, Layout.digit_accepts, hsep.digits c hc, hc,
    if_neg (by simp), if_pos ⟨hnumbers, rfl⟩, Option.bind_some]

/-- Digits are read to the node of whole numbers. -/
theorem read?_digits
    (hnumbers :
      ((Families.ofList declarations).1.int.or (Families.ofList declarations).1.double).isSome)
    {text : List Char} (hne : text ≠ []) (hdigits : ∀ c ∈ text, c.isDigit) :
    drawing.read? .start text = some .whole := by
  cases text with
  | nil => exact absurd rfl hne
  | cons c text =>
    rw [hlaid.read?_number hsep hnumbers (hdigits c List.mem_cons_self)]
    exact hlaid.layout.read?_whole_digits hnumbers fun d hd => hdigits d (List.mem_cons_of_mem _ hd)

/-- A number with a fraction is read to the node of fractions. -/
theorem read?_double (hdouble : (Families.ofList declarations).1.double.isSome)
    {whole fraction : List Char} (hwhole : whole ≠ []) (hfraction : fraction ≠ [])
    (hdigits : ∀ c ∈ whole ++ fraction, c.isDigit) :
    drawing.read? .start (whole ++ options.decimalSeparator :: fraction) = some .fraction := by
  cases whole with
  | nil => exact absurd rfl hwhole
  | cons c whole =>
    rw [List.cons_append, hlaid.read?_number hsep (Layout.isSome_or_double hdouble)
      (hdigits c (by simp))]
    exact hlaid.layout.read?_whole_double hdouble hsep.separator hfraction fun d hd =>
      hdigits d (List.mem_cons_of_mem _ hd)

end Separated

/-- Nothing changes the tokens of numbers, sugars and comment markers. -/
theorem finish_plain (hplain : spot.IsPlain) (token : Token K) :
    drawing.finish spot token = .ok (some token) := by
  rw [Drawing.finish]
  cases hcallback : drawing.callback? spot with
  | none => rfl
  | some change =>
    cases (hlaid.layout.callback spot change).1 hcallback with
    | word => cases hplain
    | literal => cases hplain

/-- Words are told apart. -/
theorem finish_word (hwords : (Families.ofList declarations).1.wordPlaceholder?.isSome)
    (token : Token K) :
    drawing.finish .word token = (Families.ofList declarations).1.wordKind options token := by
  rw [Drawing.finish, (hlaid.layout.callback _ _).2 (.word hwords)]

/-- Literals are unescaped. -/
theorem finish_literal {form : LiteralForm K}
    (hform : form ∈ (Families.ofList declarations).1.literals) (token : Token K) :
    drawing.finish (.literal form.delimiter .closed) token =
      Families.unescaping form.delimiter form.escape token := by
  have hcallback := (hlaid.layout.callback _ _).2 (.literal hform)
  rw [Drawing.finish, hcallback]

/-- A literal between its delimiters can be cut and is unescaped. -/
theorem finish_quoted {form : LiteralForm K}
    (hform : form ∈ (Families.ofList declarations).1.literals) {token : Token K} {body : List Char}
    (hspan : token.span.toList = form.delimiter :: body ++ [form.delimiter]) :
    drawing.finish (.literal form.delimiter .closed) token =
      .ok (some { token with
        value := String.ofList
          (Literal.unescapeBody form.delimiter form.escape token.span.toList body) }) := by
  rw [hlaid.finish_literal hform, Families.unescaping_quoted form.escape hspan]

/-- The kind and the value of a token are all that is changed when it is found. -/
theorem finish_eq {token changed : Token K}
    (hfinish : drawing.finish spot token = .ok (some changed)) :
    ∃ kind value, changed = { token with kind, value } ∧
      ∀ position,
        drawing.finish spot { token with position } = .ok (some { changed with position }) := by
  rw [Drawing.finish] at hfinish
  simp only [Drawing.finish]
  cases hcallback : drawing.callback? spot with
  | none =>
    rw [hcallback] at hfinish
    obtain rfl := Option.some.inj (Except.ok.inj hfinish)
    exact ⟨token.kind, token.value, rfl, fun _ => rfl⟩
  | some change =>
    rw [hcallback] at hfinish
    cases (hlaid.layout.callback spot change).1 hcallback with
    | word =>
      obtain ⟨kind, hkind, rfl⟩ := Option.map_eq_some_iff.1 (Except.ok.inj hfinish)
      exact ⟨_, token.value, rfl, fun position =>
        congrArg _ (Option.map_eq_some_iff.2 ⟨kind, hkind, rfl⟩)⟩
    | literal =>
      obtain ⟨text, htext, hchanged⟩ := Families.unescaping_eq_ok_iff.1 hfinish
      obtain rfl := Option.some.inj hchanged
      exact ⟨token.kind, _, rfl, fun position => Families.unescaping_eq_ok_iff.2 ⟨text, htext, rfl⟩⟩

end FamilyLexer.IsLaidOut

end GrammarKit.Lexer
