import GrammarKit.Proofs.Lexer.Literals

namespace GrammarKit

namespace Literal

variable {delimiter escape c : Char}

/-- A character that is no escape stands for itself. -/
theorem unescapeBody_plain (hc : c ≠ escape) :
    unescapeBody delimiter escape [delimiter, c, delimiter] [c] = [delimiter, c, delimiter] := by
  simp [unescapeBody, hasDoubled, hc.symm]

/-- A character behind the escape character stands for itself. -/
theorem unescapeBody_escaped (c : Char) (hescape : escape ≠ delimiter) :
    unescapeBody delimiter escape [delimiter, escape, c, delimiter] [escape, c] =
      [delimiter, c, delimiter] := by
  simp [unescapeBody, hescape, dropEscapes]

/-- A delimiter that escapes itself stands for one. -/
theorem unescapeBody_doubled (delimiter : Char) :
    unescapeBody delimiter delimiter [delimiter, delimiter, delimiter, delimiter]
      [delimiter, delimiter] =
      [delimiter, delimiter, delimiter] := by
  simp [unescapeBody, hasDoubled, collapseDoubled]

/-- A delimiter in front of another character is no escape. -/
theorem unescapeBody_undoubled (hc : c ≠ delimiter) :
    unescapeBody delimiter delimiter [delimiter, delimiter, c, delimiter] [delimiter, c] =
      [delimiter, delimiter, c, delimiter] := by
  simp [unescapeBody, hasDoubled, hc]

end Literal

namespace Token

variable {K : Type} {token : Token K} {first c d last : Char}

/-- The value of a literal with one character inside is this character. -/
theorem charValue?_eq_some (hvalue : token.value = String.ofList [first, c, last]) :
    token.charValue? = some c := by
  rw [charValue?, unquotedChars, hvalue, String.toList_ofList]
  rfl

/-- A literal with two characters inside has no value. -/
theorem charValue?_eq_none (hvalue : token.value = String.ofList [first, c, d, last]) :
    token.charValue? = none := by
  rw [charValue?, unquotedChars, hvalue, String.toList_ofList]
  rfl

end Token

namespace Lexer

open Automaton

variable {K : Type}

namespace Layout

variable {families : Families K} {options : LexerOptions} {content : Content K}
    {drawing : Drawing Spot K}

/-- A word that is followed leads to its own nodes once it has left those of others. -/
theorem exists_path_of_read? (hlayout : Layout families options content drawing)
    {path text : List Char} (hne : path ≠ []) {spot : Spot}
    (hread : drawing.read? (.path path) text = some spot) :
    ∃ longer, spot = .path longer ∧ longer.head? = path.head? := by
  induction text generalizing path with
  | nil => exact ⟨path, (Option.some.inj hread).symm, rfl⟩
  | cons c text ih =>
    rw [Drawing.read?, hlayout.next?_path hne] at hread
    obtain ⟨target, hfollow, hread⟩ := Option.bind_eq_some_iff.1 hread
    have harrow := Drawing.mem_of_follow? hfollow
    obtain ⟨next, rfl⟩ := hlayout.branches.onward _ harrow path rfl hne
    have hhead : next.head? = path.head? := by
      have hleads := (hlayout.branches.leads _ harrow c rfl (.path path)).2
      rwa [Spot.head?, Spot.head?, Option.or_of_isSome (List.isSome_head?.2 hne)] at hleads
    have hnext : next ≠ [] := by
      rwa [← List.isSome_head?, hhead, List.isSome_head?]
    obtain ⟨longer, rfl, hlonger⟩ := ih hnext hread
    exact ⟨longer, rfl, hlonger.trans hhead⟩

variable {form : LiteralForm K}

/-- A character inside a literal belongs to it, or to a comment marker that
    begins with its delimiter. -/
theorem next?_literal_cases (hlayout : Layout families options content drawing)
    (hform : form ∈ content.literals) {phase : Phase} {c : Char} {target : Spot}
    (hnext : drawing.next? (.literal form.delimiter phase) c = some target) :
    (∃ next, form.step phase c = some next ∧ target = .literal form.delimiter next) ∨
      ∃ path, target = .path path ∧ path.head? = some form.delimiter := by
  obtain ⟨twigs, htwigs, hall⟩ := hlayout.inside form hform phase
  have hown := form.find?_addition phase c
  rw [Drawing.next?, htwigs, List.find?_append, Option.map_or, hown] at hnext
  cases hstep : form.step phase c with
  | some next =>
    rw [hstep] at hnext
    exact Or.inl ⟨next, rfl, (Option.some.inj hnext).symm⟩
  | none =>
    rw [hstep, Option.map_none, Option.none_or] at hnext
    obtain ⟨twig, hfind, rfl⟩ := Option.map_eq_some_iff.1 hnext
    have htwig := List.mem_of_find?_eq_some hfind
    obtain ⟨word, -, htwigOf⟩ := hall twig htwig
    obtain ⟨d, -, hd⟩ := htwigOf.single
    obtain ⟨path, hpath⟩ := htwigOf.isPath
    obtain ⟨harrow, hsource⟩ := List.mem_filter.1 (htwigs ▸ List.mem_append_right _ htwig)
    have hleads := (hlayout.branches.leads twig harrow d hd htwigOf.isOpen).2
    rw [of_decide_eq_true hsource, hpath] at hleads
    exact Or.inr ⟨path, hpath, hleads⟩

/-- From inside a literal, a scan comes to a node of the literal, as far as it
    has come there, or to one of a marker. -/
theorem read?_literal_cases (hlayout : Layout families options content drawing)
    (hform : form ∈ content.literals) {phase : Phase} {text : List Char} {spot : Spot}
    (hread : drawing.read? (.literal form.delimiter phase) text = some spot) :
    (∃ last, form.run phase text = some last ∧ spot = .literal form.delimiter last) ∨
      ∃ path, spot = .path path ∧ path.head? = some form.delimiter := by
  induction text generalizing phase with
  | nil => exact Or.inl ⟨phase, rfl, (Option.some.inj hread).symm⟩
  | cons c text ih =>
    obtain ⟨target, hnext, hread⟩ := Option.bind_eq_some_iff.1 hread
    rcases hlayout.next?_literal_cases hform hnext with ⟨next, hstep, rfl⟩ | ⟨path, rfl, hhead⟩
    · rcases ih hread with ⟨last, hrun, rfl⟩ | hpath
      · exact Or.inl ⟨last, by rw [LiteralForm.run, hstep, Option.bind_some, hrun], rfl⟩
      · exact Or.inr hpath
    · have hne : path ≠ [] := List.isSome_head?.1 (Option.isSome_of_eq_some hhead)
      obtain ⟨longer, rfl, hlonger⟩ := hlayout.exists_path_of_read? hne hread
      exact Or.inr ⟨longer, rfl, hlonger.trans hhead⟩

end Layout

/-- Whether a token was read as a literal with this delimiter, and neither as a
    word, since words come first where both begin, nor as a comment whose marker
    begins with the delimiter. -/
structure IsReadAsLiteral (declarations : List (K × Family K)) (options : LexerOptions)
    (delimiter : Char) (token : Token K) :
    Prop where
  head : token.span.toList.head? = some delimiter
  noWord : ¬BeginsLikeWord declarations options token.span
  noComment : token.comment = none

namespace FamilyLexer

namespace IsLaidOut

variable {declarations : List (K × Family K)} {options : LexerOptions} {lexer : FamilyLexer K}
    {drawing : Drawing Spot K} {markers : List (Marker K)}
    (hlaid : IsLaidOut declarations options lexer drawing markers) {form : LiteralForm K}
    (hform : form ∈ (Families.ofList declarations).1.literals)

include hlaid hform

/-- A delimiter belongs to one literal. -/
theorem eq_of_delimiter_eq {other : LiteralForm K}
    (hother : other ∈ (Families.ofList declarations).1.literals)
    (hsame : other.delimiter = form.delimiter) : other = form := by
  have hnodup := hlaid.sound.nodup_delimiters
  rw [← Families.delimiters_eq] at hnodup
  exact List.inj_on_of_nodup_map hnodup hother hform hsame

/-- Where a literal has begun, no scan ends but where it is closed, or where a
    comment begins. -/
theorem eq_closed_of_kind? {tail : List Char} {spot : Spot} {found : K}
    (hread : drawing.read? (.literal form.delimiter .opened) tail = some spot)
    (hkind : drawing.kind? spot = some found) (hspot : ∀ marker ∈ markers, marker.spot ≠ spot) :
    spot = .literal form.delimiter .closed ∧ found = form.kind ∧
    form.run .opened tail = some .closed := by
  rcases hlaid.layout.read?_literal_cases hform hread with ⟨last, hrun, rfl⟩ | ⟨path, rfl, hhead⟩
  · generalize hliteral : Spot.literal form.delimiter last = spot at hkind hspot
    cases (hlaid.layout.kind _ _).1 hkind with
    | @literal other hother =>
      obtain ⟨hsame, rfl⟩ := Spot.literal.inj hliteral
      obtain rfl := hlaid.eq_of_delimiter_eq hform hother hsame.symm
      exact ⟨rfl, rfl, hrun⟩
    | marker hmarker => exact absurd rfl (hspot _ hmarker)
    | _ => cases hliteral
  · generalize hpath : Spot.path path = spot at hkind hspot
    cases (hlaid.layout.kind _ _).1 hkind with
    | sugar hsugar =>
      -- A sugar begins with no delimiter.
      obtain ⟨c, rest, htext, -, hc⟩ := hlaid.exists_sugar_eq_cons (mem_sugars_iff.1 hsugar)
      rw [Spot.path.inj hpath, htext] at hhead
      obtain rfl := Option.some.inj hhead
      exact absurd (List.mem_map_of_mem hform) hc
    | marker hmarker => exact absurd rfl (hspot _ hmarker)
    | _ => cases hpath

/-- A token that was read as a literal is one, and its value is unescaped. -/
theorem exists_body_of_isFound {token : Token K} (hfound : IsFound options drawing markers token)
    (hliteral : IsReadAsLiteral declarations options form.delimiter token) :
    token.kind = some form.kind ∧ ∃ body, form.IsBody body ∧
      token.span.toList = form.delimiter :: body ++ [form.delimiter] ∧
      token.value = String.ofList (Literal.unescapeBody form.delimiter form.escape
        token.span.toList body) := by
  cases hfound with
  | comment _ _ _ _ hsome =>
    rw [hliteral.noComment] at hsome
    cases hsome
  | @plain c tail spot found hspan _ hread hkind hspot _ hfinish =>
    have hhead := hliteral.head
    rw [hspan] at hhead
    obtain rfl : c = form.delimiter := Option.some.inj hhead
    have hdigit := isDigit_eq_false (hlaid.isAlphanumeric_delimiter (List.mem_map_of_mem hform))
    have hword := hliteral.noWord
    rw [beginsLikeWord_iff hlaid.duplicates hspan] at hword
    rw [Drawing.read?, hlaid.layout.next?_start, if_neg hword, Layout.digit_accepts, hdigit,
      if_neg (by simp), hlaid.layout.opened form hform, Option.bind_some] at hread
    obtain ⟨rfl, rfl, hrun⟩ := hlaid.eq_closed_of_kind? hform hread hkind hspot
    obtain ⟨body, hbody, rfl⟩ := form.run_eq_closed_iff.1 hrun
    rw [hlaid.finish_quoted hform (show (Token.ofSpan _ token.span token.position).span.toList =
      _ from hspan)] at hfinish
    have htoken := Option.some.inj (Except.ok.inj hfinish)
    exact ⟨(congrArg Token.kind htoken).symm, body, hbody, hspan,
      (congrArg Token.value htoken).symm⟩

end IsLaidOut

variable [DecidableEq K] [TokenKind K] {declarations : List (K × Family K)} {options : LexerOptions}
  {lexer : FamilyLexer K}

/-- A character literal has the character between its delimiters as its value,
    or the one behind the escape character, unless the delimiter escapes itself
    and another character stands behind it. Then it has none. -/
theorem charValue?_of_tokenize (hbuild : (build declarations options).value = some lexer)
    (hextensions : ¬HasExtensions declarations) {kind : K} {delimiter escape : Char}
    (hdeclared : (kind, .char delimiter escape) ∈ declarations) {source : String}
    {tokens : List (Token K)} (hok : lexer.tokenize source = .ok tokens) {token : Token K}
    (hmem : token ∈ tokens) (hliteral : IsReadAsLiteral declarations options delimiter token) :
    token.kind = some kind ∧
      ((∃ c, c ≠ delimiter ∧ c ≠ escape ∧ token.span.toList = [delimiter, c, delimiter] ∧
        token.charValue? = some c) ∨
        ∃ c, token.span.toList = [delimiter, escape, c, delimiter] ∧
          token.charValue? = if escape = delimiter ∧ c ≠ delimiter then none else some c) := by
  obtain ⟨drawing, markers, hlaid⟩ := exists_isLaidOut hbuild (extensions_eq_nil hextensions)
  have hne : token.span.toList ≠ [] := List.isSome_head?.1 (Option.isSome_of_eq_some hliteral.head)
  have hform : ⟨false, kind, delimiter, escape⟩ ∈ (Families.ofList declarations).1.literals :=
    mem_literals_iff.2 hdeclared
  obtain ⟨hkind, body, hbody, hspan, hvalue⟩ :=
    hlaid.exists_body_of_isFound hform (hlaid.isFound_of_mem hok hmem hne) hliteral
  rw [hspan] at hvalue ⊢
  refine ⟨hkind, ?_⟩
  cases (show CharBody delimiter escape body from hbody) with
  | @plain c hdelimiter hescape =>
    have hplain := hvalue.trans (congrArg _ (Literal.unescapeBody_plain hescape))
    exact Or.inl ⟨c, hdelimiter, hescape, rfl, Token.charValue?_eq_some hplain⟩
  | escaped c =>
    refine Or.inr ⟨c, rfl, ?_⟩
    by_cases hsame : escape = delimiter
    · subst hsame
      by_cases hc : c = escape
      · subst hc
        rw [if_neg (by simp)]
        exact Token.charValue?_eq_some (hvalue.trans (congrArg _ (Literal.unescapeBody_doubled c)))
      · rw [if_pos ⟨rfl, hc⟩]
        exact Token.charValue?_eq_none
          (hvalue.trans (congrArg _ (Literal.unescapeBody_undoubled hc)))
    · rw [if_neg (by simp [hsame])]
      exact Token.charValue?_eq_some
        (hvalue.trans (congrArg _ (Literal.unescapeBody_escaped c hsame)))

end FamilyLexer

namespace Sample

/-- Character literals whose delimiter escapes itself. -/
def letters : List (Kind quoted × Family (Kind quoted)) := [(text, .char '$' '$')]

theorem isSome_build_letters : (FamilyLexer.build letters {}).value.isSome = true := by decide

def letterLexer : FamilyLexer (Kind quoted) :=
  (FamilyLexer.build letters {}).value.get isSome_build_letters

theorem build_letters_eq : (FamilyLexer.build letters {}).value = some letterLexer :=
  (Option.some_get isSome_build_letters).symm

theorem not_hasExtensions_letters : ¬HasExtensions letters := by
  rintro ⟨kind, extension, hmem⟩
  simp [letters] at hmem

theorem isReadAsLiteral_letter {token : Token (Kind quoted)}
    (hhead : token.span.toList.head? = some '$') (hcomment : token.comment = none) :
    IsReadAsLiteral letters {} '$' token where
  head := hhead
  noWord := by
    rintro ⟨⟨kind, family, hmem, hword⟩, -⟩
    cases hword <;> simp [letters] at hmem
  noComment := hcomment

/-- A doubled delimiter. -/
def doubled : Token (Kind quoted) := { Token.ofSpan text "$$$$" .start with value := "$$$" }

/-- A delimiter in front of another character. -/
def undoubled : Token (Kind quoted) := .ofSpan text "$$a$" .start

theorem tokenize_letter {source : String} {token : Token (Kind quoted)}
    (hrun : letterLexer.automaton.run (.atStart source.toList) =
      (.success token 3 source.toList, ⟨⟨4, 0, 4⟩, []⟩)) :
    letterLexer.tokenize source = .ok [token, .endOfStream (endPosition [token])] :=
  congrArg (Except.map withEndOfStream) (FamilyLexer.tokensFrom_single hrun rfl nofun)

theorem tokenize_doubled :
    letterLexer.tokenize "$$$$" = .ok [doubled, .endOfStream ⟨4, 0, 4⟩] := tokenize_letter rfl

theorem tokenize_undoubled :
    letterLexer.tokenize "$$a$" = .ok [undoubled, .endOfStream ⟨4, 0, 4⟩] := tokenize_letter rfl

end Sample

theorem charValue?_of_tokenize_letters :
    (FamilyLexer.build Sample.letters {}).value = some Sample.letterLexer ∧
      ¬HasExtensions Sample.letters ∧
      (Sample.text, .char '$' '$') ∈ Sample.letters ∧
      Sample.letterLexer.tokenize "$$$$" = .ok [Sample.doubled, .endOfStream ⟨4, 0, 4⟩] ∧
      IsReadAsLiteral Sample.letters {} '$' Sample.doubled ∧
      Sample.doubled.charValue? = some '$' := by
  have hdeclared : (Sample.text, Family.char '$' '$') ∈ Sample.letters := List.mem_singleton_self _
  have hliteral : IsReadAsLiteral Sample.letters {} '$' Sample.doubled :=
    Sample.isReadAsLiteral_letter rfl rfl
  refine ⟨Sample.build_letters_eq, Sample.not_hasExtensions_letters, hdeclared,
    Sample.tokenize_doubled, hliteral, ?_⟩
  obtain ⟨-, ⟨c, -, -, hspan, -⟩ | ⟨c, hspan, hvalue⟩⟩ :=
    FamilyLexer.charValue?_of_tokenize Sample.build_letters_eq Sample.not_hasExtensions_letters
    hdeclared Sample.tokenize_doubled List.mem_cons_self hliteral
  · cases hspan
  · cases hspan
    exact hvalue

/-- With a delimiter that escapes itself there are literals without a value. -/
theorem not_forall_charValue?_eq_some :
    ¬∀ declarations options (lexer : FamilyLexer (Kind Sample.quoted)),
      (FamilyLexer.build declarations options).value = some lexer → ¬HasExtensions declarations →
        ∀ kind delimiter escape, (kind, .char delimiter escape) ∈ declarations → ∀ source tokens,
          lexer.tokenize source = .ok tokens →
            ∀ token ∈ tokens, IsReadAsLiteral declarations options delimiter token →
            ∃ c, token.charValue? = some c ∧ (token.span.toList = [delimiter, c, delimiter] ∨
              token.span.toList = [delimiter, escape, c, delimiter]) := by
  intro hall
  obtain ⟨c, hvalue, -⟩ := hall _ _ _ Sample.build_letters_eq Sample.not_hasExtensions_letters
    Sample.text '$' '$' (List.mem_singleton_self _) "$$a$" _ Sample.tokenize_undoubled
    Sample.undoubled List.mem_cons_self
    (Sample.isReadAsLiteral_letter rfl rfl)
  have hnone : Sample.undoubled.charValue? = none := by decide
  rw [hnone] at hvalue
  cases hvalue

end Lexer

end GrammarKit
