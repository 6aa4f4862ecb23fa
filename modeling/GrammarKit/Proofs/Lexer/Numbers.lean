import GrammarKit.Proofs.Lexer.Literals

namespace GrammarKit

namespace Number

variable {c : Char} {whole fraction rest : List Char}

/-- What begins with a digit has no sign. -/
theorem splitSign_of_isDigit (hc : c.isDigit) (rest : List Char) :
    splitSign (c :: rest) = (false, c :: rest) := by
  rw [splitSign]
  · rintro _ ⟨⟩
    cases hc
  · rintro _ ⟨⟩
    cases hc

theorem toLower_of_isDigit (hc : c.isDigit) : c.toLower = c := by
  simp only [Char.isDigit, Bool.and_eq_true, decide_eq_true_eq, UInt32.le_iff_toNat_le, ge_iff_le]
    at hc
  have hnine : ('9' : Char).val.toNat < ('A' : Char).val.toNat := by decide
  have hupper : ¬(c.val ≥ 'A'.val ∧ c.val ≤ 'Z'.val) := by
    simp only [not_and, ge_iff_le, UInt32.le_iff_toNat_le]
    omega
  exact dif_neg hupper

/-- What begins with a digit is not a word. -/
theorem equalsIgnoringCase_of_isDigit (hc : c.isDigit) (rest : List Char) {word : String}
    {first : Char} (hword : word.toList.head? = some first) (hfirst : first.isDigit = false) :
    equalsIgnoringCase (c :: rest) word = false := by
  rw [equalsIgnoringCase, beq_eq_false_iff_ne]
  intro heq
  rw [← heq, List.map_cons, List.head?_cons, toLower_of_isDigit hc] at hword
  rw [← Option.some.inj hword, hc] at hfirst
  cases hfirst

/-- Digits in front of another character are taken. -/
theorem takeWhile_isDigit (hwhole : ∀ c ∈ whole, c.isDigit) (hc : c.isDigit = false) :
    (whole ++ c :: rest).takeWhile Char.isDigit = whole := by
  rw [List.takeWhile_append_of_pos hwhole, List.takeWhile_cons, hc]
  simp

/-- Digits in front of another character are dropped. -/
theorem dropWhile_isDigit (hwhole : ∀ c ∈ whole, c.isDigit) (hc : c.isDigit = false) :
    (whole ++ c :: rest).dropWhile Char.isDigit = c :: rest := by
  rw [List.dropWhile_append_of_pos hwhole, List.dropWhile_cons, hc]
  simp

/-- Of a text that begins with digits, what follows them tells how it is read. -/
theorem readBinary64?_of_digits (hne : whole ≠ []) (hwhole : ∀ c ∈ whole, c.isDigit)
    (hc : c.isDigit = false) :
    readBinary64? (String.ofList (whole ++ c :: rest)) =
      if c = '.' then (readExponent? (rest.dropWhile Char.isDigit)).map fun exponent =>
        .ofDecimal false (ofDigits (whole ++ rest.takeWhile Char.isDigit))
          (exponent - (rest.takeWhile Char.isDigit).length)
      else (readExponent? (c :: rest)).map fun exponent =>
        .ofDecimal false (ofDigits whole) exponent := by
  have htake : (whole ++ c :: rest).takeWhile Char.isDigit = whole := takeWhile_isDigit hwhole hc
  have hdrop : (whole ++ c :: rest).dropWhile Char.isDigit = c :: rest :=
    dropWhile_isDigit hwhole hc
  obtain ⟨d, digits, rfl⟩ := List.exists_cons_of_ne_nil hne
  have hd := hwhole d List.mem_cons_self
  have hinf : equalsIgnoringCase (d :: (digits ++ c :: rest)) "inf" = false :=
    equalsIgnoringCase_of_isDigit hd _ rfl rfl
  have hinfinity : equalsIgnoringCase (d :: (digits ++ c :: rest)) "infinity" = false :=
    equalsIgnoringCase_of_isDigit hd _ rfl rfl
  have hnan : equalsIgnoringCase (d :: (digits ++ c :: rest)) "nan" = false :=
    equalsIgnoringCase_of_isDigit hd _ rfl rfl
  rw [List.cons_append] at htake hdrop ⊢
  simp only [readBinary64?, String.toList_ofList, splitSign_of_isDigit hd, hinf, hinfinity,
    hnan, htake, hdrop]
  by_cases hpoint : c = '.'
  · subst hpoint
    simp
  · simp [hpoint]

/-- Digits behind a point are a fraction. -/
theorem readBinary64?_point (hne : whole ≠ []) (hdigits : ∀ c ∈ whole ++ fraction, c.isDigit) :
    readBinary64? (String.ofList (whole ++ '.' :: fraction)) =
      some (.ofDecimal false (ofDigits (whole ++ fraction)) (-fraction.length)) := by
  obtain ⟨hwhole, hfraction⟩ := List.forall_mem_append.1 hdigits
  rw [readBinary64?_of_digits hne hwhole rfl, if_pos rfl, List.takeWhile_eq_self_iff.2 hfraction,
    List.dropWhile_eq_nil_iff.2 hfraction, readExponent?, Option.map_some, Int.zero_sub]

/-- Digits behind another character than a point are an exponent, if they are anything. -/
theorem readBinary64?_exponent (hne : whole ≠ []) (hdigits : ∀ c ∈ whole ++ fraction, c.isDigit)
    (hfraction : fraction ≠ []) (hc : c.isDigit = false) (hpoint : c ≠ '.') :
    readBinary64? (String.ofList (whole ++ c :: fraction)) =
      if c = 'e' ∨ c = 'E' then some (.ofDecimal false (ofDigits whole) (ofDigits fraction))
      else none := by
  obtain ⟨hwhole, hrest⟩ := List.forall_mem_append.1 hdigits
  obtain ⟨d, digits, rfl⟩ := List.exists_cons_of_ne_nil hfraction
  have hall : (d :: digits).all Char.isDigit = true := List.all_eq_true.2 hrest
  rw [readBinary64?_of_digits hne hwhole hc, if_neg hpoint, readExponent?,
    splitSign_of_isDigit (hrest d List.mem_cons_self)]
  by_cases hmark : c = 'e' ∨ c = 'E'
  · simp [hmark, hall]
  · simp [hmark]

end Number

namespace Lexer

open Automaton

variable {K : Type}

namespace FamilyLexer

namespace IsLaidOut

variable {declarations : List (K × Family K)} {options : LexerOptions} {lexer : FamilyLexer K}
    {drawing : Drawing Spot K} {markers : List (Marker K)}
    (hlaid : IsLaidOut declarations options lexer drawing markers) {c : Char} {tail : List Char}
    {spot : Spot}

include hlaid

/-- Literals, sugars and comment markers begin with no digit. -/
theorem follow?_start_digit (hc : c.isDigit) : drawing.follow? .start c = none := by
  have hletter : Text.isAlphanumeric c ≠ false := fun hsymbol => by
    rw [isDigit_eq_false hsymbol] at hc
    cases hc
  cases hfollow : drawing.follow? .start c with
  | none => rfl
  | some target =>
    rcases hlaid.layout.heads c target (Drawing.mem_of_follow? hfollow) with hdelimiter |
      ⟨word, hword, hhead⟩
    · exact absurd (hlaid.isAlphanumeric_delimiter hdelimiter) hletter
    · rcases List.mem_append.1 hword with hfollowed | hfollowed
      · obtain ⟨⟨kind, text⟩, hsugar, rfl⟩ := List.mem_map.1 hfollowed
        obtain ⟨first, rest, htext, hsymbol, -⟩ :=
          hlaid.exists_sugar_eq_cons (mem_sugars_iff.1 hsugar)
        rw [htext] at hhead
        exact absurd (Option.some.inj hhead ▸ hsymbol) hletter
      · obtain ⟨marker, hmarker, rfl⟩ := List.mem_map.1 hfollowed
        obtain ⟨first, rest, htext, hsymbol⟩ := hlaid.exists_marker_eq_cons hmarker
        rw [htext] at hhead
        exact absurd (Option.some.inj hhead ▸ hsymbol) hletter

/-- What begins with a digit, and is no word, is read as a number. -/
theorem read?_of_isDigit (hc : c.isDigit)
    (hword : ¬((Families.ofList declarations).1.wordPlaceholder?.isSome ∧
      inRanges options.identifier.startRanges c))
    (hread : drawing.read? .start (c :: tail) = some spot) :
    drawing.read? .whole tail = some spot := by
  rw [Drawing.read?, hlaid.layout.next?_start, if_neg hword, Layout.digit_accepts, hc] at hread
  split at hread
  · exact hread
  · rw [hlaid.follow?_start_digit hc] at hread
    cases hread

/-- A token of digits, the separator and digits that is no word is a number with
    a fraction, and keeps its text. -/
theorem double_of_isFound (hseparator : options.decimalSeparator.isDigit = false) {token : Token K}
    (hfound : IsFound options drawing markers token)
    (hword : ¬BeginsLikeWord declarations options token.span) {whole fraction : List Char}
    (hspan : token.span.toList = whole ++ options.decimalSeparator :: fraction) (hne : whole ≠ [])
    (hdigits : ∀ c ∈ whole, c.isDigit) :
    (∃ kind, (kind, .double) ∈ declarations ∧ token.kind = some kind) ∧
    token.value = token.span := by
  obtain ⟨d, digits, rfl⟩ := List.exists_cons_of_ne_nil hne
  have hd := hdigits d List.mem_cons_self
  rw [beginsLikeWord_iff hlaid.duplicates hspan] at hword
  cases hfound with
  | comment htext _ hmarker hread =>
    obtain rfl := (List.cons.inj (hspan.symm.trans htext)).1
    have hopen := hlaid.isOpen_spot hmarker
    rcases hlaid.layout.read?_whole_cases (hlaid.read?_of_isDigit hd hword hread) with ⟨hspot, -⟩ |
      hspot | ⟨hspot, -⟩
    all_goals
      rw [hspot] at hopen
      cases hopen
  | @plain first tail spot found htext _ hread hkind hspot _ hfinish =>
    obtain ⟨rfl, rfl⟩ := List.cons.inj (hspan.symm.trans htext)
    rcases hlaid.layout.read?_whole_cases (hlaid.read?_of_isDigit hd hword hread) with
      ⟨-, hall⟩ | rfl | ⟨rfl, -, -⟩
    · rw [hall _ (by simp)] at hseparator
      cases hseparator
    · rw [hlaid.kind?_point] at hkind
      cases hkind
    · rw [hlaid.finish_plain .fraction] at hfinish
      have htoken := Option.some.inj (Except.ok.inj hfinish)
      exact ⟨⟨found, hlaid.double_of_kind?_fraction hkind, (congrArg Token.kind htoken).symm⟩,
        (congrArg Token.value htoken).symm⟩

end IsLaidOut

variable [DecidableEq K] [TokenKind K] {declarations : List (K × Family K)} {options : LexerOptions}
  {lexer : FamilyLexer K}

/-- What the value of a number with a fraction is for each decimal separator.
    With a point it is what is written. The mark of an exponent makes an
    exponent of the fraction, and with any other separator there is no value. -/
theorem doubleValue?_of_tokenize (hbuild : (build declarations options).value = some lexer)
    (hextensions : ¬HasExtensions declarations)
    (hseparator : options.decimalSeparator.isDigit = false) {source : String}
    {tokens : List (Token K)} (hok : lexer.tokenize source = .ok tokens) {token : Token K}
    (hmem : token ∈ tokens) (hword : ¬BeginsLikeWord declarations options token.span)
    {whole fraction : List Char}
    (hspan : token.span.toList = whole ++ options.decimalSeparator :: fraction)
    (hwhole : whole ≠ []) (hfraction : fraction ≠ [])
    (hdigits : ∀ c ∈ whole ++ fraction, c.isDigit) :
    (∃ kind, (kind, .double) ∈ declarations ∧ token.kind = some kind) ∧
      Number.readBinary64? (String.ofList (whole ++ '.' :: fraction)) =
        some (.ofDecimal false (Number.ofDigits (whole ++ fraction)) (-fraction.length)) ∧
      token.doubleValue? =
        if options.decimalSeparator = '.' then
          some (.ofDecimal false (Number.ofDigits (whole ++ fraction)) (-fraction.length))
        else if options.decimalSeparator = 'e' ∨ options.decimalSeparator = 'E' then
          some (.ofDecimal false (Number.ofDigits whole) (Number.ofDigits fraction))
        else none := by
  obtain ⟨drawing, markers, hlaid⟩ := exists_isLaidOut hbuild (extensions_eq_nil hextensions)
  have hfound := hlaid.isFound_of_mem hok hmem (by simp [hspan])
  obtain ⟨hkind, hvalue⟩ := hlaid.double_of_isFound hseparator hfound hword hspan hwhole
    (List.forall_mem_append.1 hdigits).1
  have hpoint := Number.readBinary64?_point hwhole hdigits
  refine ⟨hkind, hpoint, ?_⟩
  rw [Token.doubleValue?, hvalue, ← String.ofList_toList (s := token.span), hspan]
  by_cases hsame : options.decimalSeparator = '.'
  · rw [if_pos hsame, hsame, hpoint]
  · rw [if_neg hsame, Number.readBinary64?_exponent hwhole hdigits hfraction hseparator hsame]

end FamilyLexer

namespace Sample

def whole : Kind quoted := ⟨⟨1, by decide⟩⟩

def double : Kind quoted := ⟨⟨2, by decide⟩⟩

/-- Numbers without a fraction and with one. -/
def fractions : List (Kind quoted × Family (Kind quoted)) := [(whole, .int), (double, .double)]

/-- Fractions stand behind a comma. -/
def commas : LexerOptions := { decimalSeparator := ',' }

theorem isSome_build_fractions :
    (FamilyLexer.build fractions commas).value.isSome = true := by decide

def fractionLexer : FamilyLexer (Kind quoted) :=
  (FamilyLexer.build fractions commas).value.get isSome_build_fractions

theorem build_fractions_eq : (FamilyLexer.build fractions commas).value = some fractionLexer :=
  (Option.some_get isSome_build_fractions).symm

theorem not_hasExtensions_fractions : ¬HasExtensions fractions := by
  rintro ⟨kind, extension, hmem⟩
  simp [fractions] at hmem

def oneAndHalf : Token (Kind quoted) := .ofSpan double "1,5" .start

theorem not_beginsLikeWord_oneAndHalf : ¬BeginsLikeWord fractions commas oneAndHalf.span := by
  rintro ⟨⟨kind, family, hmem, hword⟩, -⟩
  cases hword <;> simp [fractions] at hmem

theorem isDigit_oneAndHalf : ∀ c ∈ ['1'] ++ ['5'], c.isDigit := by
  simp only [List.singleton_append, List.forall_mem_cons]
  exact ⟨rfl, rfl, nofun⟩

theorem tokenize_oneAndHalf :
    fractionLexer.tokenize "1,5" = .ok [oneAndHalf, .endOfStream ⟨3, 0, 3⟩] := by
  have hrun : fractionLexer.automaton.run (.atStart "1,5".toList) =
      (.success oneAndHalf 3 "1,5".toList, ⟨⟨3, 0, 3⟩, []⟩) := rfl
  exact congrArg (Except.map withEndOfStream) (FamilyLexer.tokensFrom_single hrun rfl nofun)

end Sample

theorem doubleValue?_of_tokenize_fractions :
    (FamilyLexer.build Sample.fractions Sample.commas).value = some Sample.fractionLexer ∧
      ¬HasExtensions Sample.fractions ∧ Sample.commas.decimalSeparator.isDigit = false ∧
      Sample.fractionLexer.tokenize "1,5" = .ok [Sample.oneAndHalf, .endOfStream ⟨3, 0, 3⟩] ∧
      ¬BeginsLikeWord Sample.fractions Sample.commas Sample.oneAndHalf.span ∧
      Number.readBinary64? "1.5" = some (.ofDecimal false 15 (-1)) ∧
      Sample.oneAndHalf.doubleValue? = none := by
  obtain ⟨-, hpoint, hvalue⟩ := FamilyLexer.doubleValue?_of_tokenize Sample.build_fractions_eq
    Sample.not_hasExtensions_fractions rfl Sample.tokenize_oneAndHalf List.mem_cons_self
    Sample.not_beginsLikeWord_oneAndHalf rfl (List.cons_ne_nil _ _) (List.cons_ne_nil _ _)
    Sample.isDigit_oneAndHalf
  exact ⟨Sample.build_fractions_eq, Sample.not_hasExtensions_fractions, rfl,
    Sample.tokenize_oneAndHalf, Sample.not_beginsLikeWord_oneAndHalf, hpoint, hvalue⟩

/-- Numbers are found with the separator of the options, but do not have the
    value that they have with a point. -/
theorem not_forall_doubleValue?_eq_point :
    ¬∀ declarations options (lexer : FamilyLexer (Kind Sample.quoted)),
      (FamilyLexer.build declarations options).value = some lexer → ¬HasExtensions declarations →
        options.decimalSeparator.isDigit = false → ∀ source tokens,
          lexer.tokenize source = .ok tokens → ∀ token ∈ tokens,
          ¬BeginsLikeWord declarations options token.span → ∀ whole fraction : List Char,
            token.span.toList = whole ++ options.decimalSeparator :: fraction → whole ≠ [] →
              fraction ≠ [] →
              (∀ c ∈ whole ++ fraction, c.isDigit) → ∃ value, token.doubleValue? = some value ∧
                Number.readBinary64? (String.ofList (whole ++ '.' :: fraction)) = some value := by
  intro hall
  obtain ⟨value, hvalue, -⟩ := hall _ _ _ Sample.build_fractions_eq
    Sample.not_hasExtensions_fractions rfl "1,5" _ Sample.tokenize_oneAndHalf Sample.oneAndHalf
    List.mem_cons_self Sample.not_beginsLikeWord_oneAndHalf ['1'] ['5'] rfl
    (List.cons_ne_nil _ _) (List.cons_ne_nil _ _) Sample.isDigit_oneAndHalf
  have hnone : Sample.oneAndHalf.doubleValue? = none := by decide
  rw [hnone] at hvalue
  cases hvalue

end Lexer

end GrammarKit
