import GrammarKit.Proofs.Lexer.Steps

namespace GrammarKit.Lexer

variable {K : Type}

namespace Family

/-- The delimiter of a literal. -/
inductive Delimits : Family K → Char → Prop
  | string (delimiter escape : Char) : Delimits (.string delimiter escape) delimiter
  | char (delimiter escape : Char) : Delimits (.char delimiter escape) delimiter

/-- A start marker of a comment, and where such a comment ends. -/
inductive Opens : Family K → String → CommentEnd → Prop
  | single (marker : String) (multi : Option (String × String)) :
      Opens (.comment (some marker) multi) marker .endOfLine
  | multi (single : Option String) (marker last : String) :
      Opens (.comment single (some (marker, last))) marker (.marker last)

/-- Whether words are declared: identifiers, or a keyword. -/
inductive IsWord : Family K → Prop
  | identifier : IsWord .identifier
  | keyword (word : String) : IsWord (.keyword word)

end Family

/-- The inside of a string. When the delimiter escapes itself, it stands there
    only twice in a row. -/
inductive StringBody (delimiter escape : Char) : List Char → Prop
  | nil : StringBody delimiter escape []
  | plain {c : Char} {body : List Char} (hdelimiter : c ≠ delimiter) (hescape : c ≠ escape)
      (hbody : StringBody delimiter escape body) : StringBody delimiter escape (c :: body)
  | escaped {c : Char} {body : List Char} (hdoubled : escape = delimiter → c = delimiter)
      (hbody : StringBody delimiter escape body) : StringBody delimiter escape (escape :: c :: body)

/-- The inside of a character literal. -/
inductive CharBody (delimiter escape : Char) : List Char → Prop
  | plain {c : Char} (hdelimiter : c ≠ delimiter) (hescape : c ≠ escape) :
      CharBody delimiter escape [c]
  | escaped (c : Char) : CharBody delimiter escape [escape, c]

/-- The kind of a word. It is that of the last keyword declared with this text,
    else that of identifiers, if there are any. -/
inductive WordKind (declarations : List (K × Family K)) (options : LexerOptions) (word : String) :
    Option K → Prop
  | keyword {before after : List (K × Family K)} {kind : K} {spelled : String}
      (hdeclared : declarations = before ++ (kind, .keyword spelled) :: after)
      (halike : Families.foldCase options spelled = Families.foldCase options word)
      (hlast : ∀ later other, (later, Family.keyword other) ∈ after →
        Families.foldCase options other ≠ Families.foldCase options word) :
      WordKind declarations options word (some kind)
  | identifier {kind : K} (hdeclared : (kind, Family.identifier) ∈ declarations)
      (hother : ∀ later other, (later, Family.keyword other) ∈ declarations →
        Families.foldCase options other ≠ Families.foldCase options word) :
      WordKind declarations options word (some kind)
  | unknown (hnone : ∀ kind, (kind, Family.identifier) ∉ declarations)
      (hother : ∀ later other, (later, Family.keyword other) ∈ declarations →
        Families.foldCase options other ≠ Families.foldCase options word) :
      WordKind declarations options word none

/-- The lexemes of declarations and their kinds, told without an automaton. A
    word that is neither a keyword nor an identifier has none. -/
inductive IsLexeme (declarations : List (K × Family K)) (options : LexerOptions) :
    List Char → Option K → Prop
  | word {declared : K} {family : Family K} {text : List Char} {kind : Option K}
      (hdeclared : (declared, family) ∈ declarations) (hword : family.IsWord)
      (haccepts : options.identifier.accepts text = true)
      (hkind : WordKind declarations options (String.ofList text) kind) :
      IsLexeme declarations options text kind
  | int {kind : K} {text : List Char} (hint : (kind, .int) ∈ declarations) (hne : text ≠ [])
      (hdigits : ∀ c ∈ text, c.isDigit) : IsLexeme declarations options text (some kind)
  | whole {kind : K} {text : List Char} (hdouble : (kind, .double) ∈ declarations)
      (hint : ∀ kind, (kind, .int) ∉ declarations) (hne : text ≠ [])
      (hdigits : ∀ c ∈ text, c.isDigit) : IsLexeme declarations options text (some kind)
  | double {kind : K} {whole fraction : List Char} (hdouble : (kind, .double) ∈ declarations)
      (hwhole : whole ≠ []) (hfraction : fraction ≠ [])
      (hdigits : ∀ c ∈ whole ++ fraction, c.isDigit) :
      IsLexeme declarations options (whole ++ options.decimalSeparator :: fraction) (some kind)
  | sugar {kind : K} {text : String} (hsugar : (kind, .sugar text) ∈ declarations) :
      IsLexeme declarations options text.toList (some kind)
  | comment {kind : K} {family : Family K} {marker : String} {ending : CommentEnd}
      (hdeclared : (kind, family) ∈ declarations) (hopens : family.Opens marker ending) :
      IsLexeme declarations options marker.toList (some kind)
  | string {kind : K} {delimiter escape : Char} {body : List Char}
      (hdeclared : (kind, .string delimiter escape) ∈ declarations)
      (hbody : StringBody delimiter escape body) : IsLexeme declarations options
      (delimiter :: body ++ [delimiter]) (some kind)
  | char {kind : K} {delimiter escape : Char} {body : List Char}
      (hdeclared : (kind, .char delimiter escape) ∈ declarations)
      (hbody : CharBody delimiter escape body) : IsLexeme declarations options
      (delimiter :: body ++ [delimiter]) (some kind)

/-- Whether the families can be told apart by how their lexemes begin. -/
structure IsSeparated (declarations : List (K × Family K)) (options : LexerOptions) : Prop where
  digits : ∀ c : Char, c.isDigit → inRanges options.identifier.startRanges c = false
  delimiters : ∀ kind family delimiter, (kind, family) ∈ declarations → family.Delimits delimiter →
    inRanges options.identifier.startRanges delimiter = false
  sugars : ∀ kind text c, (kind, Family.sugar text) ∈ declarations → c ∈ text.toList.head? →
    inRanges options.identifier.startRanges c = false
  markers : ∀ kind family marker ending c, (kind, family) ∈ declarations →
    family.Opens marker ending →
    c ∈ marker.toList.head? → inRanges options.identifier.startRanges c = false
  clear : ∀ kind family marker ending other literal delimiter, (kind, family) ∈ declarations →
    family.Opens marker ending → (other, literal) ∈ declarations → literal.Delimits delimiter →
    marker.toList.head? ≠ some delimiter
  separator : options.decimalSeparator.isDigit = false

/-- Declarations that extend a lexer by edges of their own. -/
def HasExtensions (declarations : List (K × Family K)) : Prop :=
  ∃ kind extension, (kind, Family.extension extension) ∈ declarations

/-- Whether a text begins with a character that is not ignored. -/
def IsVisible (options : LexerOptions) (text : String) : Prop :=
  ∀ c ∈ text.toList.head?, options.blanks.ignores c = false

/-- Whether words are declared and a text begins like one. -/
def BeginsLikeWord (declarations : List (K × Family K)) (options : LexerOptions) (text : String) :
    Prop :=
  (∃ kind family, (kind, family) ∈ declarations ∧ family.IsWord) ∧
    ∃ c ∈ text.toList.head?, inRanges options.identifier.startRanges c = true

/-- Whether a text begins with the delimiter of a literal. -/
def BeginsLikeLiteral (declarations : List (K × Family K)) (text : String) : Prop :=
  ∃ kind family delimiter, (kind, family) ∈ declarations ∧ family.Delimits delimiter ∧
    text.toList.head? = some delimiter

/-- Whether no comment marker begins with the delimiter of a literal. -/
def HasClearMarkers (declarations : List (K × Family K)) : Prop :=
  ∀ kind family marker ending, (kind, family) ∈ declarations → family.Opens marker ending →
    ¬BeginsLikeLiteral declarations marker

/-- Whether no comment marker begins with a character. -/
def IsClear (declarations : List (K × Family K)) (c : Char) : Prop :=
  ∀ kind family marker ending, (kind, family) ∈ declarations → family.Opens marker ending →
    marker.toList.head? ≠ some c

/-- Delimiters of literals are clear if no comment marker begins with one. -/
theorem HasClearMarkers.isClear {declarations : List (K × Family K)}
    (hclear : HasClearMarkers declarations) {kind : K} {family : Family K} {delimiter : Char}
    (hdeclared : (kind, family) ∈ declarations) (hdelimits : family.Delimits delimiter) :
    IsClear declarations delimiter :=
  fun _ _ _ _ hcomment hopens hhead => hclear _ _ _ _ hcomment hopens ⟨kind, family, delimiter,
    hdeclared, hdelimits, hhead⟩

namespace IsSeparated

variable {declarations : List (K × Family K)} {options : LexerOptions}
    (hsep : IsSeparated declarations options)

include hsep

/-- No comment marker begins like a literal. -/
theorem hasClearMarkers : HasClearMarkers declarations := by
  rintro kind family marker ending hdeclared hopens ⟨other, literal, delimiter, hliteral,
    hdelimits, hhead⟩
  exact hsep.clear _ _ _ _ _ _ _ hdeclared hopens hliteral hdelimits hhead

/-- No sugar begins like a word. -/
theorem not_beginsLikeWord_sugar {kind : K} {text : String}
    (hsugar : (kind, Family.sugar text) ∈ declarations) :
    ¬BeginsLikeWord declarations options text := by
  rintro ⟨-, c, hc, hstart⟩
  rw [hsep.sugars _ _ _ hsugar hc] at hstart
  cases hstart

/-- No comment marker begins like a word. -/
theorem not_beginsLikeWord_marker {kind : K} {family : Family K} {marker : String}
    {ending : CommentEnd} (hdeclared : (kind, family) ∈ declarations)
    (hopens : family.Opens marker ending) :
    ¬BeginsLikeWord declarations options marker := by
  rintro ⟨-, c, hc, hstart⟩
  rw [hsep.markers _ _ _ _ _ hdeclared hopens hc] at hstart
  cases hstart

end IsSeparated

section Sorted

variable {declarations : List (K × Family K)} {options : LexerOptions}

/-- Sorting keeps all declarations of each family, in their order. -/
theorem sorted_eq (declarations : List (K × Family K)) :
    (Families.ofList declarations).1.keywords = declarations.filterMap Family.keyword? ∧
      (Families.ofList declarations).1.sugars = declarations.filterMap Family.sugar? ∧
      (Families.ofList declarations).1.strings = declarations.filterMap Family.string? ∧
      (Families.ofList declarations).1.chars = declarations.filterMap Family.char? ∧
      (Families.ofList declarations).1.comments = declarations.flatMap Family.comments ∧
      (Families.ofList declarations).1.extensions = declarations.filterMap Family.extension? := by
  simpa [Families.ofList] using Families.insertAll_lists {} declarations

/-- The sugars are those declared. -/
theorem mem_sugars_iff {kind : K} {text : String} :
    (kind, text) ∈ (Families.ofList declarations).1.sugars ↔
    (kind, .sugar text) ∈ declarations := by
  obtain ⟨-, hsugars, -⟩ := sorted_eq declarations
  rw [hsugars, List.mem_filterMap]
  constructor
  · rintro ⟨⟨other, family⟩, hmem, hsugar⟩
    cases family <;> simp_all [Family.sugar?]
  · exact fun hmem => ⟨_, hmem, rfl⟩

/-- The keywords are those declared. -/
theorem mem_keywords_iff {kind : K} {word : String} :
    (kind, word) ∈ (Families.ofList declarations).1.keywords ↔
    (kind, .keyword word) ∈ declarations := by
  obtain ⟨hkeywords, -⟩ := sorted_eq declarations
  rw [hkeywords, List.mem_filterMap]
  constructor
  · rintro ⟨⟨other, family⟩, hmem, hword⟩
    cases family <;> simp_all [Family.keyword?]
  · exact fun hmem => ⟨_, hmem, rfl⟩

/-- The comment markers are those declared. -/
theorem mem_comments_iff {kind : K} {marker : String} {ending : CommentEnd} :
    (kind, marker, ending) ∈ (Families.ofList declarations).1.comments ↔
      ∃ family, (kind, family) ∈ declarations ∧ family.Opens marker ending := by
  obtain ⟨-, -, -, -, hcomments, -⟩ := sorted_eq declarations
  rw [hcomments, List.mem_flatMap]
  constructor
  · rintro ⟨⟨other, family⟩, hmem, hcomment⟩
    cases family with
    | comment single multi =>
      simp only [Family.comments, Families.commentsOf, List.mem_append, Option.mem_toList,
        Option.map_eq_some_iff, Prod.mk.injEq] at hcomment
      rcases hcomment with ⟨start, rfl, rfl, rfl, rfl⟩ | ⟨⟨start, last⟩, rfl, rfl, rfl, rfl⟩
      · exact ⟨_, hmem, .single _ _⟩
      · exact ⟨_, hmem, .multi _ _ _⟩
    | _ => cases hcomment
  · rintro ⟨family, hmem, hopens⟩
    refine ⟨_, hmem, ?_⟩
    cases hopens <;> simp [Family.comments, Families.commentsOf]

/-- The declaration of a literal. -/
def LiteralForm.family (form : LiteralForm K) : Family K :=
  if form.isString then .string form.delimiter form.escape else .char form.delimiter form.escape

/-- The literals are those declared. -/
theorem mem_literals_iff {form : LiteralForm K} :
    form ∈ (Families.ofList declarations).1.literals ↔ (form.kind, form.family) ∈ declarations := by
  obtain ⟨isString, kind, delimiter, escape⟩ := form
  obtain ⟨-, -, hstrings, hchars, -⟩ := sorted_eq declarations
  rw [Families.literals, hstrings, hchars, LiteralForm.family]
  simp only [List.mem_append, List.mem_map, List.mem_filterMap]
  constructor
  · rintro (⟨entry, ⟨⟨other, family⟩, hmem, hentry⟩, heq⟩ |
      ⟨entry, ⟨⟨other, family⟩, hmem, hentry⟩, heq⟩)
    · cases family with
      | string first second =>
        obtain rfl := Option.some.inj hentry
        cases heq
        exact hmem
      | _ => cases hentry
    · cases family with
      | char first second =>
        obtain rfl := Option.some.inj hentry
        cases heq
        exact hmem
      | _ => cases hentry
  · intro hmem
    cases isString with
    | true => exact Or.inl ⟨_, ⟨_, hmem, rfl⟩, rfl⟩
    | false => exact Or.inr ⟨_, ⟨_, hmem, rfl⟩, rfl⟩

theorem delimits_family (form : LiteralForm K) : form.family.Delimits form.delimiter := by
  rw [LiteralForm.family]
  split
  · exact .string _ _
  · exact .char _ _

/-- The delimiters are those of declared literals. -/
theorem mem_delimiters_iff {c : Char} :
    c ∈ (Families.ofList declarations).1.delimiters ↔
      ∃ kind family, (kind, family) ∈ declarations ∧ family.Delimits c := by
  rw [Families.delimiters, List.mem_map]
  constructor
  · rintro ⟨form, hform, rfl⟩
    exact ⟨form.kind, form.family, mem_literals_iff.1 hform, delimits_family form⟩
  · rintro ⟨kind, family, hmem, hdelimits⟩
    cases hdelimits with
    | string _ escape => exact ⟨⟨true, kind, c, escape⟩, mem_literals_iff.2 hmem, rfl⟩
    | char _ escape => exact ⟨⟨false, kind, c, escape⟩, mem_literals_iff.2 hmem, rfl⟩

theorem beginsLikeLiteral_iff {text : String} :
    BeginsLikeLiteral declarations text ↔ StartsIn (Families.ofList declarations).1.delimiters
      text.toList := by
  constructor
  · rintro ⟨kind, family, delimiter, hdeclared, hdelimits, hhead⟩
    exact ⟨delimiter, hhead, mem_delimiters_iff.2 ⟨kind, family, hdeclared, hdelimits⟩⟩
  · rintro ⟨delimiter, hhead, hmem⟩
    obtain ⟨kind, family, hdeclared, hdelimits⟩ := mem_delimiters_iff.1 hmem
    exact ⟨kind, family, delimiter, hdeclared, hdelimits, hhead⟩

/-- The extensions are those declared. -/
theorem mem_extensions_iff {kind : K} {extension : Extension K} :
    (kind, extension) ∈ (Families.ofList declarations).1.extensions ↔
    (kind, .extension extension) ∈ declarations := by
  obtain ⟨-, -, -, -, -, hextensions⟩ := sorted_eq declarations
  rw [hextensions, List.mem_filterMap]
  constructor
  · rintro ⟨⟨other, family⟩, hmem, hextension⟩
    cases family <;> simp_all [Family.extension?]
  · exact fun hmem => ⟨_, hmem, rfl⟩

theorem extensions_eq_nil (hnone : ¬HasExtensions declarations) :
    (Families.ofList declarations).1.extensions = [] := by
  refine List.eq_nil_iff_forall_not_mem.2 fun entry hentry => hnone ?_
  exact ⟨entry.1, entry.2, mem_extensions_iff.1 hentry⟩

/-- Words have a node if identifiers or a keyword are declared. -/
theorem isSome_wordPlaceholder?_iff (hduplicates : (Families.ofList declarations).2 = []) :
    (Families.ofList declarations).1.wordPlaceholder?.isSome ↔
      ∃ kind family, (kind, family) ∈ declarations ∧ family.IsWord := by
  rw [Families.wordPlaceholder?, Option.isSome_or, Bool.or_eq_true, Option.isSome_map,
    Option.isSome_iff_exists]
  constructor
  · rintro (⟨kind, hkind⟩ | hkeyword)
    · exact ⟨kind, _, (Families.kindOf?_ofList .identifier hduplicates).1 hkind, .identifier⟩
    · obtain ⟨⟨kind, word⟩, hentry⟩ := Option.isSome_iff_exists.1 hkeyword
      exact ⟨kind, _, mem_keywords_iff.1 (List.mem_of_mem_head? hentry), .keyword word⟩
  · rintro ⟨kind, family, hmem, hword⟩
    cases hword with
    | identifier => exact Or.inl ⟨kind, (Families.kindOf?_ofList .identifier hduplicates).2 hmem⟩
    | keyword word =>
      refine Or.inr ?_
      rw [List.isSome_head?]
      exact List.ne_nil_of_mem (mem_keywords_iff.2 hmem)

/-- A text begins like a word if the node of words is entered by its first character. -/
theorem beginsLikeWord_iff (hduplicates : (Families.ofList declarations).2 = []) {text : String}
    {c : Char} {rest : List Char} (htext : text.toList = c :: rest) :
    BeginsLikeWord declarations options text ↔
      (Families.ofList declarations).1.wordPlaceholder?.isSome ∧
      inRanges options.identifier.startRanges c := by
  rw [BeginsLikeWord, isSome_wordPlaceholder?_iff hduplicates, htext]
  simp

/-- The keyword declared last among those that are spelled alike. -/
theorem keywordKind?_eq_some_iff {word : String} {kind : K} :
    (Families.ofList declarations).1.keywordKind? options word = some kind ↔
      ∃ before after spelled, declarations = before ++ (kind, Family.keyword spelled) :: after ∧
        Families.foldCase options spelled = Families.foldCase options word ∧
        ∀ later other, (later, Family.keyword other) ∈ after →
          Families.foldCase options other ≠ Families.foldCase options word := by
  obtain ⟨hkeywords, -⟩ := sorted_eq declarations
  rw [Families.keywordKind?, Option.map_eq_some_iff, hkeywords]
  constructor
  · rintro ⟨⟨kind, spelled⟩, hfind, rfl⟩
    obtain ⟨halike, earlier, later, hsplit, hlast⟩ := List.find?_eq_some_iff_append.1 hfind
    have hkeywords := congrArg List.reverse hsplit
    rw [List.reverse_reverse, List.reverse_append, List.reverse_cons, List.append_assoc,
      List.singleton_append] at hkeywords
    obtain ⟨before, rest, rfl, -, hrest⟩ := List.filterMap_eq_append_iff.1 hkeywords
    obtain ⟨others, ⟨first, family⟩, after, rfl, -, hkeyword, hafter⟩ :=
      List.filterMap_eq_cons_iff.1 hrest
    cases family with
    | keyword word =>
      obtain ⟨rfl, rfl⟩ := Prod.mk.inj (Option.some.inj hkeyword)
      refine ⟨before ++ others, after,
        word, by rw [List.append_assoc], by simpa using halike, fun later other hmem => ?_⟩
      have hother : (later, other) ∈ earlier := by
        rw [← List.mem_reverse, ← hafter]
        exact List.mem_filterMap.2 ⟨_, hmem, rfl⟩
      simpa using hlast _ hother
    | _ => cases hkeyword
  · rintro ⟨before, after, spelled, rfl, halike, hlast⟩
    refine ⟨(kind, spelled), List.find?_eq_some_iff_append.2 ⟨by simpa using halike,
      (after.filterMap Family.keyword?).reverse, (before.filterMap Family.keyword?).reverse, ?_,
      ?_⟩, rfl⟩
    · simp [Family.keyword?]
    · rintro ⟨later, other⟩ hmem
      obtain ⟨⟨first, family⟩, hfamily, hkeyword⟩ := List.mem_filterMap.1 (List.mem_reverse.1 hmem)
      cases family with
      | keyword word =>
        obtain ⟨rfl, rfl⟩ := Prod.mk.inj (Option.some.inj hkeyword)
        simpa using hlast _ _ hfamily
      | _ => cases hkeyword

/-- A word that spells no keyword has no kind of one. -/
theorem keywordKind?_eq_none_iff {word : String} :
    (Families.ofList declarations).1.keywordKind? options word = none ↔
      ∀ kind other, (kind, Family.keyword other) ∈ declarations →
        Families.foldCase options other ≠ Families.foldCase options word := by
  rw [Families.keywordKind?, Option.map_eq_none_iff, List.find?_eq_none]
  constructor
  · intro hnone kind other hmem
    simpa using hnone (kind, other) (List.mem_reverse.2 (mem_keywords_iff.2 hmem))
  · rintro hnone ⟨kind, other⟩ hmem
    simpa using hnone kind other (mem_keywords_iff.1 (List.mem_reverse.1 hmem))

/-- The kind that is given to a word is the one that the declarations say. -/
theorem wordKind_iff (hduplicates : (Families.ofList declarations).2 = []) {word : String}
    {kind : Option K} :
    WordKind declarations options word kind ↔
      ((Families.ofList declarations).1.keywordKind? options word).or
        (Families.ofList declarations).1.identifier =
        kind := by
  have hidentifier : ∀ kind, (Families.ofList declarations).1.identifier = some kind ↔ _ :=
    fun kind => Families.kindOf?_ofList .identifier hduplicates
  constructor
  · intro hkind
    cases hkind with
    | keyword hdeclared halike hlast =>
      rw [keywordKind?_eq_some_iff.2 ⟨_, _, _, hdeclared, halike, hlast⟩]
      rfl
    | identifier hdeclared hother =>
      rw [keywordKind?_eq_none_iff.2 hother, Option.none_or]
      exact (hidentifier _).2 hdeclared
    | unknown hnone hother =>
      rw [keywordKind?_eq_none_iff.2 hother, Option.none_or, Option.eq_none_iff_forall_ne_some]
      exact fun kind hkind => hnone kind ((hidentifier kind).1 hkind)
  · rintro rfl
    cases hkeyword : (Families.ofList declarations).1.keywordKind? options word with
    | some kind =>
      obtain ⟨before, after, spelled, hdeclared, halike, hlast⟩ :=
        keywordKind?_eq_some_iff.1 hkeyword
      exact .keyword hdeclared halike hlast
    | none =>
      have hother := keywordKind?_eq_none_iff.1 hkeyword
      rw [Option.none_or]
      cases hkind : (Families.ofList declarations).1.identifier with
      | some kind => exact .identifier ((hidentifier kind).1 hkind) hother
      | none =>
        refine .unknown (fun kind hmem => ?_) hother
        rw [(hidentifier kind).2 hmem] at hkind
        cases hkind

end Sorted

end GrammarKit.Lexer
