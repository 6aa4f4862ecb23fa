import GrammarKit.Proofs.Lexer.Alone

namespace GrammarKit

namespace Literal

/-- Escapes every delimiter and every escape character. A delimiter that escapes
    itself is doubled. -/
def encode (delimiter escape : Char) (text : List Char) : List Char :=
  text.flatMap fun c => if c = delimiter ∨ c = escape then [escape, c] else [c]

/-- The literal for a text. -/
def quote (delimiter escape : Char) (text : String) : String :=
  String.ofList (delimiter :: encode delimiter escape text.toList ++ [delimiter])

theorem toList_quote (delimiter escape : Char) (text : String) :
    (quote delimiter escape text).toList = delimiter :: encode delimiter escape text.toList ++
      [delimiter] :=
  String.toList_ofList

section Encode

variable {delimiter escape c : Char}

/-- Delimiters and escape characters are escaped. -/
theorem encode_cons_escaped (hc : c = delimiter ∨ c = escape) (text : List Char) :
    encode delimiter escape (c :: text) = escape :: c :: encode delimiter escape text := by
  rw [encode, List.flatMap_cons, if_pos hc]
  rfl

/-- Other characters stand for themselves. -/
theorem encode_cons_plain (hc : ¬(c = delimiter ∨ c = escape)) (text : List Char) :
    encode delimiter escape (c :: text) = c :: encode delimiter escape text := by
  rw [encode, List.flatMap_cons, if_neg hc]
  rfl

end Encode

section Doubled

variable {delimiter c : Char}

/-- Other characters than delimiters stay. -/
theorem collapseDoubled_cons (hc : c ≠ delimiter) (text : List Char) :
    collapseDoubled delimiter (c :: text) = c :: collapseDoubled delimiter text := by
  cases text with
  | nil => rfl
  | cons d text =>
    rw [collapseDoubled, if_neg (by simp [hc])]

/-- Writing doubled delimiters once undoes doubling them. -/
theorem collapseDoubled_encode (delimiter : Char) (text : List Char) :
    collapseDoubled delimiter (encode delimiter delimiter text) = text := by
  induction text with
  | nil => rfl
  | cons c text ih =>
    by_cases hc : c = delimiter
    · subst hc
      rw [encode_cons_escaped (Or.inl rfl), collapseDoubled, if_pos (by simp), ih]
    · rw [encode_cons_plain (by simp [hc]), collapseDoubled_cons hc, ih]

/-- Without doubled delimiters there is nothing to collapse. -/
theorem collapseDoubled_of_not_hasDoubled {text : List Char}
    (hnone : hasDoubled delimiter text = false) :
    collapseDoubled delimiter text = text := by
  induction text with
  | nil => rfl
  | cons c text ih =>
    cases text with
    | nil => rfl
    | cons d text =>
      rw [hasDoubled, Bool.or_eq_false_iff] at hnone
      rw [collapseDoubled, hnone.1, if_neg Bool.false_ne_true, ih hnone.2]

end Doubled

section Escaped

variable {escape c : Char}

/-- Other characters than escapes stay. -/
theorem dropEscapes_cons (hc : c ≠ escape) (text : List Char) :
    dropEscapes escape (c :: text) = c :: dropEscapes escape text := by
  cases text with
  | nil => rfl
  | cons d text => rw [dropEscapes, if_neg hc]

/-- Dropping escape characters undoes escaping. -/
theorem dropEscapes_encode (delimiter escape : Char) (text : List Char) :
    dropEscapes escape (encode delimiter escape text) = text := by
  induction text with
  | nil => rfl
  | cons c text ih =>
    by_cases hc : c = delimiter ∨ c = escape
    · rw [encode_cons_escaped hc, dropEscapes, if_pos rfl, ih]
    · rw [encode_cons_plain hc, dropEscapes_cons (not_or.1 hc).2, ih]

/-- Without escape characters there is nothing to drop. -/
theorem dropEscapes_of_not_contains {text : List Char} (hnone : text.contains escape = false) :
    dropEscapes escape text = text := by
  induction text with
  | nil => rfl
  | cons c text ih =>
    rw [List.contains_cons, Bool.or_eq_false_iff, beq_eq_false_iff_ne] at hnone
    rw [dropEscapes_cons hnone.1.symm, ih hnone.2]

end Escaped

/-- Unescaping gives the text back, also where nothing had to be escaped and the
    literal is left as it is. -/
theorem unescapeBody_encode (delimiter escape : Char) (text : List Char) :
    unescapeBody delimiter escape (delimiter :: encode delimiter escape text ++ [delimiter])
      (encode delimiter escape text) = delimiter :: text ++ [delimiter] := by
  rw [unescapeBody]
  by_cases hescape : escape = delimiter
  · subst hescape
    have hundone := collapseDoubled_encode escape text
    simp only [if_pos]
    split
    · rw [hundone]
    · next hnone =>
      rw [collapseDoubled_of_not_hasDoubled (Bool.eq_false_iff.2 hnone)] at hundone
      rw [hundone]
  · have hundone := dropEscapes_encode delimiter escape text
    simp only [if_neg hescape]
    split
    · rw [hundone]
    · next hnone =>
      rw [dropEscapes_of_not_contains (Bool.eq_false_iff.2 hnone)] at hundone
      rw [hundone]

end Literal

namespace Lexer

open Automaton

variable {K : Type}

/-- What is escaped can stand between the delimiters. -/
theorem stringBody_encode (delimiter escape : Char) (text : List Char) :
    StringBody delimiter escape (Literal.encode delimiter escape text) := by
  induction text with
  | nil => exact .nil
  | cons c text ih =>
    by_cases hc : c = delimiter ∨ c = escape
    · rw [Literal.encode_cons_escaped hc]
      refine .escaped (fun hsame => ?_) ih
      rcases hc with hc | hc
      · exact hc
      · exact hc.trans hsame
    · rw [Literal.encode_cons_plain hc]
      exact .plain (not_or.1 hc).1 (not_or.1 hc).2 ih

/-- The token of a literal for a text has this text inside. -/
theorem unquoted_unescapeBody_quote (delimiter escape : Char) (text : String) (token : Token K) :
    Token.unquoted { token with
      value := String.ofList (Literal.unescapeBody delimiter escape
        (Literal.quote delimiter escape text).toList
        (Literal.encode delimiter escape text.toList)) } = text := by
  simp only [Token.unquoted, Token.unquotedChars, Literal.toList_quote, Literal.unescapeBody_encode,
    String.toList_ofList]
  rw [List.cons_append, List.tail_cons, List.dropLast_concat, String.ofList_toList]

namespace FamilyLexer

section

variable {declarations : List (K × Family K)} {options : LexerOptions} {lexer : FamilyLexer K}
    {drawing : Drawing Spot K} {markers : List (Marker K)}
    (hlaid : IsLaidOut declarations options lexer drawing markers) {form : LiteralForm K}
    (hform : form ∈ (Families.ofList declarations).1.literals)

include hlaid hform

/-- No comment marker ends where the literal is closed. -/
theorem IsLaidOut.spot_ne_literal :
    ∀ marker ∈ markers, marker.spot ≠ .literal form.delimiter .closed := by
  intro marker hmarker heq
  refine hlaid.apart.others marker hmarker form.kind ?_
  rw [heq]
  exact .literal hform

/-- A literal on its own is one token, if neither blanks nor words nor comments
    begin with its delimiter. -/
theorem IsLaidOut.tokenize_literal (hvisible : options.blanks.ignores form.delimiter = false)
    (hstart : inRanges options.identifier.startRanges form.delimiter = false)
    (hclear : IsClear declarations form.delimiter) {body : List Char} (hbody : form.IsBody body)
    {literal : String} (hliteral : literal.toList = form.delimiter :: body ++ [form.delimiter]) :
    ∃ position, lexer.tokenize literal = .ok
      [{ Token.ofSpan form.kind literal .start with
          value := String.ofList
            (Literal.unescapeBody form.delimiter form.escape literal.toList body) },
        .endOfStream position] := by
  have hread : drawing.read? .start literal.toList = some (.literal form.delimiter .closed) := by
    rw [hliteral, List.cons_append, hlaid.read?_delimiter hform hstart hclear,
      form.run_eq_closed_iff.2 ⟨body, hbody, rfl⟩, Option.map_some]
  have hhead : ∀ c ∈ literal.toList.head?, options.blanks.ignores c = false := by
    rw [hliteral]
    simpa using hvisible
  have hne : literal.toList ≠ [] := by
    rw [hliteral]
    exact List.cons_ne_nil _ _
  have hkind := (hlaid.layout.kind _ _).2 (.literal hform)
  obtain ⟨node, hnode, position, hok⟩ := hlaid.tokenize_of_read? hread hkind hne hhead
    (hlaid.finish_quoted hform (String.toList_ofList.trans hliteral))
  rw [finishToken, hlaid.ending?_eq_none hnode (hlaid.spot_ne_literal hform), String.ofList_toList]
    at hok
  exact ⟨position, hok⟩

end

variable [DecidableEq K] [TokenKind K] {declarations : List (K × Family K)} {options : LexerOptions}
  {lexer : FamilyLexer K}

/-- Any text that is written as a string literal is one token, which stands for this text. -/
theorem tokenize_quote (hbuild : (build declarations options).value = some lexer)
    (hextensions : ¬HasExtensions declarations) {kind : K} {delimiter escape : Char}
    (hdeclared : (kind, .string delimiter escape) ∈ declarations)
    (hvisible : options.blanks.ignores delimiter = false)
    (hstart : inRanges options.identifier.startRanges delimiter = false)
    (hclear : IsClear declarations delimiter) (text : String) :
    ∃ token position,
      lexer.tokenize (Literal.quote delimiter escape text) = .ok [token, .endOfStream position] ∧
      token.kind = some kind ∧ token.span = Literal.quote delimiter escape text ∧
      token.position = .start ∧
      token.comment = none ∧ token.unquoted = text := by
  obtain ⟨drawing, markers, hlaid⟩ := exists_isLaidOut hbuild (extensions_eq_nil hextensions)
  have hform : ⟨true, kind, delimiter, escape⟩ ∈ (Families.ofList declarations).1.literals :=
    mem_literals_iff.2 hdeclared
  obtain ⟨position, hok⟩ := hlaid.tokenize_literal hform hvisible hstart hclear
    (stringBody_encode delimiter escape text.toList) (Literal.toList_quote delimiter escape text)
  exact ⟨_, position, hok, rfl, rfl, rfl, rfl, unquoted_unescapeBody_quote delimiter escape text _⟩

end FamilyLexer

namespace Sample

def quoted : Alphabet := ⟨["NAME", "INT", "DOUBLE", "TEXT", "NOTE"], by decide⟩

def text : Kind quoted := ⟨(3 : Fin 5)⟩

/-- Names, numbers, strings whose delimiter is doubled inside, and comments. -/
def quotations : List (Kind quoted × Family (Kind quoted)) :=
  [(⟨(0 : Fin 5)⟩, .identifier), (⟨(1 : Fin 5)⟩, .int), (⟨(2 : Fin 5)⟩, .double),
    (text, .string '$' '$'), (⟨(4 : Fin 5)⟩, .comment (some "#") none)]

theorem isSome_build_quotations : (FamilyLexer.build quotations {}).value.isSome = true := by decide

def quotationLexer : FamilyLexer (Kind quoted) :=
  (FamilyLexer.build quotations {}).value.get isSome_build_quotations

theorem build_quotations_eq : (FamilyLexer.build quotations {}).value = some quotationLexer :=
  (Option.some_get isSome_build_quotations).symm

theorem isClear_quotations : IsClear quotations '$' := by
  intro kind family marker ending hmem hopens
  cases hopens with
  | single marker multi =>
    obtain ⟨-, rfl, -⟩ : _ ∧ marker = "#" ∧ _ := by simpa [quotations] using hmem
    decide
  | multi single marker last => simp [quotations] at hmem

end Sample

theorem tokenize_quote_quotations :
    (FamilyLexer.build Sample.quotations {}).value = some Sample.quotationLexer ∧
      ¬HasExtensions Sample.quotations ∧
      (Sample.text, .string '$' '$') ∈ Sample.quotations ∧ IsClear Sample.quotations '$' ∧
      ∃ token position,
        Sample.quotationLexer.tokenize "$a$$b$" = .ok [token, .endOfStream position] ∧
        token.kind = some Sample.text ∧ token.span = "$a$$b$" ∧ token.unquoted = "a$b" := by
  have hextensions : ¬HasExtensions Sample.quotations := by
    rintro ⟨kind, extension, hmem⟩
    simp [Sample.quotations] at hmem
  have hdeclared : (Sample.text, .string '$' '$') ∈ Sample.quotations := by simp [Sample.quotations]
  have hliteral : Literal.quote '$' '$' "a$b" = "$a$$b$" := by decide
  obtain ⟨token, position, hok, hkind, hspan, -, -, htext⟩ :=
    FamilyLexer.tokenize_quote Sample.build_quotations_eq hextensions hdeclared (by decide)
    (by decide) Sample.isClear_quotations "a$b"
  rw [hliteral] at hok hspan
  exact ⟨Sample.build_quotations_eq, hextensions, hdeclared, Sample.isClear_quotations, token,
    position, hok, hkind, hspan, htext⟩

end Lexer

end GrammarKit
