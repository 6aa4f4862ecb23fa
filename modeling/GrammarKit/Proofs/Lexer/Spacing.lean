import GrammarKit.Parser
import GrammarKit.Proofs.Lexer.Alone

namespace GrammarKit

/-- What a token says, wherever it stands. -/
def Token.content {K : Type} (token : Token K) : Option K × String × String :=
  (token.kind, token.span, token.value)

namespace Lexer

open Automaton

variable {K : Type}

/-- Whether blanks are ignored, and stand in no lexeme other than inside a literal. -/
structure AllowsBlanks (declarations : List (K × Family K)) (options : LexerOptions) : Prop where
  ignored : options.blanks.ignores ' ' = true
  words : inRanges options.identifier.restRanges ' ' = false
  separator : options.decimalSeparator ≠ ' '
  delimiters : ∀ kind family, (kind, family) ∈ declarations → ¬family.Delimits ' '
  sugars : ∀ kind text, (kind, Family.sugar text) ∈ declarations → ' ' ∉ text.toList
  markers : ∀ kind family marker ending, (kind, family) ∈ declarations →
    family.Opens marker ending →
    ' ' ∉ marker.toList ∧ ¬BeginsLikeLiteral declarations marker

/-- No comment marker begins like a literal. -/
theorem AllowsBlanks.hasClearMarkers {declarations : List (K × Family K)} {options : LexerOptions}
    (hallows : AllowsBlanks declarations options) : HasClearMarkers declarations :=
  fun _ _ _ _ hdeclared hopens => (hallows.markers _ _ _ _ hdeclared hopens).2

/-- Whether comments with these markers are declared, and `opening` is taken for
    the beginning of nothing else. -/
structure HasComment (declarations : List (K × Family K)) (options : LexerOptions)
    (opening closing : String) : Prop where
  declared : ∃ kind family, (kind, family) ∈ declarations ∧ family.Opens opening (.marker closing)
  visible : IsVisible options opening
  not_word : ¬BeginsLikeWord declarations options opening
  sugars : ∀ kind text, (kind, Family.sugar text) ∈ declarations → opening.toList <+: text.toList →
    text = opening
  markers : ∀ kind family marker ending, (kind, family) ∈ declarations →
    family.Opens marker ending →
    opening.toList <+: marker.toList → marker = opening

/-- What can stand between two tokens: a blank, or a comment between blanks,
    whose body holds no end marker. -/
inductive IsGap (opening closing : String) : List Char → Prop
  | blank : IsGap opening closing [' ']
  | comment {body : List Char}
      (hfirst : ∀ before after, body ++ closing.toList = before ++ closing.toList ++ after →
        before = body) :
      IsGap opening closing (' ' :: (opening.toList ++ (body ++ closing.toList ++ [' '])))

/-- The texts of tokens, with gaps between them. -/
inductive Spaced (opening closing : String) : List (Token K) → List Char → Prop
  | nil : Spaced opening closing [] []
  | single (token : Token K) : Spaced opening closing [token] token.span.toList
  | cons {token next : Token K} {tokens : List (Token K)} {gap text : List Char}
      (hgap : IsGap opening closing gap) (hlater : Spaced opening closing (next :: tokens) text) :
      Spaced opening closing (token :: next :: tokens) (token.span.toList ++ (gap ++ text))

/-- Whether a token is all that its text becomes on its own, and no comment. -/
def FamilyLexer.IsWhole (lexer : FamilyLexer K) (token : Token K) : Prop :=
  ∃ last, lexer.tokenize token.span = .ok [token, last] ∧ token.comment = none

/-- A token that is whole is no comment. -/
theorem FamilyLexer.IsWhole.comment {lexer : FamilyLexer K} {token : Token K}
    (hwhole : lexer.IsWhole token) :
    token.comment = none := by
  obtain ⟨last, -, hcomment⟩ := hwhole
  exact hcomment

/-- What a parser sees of tokens. -/
def seen (tokens : List (Token K)) : List (Option K × String × String) :=
  (tokens.filter fun token => !token.isComment).map Token.content

theorem seen_cons {token : Token K} (hcomment : token.comment = none) (position : Position)
    (tokens : List (Token K)) :
    seen ({ token with position } :: tokens) = token.content :: seen tokens := by
  simp [seen, Token.isComment, hcomment, Token.content]

/-- Parsers see nothing of comments. -/
theorem seen_append {comments : List (Token K)}
    (hcomments : ∀ comment ∈ comments, comment.isComment = true) (tokens : List (Token K)) :
    seen (comments ++ tokens) = seen tokens := by
  have hnone : comments.filter (fun token => !token.isComment) = [] :=
    List.filter_eq_nil_iff.2 fun comment hcomment => by simp [hcomments comment hcomment]
  rw [seen, List.filter_append, hnone, List.nil_append, seen]

namespace FamilyLexer.IsLaidOut

variable {declarations : List (K × Family K)} {options : LexerOptions} {lexer : FamilyLexer K}
  {drawing : Drawing Spot K} {markers : List (Marker K)} {spot : Spot} {opening closing : String}

section

variable (hlaid : IsLaidOut declarations options lexer drawing markers)

include hlaid

variable (hallows : AllowsBlanks declarations options)

include hallows

/-- Where a token ends, nothing goes on with a blank. -/
theorem next?_blank {kind : K} (hkind : drawing.kind? spot = some kind)
    (hspot : ∀ marker ∈ markers, marker.spot ≠ spot) :
    drawing.next? spot ' ' = none := by
  have hdigit : ' '.isDigit = false := rfl
  cases (hlaid.layout.kind _ _).1 hkind with
  | word =>
    rw [hlaid.layout.next?_word, hallows.words, if_neg (by simp)]
  | whole =>
    rw [hlaid.layout.next?_whole, Layout.digit_accepts, hdigit, if_neg (by simp),
      if_neg fun hpoint => hallows.separator hpoint.2.symm]
  | fraction =>
    rw [hlaid.layout.next?_fraction, Layout.digit_accepts, hdigit, if_neg (by simp)]
  | @sugar kind text hsugar =>
    obtain ⟨c, rest, htext, -, hc⟩ := hlaid.exists_sugar_eq_cons (mem_sugars_iff.1 hsugar)
    obtain ⟨built, -, hshows⟩ := hlaid.shows
    refine hlaid.layout.next?_path_eq_none hshows (by simp [htext]) (by rwa [htext, startsIn_cons])
      fun word hword hpre => ?_
    have hblank : ' ' ∈ word := hpre.subset (by simp)
    rcases hlaid.mem_words_cases hword with ⟨_, _, hdeclared, rfl⟩ |
      ⟨_, _, _, _, hdeclared, hopens, rfl⟩
    · exact hallows.sugars _ _ hdeclared hblank
    · exact (hallows.markers _ _ _ _ hdeclared hopens).1 hblank
  | @literal form hform =>
    have hread := hlaid.layout.read?_literal hform
      (hlaid.head?_ne_of_mem_words hallows.hasClearMarkers hform) .closed [' ']
    have hdelimiter : ' ' ≠ form.delimiter := by
      intro heq
      exact hallows.delimiters _ _ (mem_literals_iff.1 hform) (heq ▸ delimits_family form)
    rw [Drawing.read?, LiteralForm.run, LiteralForm.step, if_neg (by simp [hdelimiter])] at hread
    cases hnext : drawing.next? (.literal form.delimiter .closed) ' ' with
    | none => rfl
    | some target =>
      rw [hnext] at hread
      cases hread
  | marker hmarker => exact absurd rfl (hspot _ hmarker)

/-- A token is read in the same way after blanks and in front of one. -/
theorem tokensFrom_of_isWhole {token : Token K} (hwhole : lexer.IsWhole token)
    {skipped rest : List Char} (hskipped : ∀ c ∈ skipped, options.blanks.ignores c = true)
    (hrest : ∀ c ∈ rest.head?, c = ' ') (position : Position) :
    ∃ start next, lexer.tokensFrom ⟨position, skipped ++ (token.span.toList ++ rest)⟩ =
      (lexer.tokensFrom ⟨next, rest⟩).map fun tokens =>
        { token with position := start } :: tokens := by
  obtain ⟨last, hok, hcomment⟩ := hwhole
  cases hlaid.isFound_of_tokenize hok with
  | plain htext hc hread hkind hspot _ hfinish =>
    obtain ⟨kind, value, -, hmoved⟩ := hlaid.finish_eq hfinish
    have hmade := hmoved (position.advanceOver skipped)
    rw [← htext] at hread
    obtain ⟨node, hnode, hrun⟩ := hlaid.run_of_read? hread hkind
      (fun d hd => hrest d hd ▸ hlaid.next?_blank hallows hkind hspot) hskipped (by simp [htext])
      (by rw [htext]; rintro _ ⟨⟩; exact hc) (by rw [String.ofList_toList]; exact hmade)
    refine ⟨position.advanceOver skipped, (position.advanceOver skipped).advanceOver
      token.span.toList, tokensFrom_success hrun ?_⟩
    rw [finishToken, hlaid.ending?_eq_none hnode hspot]
  | comment _ _ _ _ hsome =>
    rw [hcomment] at hsome
    cases hsome

/-- Nothing goes on from the start marker of a comment, since no other sugar or
    marker begins with it. -/
theorem next?_marker_eq_none {marker : Marker K} (hmarker : marker ∈ markers)
    (hcomment : HasComment declarations options (String.ofList marker.text) closing) (c : Char) :
    drawing.next? marker.spot c = none := by
  have hliteral := hlaid.not_beginsLikeLiteral hmarker hallows.hasClearMarkers
  obtain ⟨first, tail, hcons, -⟩ := hlaid.exists_marker_eq_cons hmarker
  obtain ⟨built, -, hshows⟩ := hlaid.shows
  rw [hlaid.spot_eq_path hmarker hliteral]
  rw [beginsLikeLiteral_iff, String.toList_ofList] at hliteral
  refine hlaid.layout.next?_path_eq_none hshows (by simp [hcons]) hliteral fun word hword hpre => ?_
  have hopening : (String.ofList marker.text).toList <+: word := by
    rw [String.toList_ofList]
    exact (List.prefix_append _ _).trans hpre
  have hlonger : (String.ofList marker.text).toList.length < word.length := by
    have hlength := hpre.length_le
    rw [List.length_append] at hlength
    rw [String.toList_ofList]
    exact hlength
  rcases hlaid.mem_words_cases hword with ⟨_, _, hsugar, rfl⟩ | ⟨_, _, _, _, hother, hothers, rfl⟩
  · rw [hcomment.sugars _ _ hsugar hopening] at hlonger
    exact Nat.lt_irrefl _ hlonger
  · rw [hcomment.markers _ _ _ _ hother hothers hopening] at hlonger
    exact Nat.lt_irrefl _ hlonger

/-- A comment is read up to its end marker, whatever follows. -/
theorem tokensFrom_of_hasComment (hcomment : HasComment declarations options opening closing)
    {body : List Char}
    (hfirst : ∀ before after, body ++ closing.toList = before ++ closing.toList ++ after →
      before = body)
    (position : Position) (rest : List Char) :
    ∃ comment next, comment.isComment = true ∧
      lexer.tokensFrom ⟨position, ' ' :: (opening.toList ++ (body ++ closing.toList ++ rest))⟩ =
        (lexer.tokensFrom ⟨next, rest⟩).map fun tokens => comment :: tokens := by
  obtain ⟨kind, family, hdeclared, hopens⟩ := hcomment.declared
  obtain ⟨marker, hmarker, -, rfl, hending⟩ := hlaid.exists_marker hdeclared hopens
  have hliteral := hlaid.not_beginsLikeLiteral hmarker hallows.hasClearMarkers
  have hspot := hlaid.spot_eq_path hmarker hliteral
  obtain ⟨first, tail, hcons, -⟩ := hlaid.exists_marker_eq_cons hmarker
  have hne : marker.text ≠ [] := by simp [hcons]
  have hstop := hlaid.next?_marker_eq_none hallows hmarker hcomment
  have hvisible := hcomment.visible
  rw [IsVisible, String.toList_ofList] at hvisible
  obtain ⟨node, hnode, hrun⟩ := hlaid.run_of_read?
    (hlaid.read?_marker hmarker hliteral hcomment.not_word)
    ((hlaid.layout.kind _ _).2 (.marker hmarker))
    (fun c (_ : c ∈ (body ++ closing.toList ++ rest).head?) => hstop c)
    (fun c (hc : c ∈ [' ']) => List.mem_singleton.1 hc ▸ hallows.ignored) hne hvisible
    (hlaid.finish_plain (hspot ▸ .path _) (.ofSpan marker.kind (String.ofList marker.text)
      (position.advanceOver [' '])))
  rw [String.toList_ofList]
  obtain ⟨comment, next, hiscomment, hfinish⟩ := exists_finishToken_eq
    ((hlaid.ending?_eq_some_iff hnode).2 ⟨marker, hmarker, rfl, hending⟩) hfirst
    (.ofSpan marker.kind (String.ofList marker.text) (position.advanceOver [' '])) marker.text
    ((position.advanceOver [' ']).advanceOver marker.text) rest
  exact ⟨comment, next, hiscomment, tokensFrom_success hrun hfinish⟩

/-- Nothing of a gap is left but a blank and a comment. -/
theorem tokensFrom_of_isGap (hcomment : HasComment declarations options opening closing)
    {gap : List Char} (hgap : IsGap opening closing gap) (position : Position) (rest : List Char) :
    ∃ comments next, (∀ comment ∈ comments, comment.isComment = true) ∧
      lexer.tokensFrom ⟨position, gap ++ rest⟩ =
        (lexer.tokensFrom ⟨next, [' '] ++ rest⟩).map fun tokens => comments ++ tokens := by
  cases hgap with
  | blank =>
    refine ⟨[], position, nofun, ?_⟩
    cases lexer.tokensFrom ⟨position, [' '] ++ rest⟩ <;> rfl
  | @comment body hfirst =>
    obtain ⟨comment, next, hiscomment, htokens⟩ :=
      hlaid.tokensFrom_of_hasComment hallows hcomment hfirst position ([' '] ++ rest)
    refine ⟨[comment], next, fun other hother => List.mem_singleton.1 hother ▸ hiscomment, ?_⟩
    have hassoc : ' ' :: (opening.toList ++ (body ++ closing.toList ++ [' '])) ++ rest =
        ' ' :: (opening.toList ++ (body ++ closing.toList ++ ([' '] ++ rest))) := by simp
    rw [hassoc, htokens]
    rfl

/-- Gaps leave no trace but comments. -/
theorem exists_tokensFrom_spaced (hcomment : HasComment declarations options opening closing)
    {tokens : List (Token K)} {text : List Char} (hspaced : Spaced opening closing tokens text)
    (hwhole : ∀ token ∈ tokens, lexer.IsWhole token) {skipped : List Char}
    (hskipped : ∀ c ∈ skipped, options.blanks.ignores c = true) (position : Position) :
    ∃ found, lexer.tokensFrom ⟨position, skipped ++ text⟩ = .ok found ∧
      seen found = tokens.map Token.content := by
  induction hspaced generalizing skipped position with
  | nil =>
    refine ⟨[], tokensFrom_of_ignored ?_, rfl⟩
    rwa [List.append_nil, hlaid.blanks_eq]
  | single token =>
    have hnone : ∀ c ∈ ([] : List Char).head?, c = ' ' := nofun
    have htoken := hwhole token List.mem_cons_self
    obtain ⟨start, next, htokens⟩ := hlaid.tokensFrom_of_isWhole hallows htoken hskipped
      hnone position
    have hend : lexer.tokensFrom ⟨next, []⟩ = .ok [] := tokensFrom_of_ignored nofun
    rw [hend, List.append_nil] at htokens
    exact ⟨_, htokens, seen_cons htoken.comment start []⟩
  | @cons token next tokens gap text hgap _ ih =>
    have htoken := hwhole token List.mem_cons_self
    have hblank : ∀ c ∈ (gap ++ text).head?, c = ' ' := by
      intro c hc
      cases hgap <;> exact (Option.some.inj hc).symm
    obtain ⟨start, after, htokens⟩ := hlaid.tokensFrom_of_isWhole hallows htoken hskipped
      hblank position
    obtain ⟨comments, later, hcomments, hgaps⟩ :=
      hlaid.tokensFrom_of_isGap hallows hcomment hgap after text
    obtain ⟨found, hfound, hcontent⟩ :=
      ih (fun other hother => hwhole other (List.mem_cons_of_mem _ hother))
      (fun c (hc : c ∈ [' ']) => List.mem_singleton.1 hc ▸ hallows.ignored) later
    rw [hgaps, hfound] at htokens
    refine ⟨_, htokens, ?_⟩
    rw [seen_cons htoken.comment start, seen_append hcomments, hcontent]
    rfl

end

end FamilyLexer.IsLaidOut

/-- Numbering leaves what a parser sees. -/
theorem seen_numbered (tokens : List (Token K)) :
    (Parser.numbered tokens).map Token.content = seen tokens := by
  refine List.ext_getElem (by simp [Parser.numbered, seen]) fun i _ _ => ?_
  simp [Parser.numbered, seen, Token.content]

/-- Tokens are numbered one after the other. -/
theorem streamIndex_numbered (tokens : List (Token K)) :
    (Parser.numbered tokens).map Token.streamIndex =
      List.range (Parser.numbered tokens).length := by
  refine List.ext_getElem (by simp) fun i _ _ => ?_
  simp [Parser.numbered]

/-- The last token is numbered behind the others. -/
theorem numbered_concat {last : Token K} (hlast : last.isComment = false)
    (tokens : List (Token K)) :
    Parser.numbered (tokens ++ [last]) =
      Parser.numbered tokens ++ [{ last with streamIndex := (Parser.numbered tokens).length }] := by
  simp [Parser.numbered, hlast, List.mapIdx_append]

/-- Numbering leaves the kinds of tokens. -/
theorem isSome_kind_of_mem_numbered {found : List (Token K)}
    (hkinds : ∀ token ∈ found, token.kind.isSome = true) :
    ∀ token ∈ Parser.numbered found, token.kind.isSome = true := by
  intro token htoken
  obtain ⟨index, hindex, rfl⟩ := List.mem_mapIdx.1 htoken
  have hkind := hkinds _ (List.mem_of_mem_filter (List.getElem_mem hindex))
  exact hkind

/-- A parser is given the tokens of its lexer that are no comments, and behind
    them the one that marks the end, all numbered in order. -/
theorem exists_tokens_of_tokenize [DecidableEq K] [TokenKind K] {O C : Type} {parser : Parser K O C}
    {source : String} {found : List (Token K)}
    (htokenize : parser.lexer.tokenize source = .ok (withEndOfStream found)) :
    ∃ last, parser.tokens source = .ok (Parser.numbered found ++ [last]) ∧
      last.isEndOfStream = true ∧
      (Parser.numbered found ++ [last]).map Token.streamIndex =
        List.range ((Parser.numbered found).length + 1) := by
  have hend : (Token.endOfStream (endPosition found) : Token K).isComment = false := rfl
  have hindices := streamIndex_numbered (withEndOfStream found)
  rw [withEndOfStream, numbered_concat hend, List.length_append, List.length_singleton] at hindices
  refine ⟨_, ?_, rfl, hindices⟩
  rw [Parser.tokens, htokenize, ← numbered_concat hend]
  rfl

namespace FamilyLexer

variable [DecidableEq K] [TokenKind K] {declarations : List (K × Family K)} {options : LexerOptions}
  {lexer : FamilyLexer K} {opening closing : String}

/-- Texts that are tokens on their own stay the same tokens in a row, with
    blanks or comments between them, and a parser is given them numbered in
    order. -/
theorem tokens_spaced (hbuild : (build declarations options).value = some lexer)
    (hextensions : ¬HasExtensions declarations) (hallows : AllowsBlanks declarations options)
    (hcomment : HasComment declarations options opening closing) {O C : Type}
    {parser : Parser K O C} (hlexer : parser.lexer = ⟨lexer.tokenize⟩) {tokens : List (Token K)}
    (hwhole : ∀ token ∈ tokens, lexer.IsWhole token) {text : List Char}
    (hspaced : Spaced opening closing tokens text) :
    ∃ found last, parser.tokens (String.ofList text) = .ok (found ++ [last]) ∧
      found.map Token.content = tokens.map Token.content ∧ last.isEndOfStream = true ∧
      (found ++ [last]).map Token.streamIndex = List.range (tokens.length + 1) := by
  obtain ⟨drawing, markers, hlaid⟩ := exists_isLaidOut hbuild (extensions_eq_nil hextensions)
  obtain ⟨scanned, hscanned, hseen⟩ := hlaid.exists_tokensFrom_spaced hallows hcomment
    hspaced hwhole (fun c (hc : c ∈ []) => nomatch hc) .start
  have hcontent := seen_numbered scanned
  have hlength : (Parser.numbered scanned).length = tokens.length := by
    simpa [hseen] using congrArg List.length hcontent
  have htokenize : parser.lexer.tokenize (String.ofList text) = .ok (withEndOfStream scanned) := by
    have hplace : Place.atStart (String.ofList text).toList = ⟨.start, text⟩ := by
      rw [String.toList_ofList, Place.atStart]
    rw [hlexer]
    exact congrArg (Except.map withEndOfStream) (hplace ▸ hscanned)
  obtain ⟨last, htokens, hend, hindices⟩ := exists_tokens_of_tokenize htokenize
  exact ⟨_, last, htokens, hcontent.trans hseen, hend, hlength ▸ hindices⟩

end FamilyLexer

namespace Sample

theorem allowsBlanks : AllowsBlanks declarations {} where
  ignored := by decide
  words := by decide
  separator := by decide
  delimiters kind family hmem hdelimits := by cases hdelimits <;> simp [declarations] at hmem
  sugars kind text hmem := by
    simp only [declarations, List.mem_cons, Prod.mk.injEq, Family.sugar.injEq, reduceCtorEq,
      and_false, List.not_mem_nil, or_false, false_or] at hmem
    rcases hmem with ⟨-, rfl⟩ | ⟨-, rfl⟩ <;> decide
  markers kind family marker ending hmem hopens := by
    refine ⟨?_, ?_⟩
    · cases hopens <;> simp [declarations] at hmem
      obtain ⟨-, -, rfl, rfl⟩ := hmem
      decide
    · rintro ⟨other, literal, delimiter, hliteral, hdelimits, -⟩
      cases hdelimits <;> simp [declarations] at hliteral

theorem hasComment : HasComment declarations {} "/*" "*/" where
  declared :=
    ⟨note, .comment none (some ("/*", "*/")), by simp [declarations], .multi none "/*" "*/"⟩
  visible := isVisible_of_head? rfl rfl
  not_word := by
    rintro ⟨-, c, hc, hstart⟩
    obtain rfl : '/' = c := by simpa using hc
    revert hstart
    decide
  sugars kind text hmem hpre := by
    simp only [declarations, List.mem_cons, Prod.mk.injEq, Family.sugar.injEq, reduceCtorEq,
      and_false, List.not_mem_nil, or_false, false_or] at hmem
    rcases hmem with ⟨-, rfl⟩ | ⟨-, rfl⟩ <;> exact absurd hpre (by decide)
  markers kind family marker ending hmem hopens _ := by
    cases hopens <;> simp [declarations] at hmem
    exact hmem.2.2.1

def parser : Parser (Kind sums) Unit Unit :=
  ⟨⟨lexer.tokenize⟩, ⟨"root", [], .nil⟩, {}⟩

theorem isWhole_increment : lexer.IsWhole (.ofSpan increment "++" .start) := by
  have hrun : lexer.automaton.run (.atStart "++".toList) =
      (.success (.ofSpan increment "++" .start) 4 "++".toList, ⟨⟨2, 0, 2⟩, []⟩) := rfl
  have hok := FamilyLexer.tokensFrom_single hrun rfl nofun
  exact ⟨_, congrArg (Except.map withEndOfStream) hok, rfl⟩

theorem isWhole_name : lexer.IsWhole (.ofSpan name "a" .start) := by
  have hrun : lexer.automaton.run (.atStart "a".toList) =
      (.success (.ofSpan name "a" .start) 1 "a".toList, ⟨⟨1, 0, 1⟩, []⟩) := rfl
  have hok := FamilyLexer.tokensFrom_single hrun rfl nofun
  exact ⟨_, congrArg (Except.map withEndOfStream) hok, rfl⟩

/-- Two tokens with a comment between them. -/
theorem spaced_sums :
    Spaced "/*" "*/" [.ofSpan increment "++" .start, .ofSpan name "a" .start]
      "++ /*b*/ a".toList := by
  have hgap : IsGap "/*" "*/" (' ' :: ("/*".toList ++ (['b'] ++ "*/".toList ++ [' ']))) := by
    refine .comment fun before after heq => ?_
    cases before with
    | nil => simp at heq
    | cons c before =>
      have hlength := congrArg List.length heq
      cases before with
      | nil =>
        obtain ⟨rfl, -⟩ := List.cons.inj heq
        rfl
      | cons d before =>
        simp at hlength
        omega
  exact .cons hgap (.single _)

end Sample

theorem tokens_spaced_sums :
    (FamilyLexer.build Sample.declarations {}).value = some Sample.lexer ∧
      ¬HasExtensions Sample.declarations ∧
      AllowsBlanks Sample.declarations {} ∧ HasComment Sample.declarations {} "/*" "*/" ∧
      ∃ found last, Sample.parser.tokens "++ /*b*/ a" = .ok (found ++ [last]) ∧
        found.map Token.content = [(some Sample.increment, "++", "++"),
          (some Sample.name, "a", "a")] ∧
        last.isEndOfStream = true ∧ (found ++ [last]).map Token.streamIndex = [0, 1, 2] := by
  refine ⟨Sample.build_eq, Sample.not_hasExtensions, Sample.allowsBlanks, Sample.hasComment, ?_⟩
  have hwhole :
      ∀ token ∈ [Token.ofSpan Sample.increment "++" .start, .ofSpan Sample.name "a" .start],
      Sample.lexer.IsWhole token := by
    simp [Sample.isWhole_increment, Sample.isWhole_name]
  have hlexer : Sample.parser.lexer = ⟨Sample.lexer.tokenize⟩ := rfl
  exact FamilyLexer.tokens_spaced Sample.build_eq Sample.not_hasExtensions Sample.allowsBlanks
    Sample.hasComment hlexer hwhole Sample.spaced_sums

end Lexer

end GrammarKit
