import GrammarKit.Lexer.PatternLexer
import GrammarKit.Pattern
import GrammarKit.Proofs.Automaton.Reading

namespace GrammarKit

theorem byteSize_pos {text : List Char} (hne : text ≠ []) : 0 < byteSize text := by
  cases text with
  | nil => exact absurd rfl hne
  | cons c text => exact Nat.lt_of_lt_of_le c.utf8Size_pos (Nat.le_add_right _ _)

/-- Of two beginnings of a text, the one with more bytes has more characters. -/
theorem byteSize_lt_iff {text a b : List Char} (ha : a <+: text) (hb : b <+: text) :
    byteSize a < byteSize b ↔ a.length < b.length := by
  have hgrows : ∀ {a b : List Char}, a <+: b → a ≠ b → byteSize a < byteSize b := by
    rintro a _ ⟨more, rfl⟩ hne
    have hmore : more ≠ [] := by
      rintro rfl
      exact hne (List.append_nil a).symm
    have hpos := byteSize_pos hmore
    rw [byteSize_append]
    omega
  constructor
  · intro hlt
    by_contra hle
    have hpre := List.prefix_of_prefix_length_le hb ha (Nat.le_of_not_lt hle)
    by_cases hsame : b = a
    · exact absurd hlt (hsame ▸ Nat.lt_irrefl _)
    · exact absurd hlt (Nat.lt_asymm (hgrows hpre hsame))
  · intro hlt
    refine hgrows (List.prefix_of_prefix_length_le ha hb (Nat.le_of_lt hlt)) ?_
    rintro rfl
    exact Nat.lt_irrefl _ hlt

namespace Lexer

variable {K : Type}

namespace Lexeme

/-- Whether all that a lexeme finds in a text stands at its beginning. -/
def IsAnchored (lexeme : Lexeme K) (text : List Char) : Prop :=
  ∀ occurrence, lexeme.find text = some occurrence → occurrence.before = []

/-- The match of a lexeme at the beginning of a text. An empty one does not count. -/
def Matches (lexeme : Lexeme K) (text span : List Char) : Prop :=
  span ≠ [] ∧ ∃ occurrence, lexeme.find text = some occurrence ∧ occurrence.before = [] ∧
    occurrence.found = span

variable {lexeme : Lexeme K} {text span : List Char}

/-- A match is a beginning of the text. -/
theorem Matches.isPrefix (hmatches : lexeme.Matches text span) : span <+: text := by
  obtain ⟨-, occurrence, -, hbefore, rfl⟩ := hmatches
  rw [← Occurrence.upToEnd_eq_found hbefore]
  exact occurrence.upToEnd_prefix

/-- A lexeme has one match at most. -/
theorem Matches.eq {other : List Char} (hmatches : lexeme.Matches text span)
    (hother : lexeme.Matches text other) :
    span = other := by
  obtain ⟨-, occurrence, hfind, -, rfl⟩ := hmatches
  obtain ⟨-, second, hsecond, -, rfl⟩ := hother
  rw [hfind] at hsecond
  rw [Option.some.inj hsecond]

/-- A match counts if it is longer than the best one so far. -/
theorem improve_of_matches (hmatches : lexeme.Matches text span)
    (best : Option (Lexeme K × List Char)) :
    lexeme.improve text best =
      if best.all fun (_, other) => byteSize other < byteSize span then some (lexeme, span)
      else best := by
  obtain ⟨hne, occurrence, hfind, hbefore, rfl⟩ := hmatches
  have hpos := byteSize_pos hne
  rw [improve, hfind]
  simp only [Occurrence.upToEnd_eq_found hbefore]
  rw [if_neg (by omega)]

/-- A lexeme without a match leaves the best one as it is. -/
theorem improve_of_not_matches (hanchored : lexeme.IsAnchored text)
    (hnone : ∀ span, ¬lexeme.Matches text span) (best : Option (Lexeme K × List Char)) :
    lexeme.improve text best = best := by
  rw [improve]
  cases hfind : lexeme.find text with
  | none => rfl
  | some occurrence =>
    have hbefore := hanchored occurrence hfind
    have hempty : occurrence.upToEnd = [] := by
      rw [Occurrence.upToEnd_eq_found hbefore]
      by_contra hne
      exact hnone _ ⟨hne, occurrence, hfind, hbefore, rfl⟩
    simp only [hempty, byteSize_nil, if_true]

end Lexeme

/-- Some lexeme matches this much of a text. -/
def HasMatch (lexemes : List (Lexeme K)) (text span : List Char) : Prop :=
  ∃ lexeme ∈ lexemes, lexeme.Matches text span

/-- The longest match of all lexemes at the beginning of a text, with the lexeme
    declared first of those that have it. -/
structure Wins (lexemes : List (Lexeme K)) (text : List Char) (lexeme : Lexeme K)
    (span : List Char) : Prop where
  longest : IsLongest (HasMatch lexemes text) text span
  isMatch : lexeme.Matches text span
  first : ∃ before after, lexemes = before ++ lexeme :: after ∧ ¬HasMatch before text span

section Best

variable {lexemes : List (Lexeme K)} {text span : List Char} {lexeme : Lexeme K}

/-- Lexemes match what one of them matches. -/
theorem hasMatch_concat {next : Lexeme K} :
    HasMatch (lexemes ++ [next]) text span ↔ HasMatch lexemes text span ∨
    next.Matches text span := by
  simp [HasMatch, or_and_right, exists_or]

/-- What the best match is when all lexemes were tried. -/
def IsBest (lexemes : List (Lexeme K)) (text : List Char) : Option (Lexeme K × List Char) → Prop
  | none => ∀ span, ¬HasMatch lexemes text span
  | some (lexeme, span) => Wins lexemes text lexeme span

/-- The winner stays the winner in front of a lexeme that matches no more. -/
theorem Wins.keep (hwins : Wins lexemes text lexeme span) {next : Lexeme K}
    (hnext : ∀ other, next.Matches text other → other.length ≤ span.length) :
    Wins (lexemes ++ [next]) text lexeme span where
  longest := {
    holds := hasMatch_concat.2 (Or.inl hwins.longest.holds)
    isPrefix := hwins.longest.isPrefix
    length_le := by
      intro other hother hpre
      rcases hasMatch_concat.1 hother with hold | hnew
      · exact hwins.longest.length_le other hold hpre
      · exact hnext other hnew }
  isMatch := hwins.isMatch
  first := by
    obtain ⟨before, after, rfl, hbefore⟩ := hwins.first
    exact ⟨before, after ++ [next], by simp, hbefore⟩

/-- A lexeme that matches more than all before it is the winner. -/
theorem wins_concat (hmatches : lexeme.Matches text span)
    (hless : ∀ other, HasMatch lexemes text other → other.length < span.length) :
    Wins (lexemes ++ [lexeme]) text lexeme span where
  longest := {
    holds := hasMatch_concat.2 (Or.inr hmatches)
    isPrefix := hmatches.isPrefix
    length_le := by
      intro other hother _
      rcases hasMatch_concat.1 hother with hold | hnew
      · exact Nat.le_of_lt (hless other hold)
      · exact Nat.le_of_eq (congrArg List.length (hnew.eq hmatches)) }
  isMatch := hmatches
  first := ⟨lexemes, [], rfl, fun hold => Nat.lt_irrefl _ (hless span hold)⟩

/-- Trying one lexeme more. -/
theorem IsBest.improve {best : Option (Lexeme K × List Char)} (hbest : IsBest lexemes text best)
    (hanchored : lexeme.IsAnchored text) :
    IsBest (lexemes ++ [lexeme]) text (lexeme.improve text best) := by
  by_cases hmatches : ∃ span, lexeme.Matches text span
  · obtain ⟨span, hmatches⟩ := hmatches
    rw [Lexeme.improve_of_matches hmatches]
    cases best with
    | none =>
      exact wins_concat hmatches fun other hother => absurd hother (hbest other)
    | some winner =>
      obtain ⟨winner, found⟩ := winner
      have hiff := byteSize_lt_iff hbest.longest.isPrefix hmatches.isPrefix
      simp only [Option.all_some, decide_eq_true_eq, hiff]
      split
      · next hlt =>
        refine wins_concat hmatches fun other hother => ?_
        obtain ⟨owner, howner, hmatch⟩ := hother
        exact Nat.lt_of_le_of_lt (hbest.longest.length_le other ⟨owner, howner, hmatch⟩
          hmatch.isPrefix) hlt
      · next hle =>
        refine hbest.keep fun other hother => ?_
        rw [hother.eq hmatches]
        exact Nat.le_of_not_lt hle
  · have hnone : ∀ span, ¬lexeme.Matches text span := not_exists.1 hmatches
    rw [Lexeme.improve_of_not_matches hanchored hnone]
    cases best with
    | none =>
      intro span hspan
      rcases hasMatch_concat.1 hspan with hold | hnew
      · exact hbest span hold
      · exact hnone span hnew
    | some winner => exact hbest.keep fun other hother => absurd hother (hnone other)

/-- Trying all lexemes finds the best match. -/
theorem isBest_foldl {rest : List (Lexeme K)} {best : Option (Lexeme K × List Char)}
    (hbest : IsBest lexemes text best) (hanchored : ∀ lexeme ∈ rest, lexeme.IsAnchored text) :
    IsBest (lexemes ++ rest) text (rest.foldl (Lexeme.improve text) best) := by
  induction rest generalizing lexemes best with
  | nil => simpa using hbest
  | cons next rest ih =>
    have hnext := hbest.improve (hanchored next List.mem_cons_self)
    have hrest := ih hnext fun lexeme hlexeme => hanchored lexeme (List.mem_cons_of_mem _ hlexeme)
    simpa using hrest

end Best

/-- Trying a lexeme keeps the best match, or finds one that is a match of the lexeme. -/
theorem Lexeme.improve_cases (lexeme : Lexeme K) (text : List Char)
    (best : Option (Lexeme K × List Char)) :
    lexeme.improve text best = best ∨
      ∃ occurrence : Occurrence text,
        lexeme.improve text best = some (lexeme, occurrence.upToEnd) := by
  rw [improve]
  cases lexeme.find text with
  | none => exact Or.inl rfl
  | some occurrence =>
    dsimp only
    split
    · exact Or.inl rfl
    · split
      · exact Or.inr ⟨occurrence, rfl⟩
      · exact Or.inl rfl

namespace PatternLexer

variable {lexer : PatternLexer K} {text : List Char}

/-- The longest match is a beginning of the text and belongs to a lexeme. -/
theorem longestMatch_spec (lexer : PatternLexer K) (text : List Char) :
    ∀ found ∈ lexer.longestMatch text, found.1 ∈ lexer.lexemes ∧ found.2 <+: text := by
  refine List.foldlRecOn
    (motive := fun best : Option (Lexeme K × List Char) => ∀ found ∈ best, found.1 ∈ lexer.lexemes ∧
      found.2 <+: text) lexer.lexemes _ nofun fun best hbest tried htried found hfound => ?_
  rcases tried.improve_cases text best with hsame | ⟨occurrence, hbetter⟩
  · exact hbest found (hsame ▸ hfound)
  · obtain rfl := Option.some.inj (hbetter.symm.trans hfound)
    exact ⟨htried, occurrence.upToEnd_prefix⟩

/-- The longest match is the best one if lexemes only match at the start of the text. -/
theorem isBest_longestMatch (hanchored : ∀ lexeme ∈ lexer.lexemes, lexeme.IsAnchored text) :
    IsBest lexer.lexemes text (lexer.longestMatch text) := by
  have hnone : IsBest ([] : List (Lexeme K)) text none := fun span ⟨lexeme, hlexeme, _⟩ =>
    nomatch hlexeme
  simpa [longestMatch] using isBest_foldl hnone hanchored

end PatternLexer

/-- A piece of a text: the lexeme it belongs to, the byte it starts at, and the piece itself. -/
structure Piece (K : Type) where
  lexeme : Lexeme K
  index : Nat
  text : List Char

/-- A text that starts at a byte is cut greedily into pieces, each the longest
    match that some lexeme has on what is left, up to a rest. -/
inductive Cuts (lexemes : List (Lexeme K)) : Nat → List Char → List (Piece K) → List Char → Prop
  | stop (index : Nat) (rest : List Char) : Cuts lexemes index rest [] rest
  | piece {index : Nat} {lexeme : Lexeme K} {span text rest : List Char} {pieces : List (Piece K)}
      (hwins : Wins lexemes (span ++ text) lexeme span)
      (hcuts : Cuts lexemes (index + byteSize span) text pieces rest) :
      Cuts lexemes index (span ++ text) (⟨lexeme, index, span⟩ :: pieces) rest

/-- A text is split into pieces, each the longest match on what is left,
    whatever lexeme it belongs to. -/
inductive Splits (lexemes : List (Lexeme K)) : List Char → List (List Char) → Prop
  | nil : Splits lexemes [] []
  | cons {span text : List Char} {spans : List (List Char)} (hne : span ≠ [])
      (hlongest : IsLongest (HasMatch lexemes (span ++ text)) (span ++ text) span)
      (hsplits : Splits lexemes text spans) : Splits lexemes (span ++ text) (span :: spans)

/-- The token of a piece. -/
structure IsTokenOf (piece : Piece K) (token : Token K) : Prop where
  kind : token.kind = some piece.lexeme.kind
  span : token.span = String.ofList piece.text
  index : token.position.index = piece.index

/-- What tokens and errors say about how a text is cut. Nothing matches at the
    character of an error. -/
def Accounts (lexemes : List (Lexeme K)) (index : Nat) (text : List Char) :
    Except LexicalError (List (Token K)) → Prop
  | .ok tokens => ∃ pieces, Cuts lexemes index text pieces [] ∧
      List.Forall₂ IsTokenOf (pieces.filter fun piece => !piece.lexeme.skip) tokens
  | .error error => ∃ pieces rest, Cuts lexemes index text pieces (error.character :: rest) ∧
      (∀ span, ¬HasMatch lexemes (error.character :: rest) span) ∧
      error.position.index = index + byteSize (pieces.flatMap Piece.text)

section Run

variable {lexer : PatternLexer K} {lexemes : List (Lexeme K)} {lexeme : Lexeme K}
    {text span rest : List Char}

/-- A text that is cut to its end is split. -/
theorem Cuts.splits {index : Nat} {pieces : List (Piece K)}
    (hcuts : Cuts lexemes index text pieces []) :
    Splits lexemes text (pieces.map Piece.text) := by
  generalize hrest : ([] : List Char) = rest at hcuts
  induction hcuts with
  | stop =>
    subst hrest
    exact .nil
  | piece hwins _ ih => exact .cons hwins.isMatch.1 hwins.longest (ih hrest)

/-- Reading goes on behind the text that was taken. -/
theorem Lexeme.index_advance (lexeme : Lexeme K) (position : Position) (matched : List Char) :
    (lexeme.advance position matched).index = position.index + byteSize matched := by
  rw [advance]
  split
  · rfl
  · exact position.index_advanceOver matched

/-- One round of the lexer, in which the next piece is taken. -/
theorem PatternLexer.tokensFrom_of_wins (position : Position) (hne : span ≠ [])
    (hmatch : lexer.longestMatch (span ++ rest) = some (lexeme, span)) :
    lexer.tokensFrom position (span ++ rest) =
      (lexer.tokensFrom (lexeme.advance position span) rest).map fun tokens =>
        if lexeme.skip then tokens
        else .ofSpan lexeme.kind (String.ofList span) position :: tokens := by
  obtain ⟨c, span, rfl⟩ := List.exists_cons_of_ne_nil hne
  rw [List.cons_append] at hmatch ⊢
  rw [tokensFrom]
  split
  · next hnone =>
    rw [hmatch] at hnone
    cases hnone
  · next other matched hsome =>
    rw [hmatch] at hsome
    obtain ⟨rfl, rfl⟩ := Prod.mk.inj (Option.some.inj hsome)
    rw [← List.cons_append, List.drop_left]
    cases lexer.tokensFrom (lexeme.advance position (c :: span)) rest <;> cases lexeme.skip <;> rfl

/-- The lexer fails where nothing matches. -/
theorem PatternLexer.tokensFrom_of_longestMatch_eq_none {position : Position} {c : Char}
    (hnone : lexer.longestMatch (c :: rest) = none) :
    lexer.tokensFrom position (c :: rest) = .error ⟨c, position⟩ := by
  rw [tokensFrom]
  split
  · rfl
  · next hsome =>
    rw [hnone] at hsome
    cases hsome

/-- Rounds follow one another until the text ends or no lexeme matches. -/
@[elab_as_elim]
theorem PatternLexer.round_induction (lexer : PatternLexer K) {motive : Position → List Char → Prop}
    (hdone : ∀ position, motive position [])
    (hfail : ∀ position c rest, lexer.longestMatch (c :: rest) = none → motive position (c :: rest))
    (hround : ∀ position span rest lexeme, lexer.longestMatch (span ++ rest) = some (lexeme, span) →
      motive (lexeme.advance position span) rest → motive position (span ++ rest))
    (position : Position) (text : List Char) : motive position text := by
  induction hlength : text.length using Nat.strongRecOn generalizing text position with
  | _ length ih =>
    subst hlength
    cases text with
    | nil => exact hdone position
    | cons c text =>
      cases hmatch : lexer.longestMatch (c :: text) with
      | none => exact hfail position c text hmatch
      | some found =>
        obtain ⟨lexeme, span⟩ := found
        obtain ⟨rest, hrest⟩ := (lexer.longestMatch_spec _ _ hmatch).2
        have hshorter : rest.length < (c :: text).length := by
          rw [← hrest, List.length_append]
          exact Nat.lt_add_of_pos_left (List.length_pos_iff.2 (longestMatch_ne_nil hmatch))
        rw [← hrest] at hmatch ⊢
        exact hround position span rest lexeme hmatch (ih rest.length hshorter _ rest rfl)

/-- One round more in front of an account of the rest. -/
theorem Accounts.piece {index : Nat} {result : Except LexicalError (List (Token K))}
    {token : Token K} (hwins : Wins lexemes (span ++ text) lexeme span)
    (htoken : IsTokenOf ⟨lexeme, index, span⟩ token)
    (haccounts : Accounts lexemes (index + byteSize span) text result) :
    Accounts lexemes index (span ++ text) (result.map fun tokens => if lexeme.skip then tokens
      else token :: tokens) := by
  cases result with
  | error error =>
    obtain ⟨pieces, rest, hcuts, hnone, hindex⟩ := haccounts
    refine ⟨_, rest, .piece hwins hcuts, hnone, ?_⟩
    rw [hindex, List.flatMap_cons, byteSize_append, Nat.add_assoc]
  | ok tokens =>
    obtain ⟨pieces, hcuts, htokens⟩ := haccounts
    refine ⟨_, .piece hwins hcuts, ?_⟩
    cases hskip : lexeme.skip with
    | true => simpa [hskip] using htokens
    | false => simpa [hskip] using And.intro htoken htokens

/-- Tokens and errors tell how the text was cut. -/
theorem PatternLexer.tokensFrom_accounts (position : Position)
    (hanchored : ∀ lexeme ∈ lexer.lexemes, ∀ rest, rest <:+ text → lexeme.IsAnchored rest) :
    Accounts lexer.lexemes position.index text (lexer.tokensFrom position text) := by
  induction position, text using round_induction lexer with
  | hdone position =>
    rw [tokensFrom]
    exact ⟨[], .stop _ _, .nil⟩
  | hfail position c rest hnone =>
    have hbest := isBest_longestMatch fun lexeme hlexeme => hanchored lexeme hlexeme (c :: rest)
      (List.suffix_refl _)
    rw [hnone] at hbest
    rw [tokensFrom_of_longestMatch_eq_none hnone]
    exact ⟨[], rest, .stop _ _, hbest, rfl⟩
  | hround position span rest lexeme hmatch ih =>
    have hbest := isBest_longestMatch fun lexeme hlexeme => hanchored lexeme hlexeme (span ++ rest)
      (List.suffix_refl _)
    rw [hmatch] at hbest
    have hlater := ih fun other hother tail htail =>
      hanchored other hother tail (htail.trans ⟨span, rfl⟩)
    rw [lexeme.index_advance] at hlater
    rw [tokensFrom_of_wins position hbest.isMatch.1 hmatch]
    exact hlater.piece hbest ⟨rfl, rfl, rfl⟩

/-- A text that can be split is read to its end. -/
theorem Splits.exists_tokensFrom {spans : List (List Char)}
    (hsplits : Splits lexer.lexemes text spans)
    (hanchored : ∀ lexeme ∈ lexer.lexemes, ∀ rest, rest <:+ text → lexeme.IsAnchored rest)
    (position : Position) :
    ∃ tokens, lexer.tokensFrom position text = .ok tokens := by
  induction hsplits generalizing position with
  | nil => exact ⟨[], by rw [PatternLexer.tokensFrom]⟩
  | @cons span text spans hne hlongest _ ih =>
    have hbest := PatternLexer.isBest_longestMatch
      fun lexeme hlexeme => hanchored lexeme hlexeme (span ++ text) (List.suffix_refl _)
    cases hmatch : lexer.longestMatch (span ++ text) with
    | none =>
      rw [hmatch] at hbest
      exact absurd hlongest.holds (hbest span)
    | some found =>
      obtain ⟨lexeme, found⟩ := found
      rw [hmatch] at hbest
      obtain rfl := hbest.longest.eq hlongest
      obtain ⟨tokens, htokens⟩ := ih
        (fun other hother tail htail => hanchored other hother tail
          (htail.trans (List.suffix_append _ _))) (lexeme.advance position found)
      rw [PatternLexer.tokensFrom_of_wins position hne hmatch, htokens]
      exact ⟨_, rfl⟩

end Run

namespace PatternLexer

variable {compile : List Char → Option Finder}

/-- A lexeme as it was declared. -/
structure IsDeclared (compile : List Char → Option Finder) (declared : K × PatternDeclaration)
    (lexeme : Lexeme K) :
    Prop where
  kind : lexeme.kind = declared.1
  skip : lexeme.skip = declared.2.skip
  lineEnding : lexeme.lineEnding = declared.2.lineEnding
  find : compile (anchored declared.2.pattern) = some lexeme.find

/-- A lexeme is as it was declared. -/
theorem isDeclared_of_lexeme? {kind : K} {declaration : PatternDeclaration} {lexeme : Lexeme K}
    (hlexeme : lexeme? compile kind declaration = some lexeme) :
    IsDeclared compile (kind, declaration) lexeme := by
  obtain ⟨find, hfind, rfl⟩ := Option.map_eq_some_iff.1 hlexeme
  exact ⟨rfl, rfl, rfl, hfind⟩

variable [DecidableEq K] [TokenKind K] {lexer : PatternLexer K}

/-- The lexemes of a lexer that was built are all those declared, in order. -/
theorem isDeclared_of_build {declarations : List (K × PatternDeclaration)}
    (hbuild : (build compile declarations).value = some lexer) :
    List.Forall₂ (IsDeclared compile) declarations lexer.lexemes := by
  simp only [build, BuildResult.of] at hbuild
  split at hbuild
  · cases hbuild
  · next hblocking =>
    obtain rfl := Option.some.inj hbuild
    have hcompiled : ∀ declared ∈ declarations, (lexeme? compile declared.1 declared.2).isSome =
        true := by
      intro declared hdeclared
      by_contra hnone
      refine hblocking (List.any_eq_true.2 ⟨invalid declared.1 declared.2, ?_, rfl⟩)
      exact List.mem_filterMap.2 ⟨declared, hdeclared, if_neg hnone⟩
    clear hblocking hbuild
    induction declarations with
    | nil => exact .nil
    | cons first rest ih =>
      obtain ⟨lexeme, hlexeme⟩ := Option.isSome_iff_exists.1 (hcompiled first List.mem_cons_self)
      have hrest := ih fun declared hdeclared =>
        hcompiled declared (List.mem_cons_of_mem _ hdeclared)
      simp only [List.filterMap_cons, hlexeme]
      exact .cons (isDeclared_of_lexeme? hlexeme) hrest

/-- When expressions only match at the start of what is left, reading succeeds
    exactly when the source can be split into longest matches. Then the tokens
    in front of the last one are the pieces that are not skipped. Otherwise the
    error names the first character at which nothing matches. -/
theorem tokenize_partition {declarations : List (K × PatternDeclaration)}
    (hbuild : (build compile declarations).value = some lexer) (source : String)
    (hanchored : ∀ lexeme ∈ lexer.lexemes, ∀ text, text <:+ source.toList →
      lexeme.IsAnchored text) :
    List.Forall₂ (IsDeclared compile) declarations lexer.lexemes ∧
      ((∃ tokens, lexer.tokenize source = .ok tokens) ↔
        ∃ spans, Splits lexer.lexemes source.toList spans) ∧
      (∀ tokens, lexer.tokenize source = .ok tokens → ∃ pieces found position,
        Cuts lexer.lexemes 0 source.toList pieces [] ∧ tokens = found ++ [.endOfStream position] ∧
          List.Forall₂ IsTokenOf (pieces.filter fun piece => !piece.lexeme.skip) found) ∧
      ∀ error, lexer.tokenize source = .error error → ∃ pieces rest,
        Cuts lexer.lexemes 0 source.toList pieces (error.character :: rest) ∧
          (∀ span, ¬HasMatch lexer.lexemes (error.character :: rest) span) ∧
          error.position.index = byteSize (pieces.flatMap Piece.text) := by
  have haccounts := tokensFrom_accounts .start hanchored
  refine ⟨isDeclared_of_build hbuild, ?_⟩
  cases hresult : lexer.tokensFrom .start source.toList with
  | ok found =>
    have hok : lexer.tokenize source = .ok (withEndOfStream found) := by
      rw [tokenize, hresult]
      rfl
    rw [hresult] at haccounts
    obtain ⟨pieces, hcuts, htokens⟩ := haccounts
    refine ⟨⟨fun _ => ⟨_, hcuts.splits⟩, fun _ => ⟨_, hok⟩⟩, fun tokens htokenize => ?_,
      fun error htokenize => ?_⟩
    · obtain rfl := Except.ok.inj (hok.symm.trans htokenize)
      exact ⟨pieces, found, endPosition found, hcuts, rfl, htokens⟩
    · rw [hok] at htokenize
      cases htokenize
  | error failure =>
    have herror : lexer.tokenize source = .error failure := by
      rw [tokenize, hresult]
      rfl
    rw [hresult] at haccounts
    obtain ⟨pieces, rest, hcuts, hnone, hindex⟩ := haccounts
    refine ⟨⟨fun ⟨tokens, htokenize⟩ => ?_, fun ⟨spans, hsplits⟩ => ?_⟩, fun tokens htokenize => ?_,
      fun error htokenize => ?_⟩
    · rw [herror] at htokenize
      cases htokenize
    · obtain ⟨tokens, hok⟩ := hsplits.exists_tokensFrom hanchored .start
      rw [hresult] at hok
      cases hok
    · rw [herror] at htokenize
      cases htokenize
    · obtain rfl := Except.error.inj (herror.symm.trans htokenize)
      exact ⟨pieces, rest, hcuts, hnone, hindex.trans (Nat.zero_add _)⟩

end PatternLexer

end Lexer

/-- An expression without matches behind a character matches at the beginning of a text only. -/
theorem Pattern.before_eq_nil_of_find {pattern : Pattern}
    (hstart : ∀ c rest, pattern.ends ⟨some c, rest⟩ = []) {text : List Char}
    {occurrence : Occurrence text} (hfind : pattern.find text = some occurrence) :
    occurrence.before = [] := by
  have hlater (c : Char) (skipped : Nat) (rest : List Char) : pattern.search (some c) skipped rest =
      none := by
    induction rest generalizing c skipped with
    | nil => simp [search, hstart]
    | cons d rest ih => simp [search, hstart, ih]
  have hfirst : ∀ found, pattern.search none 0 text = some found → found.1 = 0 := by
    intro found hfound
    cases text with
    | nil =>
      obtain ⟨spot, -, rfl⟩ := Option.map_eq_some_iff.1 hfound
      rfl
    | cons c rest =>
      rw [search] at hfound
      split at hfound
      · obtain rfl := Option.some.inj hfound
        rfl
      · rw [hlater] at hfound
        cases hfound
  obtain ⟨⟨skipped, spot⟩, hsearch, rfl⟩ := Option.map_eq_some_iff.1 hfind
  obtain rfl : skipped = 0 := hfirst _ hsearch
  rfl

namespace Lexer

namespace Sample

def signs : Alphabet := ⟨["EQUAL", "SAME", "BLANK"], by decide⟩

/-- One equals sign or two, with blanks between them. -/
def signDeclarations : List (Kind signs × PatternDeclaration) :=
  [(⟨(0 : Fin 3)⟩, { pattern := "=" }), (⟨(1 : Fin 3)⟩, { pattern := "==" }),
    (⟨(2 : Fin 3)⟩, { pattern := "[ ]+", skip := true })]

/-- An expression at the start of a text. -/
def tied (body : Pattern) : Pattern := .seq (.assert .textStart) body

/-- Compiles the expressions that are declared here. -/
def compileSign? (text : List Char) : Option Finder :=
  if text = PatternLexer.anchored "=" then some (tied (.char (.single '='))).find
  else if text = PatternLexer.anchored "==" then
    some (tied (.seq (.char (.single '=')) (.char (.single '=')))).find
  else if text = PatternLexer.anchored "[ ]+" then
    some (tied (.rounds (.char (.single ' ')) 1 none true)).find
  else none

theorem isSome_build_signs :
    (PatternLexer.build compileSign? signDeclarations).value.isSome = true := by decide

def signLexer : PatternLexer (Kind signs) :=
  (PatternLexer.build compileSign? signDeclarations).value.get isSome_build_signs

theorem build_signs_eq :
    (PatternLexer.build compileSign? signDeclarations).value = some signLexer :=
  (Option.some_get isSome_build_signs).symm

theorem signLexer_lexemes :
    signLexer.lexemes =
      [⟨⟨(0 : Fin 3)⟩, (tied (.char (.single '='))).find, false, false⟩,
        ⟨⟨(1 : Fin 3)⟩, (tied (.seq (.char (.single '=')) (.char (.single '=')))).find,
          false, false⟩,
        ⟨⟨(2 : Fin 3)⟩, (tied (.rounds (.char (.single ' ')) 1 none true)).find, true, false⟩] :=
  rfl

/-- The expressions of the sample are tied to the start of the text. -/
theorem isAnchored_signs (lexeme : Lexeme (Kind signs)) (hlexeme : lexeme ∈ signLexer.lexemes)
    (text : List Char) :
    lexeme.IsAnchored text := by
  have hstart (body : Pattern) (c : Char) (rest : List Char) : (tied body).ends ⟨some c, rest⟩ =
      [] := rfl
  intro occurrence hfind
  rw [signLexer_lexemes] at hlexeme
  simp only [List.mem_cons, List.not_mem_nil, or_false] at hlexeme
  rcases hlexeme with rfl | rfl | rfl
  · exact Pattern.before_eq_nil_of_find (hstart _) hfind
  · exact Pattern.before_eq_nil_of_find (hstart _) hfind
  · exact Pattern.before_eq_nil_of_find (hstart _) hfind

/-- The tokens of a sample without the last one. -/
def signTokens : List (Token (Kind signs)) :=
  [.ofSpan ⟨(0 : Fin 3)⟩ "=" ⟨0, 0, 0⟩, .ofSpan ⟨(1 : Fin 3)⟩ "==" ⟨2, 0, 2⟩]

theorem tokenize_signs :
    signLexer.tokenize "= ==" = .ok (signTokens ++ [.endOfStream ⟨4, 0, 4⟩]) := by
  have hpieces : signLexer.tokensFrom .start (['='] ++ ([' '] ++ (['=', '='] ++ []))) =
      .ok signTokens := by
    rw [PatternLexer.tokensFrom_of_wins _ (by simp) rfl,
      PatternLexer.tokensFrom_of_wins _ (by simp) rfl,
        PatternLexer.tokensFrom_of_wins _ (by simp) rfl, PatternLexer.tokensFrom]
    rfl
  exact congrArg (Except.map withEndOfStream) hpieces

end Sample

theorem tokenize_partition_signs :
    (PatternLexer.build Sample.compileSign? Sample.signDeclarations).value = some Sample.signLexer ∧
      (∀ lexeme ∈ Sample.signLexer.lexemes, ∀ text, text <:+ "= ==".toList →
        lexeme.IsAnchored text) ∧
      (∃ spans, Splits Sample.signLexer.lexemes "= ==".toList spans) ∧
      ∃ pieces, Cuts Sample.signLexer.lexemes 0 "= ==".toList pieces [] ∧
        List.Forall₂ IsTokenOf (pieces.filter fun piece => !piece.lexeme.skip)
          Sample.signTokens := by
  have hanchored : ∀ lexeme ∈ Sample.signLexer.lexemes, ∀ text, text <:+ "= ==".toList →
      lexeme.IsAnchored text :=
    fun lexeme hlexeme text _ => Sample.isAnchored_signs lexeme hlexeme text
  obtain ⟨-, hiff, hpieces, -⟩ := PatternLexer.tokenize_partition Sample.build_signs_eq
    "= ==" hanchored
  obtain ⟨pieces, found, position, hcuts, htokens, hfound⟩ := hpieces _ Sample.tokenize_signs
  obtain ⟨rfl, -⟩ := List.append_inj' htokens rfl
  exact ⟨Sample.build_signs_eq, hanchored, hiff.1 ⟨_, Sample.tokenize_signs⟩, pieces, hcuts, hfound⟩

end Lexer

end GrammarKit
