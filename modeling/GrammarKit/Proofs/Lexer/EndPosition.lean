import GrammarKit.Pattern.Reader
import GrammarKit.Proofs.Lexer.Partition
import GrammarKit.Proofs.Lexer.Scan
import Mathlib.Data.List.Forall2

namespace GrammarKit

/-- Whether a text ends a line, and only at its end. -/
def EndsLine (text : List Char) : Prop := ∃ before, text = before ++ ['\n'] ∧ '\n' ∉ before

namespace Position

/-- Counting over a text adds the line feeds in it to the line. -/
theorem line_advanceOver (pos : Position) (text : List Char) :
    (pos.advanceOver text).line = pos.line + text.count '\n' := by
  induction text generalizing pos with
  | nil => rfl
  | cons c text ih =>
    rw [advanceOver_cons, ih, List.count_cons, advance]
    by_cases hc : c = '\n'
    · simp only [hc, beq_self_eq_true, if_true]
      omega
    · simp only [if_neg hc, beq_eq_false_iff_ne.2 hc, Bool.false_eq_true, if_false, Nat.add_zero]

/-- Counting over a text leads to the start of the next line only if the text ends one line. -/
theorem advanceOver_eq_nextLine_iff (pos : Position) (text : List Char) :
    pos.advanceOver text = ⟨pos.index + byteSize text, pos.line + 1, 0⟩ ↔ EndsLine text := by
  constructor
  · intro hnext
    have hline : text.count '\n' = 1 := by
      have hline := congrArg line hnext
      rw [line_advanceOver] at hline
      exact Nat.add_left_cancel hline
    rcases List.eq_nil_or_concat' text with rfl | ⟨before, c, rfl⟩
    · cases hline
    · have hcolumn := congrArg column hnext
      rw [advanceOver_append, advanceOver_cons, advanceOver_nil, advance] at hcolumn
      by_cases hc : c = '\n'
      · subst hc
        refine ⟨before, rfl, List.count_eq_zero.1 ?_⟩
        rw [List.count_append, List.count_singleton_self] at hline
        omega
      · rw [if_neg hc] at hcolumn
        cases hcolumn
  · rintro ⟨before, rfl, hbefore⟩
    have hline : (pos.advanceOver before).line = pos.line := by
      rw [line_advanceOver, List.count_eq_zero.2 hbefore, Nat.add_zero]
    rw [advanceOver_append, advanceOver_cons, advanceOver_nil, advance, if_pos rfl, hline,
      index_advanceOver, byteSize_append, Nat.add_assoc]
    rfl

end Position

namespace Lexer

variable {K : Type}

/-- One round of a lexer: where it starts, and the lexeme and the text that are taken. -/
structure Round (K : Type) where
  start : Position
  lexeme : Lexeme K
  text : List Char

namespace Round

/-- Where the round after it starts. -/
def next (round : Round K) : Position := round.lexeme.advance round.start round.text

/-- Whether the round gives a token. -/
def isKept (round : Round K) : Bool := !round.lexeme.skip

/-- The token of the round. -/
def token (round : Round K) : Token K :=
  .ofSpan round.lexeme.kind (String.ofList round.text) round.start

/-- Reading goes on at the byte behind the text of the round. -/
theorem index_next (round : Round K) :
    round.next.index = (round.start.advanceOver round.text).index := by
  rw [next, Lexeme.index_advance, Position.index_advanceOver]

/-- Counting over the text leads to where reading goes on, unless the lexeme
    ends lines and the text does not. -/
theorem advanceOver_eq_next_iff (round : Round K) :
    round.start.advanceOver round.text = round.next ↔
    (round.lexeme.lineEnding = true → EndsLine round.text) := by
  rw [next, Lexeme.advance]
  cases round.lexeme.lineEnding with
  | true => simpa using round.start.advanceOver_eq_nextLine_iff round.text
  | false => simp

end Round

namespace PatternLexer

variable {lexer : PatternLexer K} {compile : List Char → Option Finder}

/-- The rounds in which a text is read to its end from a position on, each where
    the one before it led to. -/
inductive Scans (lexer : PatternLexer K) : Position → List Char → List (Round K) → Prop
  | done (position : Position) : Scans lexer position [] []
  | round {position : Position} {text rest : List Char} {lexeme : Lexeme K}
      {rounds : List (Round K)} (hmatch : lexer.longestMatch (text ++ rest) = some (lexeme, text))
      (hlater : Scans lexer (lexeme.advance position text) rest rounds) :
      Scans lexer position (text ++ rest) (⟨position, lexeme, text⟩ :: rounds)

/-- The rounds take lexemes of the lexer. -/
theorem Scans.lexeme_mem {position : Position} {text : List Char} {rounds : List (Round K)}
    (hscans : Scans lexer position text rounds) :
    ∀ round ∈ rounds, round.lexeme ∈ lexer.lexemes := by
  induction hscans with
  | done => exact nofun
  | round hmatch _ ih => exact List.forall_mem_cons.2 ⟨(lexer.longestMatch_spec _ _ hmatch).1, ih⟩

/-- Rounds to the end of the text give the tokens of those that are not skipped. -/
theorem Scans.tokensFrom_eq {position : Position} {text : List Char} {rounds : List (Round K)}
    (hscans : Scans lexer position text rounds) :
    lexer.tokensFrom position text = .ok ((rounds.filter Round.isKept).map Round.token) := by
  induction hscans with
  | done => rw [tokensFrom, List.filter_nil, List.map_nil]
  | @round position text rest lexeme rounds hmatch _ ih =>
    rw [tokensFrom_of_wins position (longestMatch_ne_nil hmatch) hmatch, ih]
    cases hskip : lexeme.skip with
    | true => simp [Except.map, Round.isKept, hskip]
    | false => simp [Except.map, Round.isKept, Round.token, hskip]

/-- Where tokens are read there are rounds. -/
theorem exists_scans_of_tokensFrom {position : Position} {text : List Char}
    {tokens : List (Token K)} (hok : lexer.tokensFrom position text = .ok tokens) :
    ∃ rounds, Scans lexer position text rounds ∧
      tokens = (rounds.filter Round.isKept).map Round.token := by
  induction position, text using round_induction lexer generalizing tokens with
  | hdone position =>
    rw [tokensFrom] at hok
    obtain rfl := Except.ok.inj hok
    exact ⟨[], .done position, rfl⟩
  | hfail position c text hnone =>
    rw [tokensFrom_of_longestMatch_eq_none hnone] at hok
    cases hok
  | hround position text rest lexeme hmatch ih =>
    rw [tokensFrom_of_wins position (longestMatch_ne_nil hmatch) hmatch] at hok
    obtain ⟨later, hlater, rfl⟩ := exists_of_map_eq_ok hok
    obtain ⟨rounds, hscans, rfl⟩ := ih hlater
    refine ⟨_, .round hmatch hscans, ?_⟩
    cases hskip : lexeme.skip with
    | true => simp [Round.isKept, hskip]
    | false => simp [Round.isKept, Round.token, hskip]

/-- The tokens that are read are those of the rounds that are not skipped. -/
theorem tokensFrom_eq_ok_iff {position : Position} {text : List Char} {tokens : List (Token K)} :
    lexer.tokensFrom position text = .ok tokens ↔
      ∃ rounds, Scans lexer position text rounds ∧
        tokens = (rounds.filter Round.isKept).map Round.token := by
  constructor
  · exact exists_scans_of_tokensFrom
  · rintro ⟨rounds, hscans, rfl⟩
    exact hscans.tokensFrom_eq

variable [DecidableEq K] [TokenKind K]

/-- Each lexeme of a lexer was declared. -/
theorem exists_isDeclared {declarations : List (K × PatternDeclaration)}
    (hbuild : (build compile declarations).value = some lexer) {lexeme : Lexeme K}
    (hlexeme : lexeme ∈ lexer.lexemes) :
    ∃ declared ∈ declarations, IsDeclared compile declared lexeme := by
  obtain ⟨index, hindex, rfl⟩ := List.getElem_of_mem hlexeme
  have hall := isDeclared_of_build hbuild
  have hless : index < declarations.length := hall.length_eq ▸ hindex
  exact ⟨declarations[index], List.getElem_mem hless, hall.get hless hindex⟩

/-- The end of the stream is at the byte at which reading went on behind the
    last token. It also is on the line and in the column at which reading went
    on, unless the last token belongs to a lexeme that ends lines and its text
    does not end exactly one line. -/
theorem endOfStream_position {declarations : List (K × PatternDeclaration)}
    (hbuild : (build compile declarations).value = some lexer) {source : String}
    {tokens : List (Token K)} (hok : lexer.tokenize source = .ok tokens) :
    ∃ rounds position, Scans lexer .start source.toList rounds ∧
      tokens = (rounds.filter Round.isKept).map Round.token ++ [.endOfStream position] ∧
      ∀ last, (rounds.filter Round.isKept).getLast? = some last → ∃ declared ∈ declarations,
        IsDeclared compile declared last.lexeme ∧ position.index = last.next.index ∧
          (position = last.next ↔ (declared.2.lineEnding = true → EndsLine last.text)) := by
  obtain ⟨found, hfound, rfl⟩ := exists_of_map_eq_ok hok
  obtain ⟨rounds, hscans, rfl⟩ := tokensFrom_eq_ok_iff.1 hfound
  refine ⟨rounds, _, hscans, rfl, fun last hlast => ?_⟩
  have hmem := (List.mem_filter.1 (List.mem_of_getLast? hlast)).1
  obtain ⟨declared, hdeclared, hlexeme⟩ := exists_isDeclared hbuild (hscans.lexeme_mem last hmem)
  have hposition : endPosition ((rounds.filter Round.isKept).map Round.token) =
      last.start.advanceOver last.text := by
    rw [endPosition, List.getLast?_map, hlast]
    exact congrArg _ String.toList_ofList
  refine ⟨declared, hdeclared, hlexeme, ?_, ?_⟩
  · rw [hposition, last.index_next]
  · rw [hposition, last.advanceOver_eq_next_iff, hlexeme.lineEnding]

end PatternLexer

namespace Sample

def breaks : Alphabet := ⟨["BREAK"], by decide⟩

/-- Carriage returns end lines, alone or in front of a line feed, and are tokens. -/
def breakDeclarations : List (Kind breaks × PatternDeclaration) :=
  [(⟨(0 : Fin 1)⟩, { pattern := "\\r\\n?", lineEnding := true })]

theorem isSome_build_breaks :
    (PatternLexer.build Pattern.compile? breakDeclarations).value.isSome = true := by decide

def breakLexer : PatternLexer (Kind breaks) :=
  (PatternLexer.build Pattern.compile? breakDeclarations).value.get isSome_build_breaks

theorem build_breaks_eq :
    (PatternLexer.build Pattern.compile? breakDeclarations).value = some breakLexer :=
  (Option.some_get isSome_build_breaks).symm

/-- The round in which the whole source is a break. -/
def breakRound (source : String) : Round (Kind breaks) :=
  ⟨.start, breakLexer.lexemes.head nofun, source.toList⟩

theorem scans_break {source : String}
    (hmatch : breakLexer.longestMatch (source.toList ++ []) =
      some ((breakRound source).lexeme, source.toList)) :
    PatternLexer.Scans breakLexer .start source.toList [breakRound source] := by
  have hscans : PatternLexer.Scans breakLexer .start (source.toList ++ []) [breakRound source] :=
    .round hmatch (.done _)
  rwa [List.append_nil] at hscans

/-- A source that is one break is one token and the end of the stream. -/
theorem tokenize_break {source : String}
    (hscans : PatternLexer.Scans breakLexer .start source.toList [breakRound source]) :
    breakLexer.tokenize source =
      .ok [(breakRound source).token, .endOfStream
        (Position.start.advanceOver (breakRound source).token.span.toList)] :=
  congrArg (Except.map withEndOfStream) hscans.tokensFrom_eq

end Sample

theorem endOfStream_position_breaks :
    (PatternLexer.build Pattern.compile? Sample.breakDeclarations).value = some Sample.breakLexer ∧
      Sample.breakLexer.tokenize "\r\n" = .ok [(Sample.breakRound "\r\n").token,
        .endOfStream ⟨2, 1, 0⟩] ∧
      ∃ rounds, PatternLexer.Scans Sample.breakLexer .start "\r\n".toList rounds ∧
        ∀ last, (rounds.filter Round.isKept).getLast? = some last →
          (⟨2, 1, 0⟩ = last.next ↔ (last.lexeme.lineEnding = true → EndsLine last.text)) := by
  have hscans : PatternLexer.Scans Sample.breakLexer .start "\r\n".toList
      [Sample.breakRound "\r\n"] := Sample.scans_break rfl
  have hok := Sample.tokenize_break hscans
  obtain ⟨rounds, position, hscans, htokens, hlast⟩ :=
    PatternLexer.endOfStream_position Sample.build_breaks_eq hok
  refine ⟨Sample.build_breaks_eq, hok, rounds, hscans, fun last hmem => ?_⟩
  obtain ⟨declared, -, hdeclared, -, hiff⟩ := hlast last hmem
  have hend := congrArg List.getLast? htokens
  rw [List.getLast?_concat] at hend
  have hposition : ⟨2, 1, 0⟩ = position := congrArg Token.position (Option.some.inj hend)
  rw [hdeclared.lineEnding, hposition]
  exact hiff

/-- Behind a carriage return reading goes on in the next line, where the end of
    the stream is not. -/
theorem not_forall_endOfStream_eq_next :
    ¬∀ declarations (lexer : PatternLexer (Kind Sample.breaks)),
      (PatternLexer.build Pattern.compile? declarations).value = some lexer →
        ∀ source rounds position,
        PatternLexer.Scans lexer .start source.toList rounds →
          lexer.tokenize source = .ok ((rounds.filter Round.isKept).map Round.token ++
            [.endOfStream position]) →
            ∀ last, (rounds.filter Round.isKept).getLast? = some last → position = last.next := by
  intro hall
  have hscans : PatternLexer.Scans Sample.breakLexer .start "\r".toList [Sample.breakRound "\r"] :=
    Sample.scans_break rfl
  have hend := hall _ _ Sample.build_breaks_eq "\r" _ _ hscans (Sample.tokenize_break hscans) _ rfl
  exact absurd hend (by decide)

end Lexer

end GrammarKit
