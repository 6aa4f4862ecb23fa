import GrammarKit.Proofs.Automaton.Longest
import GrammarKit.Proofs.Lexer.Covering
import GrammarKit.Proofs.Lexer.Literals

namespace GrammarKit

/-- Whether the character stands in a source at this position. -/
def PointsAt (source : String) (character : Char) (position : Position) : Prop :=
  position.index < byteSize source.toList ∧ charAt? source position.index = some character

/-- Whether the character is the last one of a source, of which the position is the end. -/
def PointsBehind (source : String) (character : Char) (position : Position) : Prop :=
  position.index = byteSize source.toList ∧ source.toList.getLast? = some character

instance (source : String) (character : Char) (position : Position) :
    Decidable (PointsAt source character position) :=
  inferInstanceAs (Decidable (_ ∧ _))

/-- No character stands behind the last one. -/
theorem PointsBehind.not_pointsAt {source : String} {character : Char} {position : Position}
    (hbehind : PointsBehind source character position) (other : Char) :
    ¬PointsAt source other position :=
  fun hat => Nat.ne_of_lt hat.1 hbehind.1

section Pointing

variable {source : String} {position : Position} {read later : List Char} {character : Char}

/-- Counting over what was read leads to the character behind it. -/
theorem pointsAt_advanceOver
    (hrest : dropBytes position.index source.toList = some (read ++ character :: later)) :
    PointsAt source character (position.advanceOver read) := by
  have hdrop := dropBytes_advanceOver hrest
  obtain ⟨before, hsource, hsize⟩ := dropBytes_eq_some_iff.1 hdrop
  refine ⟨?_, charAt?_eq_head? hdrop⟩
  have hpos := character.utf8Size_pos
  rw [hsource, ← hsize, byteSize_append, byteSize_cons]
  omega

/-- Counting over the last character leads to the end of the source. -/
theorem pointsBehind_advanceOver
    (hrest : dropBytes position.index source.toList = some (read ++ [character])) :
    PointsBehind source character (position.advanceOver (read ++ [character])) := by
  obtain ⟨before, hsource, hsize⟩ := dropBytes_eq_some_iff.1 hrest
  refine ⟨?_, ?_⟩
  · rw [Position.index_advanceOver, hsource, ← hsize, byteSize_append before]
  · rw [hsource, ← List.append_assoc, List.getLast?_concat]

end Pointing

namespace Automaton

variable {K : Type} {automaton : Automaton K}

/-- Whether a text runs out in the middle of a token: the walk reads all of it
    and stands on no end node on its way. -/
structure RunsOut (automaton : Automaton K) (text : List Char) : Prop where
  ne_nil : text ≠ []
  standsOn : ∃ node, automaton.StandsOn text node
  not_stopsAfter : ∀ read, read <+: text → ¬automaton.StopsAfter read

instance (text : List Char) : Decidable (automaton.RunsOut text) :=
  decidable_of_iff
    (text ≠ [] ∧ (automaton.reach? startNode [] text).isSome = true ∧
      ∀ read ∈ text.inits, ¬automaton.StopsAfter read) <| by
    simp only [List.mem_inits, Option.isSome_iff_exists, ← standsOn_iff]
    exact ⟨fun ⟨hne, hnode, hnone⟩ => ⟨hne, hnode, hnone⟩,
      fun hout => ⟨hout.ne_nil, hout.standsOn, hout.not_stopsAfter⟩⟩

/-- Why a scan of `left` from `start` on fails, which character it names, and
    where it says that this character is. -/
inductive Fails (automaton : Automaton K) (start : Position) (left : List Char) :
    Char → Position → Prop
  /-- The walk stood on no end node before it came to a character at which no
      edge can be taken. -/
  | stuck {read later : List Char} {c : Char} {node : Nat} (hleft : left = read ++ c :: later)
      (hnode : automaton.StandsOn read node)
      (hstuck : ∀ edge ∈ automaton.transitionsFrom node, ¬edge.Admits read c)
      (hnone : ∀ other, other <+: left → ¬automaton.StopsAfter other) :
      Fails automaton start left c (start.advanceOver read)
  /-- The text ran out in the middle of a token. -/
  | ranOut {read : List Char} {c : Char} (hleft : left = read ++ [c])
      (hout : automaton.RunsOut left) : Fails automaton start left c (start.advanceOver left)
  /-- The end node after the longest match makes no token of it. -/
  | rejected {later text : List Char} {c : Char} (hleft : left = c :: later)
      (hlongest : IsLongest automaton.StopsAfter left text) : Fails automaton start left c start

/-- A walk reads on for as long as an edge can be taken. -/
theorem exists_walk_stop (automaton : Automaton K) (node : Nat) (reversed : List Char)
    (best : Option Match) (position : Position) (text : List Char) :
    ∃ read later target, text = read ++ later ∧
      automaton.reach? node reversed.reverse read = some target ∧
      (∀ c ∈ later.head?, automaton.next? target (reversed.reverse ++ read) c = none) ∧
      (automaton.walk node reversed best position text).2 = ⟨position.advanceOver read, later⟩ := by
  induction text generalizing node reversed best position with
  | nil => exact ⟨[], [], node, rfl, rfl, fun c hc => absurd hc (Option.not_mem_none c), rfl⟩
  | cons c text ih =>
    rw [walk]
    cases hnext : automaton.next? node reversed.reverse c with
    | none =>
      refine ⟨[], c :: text, node, rfl, rfl, fun first hfirst => ?_, rfl⟩
      obtain rfl := Option.some.inj hfirst
      rwa [List.append_nil]
    | some target =>
      dsimp only
      obtain ⟨read, later, last, rfl, hreach, hstuck, hstop⟩ := ih target (c :: reversed)
        (if automaton.isEnd target then some ⟨target, c :: reversed, position.advance c, text⟩
          else best) (position.advance c)
      rw [List.reverse_cons] at hreach hstuck
      rw [List.append_assoc, List.singleton_append] at hstuck
      exact ⟨c :: read, later, last, rfl, by rw [reach?_cons hnext, hreach], hstuck, hstop⟩

/-- What the walk stands on after a text, it was led to by the beginnings of this text. -/
theorem StandsOn.exists_of_prefix {read text : List Char} {node : Nat}
    (hnode : automaton.StandsOn text node) (hpre : read <+: text) :
    ∃ other, automaton.StandsOn read other := by
  induction hnode with
  | start =>
    obtain rfl := List.prefix_nil.1 hpre
    exact ⟨startNode, .start⟩
  | step hstands htakes ih =>
    rcases List.prefix_concat_iff.1 hpre with rfl | hshorter
    · exact ⟨_, .step hstands htakes⟩
    · exact ih hshorter

/-- The walk goes no further than to a character at which no edge can be taken. -/
theorem not_standsOn_of_stuck {read later : List Char} {c : Char} {node : Nat}
    (hnode : automaton.StandsOn read node)
    (hstuck : ∀ edge ∈ automaton.transitionsFrom node, ¬edge.Admits read c) (other : Nat) :
    ¬automaton.StandsOn (read ++ c :: later) other := by
  intro hother
  have hpre : read ++ [c] <+: read ++ c :: later :=
    ⟨later, by rw [List.append_assoc, List.singleton_append]⟩
  obtain ⟨target, htarget⟩ := hother.exists_of_prefix hpre
  rw [standsOn_iff, reach?_concat, standsOn_iff.1 hnode, Option.bind_some, List.nil_append,
    next?_eq_none_iff.2 hstuck] at htarget
  cases htarget

section Scans

variable {source : String} {position start failed : Position} {rest left : List Char}
    {character : Char} {after : Place}

/-- A scan that fails has a reason to. -/
theorem fails_of_run (hskip : automaton.skipIgnored position rest = ⟨start, left⟩)
    (hrun : automaton.run ⟨position, rest⟩ = (.failure character failed, after)) :
    automaton.Fails start left character failed := by
  simp only [run, hskip] at hrun
  split at hrun
  · cases congrArg Prod.fst hrun
  · next hempty =>
    have hleft : left ≠ [] := by simpa using hempty
    have hwalk := automaton.walk_cases startNode [] none start left
    have hstop := automaton.exists_walk_stop startNode [] none start left
    generalize automaton.walk startNode [] none start left = walked at hrun hwalk hstop
    obtain ⟨found, stop⟩ := walked
    rcases hwalk with ⟨hnone, hbarren⟩ | ⟨read, later, target, -, hlast, hfound⟩
    -- No end node was met, and the walk stopped where no edge can be taken or nothing is left.
    · obtain rfl : found = none := hnone
      obtain ⟨read, later, node, hsplit, hreach, hstuck, hstop⟩ := hstop
      obtain rfl : stop = ⟨start.advanceOver read, later⟩ := hstop
      obtain ⟨rfl, rfl⟩ := Outcome.failure.inj (Prod.mk.inj hrun).1
      have hnode := standsOn_iff.2 hreach
      cases later with
      | cons c later =>
        exact .stuck hsplit hnode (next?_eq_none_iff.1 (hstuck c rfl)) fun _ =>
          hbarren.not_stopsAfter
      | nil =>
        rw [List.append_nil] at hsplit
        obtain ⟨front, last, rfl⟩ := (List.eq_nil_or_concat' left).resolve_left hleft
        subst hsplit
        rw [List.getLast?_concat]
        exact .ranOut rfl ⟨hleft, ⟨node, hnode⟩, fun _ => hbarren.not_stopsAfter⟩
    -- An end node was met, so the scan can only have failed because no token was made of the match.
    · obtain rfl : found = some _ := hfound
      dsimp only at hrun
      split at hrun
      · cases congrArg Prod.fst hrun
      · obtain ⟨rfl, rfl⟩ := Outcome.failure.inj (Prod.mk.inj hrun).1
        obtain ⟨c, later, rfl⟩ := List.exists_cons_of_ne_nil hleft
        exact .rejected rfl hlast.isLongest
      · cases congrArg Prod.fst hrun

/-- Each reason to fail tells where the character stands that is named. -/
theorem locates_of_fails (hleft : dropBytes start.index source.toList = some left)
    (hfails : automaton.Fails start left character failed) :
    (∃ read, read <+: left ∧ failed = start.advanceOver read) ∧
      (automaton.RunsOut left → PointsBehind source character failed) ∧
      (¬automaton.RunsOut left → PointsAt source character failed) := by
  cases hfails with
  | @stuck read later _ node hsplit hnode hstuck hnone =>
    subst hsplit
    refine ⟨⟨read, List.prefix_append _ _, rfl⟩, fun hout => ?_,
      fun _ => pointsAt_advanceOver hleft⟩
    obtain ⟨other, hother⟩ := hout.standsOn
    exact absurd hother (not_standsOn_of_stuck hnode hstuck other)
  | ranOut hsplit hout =>
    subst hsplit
    exact ⟨⟨_, List.prefix_rfl, rfl⟩, fun _ => pointsBehind_advanceOver hleft,
      fun hgoes => absurd hout hgoes⟩
  | rejected hsplit hlongest =>
    subst hsplit
    exact ⟨⟨[], List.nil_prefix, rfl⟩, fun hout =>
      absurd hlongest.holds (hout.not_stopsAfter _ hlongest.isPrefix),
      fun _ => (pointsAt_advanceOver hleft : PointsAt source _ (start.advanceOver []))⟩

end Scans

/-- What a failed scan of `rest` from `position` on says of a source: it names
    the character at the position that it reports if and only if the text does
    not run out in the middle of a token. When it does, the scan names the last
    character and reports the end. -/
structure Locates (automaton : Automaton K) (source : String) (position : Position)
    (rest : List Char) (character : Char) (failed : Position) : Prop where
  reached : ∃ read, read <+: rest ∧ failed = position.advanceOver read
  pointsAt_iff : PointsAt source character failed ↔
    ¬automaton.RunsOut (rest.dropWhile automaton.blanks.ignores)
  pointsBehind : automaton.RunsOut (rest.dropWhile automaton.blanks.ignores) →
    PointsBehind source character failed

/-- A scan that fails names the character that stands at the position it
    reports, unless the text runs out. -/
theorem locates_of_run {source : String} {position failed : Position} {rest : List Char}
    {character : Char} {after : Place} (hrest : dropBytes position.index source.toList = some rest)
    (hrun : automaton.run ⟨position, rest⟩ = (.failure character failed, after)) :
    automaton.Locates source position rest character failed := by
  have hsplit : rest.takeWhile automaton.blanks.ignores ++ rest.dropWhile automaton.blanks.ignores =
      rest :=
    List.takeWhile_append_dropWhile
  have hleft := dropBytes_advanceOver (hsplit.symm ▸ hrest)
  obtain ⟨⟨read, hpre, rfl⟩, hbehind, hat⟩ :=
    locates_of_fails hleft (fails_of_run (skipIgnored_eq ..) hrun)
  refine ⟨⟨rest.takeWhile automaton.blanks.ignores ++ read, ?_, ?_⟩,
    ⟨fun hpoints hout => (hbehind hout).not_pointsAt character hpoints, hat⟩, hbehind⟩
  · conv_rhs => rw [← hsplit]
    exact List.prefix_append_right_inj _ |>.2 hpre
  · rw [Position.advanceOver_append]

end Automaton

namespace Lexer

open Automaton

variable {K : Type} {lexer : FamilyLexer K}

/-- Of the scans that follow one another, the last one has failed when there is
    an error, and says the same. -/
theorem exists_starts_of_tokensFrom {source : List Char} {place : Place} {error : LexicalError}
    (hplace : Starts lexer source place)
    (herror : lexer.tokensFrom place = .error (.lexical error)) :
    ∃ last after, Starts lexer source last ∧
      lexer.automaton.run last = (.failure error.character error.position, after) := by
  induction place using FamilyLexer.scan_induction lexer with
  | hstop place position after hrun =>
    rw [FamilyLexer.tokensFrom_endOfStream hrun] at herror
    cases herror
  | hfail place character position after hrun =>
    rw [FamilyLexer.tokensFrom_failure hrun] at herror
    obtain rfl := TokenizeError.lexical.inj (Except.error.inj herror)
    exact ⟨place, after, hplace, hrun⟩
  | hmiscut place cause after hrun =>
    rw [FamilyLexer.tokensFrom_miscut hrun] at herror
    cases herror
  | hscan place token node matched after finished next hrun hfinish ih =>
    rw [FamilyLexer.tokensFrom_success hrun hfinish] at herror
    cases hlater : lexer.tokensFrom next with
    | ok tokens =>
      rw [hlater] at herror
      cases herror
    | error later =>
      rw [hlater] at herror
      obtain rfl : later = .lexical error := Except.error.inj herror
      exact ih (.next hplace hrun hfinish) hlater

/-- Where failures point. Whenever a scan that starts between two characters
    fails, it names the character of the source at the position that it reports
    if and only if the text does not run out in the middle of a token; otherwise
    it names the last character of the source and reports the position behind
    it. The error of a lexer comes from such a scan. -/
theorem lexical_errors_locate (K : Type) :
    (∀ (automaton : Automaton K) (source : String) (position failed : Position) (rest : List Char)
      (character : Char)
        (cursor : Place), dropBytes position.index source.toList = some rest →
      automaton.run (.of source position) = (.failure character failed, cursor) →
      automaton.Locates source position rest character failed) ∧
    ∀ (lexer : FamilyLexer K) (source : String) (error : LexicalError),
      lexer.tokenize source = .error (.lexical error) →
      ∃ before rest cursor, source.toList = before ++ rest ∧
        lexer.automaton.run ⟨.after before, rest⟩ =
          (.failure error.character error.position, cursor) ∧
        lexer.automaton.Locates source (.after before) rest error.character error.position := by
  refine ⟨fun automaton source position failed rest character cursor hrest hrun => ?_,
    fun lexer source error herror => ?_⟩
  · rw [Place.of_eq hrest] at hrun
    exact locates_of_run hrest hrun
  · have herror : lexer.tokensFrom (.atStart source.toList) = .error (.lexical error) := by
      rw [FamilyLexer.tokenize] at herror
      cases htokens : lexer.tokensFrom (.atStart source.toList) with
      | ok tokens =>
        rw [htokens] at herror
        cases herror
      | error found =>
        rw [htokens] at herror
        exact congrArg Except.error (Except.error.inj herror)
    obtain ⟨⟨position, rest⟩, cursor, hstarts, hrun⟩ := exists_starts_of_tokensFrom .first herror
    obtain ⟨before, hsource, hposition⟩ := isPlaceOf_of_starts hstarts
    obtain rfl : position = .after before := hposition
    exact ⟨before, rest, cursor, hsource, hrun,
      locates_of_run (dropBytes_eq_some_iff.2 ⟨before, hsource, rfl⟩) hrun⟩

namespace Sample

theorem run_open :
    quotationLexer.automaton.run (.of "$ab" .start) =
      (.failure 'b' ⟨3, 0, 3⟩, .atStart "$ab".toList) := rfl

theorem tokenize_open : quotationLexer.tokenize "$ab" = .error (.lexical ⟨'b', ⟨3, 0, 3⟩⟩) :=
  congrArg (Except.map withEndOfStream) (FamilyLexer.tokensFrom_failure run_open)

end Sample

/-- A question mark is found where it stands, and a string that is not closed is
    reported behind its last character. -/
theorem lexical_errors_locate_quotations :
    dropBytes 1 "a ?".toList = some " ?".toList ∧
      Sample.quotationLexer.automaton.run (.of "a ?" ⟨1, 0, 1⟩) =
        (.failure '?' ⟨2, 0, 2⟩, .of "a ?" ⟨2, 0, 2⟩) ∧
      PointsAt "a ?" '?' ⟨2, 0, 2⟩ ∧
      Sample.quotationLexer.tokenize "$ab" = .error (.lexical ⟨'b', ⟨3, 0, 3⟩⟩) ∧
      (∃ before rest cursor, "$ab".toList = before ++ rest ∧
        Sample.quotationLexer.automaton.run ⟨.after before, rest⟩ =
          (.failure 'b' ⟨3, 0, 3⟩, cursor) ∧
        Sample.quotationLexer.automaton.Locates "$ab" (.after before) rest 'b' ⟨3, 0, 3⟩) ∧
      Sample.quotationLexer.automaton.RunsOut "$ab".toList ∧ PointsBehind "$ab" 'b' ⟨3, 0, 3⟩ := by
  obtain ⟨hscans, herrors⟩ := lexical_errors_locate (Kind Sample.quoted)
  have hrun : Sample.quotationLexer.automaton.run (.of "a ?" ⟨1, 0, 1⟩) =
      (.failure '?' ⟨2, 0, 2⟩, .of "a ?" ⟨2, 0, 2⟩) := rfl
  have hgoes : ¬Sample.quotationLexer.automaton.RunsOut "?".toList := by decide +kernel
  have hout : Sample.quotationLexer.automaton.RunsOut "$ab".toList := by decide +kernel
  exact ⟨rfl, hrun, (hscans _ "a ?" ⟨1, 0, 1⟩ _ _ _ _ rfl hrun).pointsAt_iff.2 hgoes,
    Sample.tokenize_open, herrors _ _ _ Sample.tokenize_open, hout,
      (hscans _ "$ab" .start _ _ _ _ rfl Sample.run_open).pointsBehind hout⟩

/-- A lexical error can lie outside the source, behind the character that it names. -/
theorem exists_error_not_pointsAt :
    ∃ (lexer : FamilyLexer (Kind Sample.quoted)) (error : LexicalError),
      (FamilyLexer.build Sample.quotations {}).value = some lexer ∧
      lexer.tokenize "$ab" = .error (.lexical error) ∧
      lexer.automaton.run (.of "$ab" .start) = (.failure error.character error.position,
        .atStart "$ab".toList) ∧
      error.position.index = byteSize "$ab".toList ∧ charAt? "$ab" error.position.index = none ∧
      ¬PointsAt "$ab" error.character error.position :=
  ⟨Sample.quotationLexer, ⟨'b', ⟨3, 0, 3⟩⟩, Sample.build_quotations_eq, Sample.tokenize_open,
    Sample.run_open, rfl, rfl, by decide⟩

end Lexer

end GrammarKit
