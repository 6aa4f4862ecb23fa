import GrammarKit.Proofs.Lexer.Cutting
import GrammarKit.Proofs.Lexer.Munch

namespace GrammarKit

namespace Position

/-- The position right after a text: the bytes and the line feeds in it, and the
    characters since the last of these. -/
def after (text : List Char) : Position where
  index := byteSize text
  line := text.count '\n'
  column := (text.reverse.takeWhile (· ≠ '\n')).length

theorem after_concat (text : List Char) (c : Char) :
    after (text ++ [c]) = (after text).advance c := by
  rw [after, advance]
  by_cases hc : c = '\n'
  · simp [hc, after, byteSize_append]
  · simp [hc, after, byteSize_append]

/-- Counting goes on where it ended. -/
theorem after_append (before text : List Char) :
    after (before ++ text) = (after before).advanceOver text := by
  induction text using List.reverseRecOn with
  | nil => rw [List.append_nil, advanceOver_nil]
  | append_singleton text c ih =>
    rw [← List.append_assoc, after_concat, ih, advanceOver_append]
    rfl

theorem after_nil : after [] = start := rfl

end Position

/-- Whether a callback leaves the span and the position of every token as they are. -/
def Callback.KeepsPlaces {K : Type} (change : Callback K) : Prop :=
  ∀ token changed, change token = .ok (some changed) →
    changed.span = token.span ∧ changed.position = token.position

/-- Whether a callback leaves it as it is whether a token is a comment. -/
def Callback.KeepsComments {K : Type} (change : Callback K) : Prop :=
  ∀ token changed, change token = .ok (some changed) → changed.comment = token.comment

namespace Automaton

variable {K : Type} {automaton : Automaton K}

/-- Whether callbacks leave the span and the position of every token as they are. -/
def KeepsPlaces (automaton : Automaton K) : Prop :=
  ∀ node ∈ automaton.nodes, ∀ change, node.callback = some change → Callback.KeepsPlaces change

/-- Whether callbacks make no comments of tokens that are none. -/
def KeepsComments (automaton : Automaton K) : Prop :=
  ∀ node ∈ automaton.nodes, ∀ change, node.callback = some change → Callback.KeepsComments change

/-- A token comes from a match as it is, or from the callback of a node. -/
theorem exists_ofSpan_of_accept {start : Place} {found : Match} {token : Token K}
    (haccept : automaton.accept start found = .ok (some token)) :
    ∃ kind, token = .ofSpan kind (String.ofList found.reversed.reverse) start.position ∨
      ∃ node ∈ automaton.nodes, ∃ change, node.callback = some change ∧
        change (.ofSpan kind (String.ofList found.reversed.reverse) start.position) =
          .ok (some token) := by
  obtain ⟨node, kind, hnode, -, hfinish⟩ := exists_of_accept_eq_some haccept
  refine ⟨kind, ?_⟩
  rw [Node.finish] at hfinish
  cases hcallback : node.callback with
  | none =>
    rw [hcallback] at hfinish
    exact Or.inl (Option.some.inj (Except.ok.inj hfinish)).symm
  | some change =>
    rw [hcallback] at hfinish
    exact Or.inr ⟨node, List.mem_of_getElem? hnode, change, hcallback, hfinish⟩

/-- A token of an automaton that keeps to places has the text of its match and its place. -/
theorem accept_places (hkeeps : automaton.KeepsPlaces) {start : Place} {found : Match}
    {token : Token K} (haccept : automaton.accept start found = .ok (some token)) :
    token.span = String.ofList found.reversed.reverse ∧ token.position = start.position := by
  obtain ⟨kind, rfl | ⟨node, hnode, change, hcallback, hchange⟩⟩ := exists_ofSpan_of_accept haccept
  · exact ⟨rfl, rfl⟩
  · exact hkeeps node hnode change hcallback _ token hchange

/-- A token of an automaton that makes no comments is none. -/
theorem accept_comment (hkeeps : automaton.KeepsComments) {start : Place} {found : Match}
    {token : Token K} (haccept : automaton.accept start found = .ok (some token)) :
    token.comment = none := by
  obtain ⟨kind, rfl | ⟨node, hnode, change, hcallback, hchange⟩⟩ := exists_ofSpan_of_accept haccept
  · rfl
  · exact hkeeps node hnode change hcallback _ token hchange

end Automaton

namespace Lexer

open Automaton

variable {K : Type}

/-- Whether tokens cover a text, where `before` stands in front of it and `rest`
    after it, with nothing but ignored characters between them. -/
inductive Covers (lexer : FamilyLexer K) (ignored : Char → Bool) (rest : List Char) :
    List Char → List Char → List (Token K) → Prop
  | nil (before : List Char) : Covers lexer ignored rest before [] []
  | token {before gap covered : List Char} {token : Token K} {tokens : List (Token K)}
      (hgap : ∀ c ∈ gap, ignored c = true) (hspan : token.span.toList ≠ [])
      (hposition : token.position = Position.after (before ++ gap))
      (hcomment : lexer.automaton.KeepsComments → token.comment = none)
      (hlater : Covers lexer ignored rest (before ++ gap ++ token.span.toList) covered tokens) :
      Covers lexer ignored rest before (gap ++ token.span.toList ++ covered) (token :: tokens)
  | comment {before gap covered marker body : List Char} {token : Token K} {tokens : List (Token K)}
      {node : Nat} {ending : CommentEnd} (hgap : ∀ c ∈ gap, ignored c = true)
      (hmarker : marker ≠ []) (hending : (node, ending) ∈ lexer.comments)
      (hspan : token.span.toList = marker ++ body)
      (hposition : token.position = Position.after (before ++ gap))
      (hcomment : token.comment = some ending.kind) (hbody : ending.IsBody body (covered ++ rest))
      (hlater : Covers lexer ignored rest (before ++ gap ++ token.span.toList) covered tokens) :
      Covers lexer ignored rest before (gap ++ token.span.toList ++ covered) (token :: tokens)

namespace FamilyLexer

variable {lexer : FamilyLexer K}

/-- The tokens that are found cover what is read. -/
theorem covers_of_tokensFrom (hkeeps : lexer.automaton.KeepsPlaces) {place : Place}
    {before : List Char} (hplace : place.position = Position.after before) {tokens : List (Token K)}
    (hok : lexer.tokensFrom place = .ok tokens) :
    ∃ covered gap, place.rest = covered ++ gap ∧
      (∀ c ∈ gap, lexer.automaton.blanks.ignores c = true) ∧
      Covers lexer lexer.automaton.blanks.ignores gap before covered tokens := by
  induction place using scan_induction lexer generalizing before tokens with
  | hstop place position after hrun =>
    rw [tokensFrom_endOfStream hrun] at hok
    cases hok
    exact ⟨[], place.rest, rfl, run_endOfStream hrun, .nil before⟩
  | hfail place character position after hrun =>
    rw [tokensFrom_failure hrun] at hok
    cases hok
  | hmiscut place cause after hrun =>
    rw [tokensFrom_miscut hrun] at hok
    cases hok
  | hscan place token node matched after finished next hrun hfinish ih =>
    rw [tokensFrom_success hrun hfinish] at hok
    obtain ⟨later, hlater, rfl⟩ := exists_of_map_eq_ok hok
    obtain ⟨skipped, hread⟩ := exists_hasRead hrun
    obtain ⟨hspan, hposition⟩ := accept_places hkeeps hread.accept
    rw [List.reverse_reverse] at hspan
    have hstart : token.position = Position.after (before ++ skipped) := by
      rw [hposition, hplace, Position.after_append]
    have hafter : after.position = Position.after (before ++ skipped ++ matched) := by
      rw [hread.position, hplace, ← Position.after_append, ← Position.after_append]
    have hne : matched ≠ [] := by
      obtain ⟨c, text, hmatched, -⟩ := hread.head
      rw [hmatched]
      exact List.cons_ne_nil c text
    rcases finishToken_cases hfinish with ⟨-, rfl, rfl⟩ | ⟨ending, body, hending, hcomment⟩
    · have htext : token.span.toList = matched := by rw [hspan, String.toList_ofList]
      obtain ⟨covered, gap, hcovered, hgap, hcovers⟩ := ih hafter hlater
      refine ⟨skipped ++ token.span.toList ++ covered, gap, ?_, hgap, .token hread.ignored ?_ hstart
        (fun hcomments => accept_comment hcomments hread.accept) (htext ▸ hcovers)⟩
      · rw [hread.rest, htext, hcovered]
        simp
      · rwa [htext]
    · have hbefore : next.position = Position.after
          (before ++ skipped ++ finished.span.toList) := by
        rw [hcomment.next, hafter, ← Position.after_append, hcomment.span, List.append_assoc,
          List.append_assoc]
      obtain ⟨covered, gap, hcovered, hgap, hcovers⟩ := ih hbefore hlater
      refine ⟨skipped ++ finished.span.toList ++ covered, gap, ?_, hgap,
        .comment hread.ignored hne (CommentTable.mem_of_ending? hending) hcomment.span
          (hcomment.position.trans hstart) hcomment.comment (hcovered ▸ hcomment.isBody) hcovers⟩
      rw [hread.rest, hcomment.span, hcomment.rest, hcovered]
      simp

/-- The first of several tokens does not matter for where the last one ends. -/
theorem endPosition_cons {token : Token K} {tokens : List (Token K)}
    {before gap covered : List Char} (hposition : token.position = Position.after (before ++ gap))
    (hlater : (tokens = [] ∧ covered = []) ∨ tokens ≠ [] ∧
      endPosition tokens = Position.after (before ++ gap ++ token.span.toList ++ covered)) :
    endPosition (token :: tokens) = Position.after
      (before ++ (gap ++ token.span.toList ++ covered)) := by
  rcases hlater with ⟨rfl, rfl⟩ | ⟨hne, hend⟩
  · have hlast : endPosition [token] = token.position.advanceOver token.span.toList := rfl
    rw [hlast, hposition, ← Position.after_append]
    simp
  · cases tokens with
    | nil => exact absurd rfl hne
    | cons next tokens =>
      rw [endPosition, List.getLast?_cons_cons, ← endPosition, hend]
      simp

/-- The last token ends where the covered text ends. -/
theorem endPosition_of_covers {ignored : Char → Bool} {rest before covered : List Char}
    {tokens : List (Token K)} (hcovers : Covers lexer ignored rest before covered tokens) :
    (tokens = [] ∧ covered = []) ∨ tokens ≠ [] ∧
    endPosition tokens = Position.after (before ++ covered) := by
  induction hcovers with
  | nil => exact Or.inl ⟨rfl, rfl⟩
  | token _ _ hposition _ _ ih => exact Or.inr ⟨List.cons_ne_nil _ _, endPosition_cons hposition ih⟩
  | comment _ _ _ _ hposition _ _ _ ih =>
    exact Or.inr ⟨List.cons_ne_nil _ _, endPosition_cons hposition ih⟩

end FamilyLexer

/-- Whether a text lies between two byte indices of a source, both of which are
    between two of its characters or at one of its ends. -/
def IsSliceOf (source : List Char) (first last : Nat) (text : List Char) : Prop :=
  ∃ before after, source = before ++ text ++ after ∧ first = byteSize before ∧
    last = byteSize (before ++ text)

/-- Whether a place lies between two characters of a source, or at one of its ends. -/
def IsPlaceOf (source : List Char) (place : Place) : Prop :=
  ∃ before, source = before ++ place.rest ∧ place.position = Position.after before

namespace IsPlaceOf

variable {source : List Char} {place : Place}

/-- Moving over characters leads from a place of a source to another one. -/
theorem advance (hplace : IsPlaceOf source place) {text rest : List Char}
    (hrest : place.rest = text ++ rest) :
    IsPlaceOf source ⟨place.position.advanceOver text, rest⟩ := by
  obtain ⟨before, rfl, hposition⟩ := hplace
  exact ⟨before ++ text, by rw [hrest, List.append_assoc], by rw [hposition, Position.after_append]⟩

/-- What lies between two places of a source is a slice of it. -/
theorem isSliceOf (hplace : IsPlaceOf source place) {text rest : List Char}
    (hrest : place.rest = text ++ rest) :
    IsSliceOf source place.position.index (place.position.advanceOver text).index text := by
  obtain ⟨before, rfl, hposition⟩ := hplace
  refine ⟨before, rest, by rw [hrest, List.append_assoc], by rw [hposition]; rfl, ?_⟩
  rw [hposition, ← Position.after_append]
  rfl

end IsPlaceOf

/-- The places at which the scans of a source start. -/
inductive Starts (lexer : FamilyLexer K) (source : List Char) : Place → Prop
  | first : Starts lexer source (.atStart source)
  | next {place after next : Place} {token finished : Token K} {node : Nat} {matched : List Char}
      (hplace : Starts lexer source place)
      (hrun : lexer.automaton.run place = (.success token node matched, after))
      (hfinish : finishToken lexer.comments token node matched after = (finished, next)) :
      Starts lexer source next

/-- The slices of a source that are taken while it is read, each with the byte
    indices between which it lies. There is no text where such an index is not
    one between two characters. -/
inductive Slices (lexer : FamilyLexer K) (source : List Char) :
    Nat → Nat → Option (List Char) → Prop
  /-- What was read so far is handed to guards, and becomes the span of a token. -/
  | walk {place start : Place} {read : List Char} {target : Nat}
      (hplace : Starts lexer source place)
      (hstart : lexer.automaton.skipIgnored place.position place.rest = start)
      (hpre : read <+: start.rest)
      (hreach : lexer.automaton.reach? startNode [] read = some target) :
      Slices lexer source start.position.index (start.position.advanceOver read).index (some read)
  /-- The callback of a literal cuts the delimiters off the span that it is
      handed, unless the span is too short. -/
  | literal {place start : Place} {found : Match} {node : Node K} {kind : K}
      {delimiter escape : Char} (hplace : Starts lexer source place)
      (hstart : lexer.automaton.skipIgnored place.position place.rest = start)
      (hwalk : (lexer.automaton.walk startNode [] none start.position start.rest).1 = some found)
      (hnode : lexer.automaton.node? found.node = some node) (hkind : node.kind = some kind)
      (hcallback : node.callback = some (Families.unescaping delimiter escape))
      (hlong : 2 * delimiter.utf8Size ≤ byteSize found.reversed.reverse) :
      Slices lexer source (start.position.index + delimiter.utf8Size)
        (found.after.position.index - delimiter.utf8Size)
        (Literal.body? delimiter found.reversed.reverse)
  /-- When a scan fails at the end of the source, the last character of what was
      left is named. -/
  | failure {place start : Place} (hplace : Starts lexer source place)
      (hstart : lexer.automaton.skipIgnored place.position place.rest = start) :
      Slices lexer source start.position.index (byteSize source) (some start.rest)
  /-- The end of a comment is searched in all that follows its start marker. -/
  | search {place after : Place} {token : Token K} {node : Nat} {matched : List Char}
      (hplace : Starts lexer source place)
      (hrun : lexer.automaton.run place = (.success token node matched, after)) :
      Slices lexer source after.position.index (byteSize source) (some after.rest)
  /-- The body of a comment is what the place moves over. -/
  | body {place after next : Place} {token finished : Token K} {node : Nat} {matched : List Char}
      {ending : CommentEnd} (hplace : Starts lexer source place)
      (hrun : lexer.automaton.run place = (.success token node matched, after))
      (hending : lexer.comments.ending? node = some ending)
      (hfinish : finishToken lexer.comments token node matched after = (finished, next)) :
      Slices lexer source after.position.index next.position.index (some (ending.body after.rest))
  /-- The span of a comment reaches from the beginning of its marker to the end of its body. -/
  | span {place after next : Place} {token finished : Token K} {node : Nat} {matched : List Char}
      (hplace : Starts lexer source place)
      (hrun : lexer.automaton.run place = (.success token node matched, after))
      (hfinish : finishToken lexer.comments token node matched after = (finished, next)) :
      Slices lexer source finished.position.index next.position.index (some finished.span.toList)

/-- Skipping what is ignored leads to a place of the source. -/
theorem isPlaceOf_skip {lexer : FamilyLexer K} {source : List Char} {place start : Place}
    (hplace : IsPlaceOf source place)
    (hstart : lexer.automaton.skipIgnored place.position place.rest = start) :
    IsPlaceOf source start := by
  rw [skipIgnored_eq] at hstart
  subst hstart
  exact hplace.advance (List.takeWhile_append_dropWhile ..).symm

/-- A scan ends at a place of the source. -/
theorem isPlaceOf_after {lexer : FamilyLexer K} {source : List Char} {place after : Place}
    {token : Token K} {node : Nat} {matched : List Char} (hplace : IsPlaceOf source place)
    (hrun : lexer.automaton.run place = (.success token node matched, after)) :
    IsPlaceOf source after := by
  obtain ⟨skipped, hread⟩ := exists_hasRead hrun
  have hafter : IsPlaceOf source ⟨place.position.advanceOver (skipped ++ matched), after.rest⟩ :=
    hplace.advance hread.rest
  rw [Position.advanceOver_append, ← hread.position] at hafter
  exact hafter

/-- Scans start at places of the source. -/
theorem isPlaceOf_of_starts {lexer : FamilyLexer K} {source : List Char} {place : Place}
    (hplace : Starts lexer source place) : IsPlaceOf source place := by
  induction hplace with
  | first => exact ⟨[], rfl, rfl⟩
  | next _ hrun hfinish ih =>
    have hafter := isPlaceOf_after ih hrun
    rcases finishToken_cases hfinish with ⟨-, -, rfl⟩ | ⟨ending, body, -, hcomment⟩
    · exact hafter
    · have hnext := hafter.advance hcomment.rest
      rwa [← hcomment.next] at hnext

/-- What is left behind a place is a slice of the source. -/
theorem isSliceOf_rest {source : List Char} {place : Place} (hplace : IsPlaceOf source place) :
    IsSliceOf source place.position.index (byteSize source) place.rest := by
  obtain ⟨before, rfl, hposition⟩ := hplace
  exact ⟨before, [], by rw [List.append_nil], by rw [hposition]; rfl, rfl⟩

/-- What a literal is cut to lies where it should, since each cut takes off as
    many bytes as a delimiter has. -/
theorem isSliceOf_body {lexer : FamilyLexer K} {source : List Char} {place start : Place}
    {found : Match} {delimiter : Char} {body : List Char} (hplace : IsPlaceOf source place)
    (hstart : lexer.automaton.skipIgnored place.position place.rest = start)
    (hwalk : (lexer.automaton.walk startNode [] none start.position start.rest).1 = some found)
    (hbody : Literal.body? delimiter found.reversed.reverse = some body) :
    IsSliceOf source (start.position.index + delimiter.utf8Size)
      (found.after.position.index - delimiter.utf8Size)
      body := by
  have hread := hasRead_of_walk hstart hwalk
  rw [skipIgnored_eq] at hstart
  obtain ⟨before, after, hsource, hfirst, hlast⟩ :=
    (hplace.advance (hread.rest.trans (List.append_assoc ..))).isSliceOf
      (rfl : _ = found.reversed.reverse ++ found.after.rest)
  rw [← hread.position] at hlast
  rw [← hstart]
  obtain ⟨opening, closing, hliteral, hopening, hclosing⟩ := Literal.exists_of_body?_eq_some hbody
  rw [hliteral] at hsource hlast
  refine ⟨before ++ opening, closing ++ after, by rw [hsource]; simp, ?_, ?_⟩
  · rw [hfirst, byteSize_append, hopening]
  · rw [hlast, ← hclosing]
    simp only [byteSize_append]
    omega

/-- No slice that is taken falls outside the source, and none begins or ends
    inside a character. -/
theorem isSliceOf_of_slices {lexer : FamilyLexer K} (hkeeps : lexer.automaton.KeepsPlaces)
    {source text : List Char} {first last : Nat}
    (hslice : Slices lexer source first last (some text)) : IsSliceOf source first last text := by
  generalize htext : some text = taken at hslice
  cases hslice with
  | walk hplace hstart hpre _ =>
    obtain rfl := Option.some.inj htext
    obtain ⟨rest, hrest⟩ := hpre
    exact (isPlaceOf_skip (isPlaceOf_of_starts hplace) hstart).isSliceOf hrest.symm
  | literal hplace hstart hwalk _ _ _ _ =>
    exact isSliceOf_body (isPlaceOf_of_starts hplace) hstart hwalk htext.symm
  | failure hplace hstart =>
    obtain rfl := Option.some.inj htext
    exact isSliceOf_rest (isPlaceOf_skip (isPlaceOf_of_starts hplace) hstart)
  | search hplace hrun =>
    obtain rfl := Option.some.inj htext
    exact isSliceOf_rest (isPlaceOf_after (isPlaceOf_of_starts hplace) hrun)
  | body hplace hrun hending hfinish =>
    obtain rfl := Option.some.inj htext
    have hafter := isPlaceOf_after (isPlaceOf_of_starts hplace) hrun
    rcases finishToken_cases hfinish with ⟨hnone, -, -⟩ | ⟨ending, body, hsome, hcomment⟩
    · rw [hending] at hnone
      cases hnone
    · obtain rfl := Option.some.inj (hending.symm.trans hsome)
      rw [hcomment.next, ← hcomment.eq]
      exact hafter.isSliceOf hcomment.rest
  | span hplace hrun hfinish =>
    obtain rfl := Option.some.inj htext
    obtain ⟨skipped, hread⟩ := exists_hasRead hrun
    obtain ⟨hspan, hposition⟩ := accept_places hkeeps hread.accept
    rw [List.reverse_reverse] at hspan
    have hstart := (isPlaceOf_of_starts hplace).advance (hread.rest.trans (List.append_assoc ..))
    rcases finishToken_cases hfinish with ⟨-, rfl, rfl⟩ | ⟨ending, body, -, hcomment⟩
    · rw [hposition, hread.position, hspan, String.toList_ofList]
      exact hstart.isSliceOf rfl
    · rw [hcomment.position, hposition, hcomment.next, hread.position,
        hcomment.span, ← Position.advanceOver_append]
      exact hstart.isSliceOf (by rw [hcomment.rest, List.append_assoc])

/-- Each slice is taken when no callback comes to a text that it cannot cut. -/
theorem isSome_of_slices {lexer : FamilyLexer K} (hnever : lexer.automaton.NeverMiscuts)
    {source : List Char} {first last : Nat} {taken : Option (List Char)}
    (hslice : Slices lexer source first last taken) :
    taken.isSome = true := by
  cases hslice with
  | @literal place start found node kind delimiter escape _ hstart hwalk hnode _ hcallback hlong =>
    have hread := hasRead_of_walk hstart hwalk
    let token : Token K := .ofSpan kind (String.ofList found.reversed.reverse) start.position
    have hspan : token.span.toList = found.reversed.reverse := String.toList_ofList
    rw [← hspan] at hlong ⊢
    refine Families.isSome_body? hlong
      fun cause (hmiscut : Families.unescaping delimiter escape token = _) => ?_
    refine hnever _ _ node token cause (standsOn_iff.2 hread.reach) hnode rfl ?_
    rw [Node.finish, hcallback]
    exact hmiscut
  | _ => rfl

/-- Whether an instruction leaves it alone what is ignored, and which text
    tokens have and where. -/
structure IsHarmless (instruction : Instruction K) : Prop where
  blanks : ¬instruction.SetsBlanks
  places : ∀ change, instruction = .callback change → Callback.KeepsPlaces change
  comments : ∀ change, instruction = .callback change → Callback.KeepsComments change

/-- Telling words apart does no harm. -/
theorem isHarmless_wordKind (families : Families K) (options : LexerOptions) :
    IsHarmless (.callback (families.wordKind options)) := by
  have hkeeps : ∀ token changed, families.wordKind options token = .ok (some changed) →
      ∃ kind, changed = { token with kind } := by
    intro token changed hchange
    obtain ⟨kind, -, rfl⟩ := Option.map_eq_some_iff.1 (Except.ok.inj hchange)
    exact ⟨_, rfl⟩
  refine ⟨id, fun change heq token changed hchange => ?_,
    fun change heq token changed hchange => ?_⟩
  · cases heq
    obtain ⟨kind, rfl⟩ := hkeeps token changed hchange
    exact ⟨rfl, rfl⟩
  · cases heq
    obtain ⟨kind, rfl⟩ := hkeeps token changed hchange
    rfl

/-- Unescaping does no harm. -/
theorem isHarmless_unescaping (delimiter escape : Char) :
    IsHarmless (.callback (Families.unescaping delimiter escape) : Instruction K) := by
  refine ⟨id, fun change heq token changed hchange => ?_,
    fun change heq token changed hchange => ?_⟩
  · cases heq
    obtain ⟨text, -, hchanged⟩ := Families.unescaping_eq_ok_iff.1 hchange
    obtain rfl := Option.some.inj hchanged
    exact ⟨rfl, rfl⟩
  · cases heq
    obtain ⟨text, -, hchanged⟩ := Families.unescaping_eq_ok_iff.1 hchange
    obtain rfl := Option.some.inj hchanged
    rfl

/-- Instructions other than callbacks change no tokens. -/
theorem isHarmless_of_ne {instruction : Instruction K} (hblanks : ¬instruction.SetsBlanks)
    (hcallback : ∀ change, instruction ≠ .callback change) : IsHarmless instruction :=
  ⟨hblanks, fun change heq => absurd heq (hcallback change), fun change heq =>
    absurd heq (hcallback change)⟩

/-- The instructions of the families set nothing that is ignored, and their only
    callbacks tell words apart and unescape literals. -/
theorem forall_mem_edges {families : Families K} {options : LexerOptions} {P : Instruction K → Prop}
    (hplain : ∀ instruction, ¬instruction.SetsBlanks → (∀ change, instruction ≠ .callback change) →
      P instruction)
    (hword : P (.callback (families.wordKind options)))
    (hunescaping : ∀ delimiter escape, P (.callback (Families.unescaping delimiter escape))) :
    ∀ instruction ∈ families.edges options, P instruction := by
  have hdrawing : ∀ instruction : Instruction K, (match instruction with
      | .move .. | .moveTo .. | .follow _ | .mark _ | .goto _ | .gotoNode _ | .accept _ => True
      | _ => False) → P instruction := by
    intro instruction hkind
    cases instruction with
    | chain | callback | ignoreWhitespace | whitespace | ignoreEol => cases hkind
    | _ => exact hplain _ id nofun
  rw [families.edges_eq]
  simp only [List.forall_mem_append, List.forall_mem_flatMap]
  refine ⟨⟨⟨?_, ?_⟩, ?_⟩, ?_⟩
  · rw [Families.identifierEdges]
    cases families.identifier.or (families.keywords.head?.map Prod.fst) <;>
      simp [Families.fromStart, hdrawing, hword]
  · rw [Families.numberEdges]
    cases families.int.or families.double <;> cases families.double <;>
      simp [Families.fromStart, hdrawing]
  · rintro ⟨kind, text⟩ -
    simp [Families.sugarEdges, Families.fromStart, hdrawing, or_imp, forall_and]
  · rintro ⟨isString, kind, delimiter, escape⟩ -
    rw [LiteralForm.instructions, Families.stringEdges, Families.charEdges]
    cases isString <;> by_cases hescape : escape = delimiter <;>
      simp [Families.fromStart, hdrawing, hunescaping, hescape]

/-- The instructions of the families do no harm. -/
theorem isHarmless_of_mem_edges {families : Families K} {options : LexerOptions} :
    ∀ instruction ∈ families.edges options, IsHarmless instruction :=
  forall_mem_edges (fun _ => isHarmless_of_ne) (isHarmless_wordKind families options)
    isHarmless_unescaping

/-- Whether extensions leave it to the options what is ignored. -/
def LeavesBlanks (declarations : List (K × Family K)) (options : LexerOptions) : Prop :=
  Extend (fun handed extended => extended.blanks = handed.blanks) declarations options

/-- Whether the callbacks that extensions set leave the span and the position of
    every token as they are. -/
def LeavesPlaces (declarations : List (K × Family K)) (options : LexerOptions) : Prop :=
  Extend (Builder.SetsOnly Callback.KeepsPlaces) declarations options

/-- Whether the callbacks that extensions set make no comments of tokens that are none. -/
def LeavesComments (declarations : List (K × Family K)) (options : LexerOptions) : Prop :=
  Extend (Builder.SetsOnly Callback.KeepsComments) declarations options

namespace FamilyLexer

variable [DecidableEq K] [TokenKind K] {declarations : List (K × Family K)} {options : LexerOptions}
  {lexer : FamilyLexer K}

/-- A lexer ignores what the options say, if its extensions leave it at that. -/
theorem blanks_of_build (hbuild : (build declarations options).value = some lexer)
    (hleaves : LeavesBlanks declarations options) : lexer.automaton.blanks = options.blanks := by
  obtain ⟨built, hautomaton, hblanks⟩ := exists_upheld_of_build hbuild
    (P := fun builder => builder.blanks = options.blanks) (fun _ => Builder.upholds_blanks id)
    (fun _ => Builder.upholds_blanks id) (fun _ => Builder.upholds_blanks id)
    (hleaves.imp fun _ _ hsame hhanded => hsame.trans hhanded)
    (fun instruction hmem => Builder.upholds_blanks
      (isHarmless_of_mem_edges instruction hmem).blanks) rfl
  rw [hautomaton]
  exact hblanks

/-- Every callback tells words apart, or unescapes literals, or an extension sets it. -/
theorem forall_callback_of_build (hbuild : (build declarations options).value = some lexer)
    {P : Callback K → Prop} (hword : P ((Families.ofList declarations).1.wordKind options))
    (hunescaping : ∀ delimiter escape, P (Families.unescaping delimiter escape))
    (hextensions : Extend (Builder.SetsOnly P) declarations options) :
    ∀ node ∈ lexer.automaton.nodes, ∀ change, node.callback = some change → P change := by
  have hedges : ∀ instruction ∈ (Families.ofList declarations).1.edges options,
      ∀ change, instruction = .callback change → P change :=
    forall_mem_edges (fun _ _ hcallback change heq => absurd heq (hcallback change))
      (fun _ heq => Instruction.callback.inj heq ▸ hword)
      fun delimiter escape _ heq => Instruction.callback.inj heq ▸ hunescaping delimiter escape
  obtain ⟨built, hautomaton, hcallbacks⟩ :=
    exists_upheld_of_build hbuild (P := Builder.CallbacksHave P)
    (fun _ => Builder.upholds_callbacks nofun) (fun _ => Builder.upholds_callbacks nofun)
    (fun _ => Builder.upholds_callbacks nofun)
    (hextensions.imp fun _ _ => Builder.SetsOnly.callbacksHave)
    (fun instruction hmem => Builder.upholds_callbacks (hedges instruction hmem))
    (by simp [Builder.CallbacksHave, Builder.new])
  rw [hautomaton]
  exact hcallbacks

/-- A lexer keeps to places if the callbacks of its extensions do. -/
theorem keepsPlaces_of_build (hbuild : (build declarations options).value = some lexer)
    (hleaves : LeavesPlaces declarations options) : lexer.automaton.KeepsPlaces :=
  forall_callback_of_build hbuild ((isHarmless_wordKind _ options).places _ rfl)
    (fun delimiter escape => (isHarmless_unescaping delimiter escape).places _ rfl) hleaves

/-- Only the tokens that begin with a start marker are comments, unless an
    extension makes comments of others. -/
theorem keepsComments_of_build (hbuild : (build declarations options).value = some lexer)
    (hleaves : LeavesComments declarations options) : lexer.automaton.KeepsComments :=
  forall_callback_of_build hbuild ((isHarmless_wordKind _ options).comments _ rfl)
    (fun delimiter escape => (isHarmless_unescaping delimiter escape).comments _ rfl) hleaves

/-- Whether tokens are all of a source that is not ignored, in order and up to
    the end of the stream, which is right after the last of them. -/
def AreTokensOf (lexer : FamilyLexer K) (ignored : Char → Bool) (source : List Char)
    (tokens : List (Token K)) : Prop :=
  ∃ found covered gap, tokens = found ++ [.endOfStream (Position.after covered)] ∧
    source = covered ++ gap ∧
    (∀ c ∈ gap, ignored c = true) ∧ Covers lexer ignored gap [] covered found

omit [DecidableEq K] [TokenKind K] in
/-- The tokens of a source are all of it that is not ignored. -/
theorem areTokensOf_of_tokenize (hkeeps : lexer.automaton.KeepsPlaces) {source : String}
    {tokens : List (Token K)} (hok : lexer.tokenize source = .ok tokens) :
    AreTokensOf lexer lexer.automaton.blanks.ignores source.toList tokens := by
  obtain ⟨found, hfound, rfl⟩ := exists_of_map_eq_ok hok
  obtain ⟨covered, gap, hsource, hgap, hcovers⟩ :=
    covers_of_tokensFrom hkeeps Position.after_nil.symm hfound
  refine ⟨found, covered, gap, ?_, hsource, hgap, hcovers⟩
  rw [withEndOfStream]
  rcases endPosition_of_covers hcovers with ⟨rfl, rfl⟩ | ⟨-, hend⟩
  · rfl
  · rw [hend, List.nil_append]

/-- Tokens and what a lexer ignores make up the source, as long as callbacks
    keep to spans and positions, which those of the families do. What is ignored
    is up to the options, and comments are what begins with a start marker,
    unless an extension changes it. Whether or not the source can be read, it is
    only cut between characters, unless an extension leads into the nodes of a
    literal or sets a callback that can fail. -/
theorem tokenize_covers (hbuild : (build declarations options).value = some lexer) :
    (LeavesPlaces declarations options → lexer.automaton.KeepsPlaces) ∧
      (LeavesBlanks declarations options → lexer.automaton.blanks = options.blanks) ∧
      (LeavesComments declarations options → lexer.automaton.KeepsComments) ∧
      (LeavesLiterals declarations options → lexer.automaton.NeverMiscuts) ∧
      (lexer.automaton.KeepsPlaces → ∀ source,
        (∀ tokens, lexer.tokenize source = .ok tokens →
          AreTokensOf lexer lexer.automaton.blanks.ignores source.toList tokens) ∧
        ∀ first last text, Slices lexer source.toList first last (some text) →
          IsSliceOf source.toList first last text) ∧
      (lexer.automaton.NeverMiscuts → ∀ source,
        (∀ cause, lexer.tokenize source ≠ .error (.miscut cause)) ∧
        ∀ first last taken, Slices lexer source.toList first last taken → taken.isSome = true) :=
  ⟨keepsPlaces_of_build hbuild, blanks_of_build hbuild, keepsComments_of_build hbuild,
    neverMiscuts_of_build hbuild, fun hkeeps _ => ⟨fun _ hok => areTokensOf_of_tokenize hkeeps hok,
      fun _ _ _ hslice => isSliceOf_of_slices hkeeps hslice⟩,
    fun hnever source => ⟨tokenize_ne_miscut hnever source, fun _ _ _ hslice =>
      isSome_of_slices hnever hslice⟩⟩

end FamilyLexer

namespace Sample

theorem tokenize_increment :
    lexer.tokenize "++ " = .ok [.ofSpan increment "++" .start, .endOfStream ⟨2, 0, 2⟩] := by
  have hfirst : lexer.automaton.run (.atStart "++ ".toList) =
      (.success (.ofSpan increment "++" .start) 4 "++".toList, ⟨⟨2, 0, 2⟩, [' ']⟩) := rfl
  exact congrArg (Except.map withEndOfStream)
    (FamilyLexer.tokensFrom_single hfirst rfl fun c hc => by rw [List.mem_singleton.1 hc]; rfl)

/-- Numbers, strings and an extension. -/
def extendedBy (instructions : List (Instruction (Kind sums))) :
    List (Kind sums × Family (Kind sums)) :=
  [(number, .int), (name, .string '"' '\\'),
    (note, .extension (.ofInstructions fun _ => instructions))]

/-- Extensions that set no callbacks keep to spans and positions. -/
theorem leavesPlaces_extendedBy {instructions : List (Instruction (Kind sums))}
    (hnone : ∀ change, .callback change ∉ instructions) :
    LeavesPlaces (extendedBy instructions) {} :=
  ⟨Builder.setsOnly_applyAll (fun change hchange => absurd hchange (hnone change)) _, trivial⟩

theorem isSome_build_blank :
    (FamilyLexer.build (extendedBy [.whitespace ['x']]) {}).value.isSome = true := by decide

/-- An extension that sets what is ignored. -/
def blankLexer : FamilyLexer (Kind sums) :=
  (FamilyLexer.build (extendedBy [.whitespace ['x']]) {}).value.get isSome_build_blank

theorem build_blank_eq :
    (FamilyLexer.build (extendedBy [.whitespace ['x']]) {}).value = some blankLexer :=
  (Option.some_get isSome_build_blank).symm

theorem tokenize_blank : blankLexer.tokenize "x" = .ok [.endOfStream .start] := by
  have hend : blankLexer.automaton.run (.atStart "x".toList) =
      (.endOfStream ⟨1, 0, 1⟩, ⟨⟨1, 0, 1⟩, []⟩) := rfl
  rw [FamilyLexer.tokenize, FamilyLexer.tokensFrom_endOfStream hend]
  rfl

theorem isSome_build_opened :
    (FamilyLexer.build (extendedBy [.moveTo (.single 'é') "in_string_\""]) {}).value.isSome =
      true := by decide

/-- An extension that leads into a string without its delimiter. -/
def openedLexer : FamilyLexer (Kind sums) :=
  (FamilyLexer.build (extendedBy [.moveTo (.single 'é') "in_string_\""]) {}).value.get
    isSome_build_opened

/-- The extension is accepted. -/
theorem build_opened_eq :
    (FamilyLexer.build (extendedBy [.moveTo (.single 'é') "in_string_\""]) {}).value =
      some openedLexer :=
  (Option.some_get isSome_build_opened).symm

/-- The string is cut in the middle of the character that led into it. -/
theorem tokenize_opened : openedLexer.tokenize "é\"" = .error (.miscut ⟨"é\""⟩) := by
  have hmiscut : openedLexer.automaton.run (.atStart "é\"".toList) =
      (.miscut ⟨"é\""⟩, .atStart "é\"".toList) := rfl
  rw [FamilyLexer.tokenize, FamilyLexer.tokensFrom_miscut hmiscut]
  rfl

end Sample

theorem tokenize_covers_sums :
    (FamilyLexer.build Sample.declarations {}).value = some Sample.lexer ∧
      LeavesPlaces Sample.declarations {} ∧
      LeavesBlanks Sample.declarations {} ∧ LeavesLiterals Sample.declarations {} ∧
      Sample.lexer.automaton.KeepsPlaces ∧ Sample.lexer.automaton.NeverMiscuts ∧
      FamilyLexer.AreTokensOf Sample.lexer ({} : LexerOptions).blanks.ignores "++ ".toList
        [.ofSpan Sample.increment "++" .start, .endOfStream ⟨2, 0, 2⟩] := by
  obtain ⟨hplaces, hblanks, -, hliterals, hcovers, -⟩ := FamilyLexer.tokenize_covers Sample.build_eq
  have hnone {R : Builder (Kind Sample.sums) → Builder (Kind Sample.sums) → Prop} :
      Extend R Sample.declarations {} :=
    extend_of_not_hasExtensions Sample.not_hasExtensions
  refine ⟨Sample.build_eq, hnone, hnone, hnone, hplaces hnone, hliterals hnone, ?_⟩
  rw [← hblanks hnone]
  exact (hcovers (hplaces hnone) "++ ").1 _ Sample.tokenize_increment

/-- Extensions can have characters ignored that the options do not ignore, and
    they can lead into a string by a character other than its delimiter, which
    is then cut as if it were one. -/
theorem not_forall_covers :
    (¬∀ declarations options (lexer : FamilyLexer (Kind Sample.sums)),
      (FamilyLexer.build declarations options).value = some lexer → lexer.automaton.KeepsPlaces →
        ∀ source tokens, lexer.tokenize source = .ok tokens →
          FamilyLexer.AreTokensOf lexer options.blanks.ignores source.toList tokens) ∧
      ¬∀ declarations options (lexer : FamilyLexer (Kind Sample.sums)),
        (FamilyLexer.build declarations options).value = some lexer → lexer.automaton.KeepsPlaces →
          ∀ source cause, lexer.tokenize source ≠ .error (.miscut cause) := by
  refine ⟨fun hall => ?_, fun hall => ?_⟩
  · have hkeeps := FamilyLexer.keepsPlaces_of_build Sample.build_blank_eq
      (Sample.leavesPlaces_extendedBy (by simp))
    obtain ⟨found, covered, gap, htokens, hsource, hgap, hcovers⟩ :=
      hall _ _ _ Sample.build_blank_eq hkeeps "x" _ Sample.tokenize_blank
    have hfound : found = [] := by
      have hlength := congrArg List.length htokens
      simp at hlength
      exact hlength
    subst hfound
    cases hcovers
    have hignored := hgap 'x' (by rw [← List.nil_append gap, ← hsource]; simp)
    exact absurd hignored (by decide)
  · have hkeeps := FamilyLexer.keepsPlaces_of_build Sample.build_opened_eq
      (Sample.leavesPlaces_extendedBy (by simp))
    exact hall _ _ _ Sample.build_opened_eq hkeeps "é\"" _ Sample.tokenize_opened

end Lexer

end GrammarKit
