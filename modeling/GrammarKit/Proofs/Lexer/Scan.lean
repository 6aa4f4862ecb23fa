import GrammarKit.Lexer.Tokens
import GrammarKit.Proofs.Automaton.Reading
import Mathlib.Data.List.TakeWhile

namespace GrammarKit

namespace Automaton

variable {K : Type} {automaton : Automaton K}

/-- What a scan has read when its walk found a match, and what the match comes to. -/
structure HasRead (automaton : Automaton K) (place : Place) (skipped matched : List Char)
    (node : Nat) (after : Place) (result : Except Miscut (Option (Token K))) : Prop where
  rest : place.rest = skipped ++ matched ++ after.rest
  ignored : ∀ c ∈ skipped, automaton.blanks.ignores c = true
  head : ∃ c text, matched = c :: text ∧ automaton.blanks.ignores c = false
  position : after.position = (place.position.advanceOver skipped).advanceOver matched
  reach : automaton.reach? startNode [] matched = some node
  accept : automaton.accept ⟨place.position.advanceOver skipped, matched ++ after.rest⟩
    ⟨node, matched.reverse, after⟩ = result

/-- A walk that finds a match has read its text. -/
theorem hasRead_of_walk {place start : Place} {found : Match}
    (hstart : automaton.skipIgnored place.position place.rest = start)
    (hwalk : (automaton.walk startNode [] none start.position start.rest).1 = some found) :
    HasRead automaton place (place.rest.takeWhile automaton.blanks.ignores) found.reversed.reverse
      found.node found.after
      (automaton.accept start found) := by
  rw [skipIgnored_eq] at hstart
  subst hstart
  rcases automaton.walk_cases startNode [] none
    (place.position.advanceOver (place.rest.takeWhile automaton.blanks.ignores))
    (place.rest.dropWhile automaton.blanks.ignores) with
    ⟨hnone, -⟩ | ⟨read, later, target, hsplit, hlast, hfound⟩
  · rw [hwalk] at hnone
    cases hnone
  · obtain rfl := Option.some.inj (hwalk.symm.trans hfound)
    dsimp only
    rw [List.append_nil, List.reverse_reverse]
    refine ⟨?_, fun c hc => List.mem_takeWhile_imp hc, ?_, rfl, hlast.reach, by rw [hsplit]⟩
    · rw [List.append_assoc, ← hsplit, List.takeWhile_append_dropWhile]
    · have hhead := List.find?_not_eq_head?_dropWhile automaton.blanks.ignores place.rest
      cases read with
      | nil => exact absurd rfl hlast.ne_nil
      | cons c text =>
        rw [hsplit, List.cons_append, List.head?_cons] at hhead
        exact ⟨c, text, rfl, by simpa using List.find?_some hhead⟩

/-- A scan ends with the text, or it fails, or it finds a match that comes to a
    token or to a text that cannot be cut. -/
theorem run_cases (automaton : Automaton K) (place : Place) :
    (∃ position after, automaton.run place = (.endOfStream position, after) ∧
        ∀ c ∈ place.rest, automaton.blanks.ignores c = true) ∨
      (∃ character position after, automaton.run place = (.failure character position, after)) ∨
      (∃ skipped matched node after token, HasRead automaton place skipped matched node after
        (.ok (some token)) ∧
        automaton.run place = (.success token node matched, after)) ∨
      ∃ skipped matched node later cause after, HasRead automaton place skipped matched node later
        (.error cause) ∧
        automaton.run place = (.miscut cause, after) := by
  generalize hstart : automaton.skipIgnored place.position place.rest = start
  by_cases hempty : start.rest.isEmpty = true
  · refine Or.inl ⟨start.position, start, by simp only [run, hstart, hempty, if_true], ?_⟩
    rw [skipIgnored_eq] at hstart
    subst hstart
    exact List.dropWhile_eq_nil_iff.1 (List.isEmpty_iff.1 hempty)
  · generalize hwalk : automaton.walk startNode [] none start.position start.rest = walked
    obtain ⟨found, stop⟩ := walked
    cases found with
    | none => exact Or.inr (Or.inl ⟨_, _, _, by simp only [run, hstart, hempty, hwalk]; rfl⟩)
    | some found =>
      have hread := hasRead_of_walk hstart (congrArg Prod.fst hwalk)
      rcases haccept : automaton.accept start found with cause | _ | token
      · rw [haccept] at hread
        exact Or.inr (Or.inr (Or.inr
          ⟨_, _, _, _, _, _, hread, by simp only [run, hstart, hempty, hwalk, haccept]; rfl⟩))
      · exact Or.inr (Or.inl ⟨_, _, _, by simp only [run, hstart, hempty, hwalk, haccept]; rfl⟩)
      · rw [haccept] at hread
        exact Or.inr (Or.inr (Or.inl
          ⟨_, _, _, _, _, hread, by simp only [run, hstart, hempty, hwalk, haccept]; rfl⟩))

/-- A scan that comes to a token has read its text. -/
theorem exists_hasRead {place after : Place} {token : Token K} {node : Nat} {matched : List Char}
    (hrun : automaton.run place = (.success token node matched, after)) :
    ∃ skipped, HasRead automaton place skipped matched node after (.ok (some token)) := by
  rcases automaton.run_cases place with ⟨_, _, heq, -⟩ | ⟨_, _, _, heq⟩ |
    ⟨skipped, _, _, _, _, hread, heq⟩ | ⟨_, _, _, _, _, _, -, heq⟩ <;> cases hrun.symm.trans heq
  exact ⟨skipped, hread⟩

/-- A scan that comes to a text that cannot be cut has read it. -/
theorem exists_hasRead_of_miscut {place after : Place} {cause : Miscut}
    (hrun : automaton.run place = (.miscut cause, after)) :
    ∃ skipped matched node later, HasRead automaton place skipped matched node later
      (.error cause) := by
  rcases automaton.run_cases place with ⟨_, _, heq, -⟩ | ⟨_, _, _, heq⟩ | ⟨_, _, _, _, _, -, heq⟩ |
    ⟨_, _, _, _, _, _, hread, heq⟩ <;> cases hrun.symm.trans heq
  exact ⟨_, _, _, _, hread⟩

/-- A scan that finds the end has skipped all that was left. -/
theorem run_endOfStream {place after : Place} {position : Position}
    (hrun : automaton.run place = (.endOfStream position, after)) :
    ∀ c ∈ place.rest, automaton.blanks.ignores c = true := by
  rcases automaton.run_cases place with ⟨_, _, heq, hignored⟩ | ⟨_, _, _, heq⟩ |
    ⟨_, _, _, _, _, -, heq⟩ | ⟨_, _, _, _, _, _, -, heq⟩ <;> cases hrun.symm.trans heq
  exact hignored

end Automaton

namespace Lexer

open Automaton

variable {K : Type}

/-- What the body of a comment is, when `rest` follows it. -/
inductive CommentEnd.IsBody : CommentEnd → List Char → List Char → Prop
  | endOfLine {body rest : List Char} (hbody : ∀ c ∈ body, c ≠ '\n' ∧ c ≠ '\r')
      (hrest : ∀ c ∈ rest.head?, c = '\n' ∨ c = '\r') : IsBody .endOfLine body rest
  | marker {last : String} {inside rest : List Char}
      (hfirst : ∀ before after, inside ++ last.toList = before ++ last.toList ++ after →
        before = inside) :
      IsBody (.marker last) (inside ++ last.toList) rest
  | open {last : String} {body : List Char} (hnone : ¬last.toList <:+: body) :
      IsBody (.marker last) body []

/-- The text is taken up to the first occurrence of the marker. -/
theorem takeThrough_of_first {marker inside : List Char}
    (hfirst : ∀ before after, inside ++ marker = before ++ marker ++ after → before = inside)
    (rest : List Char) :
    takeThrough marker (inside ++ marker ++ rest) = inside ++ marker := by
  induction inside with
  | nil =>
    rw [List.nil_append]
    cases hmarker : marker with
    | nil => cases rest <;> rfl
    | cons c text =>
      have hpre : (c :: text).isPrefixOf (c :: (text ++ rest)) = true := by
        rw [List.isPrefixOf_iff_prefix]
        exact ⟨rest, rfl⟩
      rw [List.cons_append, takeThrough, if_pos hpre]
  | cons c inside ih =>
    rw [List.cons_append, List.cons_append, takeThrough, if_neg, ih]
    · intro before after heq
      have hbefore := hfirst (c :: before) after (by rw [List.cons_append, heq]; rfl)
      exact (List.cons.inj hbefore).2
    · rw [List.isPrefixOf_iff_prefix]
      intro hpre
      have hshort : marker <+: c :: inside ++ marker := by
        refine List.prefix_of_prefix_length_le hpre ⟨rest, by simp⟩ ?_
        simp only [List.cons_append, List.length_cons, List.length_append]
        omega
      obtain ⟨after, hafter⟩ := hshort
      cases hfirst [] after hafter.symm

/-- The marker comes first at the end of what is taken, unless it does not come at all. -/
theorem takeThrough_cases (marker text : List Char) :
    (takeThrough marker text = text ∧ ¬marker <:+: text) ∨
      ∃ inside rest, text = inside ++ marker ++ rest ∧ takeThrough marker text = inside ++ marker ∧
        ∀ before after, inside ++ marker = before ++ marker ++ after → before = inside := by
  induction text with
  | nil =>
    cases marker with
    | nil => exact Or.inr ⟨[], [], rfl, rfl, by simp⟩
    | cons c marker => exact Or.inl ⟨rfl, by simp⟩
  | cons c text ih =>
    rw [takeThrough]
    by_cases hpre : marker <+: c :: text
    · rw [if_pos (List.isPrefixOf_iff_prefix.2 hpre)]
      obtain ⟨rest, hrest⟩ := hpre
      refine Or.inr ⟨[], rest, hrest.symm, rfl, fun before after heq => ?_⟩
      have hlength := congrArg List.length heq
      simp only [List.length_append, List.length_nil] at hlength
      exact List.eq_nil_of_length_eq_zero (by omega)
    · rw [if_neg (by rwa [List.isPrefixOf_iff_prefix])]
      rcases ih with ⟨hall, hnone⟩ | ⟨inside, rest, rfl, htake, hfirst⟩
      · refine Or.inl ⟨by rw [hall], fun hinfix => ?_⟩
        rcases List.infix_cons_iff.1 hinfix with hstart | hlater
        · exact hpre hstart
        · exact hnone hlater
      · refine Or.inr ⟨c :: inside, rest, rfl, by rw [htake]; rfl, fun before after heq => ?_⟩
        cases before with
        | nil =>
          refine absurd ⟨after ++ rest, ?_⟩ hpre
          rw [← List.append_assoc, ← List.cons_append, ← List.cons_append, heq, List.nil_append]
        | cons d before =>
          obtain ⟨rfl, htail⟩ := List.cons.inj heq
          rw [hfirst before after htail]

/-- What is taken behind a start marker is a body, and the rest follows it. -/
theorem CommentEnd.exists_body (ending : CommentEnd) (text : List Char) :
    ∃ rest, text = ending.body text ++ rest ∧ ending.IsBody (ending.body text) rest := by
  cases ending with
  | endOfLine =>
    refine ⟨text.dropWhile fun c => c ≠ '\n' && c ≠ '\r', (List.takeWhile_append_dropWhile ..).symm,
      .endOfLine (fun c hc => ?_) fun c hc => ?_⟩
    · simpa using List.mem_takeWhile_imp hc
    · rw [← List.find?_not_eq_head?_dropWhile] at hc
      have hfound := List.find?_some hc
      simp only [Bool.not_and, Bool.or_eq_true, Bool.not_eq_true', decide_eq_false_iff_not, not_not]
        at hfound
      exact hfound
  | marker last =>
    rw [body]
    rcases takeThrough_cases last.toList text with ⟨hall, hnone⟩ |
      ⟨inside, rest, rfl, htake, hfirst⟩
    · exact ⟨[], by rw [hall, List.append_nil], hall.symm ▸ .open hnone⟩
    · exact ⟨rest, by rw [htake], htake.symm ▸ .marker hfirst⟩

/-- Ends that are found are in the table. -/
theorem CommentTable.mem_of_ending? {comments : CommentTable} {node : Nat} {ending : CommentEnd}
    (hending : comments.ending? node = some ending) : (node, ending) ∈ comments := by
  obtain ⟨⟨found, last⟩, hfound, rfl⟩ := Option.map_eq_some_iff.1 hending
  obtain rfl : found = node := by simpa using List.find?_some hfound
  exact List.mem_of_find?_eq_some hfound

/-- A comment and the place after it, when the token of its start marker ends at `place`. -/
structure IsComment (ending : CommentEnd) (token : Token K) (matched : List Char) (place : Place)
    (body : List Char) (finished : Token K) (next : Place) : Prop where
  eq : body = ending.body place.rest
  rest : place.rest = body ++ next.rest
  isBody : ending.IsBody body next.rest
  kind : finished.kind = token.kind
  span : finished.span.toList = matched ++ body
  position : finished.position = token.position
  comment : finished.comment = some ending.kind
  next : next.position = place.position.advanceOver body

/-- A start marker becomes a comment with its body, and other tokens stay as they are. -/
theorem finishToken_cases {comments : CommentTable} {token finished : Token K} {node : Nat}
    {matched : List Char} {place next : Place}
    (hfinish : finishToken comments token node matched place = (finished, next)) :
    (comments.ending? node = none ∧ token = finished ∧ place = next) ∨
      ∃ ending body, comments.ending? node = some ending ∧
        IsComment ending token matched place body finished next := by
  rw [finishToken] at hfinish
  cases hending : comments.ending? node with
  | none =>
    rw [hending] at hfinish
    exact Or.inl ⟨rfl, Prod.mk.inj hfinish⟩
  | some ending =>
    rw [hending] at hfinish
    obtain ⟨hfinished, hnext⟩ := Prod.mk.inj hfinish
    obtain ⟨rest, hrest, hbody⟩ := ending.exists_body place.rest
    have hdrop : place.rest.drop (ending.body place.rest).length = rest := by
      generalize ending.body place.rest = body at hrest
      rw [hrest, List.drop_left]
    rw [hdrop] at hnext
    subst hfinished hnext
    exact Or.inr ⟨ending, _, rfl, rfl, hrest, hbody, rfl, String.toList_ofList, rfl, rfl, rfl⟩

/-- A comment with an end marker ends with the first one that follows. -/
theorem exists_finishToken_eq {comments : CommentTable} {node : Nat} {closing : String}
    (hending : comments.ending? node = some (.marker closing)) {body : List Char}
    (hfirst : ∀ before after, body ++ closing.toList = before ++ closing.toList ++ after →
      before = body)
    (token : Token K) (matched : List Char) (position : Position) (rest : List Char) :
    ∃ comment next, comment.isComment = true ∧
      finishToken comments token node matched ⟨position, body ++ closing.toList ++ rest⟩ =
        (comment, ⟨next, rest⟩) := by
  have hbody : CommentEnd.body (.marker closing) (body ++ closing.toList ++ rest) =
      body ++ closing.toList :=
    takeThrough_of_first hfirst rest
  rw [finishToken, hending]
  simp only [extendComment, hbody, List.drop_left]
  exact ⟨_, _, rfl, rfl⟩

theorem exists_of_map_eq_ok {ε α β : Type} {f : α → β} {result : Except ε α} {value : β}
    (hok : result.map f = .ok value) : ∃ found, result = .ok found ∧ f found = value := by
  cases result with
  | error error => cases hok
  | ok found => exact ⟨found, rfl, Except.ok.inj hok⟩

namespace FamilyLexer

variable {lexer : FamilyLexer K}

theorem tokensFrom_endOfStream {place after : Place} {position : Position}
    (hrun : lexer.automaton.run place = (.endOfStream position, after)) :
    lexer.tokensFrom place = .ok [] := by
  rw [tokensFrom]
  split
  · rfl
  all_goals
    rename_i hother
    rw [hrun] at hother
    cases hother

/-- Where all is ignored only the end of the stream is left. -/
theorem tokensFrom_of_ignored {place : Place}
    (hignored : ∀ c ∈ place.rest, lexer.automaton.blanks.ignores c = true) :
    lexer.tokensFrom place = .ok [] := by
  have hdrop : place.rest.dropWhile lexer.automaton.blanks.ignores = [] :=
    List.dropWhile_eq_nil_iff.2 hignored
  have hrun : lexer.automaton.run place = (.endOfStream (place.position.advanceOver place.rest),
      ⟨place.position.advanceOver place.rest, []⟩) := by
    simp only [run, skipIgnored_eq, hdrop, List.takeWhile_eq_self_iff.2 hignored,
      List.isEmpty_nil, if_true]
  exact tokensFrom_endOfStream hrun

theorem tokensFrom_failure {place after : Place} {character : Char} {position : Position}
    (hrun : lexer.automaton.run place = (.failure character position, after)) :
    lexer.tokensFrom place = .error (.lexical ⟨character, position⟩) := by
  rw [tokensFrom]
  split
  all_goals
    rename_i hother
    rw [hrun] at hother
    cases hother
  rfl

theorem tokensFrom_miscut {place after : Place} {cause : Miscut}
    (hrun : lexer.automaton.run place = (.miscut cause, after)) :
    lexer.tokensFrom place = .error (.miscut cause) := by
  rw [tokensFrom]
  split
  all_goals
    rename_i hother
    rw [hrun] at hother
    cases hother
  rfl

/-- A scan that comes to a token goes on behind it, or behind its comment. -/
theorem tokensFrom_success {place after : Place} {token : Token K} {node : Nat}
    {matched : List Char} (hrun : lexer.automaton.run place = (.success token node matched, after))
    {finished : Token K} {later : Place}
    (hfinish : finishToken lexer.comments token node matched after = (finished, later)) :
    lexer.tokensFrom place = (lexer.tokensFrom later).map fun tokens => finished :: tokens := by
  rw [tokensFrom]
  split
  all_goals
    rename_i hother
    rw [hrun] at hother
    cases hother
  rw [hfinish]

/-- A scan behind which nothing is left to read gives the only token. -/
theorem tokensFrom_single {place after later : Place} {token finished : Token K} {node : Nat}
    {matched : List Char} (hrun : lexer.automaton.run place = (.success token node matched, after))
    (hfinish : finishToken lexer.comments token node matched after = (finished, later))
    (hignored : ∀ c ∈ later.rest, lexer.automaton.blanks.ignores c = true) :
    lexer.tokensFrom place = .ok [finished] := by
  rw [tokensFrom_success hrun hfinish, tokensFrom_of_ignored hignored]
  rfl

/-- Scans follow one another until the text ends or one of them fails or comes
    to a text that it cannot cut. -/
@[elab_as_elim]
theorem scan_induction (lexer : FamilyLexer K) {motive : Place → Prop}
    (hstop : ∀ place position after, lexer.automaton.run place = (.endOfStream position, after) →
      motive place)
    (hfail : ∀ place character position after,
      lexer.automaton.run place = (.failure character position, after) → motive place)
    (hmiscut : ∀ place cause after, lexer.automaton.run place = (.miscut cause, after) →
      motive place)
    (hscan : ∀ place token node matched after finished later,
      lexer.automaton.run place = (.success token node matched, after) →
      finishToken lexer.comments token node matched after = (finished, later) →
      motive later → motive place)
    (place : Place) : motive place := by
  induction place using tokensFrom.induct lexer with
  | case1 place position after hrun => exact hstop place position after hrun
  | case2 place character position after hrun => exact hfail place character position after hrun
  | case3 place cause after hrun => exact hmiscut place cause after hrun
  | case4 place token node matched after hrun _ ih =>
    exact hscan place token node matched after _ _ hrun rfl ih

/-- What holds of every token that a scan comes to holds of all tokens of a text. -/
theorem forall_mem_of_tokensFrom {P : Token K → Prop}
    (hscan : ∀ {place token node matched after finished next},
      lexer.automaton.run place = (.success token node matched, after) →
      finishToken lexer.comments token node matched after = (finished, next) → P finished)
    {place : Place} {tokens : List (Token K)} (hok : lexer.tokensFrom place = .ok tokens) :
    ∀ token ∈ tokens, P token := by
  induction place using scan_induction lexer generalizing tokens with
  | hstop place position after hrun =>
    rw [tokensFrom_endOfStream hrun] at hok
    cases hok
    exact nofun
  | hfail place character position after hrun =>
    rw [tokensFrom_failure hrun] at hok
    cases hok
  | hmiscut place cause after hrun =>
    rw [tokensFrom_miscut hrun] at hok
    cases hok
  | hscan place token node matched after finished next hrun hfinish ih =>
    rw [tokensFrom_success hrun hfinish] at hok
    obtain ⟨later, hlater, rfl⟩ := exists_of_map_eq_ok hok
    exact List.forall_mem_cons.2 ⟨hscan hrun hfinish, ih hlater⟩

end FamilyLexer

end Lexer

end GrammarKit
