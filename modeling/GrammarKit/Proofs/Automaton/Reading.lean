import GrammarKit.Automaton.Run
import Mathlib.Data.List.Basic

namespace GrammarKit

/-- Whether `text` is the longest beginning of `source` with a property. -/
structure IsLongest (P : List Char → Prop) (source text : List Char) : Prop where
  holds : P text
  isPrefix : text <+: source
  length_le : ∀ other, P other → other <+: source → other.length ≤ text.length

namespace IsLongest

variable {P Q : List Char → Prop} {source text other : List Char}

/-- There is only one longest beginning. -/
theorem eq (htext : IsLongest P source text) (hother : IsLongest P source other) : text = other :=
  (List.prefix_of_prefix_length_le htext.isPrefix hother.isPrefix
    (hother.length_le text htext.holds htext.isPrefix)).eq_of_length_le
      (htext.length_le other hother.holds hother.isPrefix)

/-- Only beginnings of the text matter. -/
theorem congr (htext : IsLongest P source text)
    (hiff : ∀ other, other <+: source → (P other ↔ Q other)) :
    IsLongest Q source text where
  holds := (hiff text htext.isPrefix).1 htext.holds
  isPrefix := htext.isPrefix
  length_le other hother hpre := htext.length_le other ((hiff other hpre).2 hother) hpre

end IsLongest

namespace Automaton

variable {K : Type} {automaton : Automaton K}

/-- What is skipped are the ignored characters in front. -/
theorem skipIgnored_eq (automaton : Automaton K) (position : Position) (text : List Char) :
    automaton.skipIgnored position text =
      ⟨position.advanceOver (text.takeWhile automaton.blanks.ignores),
        text.dropWhile automaton.blanks.ignores⟩ := by
  induction text generalizing position with
  | nil => rfl
  | cons c rest ih =>
    rw [skipIgnored]
    by_cases hc : automaton.blanks.ignores c
    · rw [if_pos hc, ih, List.takeWhile_cons_of_pos hc, List.dropWhile_cons_of_pos hc,
        Position.advanceOver_cons]
    · rw [if_neg hc, List.takeWhile_cons_of_neg hc, List.dropWhile_cons_of_neg hc,
        Position.advanceOver_nil]

/-- Skipping ends at the first character that is not ignored. -/
theorem skipIgnored_append {skipped rest : List Char}
    (hskipped : ∀ c ∈ skipped, automaton.blanks.ignores c = true)
    (hrest : ∀ c ∈ rest.head?, automaton.blanks.ignores c = false) (position : Position) :
    automaton.skipIgnored position (skipped ++ rest) = ⟨position.advanceOver skipped, rest⟩ := by
  have hdrop : rest.dropWhile automaton.blanks.ignores = rest := by
    cases rest with
    | nil => rfl
    | cons c rest => rw [List.dropWhile_cons_of_neg (by simp [hrest c rfl])]
  have htake : rest.takeWhile automaton.blanks.ignores = [] := by
    cases rest with
    | nil => rfl
    | cons c rest => rw [List.takeWhile_cons_of_neg (by simp [hrest c rfl])]
  rw [skipIgnored_eq, List.takeWhile_append_of_pos hskipped, List.dropWhile_append_of_pos hskipped,
    hdrop, htake, List.append_nil]

/-- The node at which a walk that stands on `node`, after `before` was read,
    arrives by reading on. -/
def reach? (automaton : Automaton K) (node : Nat) (before : List Char) : List Char → Option Nat
  | [] => some node
  | c :: text => (automaton.next? node before c).bind fun target =>
    automaton.reach? target (before ++ [c]) text

/-- Whether a scan can end in `node` after it has read `text`. -/
def StopsAt (automaton : Automaton K) (text : List Char) (node : Nat) : Prop :=
  text ≠ [] ∧ automaton.reach? startNode [] text = some node ∧ automaton.isEnd node = true

/-- The walk arrives where it goes on to from the next node. -/
theorem reach?_cons {node target : Nat} {before : List Char} {c : Char}
    (hnext : automaton.next? node before c = some target) (text : List Char) :
    automaton.reach? node before (c :: text) = automaton.reach? target (before ++ [c]) text := by
  rw [reach?, hnext, Option.bind_some]

/-- Whether a walk from `node` meets no end node, as long as it reads on in `text`. -/
def IsBarren (automaton : Automaton K) (node : Nat) (before text : List Char) : Prop :=
  ∀ read target, read <+: text → read ≠ [] → automaton.reach? node before read = some target →
    automaton.isEnd target = false

/-- Whether `target` is the last end node that a walk from `node` meets in
    `text`, after it has read `read`. -/
structure EndsLast (automaton : Automaton K) (node : Nat) (before text read : List Char)
    (target : Nat) : Prop where
  isPrefix : read <+: text
  ne_nil : read ≠ []
  reach : automaton.reach? node before read = some target
  isEnd : automaton.isEnd target = true
  length_le : ∀ longer other, longer <+: text → automaton.reach? node before longer = some other →
    automaton.isEnd other = true → longer.length ≤ read.length

section Walks

variable {node target stop : Nat} {before text read : List Char} {c : Char}

theorem isBarren_nil : automaton.IsBarren node before [] :=
  fun _ _ hpre hne => absurd (List.prefix_nil.1 hpre) hne

/-- A walk that cannot go on meets no end node. -/
theorem isBarren_of_next?_eq_none (hnext : automaton.next? node before c = none) :
    automaton.IsBarren node before (c :: text) := by
  intro read target hpre hne hreach
  cases read with
  | nil => exact absurd rfl hne
  | cons first read =>
    obtain ⟨rfl, -⟩ := List.cons_prefix_cons.1 hpre
    simp [reach?, hnext] at hreach

variable (hnext : automaton.next? node before c = some target)

include hnext

/-- A walk that goes on to a node that is no end stays barren. -/
theorem IsBarren.cons (hbarren : automaton.IsBarren target (before ++ [c]) text)
    (hend : automaton.isEnd target = false) :
    automaton.IsBarren node before (c :: text) := by
  intro read other hpre hne hreach
  cases read with
  | nil => exact absurd rfl hne
  | cons first read =>
    obtain ⟨rfl, htail⟩ := List.cons_prefix_cons.1 hpre
    rw [reach?_cons hnext] at hreach
    cases read with
    | nil =>
      obtain rfl := Option.some.inj hreach
      exact hend
    | cons second read => exact hbarren _ other htail (List.cons_ne_nil _ _) hreach

/-- A walk that goes on to an end node and is barren from there ends with it. -/
theorem IsBarren.endsLast (hbarren : automaton.IsBarren target (before ++ [c]) text)
    (hend : automaton.isEnd target = true) :
    automaton.EndsLast node before (c :: text) [c] target where
  isPrefix := ⟨text, rfl⟩
  ne_nil := List.cons_ne_nil _ _
  reach := by rw [reach?_cons hnext]; rfl
  isEnd := hend
  length_le longer other hpre hreach hstop := by
    cases longer with
    | nil => exact Nat.zero_le _
    | cons first longer =>
      obtain ⟨rfl, htail⟩ := List.cons_prefix_cons.1 hpre
      rw [reach?_cons hnext] at hreach
      cases longer with
      | nil => exact Nat.le_refl _
      | cons second longer =>
        rw [hbarren _ other htail (List.cons_ne_nil _ _) hreach] at hstop
        cases hstop

/-- The last end node stays the last one for a walk that comes from further back. -/
theorem EndsLast.cons (hlast : automaton.EndsLast target (before ++ [c]) text read stop) :
    automaton.EndsLast node before (c :: text) (c :: read) stop where
  isPrefix := List.cons_prefix_cons.2 ⟨rfl, hlast.isPrefix⟩
  ne_nil := List.cons_ne_nil _ _
  reach := by rw [reach?_cons hnext, hlast.reach]
  isEnd := hlast.isEnd
  length_le longer other hpre hreach hstop := by
    cases longer with
    | nil => exact Nat.zero_le _
    | cons first longer =>
      obtain ⟨rfl, htail⟩ := List.cons_prefix_cons.1 hpre
      rw [reach?_cons hnext] at hreach
      exact Nat.succ_le_succ (hlast.length_le longer other htail hreach hstop)

end Walks

/-- A walk reports the last end node that it meets, or the match it was given
    when there is none. -/
theorem walk_cases (automaton : Automaton K) (node : Nat) (reversed : List Char)
    (best : Option Match) (position : Position) (text : List Char) :
    ((automaton.walk node reversed best position text).1 = best ∧
      automaton.IsBarren node reversed.reverse text) ∨
      ∃ read rest target, text = read ++ rest ∧
        automaton.EndsLast node reversed.reverse text read target ∧
        (automaton.walk node reversed best position text).1 =
          some ⟨target, read.reverse ++ reversed, position.advanceOver read, rest⟩ := by
  induction text generalizing node reversed best position with
  | nil => exact Or.inl ⟨rfl, isBarren_nil⟩
  | cons c text ih =>
    rw [walk]
    cases hnext : automaton.next? node reversed.reverse c with
    | none => exact Or.inl ⟨rfl, isBarren_of_next?_eq_none hnext⟩
    | some target =>
      dsimp only
      rcases ih target (c :: reversed)
        (if automaton.isEnd target then some ⟨target, c :: reversed, position.advance c, text⟩
          else best) (position.advance c) with
        ⟨hbest, hbarren⟩ | ⟨read, rest, stop, rfl, hlast, hfound⟩
      · rw [List.reverse_cons] at hbarren
        cases hend : automaton.isEnd target with
        | false =>
          rw [hend] at hbest
          exact Or.inl ⟨hbest, hbarren.cons hnext hend⟩
        | true =>
          rw [hend] at hbest
          exact Or.inr ⟨[c], text, target, rfl, hbarren.endsLast hnext hend, hbest⟩
      · rw [List.reverse_cons] at hlast
        refine Or.inr ⟨c :: read, rest, stop, rfl, hlast.cons hnext, ?_⟩
        rw [hfound]
        simp

/-- A match comes to what its node makes of the token, and to no token when the
    node or its kind is missing. -/
theorem accept_cases (automaton : Automaton K) (start : Place) (found : Match) :
    automaton.accept start found = .ok none ∨
      ∃ node kind, automaton.node? found.node = some node ∧ node.kind = some kind ∧
        automaton.accept start found =
          node.finish (.ofSpan kind (String.ofList found.reversed.reverse) start.position) := by
  cases hnode : automaton.node? found.node with
  | none => exact Or.inl (by simp only [accept, hnode])
  | some node =>
    cases hkind : node.kind with
    | none => exact Or.inl (by simp only [accept, hnode, hkind])
    | some kind => exact Or.inr ⟨node, kind, rfl, hkind, by simp only [accept, hnode, hkind]⟩

/-- A match that is accepted is at a node with a kind, whose callback has not rejected it. -/
theorem exists_of_accept_eq_some {start : Place} {found : Match} {token : Token K}
    (haccept : automaton.accept start found = .ok (some token)) :
    ∃ node kind, automaton.node? found.node = some node ∧ node.kind = some kind ∧
      node.finish (.ofSpan kind (String.ofList found.reversed.reverse) start.position) =
        .ok (some token) := by
  rcases automaton.accept_cases start found with hnone | ⟨node, kind, hnode, hkind, hfinish⟩
  · rw [haccept] at hnone
    cases hnone
  · exact ⟨node, kind, hnode, hkind, hfinish.symm.trans haccept⟩

/-- A match that cannot be cut is at a node whose callback fails. -/
theorem exists_of_accept_eq_error {start : Place} {found : Match} {cause : Miscut}
    (haccept : automaton.accept start found = .error cause) :
    ∃ node kind, automaton.node? found.node = some node ∧ node.kind = some kind ∧
      node.finish (.ofSpan kind (String.ofList found.reversed.reverse) start.position) =
        .error cause := by
  rcases automaton.accept_cases start found with hnone | ⟨node, kind, hnode, hkind, hfinish⟩
  · rw [haccept] at hnone
    cases hnone
  · exact ⟨node, kind, hnode, hkind, hfinish.symm.trans haccept⟩

variable {position : Position} {rest : List Char} {start : Place}

/-- A scan ends with the longest text that leads to an end node, unless the
    callback of that node rejects it or comes to a text that it cannot cut. -/
theorem run_of_isLongest (hstart : automaton.skipIgnored position rest = start) {text : List Char}
    {node : Nat}
    (hlongest : IsLongest (fun text => ∃ node, automaton.StopsAt text node) start.rest text)
    (hnode : automaton.reach? startNode [] text = some node) :
    automaton.run ⟨position, rest⟩ =
      let after : Place := ⟨start.position.advanceOver text, start.rest.drop text.length⟩
      match automaton.accept start ⟨node, text.reverse, after⟩ with
      | .ok (some token) => (.success token node text, after)
      | .ok none => (failureAt start, start)
      | .error cause => (.miscut cause, start) := by
  obtain ⟨⟨stop, hne, hstop, hend⟩, hpre, hle⟩ := hlongest
  obtain rfl : stop = node := Option.some.inj (hstop.symm.trans hnode)
  have hrest : start.rest.isEmpty = false := by
    cases hrest : start.rest with
    | nil => exact absurd (List.prefix_nil.1 (hrest ▸ hpre)) hne
    | cons => rfl
  simp only [run, hstart, hrest, Bool.false_eq_true, if_false]
  rcases automaton.walk_cases startNode [] none start.position start.rest with
    ⟨-, hbarren⟩ | ⟨read, rest, target, hsplit, hlast, hfound⟩
  · rw [hbarren text stop hpre hne hnode] at hend
    cases hend
  · obtain rfl : text = read := IsLongest.eq (P := fun text => ∃ node, automaton.StopsAt text node)
      ⟨⟨stop, hne, hnode, hend⟩, hpre, hle⟩
      ⟨⟨target, hlast.ne_nil, hlast.reach, hlast.isEnd⟩, hlast.isPrefix,
        fun other ⟨node, _, hother, hends⟩ hpre => hlast.length_le other node hpre hother hends⟩
    obtain rfl : target = stop := Option.some.inj (hlast.reach.symm.trans hnode)
    have hdrop : start.rest.drop text.length = rest := by rw [hsplit, List.drop_left]
    generalize hwalk : automaton.walk startNode [] none start.position start.rest = walked
    obtain ⟨found, last⟩ := walked
    rw [hwalk] at hfound
    dsimp only at hfound
    subst hfound
    simp only [List.append_nil, hdrop]
    rcases automaton.accept start ⟨target, text.reverse, start.position.advanceOver text, rest⟩ with
      cause | _ | token <;>
      simp only [List.reverse_reverse]

/-- A scan fails where no text leads to an end node. -/
theorem run_of_not_stopsAt (hstart : automaton.skipIgnored position rest = start)
    (hrest : start.rest ≠ [])
    (hnone : ∀ text node, text <+: start.rest → ¬automaton.StopsAt text node) :
    ∃ character failed, automaton.run ⟨position, rest⟩ = (.failure character failed, start) := by
  have hrest : start.rest.isEmpty = false := by simpa using hrest
  simp only [run, hstart, hrest, Bool.false_eq_true, if_false]
  rcases automaton.walk_cases startNode [] none start.position start.rest with
    ⟨hfound, -⟩ | ⟨read, rest, target, -, hlast, -⟩
  · generalize automaton.walk startNode [] none start.position start.rest = walked at hfound
    obtain ⟨found, last⟩ := walked
    dsimp only at hfound
    subst hfound
    exact ⟨_, _, rfl⟩
  · exact absurd ⟨hlast.ne_nil, hlast.reach, hlast.isEnd⟩ (hnone read target hlast.isPrefix)

end Automaton

end GrammarKit
