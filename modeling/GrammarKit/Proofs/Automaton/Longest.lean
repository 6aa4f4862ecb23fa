import GrammarKit.Proofs.Automaton.Reading
import GrammarKit.Proofs.Automaton.WellFormed
import Mathlib.Data.List.Induction
import Mathlib.Data.List.Infix

namespace GrammarKit

/-- If a beginning of a text has a property, one of them is the longest. -/
theorem exists_isLongest {P : List Char → Prop} {source text : List Char} (htext : P text)
    (hpre : text <+: source) :
    ∃ longest, IsLongest P source longest := by
  induction source using List.reverseRecOn with
  | nil =>
    obtain rfl := List.prefix_nil.1 hpre
    exact ⟨[], htext, hpre, fun other _ hother => hother.length_le⟩
  | append_singleton source c ih =>
    by_cases hwhole : P (source ++ [c])
    · exact ⟨_, hwhole, List.prefix_rfl, fun other _ hother => hother.length_le⟩
    · have hshorter : ∀ other, P other → other <+: source ++ [c] →
          other <+: source := fun other hother hpre =>
        (List.prefix_concat_iff.1 hpre).resolve_left fun heq => hwhole (heq ▸ hother)
      obtain ⟨longest, hlongest⟩ := ih (hshorter text htext hpre)
      exact ⟨longest, hlongest.holds, hlongest.isPrefix.trans (List.prefix_append _ _),
        fun other hother hpre => hlongest.length_le other hother (hshorter other hother hpre)⟩

instance (P : List Char → Prop) [DecidablePred P] (source text : List Char) :
    Decidable (IsLongest P source text) :=
  decidable_of_iff
    (P text ∧ text <+: source ∧ ∀ other ∈ source.inits, P other → other.length ≤ text.length)
    ⟨fun ⟨hholds, hpre, hle⟩ => ⟨hholds, hpre, fun other hother hpre =>
      hle other ((List.mem_inits _ _).2 hpre) hother⟩, fun hlongest =>
        ⟨hlongest.holds, hlongest.isPrefix, fun other hpre hother => hlongest.length_le other hother
          ((List.mem_inits _ _).1 hpre)⟩⟩

/-- Whether an edge can be taken at `c`: its check accepts the character, and
    its guard holds of the text read so far. -/
structure Transition.Admits (edge : Transition) (text : List Char) (c : Char) : Prop where
  accepts : edge.check.accepts c = true
  guard : ∀ guard ∈ edge.guard, guard text = true

theorem Transition.admits_iff {edge : Transition} {text : List Char} {c : Char} :
    edge.Admits text c ↔ edge.accepts c text = true := by
  rw [accepts, Bool.and_eq_true, Option.all_eq_true]
  exact ⟨fun hadmits => ⟨hadmits.accepts, hadmits.guard⟩, fun haccepts => ⟨haccepts.1, haccepts.2⟩⟩

namespace Automaton

variable {K : Type}

variable {automaton : Automaton K}

theorem Place.of_eq {source : String} {position : Position} {rest : List Char}
    (hrest : dropBytes position.index source.toList = some rest) :
    Place.of source position = ⟨position, rest⟩ := by
  rw [Place.of, hrest, Option.getD_some]

/-- Whether `edge` is the first of a node's edges that can be taken at `c`. -/
def Takes (automaton : Automaton K) (node : Nat) (text : List Char) (c : Char) (edge : Transition) :
    Prop :=
  ∃ earlier later, automaton.transitionsFrom node = earlier ++ edge :: later ∧ edge.Admits text c ∧
    ∀ other ∈ earlier, ¬other.Admits text c

/-- The walk goes on along the first edge that can be taken. -/
theorem next?_eq_some_iff {node target : Nat} {text : List Char} {c : Char} :
    automaton.next? node text c = some target ↔ ∃ edge, automaton.Takes node text c edge ∧
    edge.target = target := by
  rw [next?, Option.map_eq_some_iff]
  refine exists_congr fun edge => and_congr_left fun _ => ?_
  simp only [List.find?_eq_some_iff_append, Takes, Transition.admits_iff]
  constructor
  · rintro ⟨haccepts, earlier, later, hedges, hearlier⟩
    exact ⟨earlier, later, hedges, haccepts,
      fun other hother => by simpa using hearlier other hother⟩
  · rintro ⟨earlier, later, hedges, haccepts, hearlier⟩
    exact ⟨haccepts, earlier, later, hedges,
      fun other hother => by simpa using hearlier other hother⟩

/-- The walk ends where no edge can be taken. -/
theorem next?_eq_none_iff {node : Nat} {text : List Char} {c : Char} :
    automaton.next? node text c = none ↔
      ∀ edge ∈ automaton.transitionsFrom node, ¬edge.Admits text c := by
  simp only [next?, Option.map_eq_none_iff, List.find?_eq_none, Transition.admits_iff]

/-- The nodes on which the walk stands after it has read a text: from the start
    node on, it takes at every character the edge that was added first among
    those whose check accepts the character and whose guard holds of the text
    read so far. -/
inductive StandsOn (automaton : Automaton K) : List Char → Nat → Prop
  | start : StandsOn automaton [] startNode
  | step {text : List Char} {node : Nat} {c : Char} {edge : Transition} :
      StandsOn automaton text node →
      automaton.Takes node text c edge → StandsOn automaton (text ++ [c]) edge.target

/-- The walk reads one character after the other. -/
theorem reach?_concat (node : Nat) (before text : List Char) (c : Char) :
    automaton.reach? node before (text ++ [c]) =
      (automaton.reach? node before text).bind fun target =>
        automaton.next? target (before ++ text) c := by
  induction text generalizing node before with
  | nil =>
    rw [List.nil_append, reach?, reach?, Option.bind_some, List.append_nil]
    exact Option.bind_fun_some _
  | cons first text ih =>
    rw [List.cons_append, reach?, reach?, Option.bind_assoc]
    refine Option.bind_congr fun target _ => ?_
    rw [ih, List.append_assoc, List.singleton_append]

/-- The nodes on which the walk stands are those that it reaches. -/
theorem standsOn_iff {text : List Char} {node : Nat} :
    automaton.StandsOn text node ↔ automaton.reach? startNode [] text = some node := by
  constructor
  · intro hstands
    induction hstands with
    | start => rfl
    | step hstands htakes ih =>
      rw [reach?_concat, ih]
      exact next?_eq_some_iff.2 ⟨_, htakes, rfl⟩
  · intro hreach
    -- The walk grows at its end, but texts are read from the front, so the last
    -- character is taken off.
    induction text using List.reverseRecOn generalizing node with
    | nil =>
      obtain rfl := Option.some.inj hreach
      exact .start
    | append_singleton text c ih =>
      rw [reach?_concat, Option.bind_eq_some_iff] at hreach
      obtain ⟨last, hlast, hnext⟩ := hreach
      obtain ⟨edge, htakes, rfl⟩ := next?_eq_some_iff.1 hnext
      exact .step (ih hlast) htakes

instance (text : List Char) (node : Nat) : Decidable (automaton.StandsOn text node) :=
  decidable_of_iff _ standsOn_iff.symm

/-- Whether the walk stands on an end node after it has read `text`, and has read something. -/
def StopsAfter (automaton : Automaton K) (text : List Char) : Prop :=
  text ≠ [] ∧ ∃ node, automaton.StandsOn text node ∧ automaton.isEnd node = true

/-- A text after which the walk stops leads to an end node. -/
theorem stopsAfter_iff {text : List Char} :
    automaton.StopsAfter text ↔ ∃ node, automaton.StopsAt text node := by
  simp only [StopsAfter, StopsAt, standsOn_iff, exists_and_left]

instance (text : List Char) : Decidable (automaton.StopsAfter text) :=
  decidable_of_iff (text ≠ [] ∧
    ∃ node ∈ automaton.reach? startNode [] text, automaton.isEnd node = true) <| by
    simp only [StopsAfter, standsOn_iff, Option.mem_def]

/-- The last end node that is met stands behind the longest text. -/
theorem EndsLast.isLongest {text read : List Char} {target : Nat}
    (hlast : automaton.EndsLast startNode [] text read target) :
    IsLongest automaton.StopsAfter text read where
  holds := ⟨hlast.ne_nil, target, standsOn_iff.2 hlast.reach, hlast.isEnd⟩
  isPrefix := hlast.isPrefix
  length_le other hother hpre := by
    obtain ⟨-, node, hnode, hend⟩ := hother
    exact hlast.length_le other node hpre (standsOn_iff.1 hnode) hend

/-- A walk that meets no end node stops after no text. -/
theorem IsBarren.not_stopsAfter {text read : List Char}
    (hbarren : automaton.IsBarren startNode [] text) (hpre : read <+: text) :
    ¬automaton.StopsAfter read := by
  rintro ⟨hne, node, hnode, hend⟩
  rw [hbarren read node hpre hne (standsOn_iff.1 hnode)] at hend
  cases hend

/-- Whether a node comes to `result` for a text found at `position`: the token
    has the node's kind, and the node's callback, if it has one, turns it into
    `result`. -/
def Finishes (automaton : Automaton K) (position : Position) (text : List Char) (id : Nat)
    (result : Except Miscut (Option (Token K))) : Prop :=
  ∃ node kind, automaton.node? id = some node ∧ node.kind = some kind ∧
    (node.callback.getD fun token => .ok (some token))
    (.ofSpan kind (String.ofList text) position) = result

section Scans

variable {source : String} {position start : Position} {rest left text : List Char} {node : Nat}
  {result : Except Miscut (Option (Token K))}

/-- A match is accepted as its node finishes it. -/
theorem accept_of_finishes {start after : Place}
    (hresult : automaton.Finishes start.position text node result) :
    automaton.accept start ⟨node, text.reverse, after⟩ = result := by
  obtain ⟨found, kind, hnode, hkind, rfl⟩ := hresult
  simp only [accept, hnode, hkind, List.reverse_reverse, Node.finish]
  cases found.callback <;> rfl

/-- A match is rejected as well when its node or the node's kind is missing. -/
theorem accept_eq_ok_none {start after : Place}
    (hnone : ∀ result, automaton.Finishes start.position text node result → result = .ok none) :
    automaton.accept start ⟨node, text.reverse, after⟩ = .ok none := by
  rcases automaton.accept_cases start ⟨node, text.reverse, after⟩ with hrejected |
    ⟨found, kind, hnode, hkind, -⟩
  · exact hrejected
  · have hfinishes : automaton.Finishes start.position text node _ :=
      ⟨found, kind, hnode, hkind, rfl⟩
    rw [accept_of_finishes hfinishes, hnone _ hfinishes]

variable (hskip : automaton.skipIgnored position rest = ⟨start, left⟩)

include hskip

/-- What the node of the longest match comes to decides how the scan ends. -/
theorem run_of_standsOn (hlongest : IsLongest automaton.StopsAfter left text)
    (hnode : automaton.StandsOn text node) :
    let after : Place := ⟨start.advanceOver text, left.drop text.length⟩
    automaton.run ⟨position, rest⟩ =
      match automaton.accept ⟨start, left⟩ ⟨node, text.reverse, after⟩ with
      | .ok (some token) => (.success token node text, after)
      | .ok none => (failureAt ⟨start, left⟩, ⟨start, left⟩)
      | .error cause => (.miscut cause, ⟨start, left⟩) :=
  run_of_isLongest hskip (hlongest.congr fun _ _ => stopsAfter_iff) (standsOn_iff.1 hnode)

/-- A scan succeeds when the node of the longest match makes a token of it. -/
theorem run_of_finishes {token : Token K} (hlongest : IsLongest automaton.StopsAfter left text)
    (hnode : automaton.StandsOn text node)
    (htoken : automaton.Finishes start text node (.ok (some token))) :
    automaton.run ⟨position, rest⟩ =
      (.success token node text, ⟨start.advanceOver text, left.drop text.length⟩) := by
  rw [run_of_standsOn hskip hlongest hnode, accept_of_finishes htoken]

/-- A scan ends when the node of the longest match comes to a text that cannot be cut. -/
theorem run_of_finishes_error {cause : Miscut} (hlongest : IsLongest automaton.StopsAfter left text)
    (hnode : automaton.StandsOn text node)
    (hcause : automaton.Finishes start text node (.error cause)) :
    automaton.run ⟨position, rest⟩ = (.miscut cause, ⟨start, left⟩) := by
  rw [run_of_standsOn hskip hlongest hnode, accept_of_finishes hcause]

/-- A scan fails when the node of the longest match rejects it, or when there is none. -/
theorem run_of_rejected (hleft : left ≠ [])
    (hnone : ∀ text node result, IsLongest automaton.StopsAfter left text →
      automaton.StandsOn text node → automaton.Finishes start text node result →
      result = .ok none) :
    ∃ character failed, automaton.run ⟨position, rest⟩ =
      (.failure character failed, ⟨start, left⟩) := by
  by_cases hstops : ∃ text, text <+: left ∧ automaton.StopsAfter text
  -- There is a longest match, but its node makes no token of it. Shorter ones are not tried.
  · obtain ⟨text, hpre, hstop⟩ := hstops
    obtain ⟨longest, hlongest⟩ := exists_isLongest hstop hpre
    obtain ⟨-, node, hnode, -⟩ := hlongest.holds
    have hrejected : automaton.accept ⟨start, left⟩
        ⟨node, longest.reverse, ⟨start.advanceOver longest, left.drop longest.length⟩⟩ = .ok none :=
      accept_eq_ok_none fun result => hnone longest node result hlongest hnode
    rw [run_of_standsOn hskip hlongest hnode, hrejected]
    exact ⟨_, _, rfl⟩
  -- The walk stands on no end node at all.
  · exact run_of_not_stopsAt hskip hleft fun text node hpre hstop =>
      hstops ⟨text, hpre, stopsAfter_iff.2 ⟨node, hstop⟩⟩

end Scans

/-- Skipping twice skips nothing more. -/
theorem skipIgnored_skipIgnored (automaton : Automaton K) (position : Position) (text : List Char) :
    let start := automaton.skipIgnored position text
    automaton.skipIgnored start.position start.rest = start := by
  induction text generalizing position with
  | nil => rfl
  | cons c text ih =>
    dsimp only
    by_cases hc : automaton.blanks.ignores c = true
    · rw [skipIgnored, if_pos hc]
      exact ih (position.advance c)
    · rw [skipIgnored, if_neg hc, skipIgnored, if_neg hc]

/-- What is skipped in front of a token makes no difference to what is found. -/
theorem run_skipIgnored (automaton : Automaton K) (place : Place) :
    automaton.run (automaton.skipIgnored place.position place.rest) = automaton.run place := by
  rw [run, skipIgnored_skipIgnored, run]

namespace Builder.IsWellFormed

variable {builder : Builder K}

/-- A chain of edges takes no edges away from a node. -/
theorem transitionsFrom_chain (hwell : builder.IsWellFormed) (count : Nat) (check : CharClass)
    (id : Nat) :
    builder.build.transitionsFrom id <+: (builder.chain count check).build.transitionsFrom id := by
  induction count generalizing builder with
  | zero => exact List.prefix_rfl
  | succ count ih =>
    have hmove : builder.build.transitionsFrom id <+:
        (builder.move check none).build.transitionsFrom id := by
      rw [hwell.transitionsFrom_move]
      exact List.prefix_append _ _
    exact hmove.trans (ih (hwell.move check none))

/-- An instruction adds edges behind those that a node has, and takes none away. -/
theorem transitionsFrom_step (hwell : builder.IsWellFormed) (instruction : Instruction K)
    (id : Nat) :
    builder.build.transitionsFrom id <+: (builder.step instruction).build.transitionsFrom id := by
  rw [Builder.step]
  cases happly : instruction.apply builder with
  | error error => exact List.prefix_rfl
  | ok changed =>
    dsimp only
    cases instruction with
    | move check guard =>
      obtain rfl := Except.ok.inj happly
      rw [hwell.transitionsFrom_move]
      exact List.prefix_append _ _
    | moveTo check name =>
      obtain ⟨target, -, rfl⟩ := hwell.exists_lt_of_resolve happly
      rw [hwell.transitionsFrom_moveToNode]
      exact List.prefix_append _ _
    | follow c =>
      obtain rfl := Except.ok.inj happly
      rw [Builder.follow]
      cases builder.follow? c with
      | some target => exact List.prefix_rfl
      | none =>
        dsimp only
        rw [hwell.transitionsFrom_move]
        exact List.prefix_append _ _
    | chain count check =>
      obtain rfl := Except.ok.inj happly
      exact hwell.transitionsFrom_chain count check id
    | goto name =>
      obtain ⟨target, -, rfl⟩ := hwell.exists_lt_of_resolve happly
      exact List.prefix_rfl
    | gotoNode target =>
      obtain rfl := Except.ok.inj happly
      rw [Builder.gotoNode]
      split <;> exact List.prefix_rfl
    | mark | accept | callback | ignoreWhitespace | whitespace | ignoreEol =>
      obtain rfl := Except.ok.inj happly
      exact List.prefix_rfl

/-- The edges of a node stand in the order in which they were added. -/
theorem transitionsFrom_performAll (hwell : builder.IsWellFormed)
    (instructions : List (Instruction K)) (id : Nat) :
    builder.build.transitionsFrom id <+:
      (builder.performAll instructions).build.transitionsFrom id := by
  rw [hwell.performAll_eq]
  induction instructions generalizing builder with
  | nil => exact List.prefix_rfl
  | cons instruction rest ih =>
    exact (hwell.transitionsFrom_step instruction id).trans (ih (hwell.step instruction))

end Builder.IsWellFormed

/-- A scan returns the longest match of the walk and otherwise restores the
    cursor. Let `start` be the place behind what is skipped and `left` the text
    from there on. If nothing is left, the stream ends at `start`. If `text` is
    the longest beginning of `left` after which the walk stands on an end node,
    and this node finishes a token, that token is found and the cursor ends
    behind `text`. If its callback comes to a text that it cannot cut, so does
    the scan. In every other case the scan fails. Without a token it leaves the
    cursor at `start`, from where it comes to the same again. End nodes have a
    kind, so one of these cases is given, and whatever else is done to a
    builder, the edges that it adds to a node come after those that were
    there. -/
theorem run_longest_walk (instructions : List (Instruction K)) (source : String)
    (position : Position) {rest : List Char}
    (hboundary : dropBytes position.index source.toList = some rest) :
    let builder := (Builder.new : Builder K).performAll instructions
    let automaton := builder.build
    let start := position.advanceOver (rest.takeWhile automaton.blanks.ignores)
    let left := rest.dropWhile automaton.blanks.ignores
    (left = [] → automaton.run (.of source position) = (.endOfStream start, .of source start)) ∧
      (∀ text node token, IsLongest automaton.StopsAfter left text → automaton.StandsOn text node →
        automaton.Finishes start text node (.ok (some token)) →
        automaton.run (.of source position) =
          (.success token node text, .of source (start.advanceOver text))) ∧
      (left ≠ [] →
        (∀ text node result, IsLongest automaton.StopsAfter left text →
          automaton.StandsOn text node →
          automaton.Finishes start text node result → result = .ok none) →
        ∃ character failed,
          automaton.run (.of source position) = (.failure character failed, .of source start)) ∧
      (∀ text node cause, IsLongest automaton.StopsAfter left text → automaton.StandsOn text node →
        automaton.Finishes start text node (.error cause) →
        automaton.run (.of source position) = (.miscut cause, .of source start)) ∧
      automaton.run (.of source start) = automaton.run (.of source position) ∧
      (∀ id, automaton.isEnd id = true → ∃ node kind, automaton.node? id = some node ∧
        node.kind = some kind) ∧
      ∀ more id,
        automaton.transitionsFrom id <+: (builder.performAll more).build.transitionsFrom id := by
  intro builder automaton start left
  have hwell : builder.IsWellFormed := Builder.isWellFormed_new.performAll instructions
  have hskip : automaton.skipIgnored position rest = ⟨start, left⟩ :=
    automaton.skipIgnored_eq position rest
  have hleft : dropBytes start.index source.toList = some left :=
    dropBytes_advanceOver (by rw [List.takeWhile_append_dropWhile]; exact hboundary)
  rw [Place.of_eq hboundary, Place.of_eq hleft]
  refine ⟨fun hnil => ?_, fun text node token hlongest hnode htoken => ?_, run_of_rejected hskip,
    fun text node cause hlongest hnode hcause => run_of_finishes_error hskip hlongest hnode hcause,
      ?_, fun id hend => ?_,
    fun more id => hwell.transitionsFrom_performAll more id⟩
  · rw [run, hskip, hnil]
    rfl
  · have hsplit : text ++ left.drop text.length = left :=
      List.prefix_iff_eq_append.1 hlongest.isPrefix
    rw [run_of_finishes hskip hlongest hnode htoken,
      Place.of_eq (dropBytes_advanceOver (by rw [hsplit]; exact hleft))]
  · rw [← hskip]
    exact automaton.run_skipIgnored ⟨position, rest⟩
  · obtain ⟨node, hnode, hend⟩ := (Option.any_eq_true _ _).1 hend
    have hkind := (hwell.isEnd_iff node (List.mem_of_getElem? hnode)).1 hend
    obtain ⟨kind, hkind⟩ := Option.isSome_iff_exists.1 hkind
    exact ⟨node, kind, hnode, hkind⟩

namespace Sample

/-- Whole numbers, of kind 0, and those with a decimal point and digits behind it, of kind 1. -/
def numbers : List (Instruction Nat) :=
  [.move (.range '0' '9') none, .mark "whole", .accept 0, .moveTo (.range '0' '9') "whole",
    .move (.single '.') none, .move (.range '0' '9') none, .mark "fraction", .accept 1,
      .moveTo (.range '0' '9') "fraction"]

end Sample

/-- The point in `12.x` is read in vain. -/
theorem run_longest_walk_numbers :
    let automaton := ((Builder.new : Builder Nat).performAll Sample.numbers).build
    let token := Token.ofSpan 0 "12" ⟨1, 0, 1⟩
    dropBytes 0 " 12.x".toList = some " 12.x".toList ∧
      IsLongest automaton.StopsAfter "12.x".toList "12".toList ∧ automaton.StandsOn "12".toList 1 ∧
      automaton.Finishes ⟨1, 0, 1⟩ "12".toList 1 (.ok (some token)) ∧
      automaton.run (.of " 12.x" .start) = (.success token 1 "12".toList,
        .of " 12.x" ⟨3, 0, 3⟩) := by
  intro automaton token
  have hlongest : IsLongest automaton.StopsAfter "12.x".toList "12".toList := by decide +kernel
  have hstands : automaton.StandsOn "12".toList 1 := by decide +kernel
  have hfinishes : automaton.Finishes ⟨1, 0, 1⟩ "12".toList 1 (.ok (some token)) :=
    ⟨_, 0, rfl, rfl, rfl⟩
  obtain ⟨-, hsuccess, -⟩ := run_longest_walk Sample.numbers " 12.x" .start rfl
  exact ⟨rfl, hlongest, hstands, hfinishes, hsuccess _ _ _ hlongest hstands hfinishes⟩

end Automaton

end GrammarKit
