import GrammarKit.Proofs.Automaton.Longest
import Mathlib.Logic.Relation

namespace GrammarKit

namespace Node

variable {K : Type} {node old : Node K}

/-- Whether a node makes something of every token, whatever text the token spans. -/
def NeverMiscuts (node : Node K) : Prop :=
  ∀ token cause, node.finish token ≠ .error cause

/-- A node without a callback makes something of every token. -/
theorem neverMiscuts_of_callback_eq_none (hnone : node.callback = none) : node.NeverMiscuts := by
  intro token cause hfinish
  rw [finish, hnone] at hfinish
  cases hfinish

/-- What a node makes of a token depends on its callback alone. -/
theorem finish_congr (hsame : node.callback = old.callback) (token : Token K) :
    node.finish token = old.finish token := by
  rw [finish, finish, hsame]

end Node

namespace Automaton

variable {K : Type}

/-- Whether an edge leads from one node to another, by whichever characters and
    under whichever guard. -/
def HasEdge (automaton : Automaton K) (id target : Nat) : Prop :=
  ∃ edge ∈ automaton.transitionsFrom id, edge.target = target

/-- Whether edges lead only to nodes that make something of every token. -/
def IsTame (automaton : Automaton K) (id : Nat) : Prop :=
  ∀ target node, Relation.ReflTransGen automaton.HasEdge id target →
    automaton.node? target = some node →
    node.NeverMiscuts

/-- Whether each node makes something of the texts after which the walk stands on it. -/
def NeverMiscuts (automaton : Automaton K) : Prop :=
  ∀ text id node token cause, automaton.StandsOn text id → automaton.node? id = some node →
    token.span = String.ofList text → node.finish token ≠ .error cause

/-- Whether what was added to an automaton keeps apart from the nodes that could
    come to a text that they cannot cut. Edges are added behind those that were
    there. They lead to nodes that were added too, or to old ones from which no
    such node can be reached. The callback of an old node stays or gives way to
    one that fails for no token, and the callbacks of new nodes fail for
    none. -/
structure KeepsApart (before after : Automaton K) : Prop where
  edges : ∀ id, before.transitionsFrom id <+: after.transitionsFrom id
  apart : ∀ id, ∀ edge ∈ (after.transitionsFrom id).drop (before.transitionsFrom id).length,
    edge.target < before.nodes.length → after.IsTame edge.target
  callbacks : ∀ id node, after.node? id = some node →
    node.NeverMiscuts ∨ ∃ old, before.node? id = some old ∧ node.callback = old.callback

section Edges

variable {automaton : Automaton K} {id target : Nat} {text : List Char} {c : Char}
    {edge : Transition}

/-- An edge that is taken is one of the node's. -/
theorem Takes.mem (htakes : automaton.Takes id text c edge) :
    edge ∈ automaton.transitionsFrom id := by
  obtain ⟨earlier, later, hedges, -, -⟩ := htakes
  rw [hedges]
  exact List.mem_append_right earlier List.mem_cons_self

theorem IsTame.of_mem (htame : automaton.IsTame id) (hedge : edge ∈ automaton.transitionsFrom id) :
    automaton.IsTame edge.target :=
  fun target node hpath hnode => htame target node (.head ⟨edge, hedge, rfl⟩ hpath) hnode

/-- From a start node that is tame the walk comes to tame nodes only. -/
theorem IsTame.of_standsOn (htame : automaton.IsTame startNode)
    (hstands : automaton.StandsOn text id) :
    automaton.IsTame id := by
  induction hstands with
  | start => exact htame
  | step _ htakes ih => exact ih.of_mem htakes.mem

/-- An automaton without callbacks that fail for some token cuts nothing. -/
theorem IsTame.neverMiscuts (htame : automaton.IsTame startNode) : automaton.NeverMiscuts :=
  fun _ _ node token cause hstands hnode _ =>
    htame.of_standsOn hstands _ node .refl hnode token cause

/-- Nodes that do not exist have no edges. -/
theorem transitionsFrom_eq_nil (hlength : automaton.transitions.length = automaton.nodes.length)
    (hid : automaton.nodes.length ≤ id) : automaton.transitionsFrom id = [] := by
  rw [transitionsFrom, List.getElem?_eq_none (hlength ▸ hid)]
  rfl

end Edges

namespace KeepsApart

variable {before after : Automaton K} {id : Nat} {text : List Char}

/-- The edge that is taken is the one that was taken before, or one of those that were added. -/
theorem takes_or_mem (hapart : before.KeepsApart after) {c : Char} {edge : Transition}
    (htakes : after.Takes id text c edge) :
    before.Takes id text c edge ∨ edge ∈ (after.transitionsFrom id).drop
      (before.transitionsFrom id).length := by
  obtain ⟨earlier, later, hedges, hadmits, hearlier⟩ := htakes
  obtain ⟨added, hadded⟩ := hapart.edges id
  rw [← hadded, List.drop_left]
  rcases List.append_eq_append_iff.1 (hadded.trans hedges) with ⟨more, rfl, rfl⟩ |
    ⟨more, hbefore, hmore⟩
  · exact Or.inr (List.mem_append_right more List.mem_cons_self)
  · cases more with
    | nil =>
      rw [List.nil_append] at hmore
      exact Or.inr (hmore ▸ List.mem_cons_self)
    | cons first more =>
      obtain ⟨rfl, -⟩ := List.cons.inj hmore
      exact Or.inl ⟨earlier, more, hbefore, hadmits, hearlier⟩

/-- A walk stands where it stood before, or on a node that was added, or where
    nothing is cut any more. -/
theorem standsOn_cases (hapart : before.KeepsApart after)
    (hlength : before.transitions.length = before.nodes.length) (hstands : after.StandsOn text id) :
    before.StandsOn text id ∨ before.nodes.length ≤ id ∨ after.IsTame id := by
  induction hstands with
  | start => exact Or.inl .start
  | @step text id c edge _ htakes ih =>
    -- From a node that was added, or after an edge that was added, only the target counts.
    have hadded : edge ∈ (after.transitionsFrom id).drop (before.transitionsFrom id).length →
        before.nodes.length ≤ edge.target ∨ after.IsTame edge.target := fun hmem =>
      (Nat.lt_or_ge edge.target before.nodes.length).symm.imp_right (hapart.apart id edge hmem)
    rcases ih with hold | hnew | htame
    · rcases hapart.takes_or_mem htakes with hsame | hmem
      · exact Or.inl (hold.step hsame)
      · exact Or.inr (hadded hmem)
    · rw [transitionsFrom_eq_nil hlength hnew] at hadded
      exact Or.inr (hadded htakes.mem)
    · exact Or.inr (Or.inr (htame.of_mem htakes.mem))

/-- What keeps apart spoils nothing. -/
theorem neverMiscuts (hapart : before.KeepsApart after)
    (hlength : before.transitions.length = before.nodes.length) (hnever : before.NeverMiscuts) :
    after.NeverMiscuts := by
  intro text id node token cause hstands hnode hspan
  rcases hapart.callbacks id node hnode with hplain | ⟨old, hold, hcallback⟩
  · exact hplain token cause
  · rcases hapart.standsOn_cases hlength hstands with hbefore | hadded | htame
    · rw [Node.finish_congr hcallback]
      exact hnever text id old token cause hbefore hold hspan
    · exact absurd (List.getElem?_eq_some_iff.1 hold).1 (Nat.not_lt_of_ge hadded)
    · exact htame id node .refl hnode token cause

/-- Where no edge is added only the callbacks of nodes matter. -/
theorem of_transitions_eq (hsame : after.transitions = before.transitions)
    (hcallbacks : ∀ id node, after.node? id = some node → node.NeverMiscuts ∨
      ∃ old, before.node? id = some old ∧ node.callback = old.callback) :
    before.KeepsApart after where
  edges id := by
    rw [transitionsFrom, transitionsFrom, hsame]
  apart id edge hedge := by
    rw [transitionsFrom, transitionsFrom, hsame, List.drop_length] at hedge
    cases hedge
  callbacks := hcallbacks

theorem refl (automaton : Automaton K) : automaton.KeepsApart automaton :=
  .of_transitions_eq rfl fun _ node hnode => Or.inr ⟨node, hnode, rfl⟩

end KeepsApart

namespace Builder

variable {builder : Builder K}

/-- Going to a node adds nothing. -/
theorem keepsApart_gotoNode (builder : Builder K) (id : Nat) :
    builder.build.KeepsApart (builder.gotoNode id).build := by
  rw [gotoNode]
  split <;> exact .refl builder.build

/-- Accepting adds no edge and no callback. -/
theorem keepsApart_accept (builder : Builder K) (kind : K) :
    builder.build.KeepsApart (builder.accept kind).build := by
  refine .of_transitions_eq rfl fun id node hnode => ?_
  change (builder.nodes.modify builder.current _)[id]? = some node at hnode
  rw [List.getElem?_modify] at hnode
  obtain ⟨old, hold, rfl⟩ := Option.map_eq_some_iff.1 hnode
  refine Or.inr ⟨old, hold, ?_⟩
  split <;> rfl

/-- An edge to a new node keeps apart. -/
theorem IsWellFormed.keepsApart_move (hwell : builder.IsWellFormed) (check : CharClass)
    (guard : Option Guard) :
    builder.build.KeepsApart (builder.move check guard).build where
  edges id := by
    rw [hwell.transitionsFrom_move]
    exact List.prefix_append _ _
  apart id edge hedge htarget := by
    rw [hwell.transitionsFrom_move, List.drop_left, List.mem_ite_nil_right, List.mem_singleton]
      at hedge
    rw [hedge.2] at htarget
    exact absurd htarget (Nat.lt_irrefl _)
  callbacks id node hnode := by
    change (builder.nodes ++ [_])[id]? = some node at hnode
    rw [List.getElem?_append] at hnode
    split at hnode
    · exact Or.inr ⟨node, hnode, rfl⟩
    · exact Or.inl (Node.neverMiscuts_of_callback_eq_none
        (by rw [List.mem_singleton.1 (List.mem_of_getElem? hnode)]))

/-- Words that are followed keep apart, whether or not they share their
    beginnings with what is there. -/
theorem IsWellFormed.keepsApart_follow (hwell : builder.IsWellFormed) (c : Char) :
    builder.build.KeepsApart (builder.follow c).build := by
  rw [follow]
  cases builder.follow? c with
  | some target => exact .refl builder.build
  | none => exact hwell.keepsApart_move (.single c) none

/-- An instruction whose nodes and edges keep apart upholds it that nothing is
    cut where it cannot be. -/
theorem upholds_neverMiscuts {instruction : Instruction K}
    (hkeeps : ∀ builder changed, builder.IsWellFormed → instruction.apply builder = .ok changed →
      builder.build.KeepsApart changed.build) :
    instruction.Upholds fun builder => builder.IsWellFormed ∧ builder.build.NeverMiscuts := by
  rintro builder changed ⟨hwell, hnever⟩ happly
  exact ⟨.upholds instruction builder changed hwell happly,
    (hkeeps builder changed hwell happly).neverMiscuts hwell.length_eq hnever⟩

end Builder

end Automaton

end GrammarKit
