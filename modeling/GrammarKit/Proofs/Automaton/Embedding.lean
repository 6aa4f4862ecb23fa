import GrammarKit.Proofs.Automaton.Drawing
import GrammarKit.Proofs.Automaton.WellFormed

namespace GrammarKit.Automaton

variable {K : Type}

namespace Builder

/-- The target of an unguarded edge from this node for exactly this character. -/
def followFrom? (builder : Builder K) (id : Nat) (c : Char) : Option Nat :=
  ((builder.build.transitionsFrom id).find? fun edge => edge.check =
    .single c && edge.guard.isNone).map Transition.target

/-- The builder looks for the edge at the node on which it stands. -/
theorem follow?_eq (builder : Builder K) (c : Char) :
    builder.follow? c = builder.followFrom? builder.current c := rfl

/-- Whether one builder has the edges and the end nodes of another, as far as
    words are followed. A builder keeps them whatever is done to it, and words
    that are followed in both lead to nodes that belong together. -/
structure Embeds (place : Nat → Nat) (few more : Builder K) : Prop where
  start : place startNode = startNode
  follow : ∀ id c target, few.followFrom? id c = some target →
    more.followFrom? (place id) c = some (place target)
  isEnd : ∀ id, few.build.isEnd id = true → more.build.isEnd (place id) = true

namespace IsWellFormed

variable {builder : Builder K} (hwell : builder.IsWellFormed)

include hwell

/-- Edges that were found are found again. -/
theorem followFrom?_moveToNode {check : CharClass} {target id found : Nat} {c : Char}
    (hfound : builder.followFrom? id c = some found) :
    (builder.moveToNode check target).followFrom? id c = some found := by
  rw [followFrom?, Option.map_eq_some_iff] at hfound ⊢
  obtain ⟨edge, hedge, htarget⟩ := hfound
  exact ⟨edge, by rw [hwell.transitionsFrom_moveToNode, List.find?_append, hedge]; rfl, htarget⟩

/-- A new edge is found where there was none. -/
theorem followFrom?_move (check : CharClass) (guard : Option Guard) (id : Nat) (c : Char) :
    (builder.move check guard).followFrom? id c = (builder.followFrom? id c).or
      (if builder.current = id ∧ check = .single c ∧ guard.isNone then some builder.nodes.length
        else none) := by
  rw [followFrom?, hwell.transitionsFrom_move, List.find?_append, Option.map_or]
  refine congrArg _ ?_
  by_cases hcurrent : builder.current = id
  · by_cases hcheck : check = .single c ∧ guard.isNone = true
    · simp [hcurrent, hcheck]
    · simp [hcurrent]
  · simp [hcurrent]

/-- The edge along which a character is followed is there afterwards. -/
theorem followFrom?_follow (c : Char) :
    (builder.follow c).followFrom? builder.current c = some (builder.follow c).current := by
  rw [Builder.follow]
  cases hfollow : builder.follow? c with
  | some target => exact hfollow
  | none =>
    dsimp only
    rw [hwell.followFrom?_move, ← follow?_eq, hfollow]
    simp [Builder.move]

/-- Edges that are found start at nodes and lead to nodes. -/
theorem followFrom?_lt {id target : Nat} {c : Char}
    (hfollow : builder.followFrom? id c = some target) :
    id < builder.nodes.length ∧ target < builder.nodes.length := by
  obtain ⟨edge, hedge, rfl⟩ := Option.map_eq_some_iff.1 hfollow
  have hmem := List.mem_of_find?_eq_some hedge
  refine ⟨?_, hwell.target_lt id edge hmem⟩
  by_contra hpast
  have hnone : builder.transitions[id]? = none := by
    have hlength := hwell.length_eq
    exact List.getElem?_eq_none (hlength ▸ Nat.le_of_not_lt hpast)
  rw [transitionsFrom, build, hnone] at hmem
  cases hmem

theorem isEnd_accept (kind : K) : (builder.accept kind).build.isEnd builder.current = true := by
  have hnode := List.getElem?_eq_getElem hwell.current_lt
  rw [Automaton.isEnd, Automaton.node?, build, Builder.accept, Builder.modifyCurrent,
    List.getElem?_modify_eq, hnode]
  rfl

end IsWellFormed

theorem lt_of_isEnd {builder : Builder K} {id : Nat} (hend : builder.build.isEnd id = true) :
    id < builder.nodes.length := by
  obtain ⟨node, hnode, -⟩ := (Option.any_eq_true _ _).1 hend
  exact (List.getElem?_eq_some_iff.1 hnode).1

theorem isEnd_move {builder : Builder K} {check : CharClass} {guard : Option Guard} {id : Nat} :
    (builder.move check guard).build.isEnd id = builder.build.isEnd id := by
  rw [Automaton.isEnd, Automaton.isEnd, Automaton.node?, Automaton.node?, build, build,
    Builder.move, List.getElem?_append]
  split
  · rfl
  · next hpast =>
    rw [List.getElem?_eq_none (Nat.le_of_not_lt hpast)]
    cases id - _ <;> rfl

/-- End nodes remain so if the change keeps them. -/
theorem isEnd_modifyCurrent {builder : Builder K} {change : Node K → Node K}
    (hchange : ∀ node, node.isEnd = true → (change node).isEnd = true) {id : Nat}
    (hend : builder.build.isEnd id = true) :
    (builder.modifyCurrent change).build.isEnd id = true := by
  obtain ⟨node, hnode, hend⟩ := (Option.any_eq_true _ _).1 hend
  have hmodified : (builder.modifyCurrent change).build.node? id =
      some (if builder.current = id then change node else node) := by
    rw [Automaton.node?, build, modifyCurrent, List.getElem?_modify, show builder.nodes[id]? =
      some node from hnode]
    split <;> rfl
  rw [Automaton.isEnd, hmodified, Option.any_some]
  split
  · exact hchange node hend
  · exact hend

namespace Embeds

variable {place : Nat → Nat} {few more changed : Builder K}

theorem refl (builder : Builder K) : Embeds id builder builder :=
  ⟨rfl, fun _ _ _ htarget => htarget, fun _ hend => hend⟩

/-- What is done to the larger builder does not matter as long as it keeps edges
    and end nodes. -/
theorem mono (hembeds : Embeds place few more)
    (hfollow : ∀ id c target, more.followFrom? id c = some target →
      changed.followFrom? id c = some target)
    (hend : ∀ id, more.build.isEnd id = true → changed.build.isEnd id = true) :
    Embeds place few changed where
  start := hembeds.start
  follow id c target htarget := hfollow _ _ _ (hembeds.follow id c target htarget)
  isEnd id hid := hend _ (hembeds.isEnd id hid)

theorem modifyCurrent (hembeds : Embeds place few more) {change : Node K → Node K}
    (hchange : ∀ node, node.isEnd = true → (change node).isEnd = true) :
    Embeds place few (more.modifyCurrent change) :=
  hembeds.mono (fun _ _ _ htarget => htarget) fun _ => isEnd_modifyCurrent hchange

theorem move (hembeds : Embeds place few more) (hmore : more.IsWellFormed) (check : CharClass)
    (guard : Option Guard) :
    Embeds place few (more.move check guard) := by
  refine hembeds.mono (fun id c target htarget => ?_) fun id hend => ?_
  · rw [hmore.followFrom?_move, htarget]
    rfl
  · rwa [isEnd_move]

theorem chain (hembeds : Embeds place few more) (hmore : more.IsWellFormed) (count : Nat)
    (check : CharClass) :
    Embeds place few (more.chain count check) := by
  induction count generalizing more with
  | zero => exact hembeds
  | succ count ih => exact ih (hembeds.move hmore check none) (hmore.move check none)

/-- Whatever succeeds on a builder, it goes on to contain what it contained. -/
theorem upholds (place : Nat → Nat) (few : Builder K) (instruction : Instruction K) :
    instruction.Upholds fun more => more.IsWellFormed ∧ Embeds place few more := by
  rintro more changed ⟨hmore, hembeds⟩ happly
  refine ⟨IsWellFormed.upholds instruction more changed hmore happly, ?_⟩
  cases instruction with
  | moveTo check name =>
    obtain ⟨id, rfl⟩ := exists_of_resolve happly
    exact hembeds.mono (fun _ _ _ htarget => hmore.followFrom?_moveToNode htarget)
      fun _ hend => hend
  | goto name =>
    obtain ⟨id, rfl⟩ := exists_of_resolve happly
    exact { hembeds with }
  | follow c =>
    obtain rfl := Except.ok.inj happly
    rw [Builder.follow]
    split
    · exact { hembeds with }
    · exact hembeds.move hmore _ _
  | gotoNode id =>
    obtain rfl := Except.ok.inj happly
    rw [Builder.gotoNode]
    split
    · exact { hembeds with }
    · exact hembeds
  | move check guard =>
    obtain rfl := Except.ok.inj happly
    exact hembeds.move hmore check guard
  | chain count check =>
    obtain rfl := Except.ok.inj happly
    exact hembeds.chain hmore count check
  | mark name =>
    obtain rfl := Except.ok.inj happly
    have hnamed : Embeds place few (more.modifyCurrent fun node =>
        { node with mark := some name }) :=
      hembeds.modifyCurrent fun _ hend => hend
    exact { hnamed with }
  | callback change =>
    obtain rfl := Except.ok.inj happly
    exact hembeds.modifyCurrent fun _ hend => hend
  | accept kind =>
    obtain rfl := Except.ok.inj happly
    exact hembeds.modifyCurrent fun _ _ => rfl
  | ignoreWhitespace | whitespace | ignoreEol =>
    obtain rfl := Except.ok.inj happly
    exact { hembeds with }

/-- A new node of the smaller builder goes to the node that the larger one has for it. -/
theorem grow (hembeds : Embeds place few more) (hfew : few.IsWellFormed) {c : Char} {reached : Nat}
    (hreached : more.followFrom? (place few.current) c = some reached) :
    Embeds (Function.update place few.nodes.length reached) (few.move (.single c) none) more := by
  have hplace {id : Nat} (hid : id < few.nodes.length) :
      Function.update place few.nodes.length reached id = place id :=
    Function.update_of_ne (Nat.ne_of_lt hid) _ _
  refine ⟨(hplace hfew.start_lt).trans hembeds.start, fun id d target htarget => ?_,
    fun id hend => ?_⟩
  · rw [hfew.followFrom?_move] at htarget
    cases hold : few.followFrom? id d with
    | some found =>
      rw [hold] at htarget
      obtain rfl := Option.some.inj htarget
      obtain ⟨hid, hfound⟩ := hfew.followFrom?_lt hold
      rw [hplace hid, hplace hfound]
      exact hembeds.follow _ _ _ hold
    | none =>
      rw [hold, Option.none_or, Option.ite_none_right_eq_some] at htarget
      obtain ⟨⟨rfl, hsame, -⟩, hnew⟩ := htarget
      obtain rfl := CharClass.single.inj hsame
      obtain rfl := Option.some.inj hnew
      rw [hplace hfew.current_lt, Function.update_self]
      exact hreached
  · rw [isEnd_move] at hend
    rw [hplace (lt_of_isEnd hend)]
    exact hembeds.isEnd id hend

/-- A character that is followed in both leads to nodes that belong together. -/
theorem follow_both (hembeds : Embeds place few more) (hfew : few.IsWellFormed)
    (hmore : more.IsWellFormed) (hcurrent : more.current = place few.current) (c : Char) :
    ∃ place', Embeds place' (few.follow c) (more.follow c) ∧
      (more.follow c).current = place' (few.follow c).current := by
  cases hfollow : few.follow? c with
  | some target =>
    have hmoved : more.follow c = { more with current := place target } := by
      rw [Builder.follow, follow?_eq, hcurrent, hembeds.follow _ _ _ hfollow]
    have hstood : few.follow c = { few with current := target } := by rw [Builder.follow, hfollow]
    rw [hmoved, hstood]
    exact ⟨place, { hembeds with }, rfl⟩
  | none =>
    have hgrown : few.follow c = few.move (.single c) none := by rw [Builder.follow, hfollow]
    have hlarger := (Embeds.upholds place few (.follow c) more _ ⟨hmore, hembeds⟩ rfl).2
    have hreached := hmore.followFrom?_follow c
    rw [hcurrent] at hreached
    rw [hgrown]
    exact ⟨_, hlarger.grow hfew hreached,
      (Function.update_self few.nodes.length (more.follow c).current place).symm⟩

/-- A word leads to nodes that belong together. -/
theorem followAll (hembeds : Embeds place few more) (hfew : few.IsWellFormed)
    (hmore : more.IsWellFormed) (hcurrent : more.current = place few.current) (word : List Char) :
    ∃ place', Embeds place' (few.followAll word) (more.followAll word) ∧
      (more.followAll word).current = place' (few.followAll word).current := by
  induction word generalizing place few more with
  | nil => exact ⟨place, hembeds, hcurrent⟩
  | cons c word ih =>
    obtain ⟨next, hnext, hreached⟩ := hembeds.follow_both hfew hmore hcurrent c
    exact ih hnext (IsWellFormed.upholds (.follow c) few _ hfew rfl)
      (IsWellFormed.upholds (.follow c) more _ hmore rfl) hreached

/-- Tokens may end in both nodes, of whatever kinds. -/
theorem accept_both (hembeds : Embeds place few more) (hmore : more.IsWellFormed)
    (hcurrent : more.current = place few.current) (kind other : K) :
    Embeds place (few.accept kind) (more.accept other) where
  start := hembeds.start
  follow := hembeds.follow
  isEnd id hend := by
    by_cases hid : id = few.current
    · rw [hid, ← hcurrent]
      exact hmore.isEnd_accept other
    · refine isEnd_modifyCurrent (fun _ _ => rfl) (hembeds.isEnd id ?_)
      rw [Automaton.isEnd, Automaton.node?, build, accept, Builder.modifyCurrent,
        List.getElem?_modify_ne _ _ (Ne.symm hid)]
        at hend
      exact hend

end Embeds

end Builder

namespace Shows

variable {S : Type} [DecidableEq S] {few more : Builder K} {smaller larger : Drawing S K}

/-- Characters are followed from a node as they are from its name. -/
theorem sameNode_followFrom? (hshows : Shows few smaller) {id : Nat} {name : S}
    (hid : smaller.names[id]? = some name) (c : Char) :
    SameNode smaller.names (few.followFrom? id c) (smaller.follow? name c) := by
  refine hshows.sameNode_find? hid fun edge arrow hdrawn => ?_
  rw [hdrawn.1, hdrawn.2.1]
  simp

theorem exists_name (hshows : Shows few smaller) {id : Nat} (hid : id < few.nodes.length) :
    ∃ name, smaller.names[id]? = some name :=
  ⟨_, List.getElem?_eq_getElem (hshows.length_nodes ▸ hid)⟩

/-- Nodes of the same name belong together. -/
theorem exists_embeds (hfew : Shows few smaller) (hmore : Shows more larger)
    (hwell : few.IsWellFormed) {start : S} (hstart : smaller.names[startNode]? = some start)
    (hsame : larger.names[startNode]? = some start)
    (hfollow : ∀ name c target, smaller.follow? name c = some target →
      larger.follow? name c = some target)
    (hkind : ∀ name, (smaller.kind? name).isSome = true → (larger.kind? name).isSome = true) :
    ∃ place, Builder.Embeds place few more := by
  have hplace {id : Nat} {name : S} (hid : smaller.names[id]? = some name)
      (hname : name ∈ larger.names) :
      larger.names[larger.names.idxOf (smaller.names[id]?.getD start)]? = some name := by
    rw [hid, Option.getD_some, List.getElem?_eq_getElem (List.idxOf_lt_length_of_mem hname),
      List.getElem_idxOf]
  refine ⟨fun id => larger.names.idxOf (smaller.names[id]?.getD start), ?_,
    fun id c target htarget => ?_, fun id hend => ?_⟩
  · exact hmore.eq_of_getElem? (hplace hstart (List.mem_of_getElem? hsame)) hsame
  · obtain ⟨name, hid⟩ := hfew.exists_name (hwell.followFrom?_lt htarget).1
    have hdrawn := hfew.sameNode_followFrom? hid c
    rw [htarget] at hdrawn
    generalize hnamed : smaller.follow? name c = named at hdrawn
    cases hdrawn with
    | @some _ reached hreached =>
      have harrow := hfollow name c reached hnamed
      have hmem := Drawing.mem_of_follow? harrow
      have hlarger := hmore.sameNode_followFrom? (hplace hid (hmore.source_mem _ hmem)) c
      rw [harrow] at hlarger
      generalize more.followFrom? _ c = found at hlarger ⊢
      cases hlarger with
      | @some other _ hother =>
        rw [hmore.eq_of_getElem? hother (hplace hreached (hmore.target_mem hmem))]
  · obtain ⟨name, hid⟩ := hfew.exists_name (Builder.lt_of_isEnd hend)
    rw [hfew.isEnd_eq hid] at hend
    have hlarger := hkind name hend
    have hname : name ∈ larger.names := by
      by_contra hnot
      rw [hmore.kind?_eq_none hnot] at hlarger
      cases hlarger
    rw [hmore.isEnd_eq (hplace hid hname), hlarger]

end Shows

end GrammarKit.Automaton
