import GrammarKit.Automaton.Run
import GrammarKit.Proofs.Lexer.Upheld

namespace GrammarKit.Automaton

variable {K : Type}

/-- Whether each node has its list of edges, each edge leads from the node in
    whose list it stands to an existing one, and a kind of token is found in end
    nodes and only there. A scan then looks nothing up in vain. Every automaton
    that a builder puts together is so, whatever was done to the builder and
    however much of it failed. -/
structure IsWellFormed (automaton : Automaton K) : Prop where
  length_eq : automaton.transitions.length = automaton.nodes.length
  start_lt : startNode < automaton.nodes.length
  id_eq : ∀ id node, automaton.node? id = some node → node.id = id
  source_eq : ∀ id, ∀ edge ∈ automaton.transitionsFrom id, edge.source = id
  target_lt : ∀ id, ∀ edge ∈ automaton.transitionsFrom id, edge.target < automaton.nodes.length
  isEnd_iff : ∀ node ∈ automaton.nodes, node.isEnd = true ↔ node.kind.isSome = true

/-- What a scan can look for in vain. -/
inductive Missing where
  | node (id : Nat)
  | kind (id : Nat)

/-- Walks as `walk` does, but stops where an edge leads to a node that does not exist. -/
def walkChecked (automaton : Automaton K) (node : Nat) (reversed : List Char) (best : Option Match)
    (position : Position) : List Char → Except Missing (Option Match × Place)
  | [] => .ok (best, ⟨position, []⟩)
  | c :: rest =>
    match automaton.next? node reversed.reverse c with
    | none => .ok (best, ⟨position, c :: rest⟩)
    | some target =>
      match automaton.node? target with
      | none => .error (.node target)
      | some reached =>
        let passed := position.advance c
        let best := if reached.isEnd then some ⟨target, c :: reversed, passed, rest⟩ else best
        walkChecked automaton target (c :: reversed) best passed rest

/-- The token of a match, unless its callback rejects it. The node of the match
    and its kind have to be there. -/
def acceptChecked (automaton : Automaton K) (start : Place) (found : Match) :
    Except Missing (Except Miscut (Option (Token K))) :=
  match automaton.node? found.node with
  | none => .error (.node found.node)
  | some node =>
    match node.kind with
    | none => .error (.kind found.node)
    | some kind =>
      .ok (node.finish (.ofSpan kind (String.ofList found.reversed.reverse) start.position))

/-- Scans as `run` does, but stops at the first thing that is missing. -/
def runChecked (automaton : Automaton K) (place : Place) : Except Missing (Outcome K × Place) := do
  let start := automaton.skipIgnored place.position place.rest
  if start.rest.isEmpty then return (.endOfStream start.position, start)
  match ← automaton.walkChecked startNode [] none start.position start.rest with
  | (none, stop) => return (failureAfter start stop, start)
  | (some found, _) =>
    match ← automaton.acceptChecked start found with
    | .ok (some token) => return (.success token found.node found.reversed.reverse, found.after)
    | .ok none => return (failureAt start, start)
    | .error cause => return (.miscut cause, start)

namespace IsWellFormed

variable {automaton : Automaton K} (hwell : automaton.IsWellFormed)

include hwell

/-- Edges lead to existing nodes. -/
theorem next?_lt {node target : Nat} {before : List Char} {c : Char}
    (hnext : automaton.next? node before c = some target) :
    target < automaton.nodes.length := by
  obtain ⟨edge, hfind, rfl⟩ := Option.map_eq_some_iff.1 hnext
  exact hwell.target_lt node edge (List.mem_of_find?_eq_some hfind)

/-- A walk finds all nodes that it passes, and it stops in an end node. -/
theorem walkChecked_eq (node : Nat) (reversed : List Char) (best : Option Match)
    (hbest : ∀ found ∈ best, automaton.isEnd found.node = true) (position : Position)
    (text : List Char) :
    automaton.walkChecked node reversed best position text =
      .ok (automaton.walk node reversed best position text) ∧
      ∀ found ∈ (automaton.walk node reversed best position text).1,
        automaton.isEnd found.node = true := by
  induction text generalizing node reversed best position with
  | nil => exact ⟨rfl, hbest⟩
  | cons c text ih =>
    rw [walkChecked, walk]
    cases hnext : automaton.next? node reversed.reverse c with
    | none => exact ⟨rfl, hbest⟩
    | some target =>
      obtain ⟨reached, hreached⟩ : ∃ reached, automaton.node? target = some reached :=
        ⟨_, List.getElem?_eq_getElem (hwell.next?_lt hnext)⟩
      have hend : automaton.isEnd target = reached.isEnd := by rw [isEnd, hreached, Option.any_some]
      dsimp only
      rw [hreached, hend]
      refine ih target (c :: reversed) _ (fun found hfound => ?_) (position.advance c)
      split at hfound
      · next hreachedEnd =>
        obtain rfl := Option.some.inj hfound
        exact hend.trans hreachedEnd
      · exact hbest found hfound

/-- The node of a match and its kind are found. -/
theorem acceptChecked_eq (start : Place) {found : Match}
    (hend : automaton.isEnd found.node = true) :
    automaton.acceptChecked start found = .ok (automaton.accept start found) := by
  rw [isEnd, Option.any_eq_true] at hend
  obtain ⟨node, hnode, hend⟩ := hend
  obtain ⟨kind, hkind⟩ := Option.isSome_iff_exists.1
    ((hwell.isEnd_iff node (List.mem_of_getElem? hnode)).1 hend)
  simp only [acceptChecked, accept, hnode, hkind]

/-- A scan misses nothing. -/
theorem runChecked_eq (place : Place) : automaton.runChecked place = .ok (automaton.run place) := by
  rw [runChecked, run]
  generalize automaton.skipIgnored place.position place.rest = start
  split
  · rfl
  · obtain ⟨hwalk, hends⟩ := hwell.walkChecked_eq startNode [] none (fun _ hnone => by cases hnone)
      start.position start.rest
    rw [hwalk]
    generalize automaton.walk startNode [] none start.position start.rest = walked at hends
    obtain ⟨best, stop⟩ := walked
    cases best with
    | none => rfl
    | some found =>
      change (automaton.acceptChecked start found >>= _) = _
      rw [hwell.acceptChecked_eq start (hends found rfl)]
      dsimp only
      rcases automaton.accept start found with cause | _ | token <;> rfl

end IsWellFormed

namespace Builder

/-- Whether a builder stands on a node of a well-formed automaton and its marks
    name such nodes. -/
structure IsWellFormed (builder : Builder K) : Prop extends builder.build.IsWellFormed where
  current_lt : builder.current < builder.nodes.length
  marks_lt : ∀ entry ∈ builder.marks, entry.2 < builder.nodes.length

/-- A new builder is well formed. -/
theorem isWellFormed_new : (new : Builder K).IsWellFormed where
  length_eq := rfl
  start_lt := Nat.one_pos
  id_eq id node hnode := by
    cases id with
    | zero =>
      obtain rfl := Option.some.inj hnode
      rfl
    | succ id => cases hnode
  source_eq id edge hedge := by cases id <;> cases hedge
  target_lt id edge hedge := by cases id <;> cases hedge
  isEnd_iff node hnode := by
    obtain rfl := List.mem_singleton.1 hnode
    exact Iff.rfl
  current_lt := Nat.one_pos
  marks_lt entry hentry := by
    obtain rfl := List.mem_singleton.1 hentry
    exact Nat.one_pos

namespace IsWellFormed

variable {builder : Builder K}

/-- A builder may stand on any node. -/
theorem goto (hwell : builder.IsWellFormed) {id : Nat} (hid : id < builder.nodes.length) :
    ({ builder with current := id } : Builder K).IsWellFormed :=
  { hwell with current_lt := hid }

/-- What is ignored does not matter. -/
theorem setBlanks (hwell : builder.IsWellFormed) (blanks : Blanks) :
    ({ builder with blanks := blanks } : Builder K).IsWellFormed :=
  { hwell with }

/-- A node may be edited as long as it keeps its number and gets a kind when it
    becomes an end node. -/
theorem modifyCurrent (hwell : builder.IsWellFormed) {change : Node K → Node K}
    (hid : ∀ node, (change node).id = node.id)
    (hend : ∀ node, (node.isEnd = true ↔ node.kind.isSome = true) →
      ((change node).isEnd = true ↔ (change node).kind.isSome = true)) :
    (builder.modifyCurrent change).IsWellFormed where
  length_eq := by
    have hlength := hwell.length_eq
    simpa [Builder.modifyCurrent, build] using hlength
  start_lt := by
    have hstart := hwell.start_lt
    simpa [Builder.modifyCurrent, build] using hstart
  id_eq id node hnode := by
    change (builder.nodes.modify builder.current change)[id]? = some node at hnode
    rw [List.getElem?_modify] at hnode
    obtain ⟨old, hold, rfl⟩ := Option.map_eq_some_iff.1 hnode
    have holdId := hwell.id_eq id old hold
    split
    · exact (hid old).trans holdId
    · exact holdId
  source_eq := hwell.source_eq
  target_lt id edge hedge := by
    have htarget := hwell.target_lt id edge hedge
    simpa [Builder.modifyCurrent, build] using htarget
  isEnd_iff node hnode := by
    obtain ⟨id, hget⟩ := List.mem_iff_getElem?.1 hnode
    rw [build, Builder.modifyCurrent, List.getElem?_modify] at hget
    obtain ⟨old, hold, rfl⟩ := Option.map_eq_some_iff.1 hget
    have holdEnd := hwell.isEnd_iff old (List.mem_of_getElem? hold)
    split
    · exact hend old holdEnd
    · exact holdEnd
  current_lt := by
    have hcurrent := hwell.current_lt
    simpa [Builder.modifyCurrent] using hcurrent
  marks_lt entry hentry := by
    have hmark := hwell.marks_lt entry hentry
    simpa [Builder.modifyCurrent] using hmark

theorem mark (hwell : builder.IsWellFormed) (name : String) : (builder.mark name).IsWellFormed := by
  have hnamed : (builder.modifyCurrent fun node => { node with mark := some name }).IsWellFormed :=
    hwell.modifyCurrent (fun _ => rfl) fun _ hend => hend
  refine { hnamed with marks_lt := fun entry hentry => ?_ }
  rcases List.mem_cons.1 hentry with rfl | hentry
  · exact hnamed.current_lt
  · exact hnamed.marks_lt entry hentry

theorem accept (hwell : builder.IsWellFormed) (kind : K) : (builder.accept kind).IsWellFormed :=
  hwell.modifyCurrent (fun _ => rfl) fun _ _ => ⟨fun _ => rfl, fun _ => rfl⟩

theorem callback (hwell : builder.IsWellFormed) (change : Callback K) :
    (builder.callback change).IsWellFormed :=
  hwell.modifyCurrent (fun _ => rfl) fun _ hend => hend

section Edges

variable (hwell : builder.IsWellFormed)

include hwell

/-- The current node has a list of edges. -/
theorem getElem?_current : ∃ edges, builder.transitions[builder.current]? = some edges :=
  ⟨_, List.getElem?_eq_getElem (hwell.length_eq ▸ hwell.current_lt)⟩

/-- The edges of a node after an edge was added to the current one. -/
theorem getD_addEdge (added : Transition) (id : Nat) :
    (builder.transitions.modify builder.current fun edges => edges ++ [added])[id]?.getD [] =
      builder.build.transitionsFrom id ++ if builder.current = id then [added] else [] := by
  rw [List.getElem?_modify, transitionsFrom, build]
  by_cases hcurrent : builder.current = id
  · subst hcurrent
    obtain ⟨edges, hedges⟩ := hwell.getElem?_current
    simp [hedges]
  · simp [hcurrent]

/-- An edge to an existing node comes last among those of the current one. -/
theorem transitionsFrom_moveToNode (check : CharClass) (target id : Nat) :
    (builder.moveToNode check target).build.transitionsFrom id = builder.build.transitionsFrom id ++
      if builder.current = id then [{ source := builder.current, target, check }] else [] :=
  hwell.getD_addEdge _ id

/-- An edge to a new node comes last among those of the current one. -/
theorem transitionsFrom_move (check : CharClass) (guard : Option Guard) (id : Nat) :
    (builder.move check guard).build.transitionsFrom id = builder.build.transitionsFrom id ++
      if builder.current = id then
        [{ source := builder.current, target := builder.nodes.length, check, guard }] else [] := by
  rw [← hwell.getD_addEdge, transitionsFrom, build, Builder.move, List.getElem?_append]
  split
  · rfl
  · next hpast =>
    rw [List.getElem?_eq_none (Nat.le_of_not_lt hpast)]
    cases id - _ <;> rfl

/-- The edges of a node are those that it had and the one that was added, if any. -/
theorem mem_transitionsFrom_moveToNode {check : CharClass} {target id : Nat} {edge : Transition}
    (hedge : edge ∈ (builder.moveToNode check target).build.transitionsFrom id) :
    edge ∈ builder.build.transitionsFrom id ∨
      id = builder.current ∧ edge = { source := builder.current, target, check } := by
  rw [hwell.transitionsFrom_moveToNode, List.mem_append, List.mem_ite_nil_right, List.mem_singleton]
    at hedge
  exact hedge.imp_right fun hadded => ⟨hadded.1.symm, hadded.2⟩

/-- The edges of a node are those that it had and the one to a new node. -/
theorem mem_transitionsFrom_move {check : CharClass} {guard : Option Guard} {id : Nat}
    {edge : Transition} (hedge : edge ∈ (builder.move check guard).build.transitionsFrom id) :
    edge ∈ builder.build.transitionsFrom id ∨
      id = builder.current ∧
        edge = { source := builder.current, target := builder.nodes.length, check, guard } := by
  rw [hwell.transitionsFrom_move, List.mem_append, List.mem_ite_nil_right, List.mem_singleton]
    at hedge
  exact hedge.imp_right fun hadded => ⟨hadded.1.symm, hadded.2⟩

end Edges

/-- An edge to an existing node spoils nothing. -/
theorem moveToNode (hwell : builder.IsWellFormed) (check : CharClass) {target : Nat}
    (htarget : target < builder.nodes.length) : (builder.moveToNode check target).IsWellFormed where
  length_eq := by
    rw [build, Builder.moveToNode, List.length_modify]
    exact hwell.length_eq
  start_lt := hwell.start_lt
  id_eq := hwell.id_eq
  source_eq id edge hedge := by
    rcases hwell.mem_transitionsFrom_moveToNode hedge with hedge | ⟨rfl, rfl⟩
    · exact hwell.source_eq id edge hedge
    · rfl
  target_lt id edge hedge := by
    rcases hwell.mem_transitionsFrom_moveToNode hedge with hedge | ⟨-, rfl⟩
    · exact hwell.target_lt id edge hedge
    · exact htarget
  isEnd_iff := hwell.isEnd_iff
  current_lt := htarget
  marks_lt := hwell.marks_lt

/-- An edge to a new node spoils nothing. -/
theorem move (hwell : builder.IsWellFormed) (check : CharClass) (guard : Option Guard) :
    (builder.move check guard).IsWellFormed := by
  have hnodes : (builder.move check guard).nodes.length = builder.nodes.length + 1 :=
    List.length_append
  refine
    { length_eq := ?_, start_lt := ?_, id_eq := fun id node hnode => ?_
      source_eq := fun id edge hedge => ?_
      target_lt := fun id edge hedge => ?_, isEnd_iff := fun node hnode => ?_, current_lt := ?_
      marks_lt := fun entry hentry => ?_ }
  · have hlength := hwell.length_eq
    simpa [build, Builder.move] using hlength
  · exact Nat.lt_of_lt_of_eq (Nat.succ_pos _) hnodes.symm
  · change (builder.nodes ++ [_])[id]? = some node at hnode
    by_cases hid : id < builder.nodes.length
    · rw [List.getElem?_append_left hid] at hnode
      exact hwell.id_eq id node hnode
    · rw [List.getElem?_append_right (by omega), List.getElem?_singleton] at hnode
      split at hnode
      · obtain rfl := Option.some.inj hnode
        change builder.nodes.length = id
        omega
      · cases hnode
  · rcases hwell.mem_transitionsFrom_move hedge with hedge | ⟨rfl, rfl⟩
    · exact hwell.source_eq id edge hedge
    · rfl
  · change edge.target < (builder.move check guard).nodes.length
    rw [hnodes]
    rcases hwell.mem_transitionsFrom_move hedge with hedge | ⟨-, rfl⟩
    · exact Nat.lt_succ_of_lt (hwell.target_lt id edge hedge)
    · exact Nat.lt_succ_self _
  · rcases List.mem_append.1 hnode with hnode | hnode
    · exact hwell.isEnd_iff node hnode
    · obtain rfl := List.mem_singleton.1 hnode
      exact Iff.rfl
  · rw [hnodes]
    exact Nat.lt_succ_self _
  · rw [hnodes]
    exact Nat.lt_succ_of_lt (hwell.marks_lt entry hentry)

/-- A chain of edges spoils nothing. -/
theorem chain (hwell : builder.IsWellFormed) (count : Nat) (check : CharClass) :
    (builder.chain count check).IsWellFormed := by
  induction count generalizing builder with
  | zero => exact hwell
  | succ count ih => exact ih (hwell.move check none)

/-- Marks name existing nodes. -/
theorem nodeId?_lt (hwell : builder.IsWellFormed) {name : String} {id : Nat}
    (hid : builder.nodeId? name = some id) :
    id < builder.nodes.length := by
  obtain ⟨entry, hfind, rfl⟩ := Option.map_eq_some_iff.1 hid
  exact hwell.marks_lt entry (List.mem_of_find?_eq_some hfind)

/-- Characters that are followed lead to existing nodes. -/
theorem follow?_lt (hwell : builder.IsWellFormed) {c : Char} {target : Nat}
    (hfollow : builder.follow? c = some target) :
    target < builder.nodes.length := by
  obtain ⟨edge, hfind, rfl⟩ := Option.map_eq_some_iff.1 hfollow
  exact hwell.target_lt builder.current edge (List.mem_of_find?_eq_some hfind)

/-- What refers to a mark goes on with an existing node. -/
theorem exists_lt_of_resolve (hwell : builder.IsWellFormed) {name : String}
    {change : Nat → Builder K} {changed : Builder K}
    (hok : (builder.resolve name).map change = .ok changed) :
    ∃ id, id < builder.nodes.length ∧ changed = change id := by
  rw [Builder.resolve] at hok
  cases hid : builder.nodeId? name with
  | none =>
    rw [hid] at hok
    cases hok
  | some id =>
    rw [hid] at hok
    exact ⟨id, hwell.nodeId?_lt hid, (Except.ok.inj hok).symm⟩

/-- No instruction that succeeds spoils a builder. -/
theorem upholds (instruction : Instruction K) : instruction.Upholds IsWellFormed := by
  intro builder changed hwell happly
  cases instruction with
  | moveTo check name =>
    obtain ⟨target, htarget, rfl⟩ := hwell.exists_lt_of_resolve happly
    exact hwell.moveToNode check htarget
  | goto name =>
    obtain ⟨id, hid, rfl⟩ := hwell.exists_lt_of_resolve happly
    exact hwell.goto hid
  | follow c =>
    obtain rfl := Except.ok.inj happly
    rw [Builder.follow]
    cases hfollow : builder.follow? c with
    | some target => exact hwell.goto (hwell.follow?_lt hfollow)
    | none => exact hwell.move (.single c) none
  | gotoNode id =>
    obtain rfl := Except.ok.inj happly
    rw [Builder.gotoNode]
    split
    · next hid => exact hwell.goto hid
    · exact hwell
  | move check guard =>
    obtain rfl := Except.ok.inj happly
    exact hwell.move check guard
  | chain count check =>
    obtain rfl := Except.ok.inj happly
    exact hwell.chain count check
  | mark name =>
    obtain rfl := Except.ok.inj happly
    exact hwell.mark name
  | accept kind =>
    obtain rfl := Except.ok.inj happly
    exact hwell.accept kind
  | callback change =>
    obtain rfl := Except.ok.inj happly
    exact hwell.callback change
  | ignoreWhitespace | whitespace | ignoreEol =>
    obtain rfl := Except.ok.inj happly
    exact hwell.setBlanks _

end IsWellFormed

end Builder

/-- A change made to a builder in place. It can fail, and then what it changed
    before stays changed. -/
abbrev Building (K α : Type) := ExceptT UnknownMark (StateM (Builder K)) α

namespace Building

/-- The node with this mark. -/
def resolve (name : String) : Building K Nat := do
  match (← get).nodeId? name with
  | some id => return id
  | none => throw ⟨name⟩

/-- Stands on a node. -/
def stand (id : Nat) : Building K Unit :=
  modify fun builder => { builder with current := id }

/-- Adds a node without edges. -/
def addNode : Building K Nat := do
  let id := (← get).nodes.length
  modify fun builder => { builder with nodes := builder.nodes ++ [{ id }] }
  modify fun builder => { builder with transitions := builder.transitions ++ [[]] }
  return id

/-- Adds an edge from the current node, and stands where it leads. -/
def addEdge (check : CharClass) (guard : Option Guard) (target : Nat) : Building K Unit := do
  modify fun builder =>
    { builder with
      transitions := builder.transitions.modify builder.current fun edges =>
        edges ++ [{ source := builder.current, target, check, guard }] }
  stand target

/-- Adds edges to new nodes, one after the other. -/
def addEdges (check : CharClass) (guard : Option Guard) : Nat → Building K Unit
  | 0 => return
  | count + 1 => do
    addEdge check guard (← addNode)
    addEdges check guard count

end Building

/-- Carries an instruction out on a builder in place, one field after the other. -/
def Instruction.perform : Instruction K → Building K Unit
  | move check guard => Building.addEdges check guard 1
  | moveTo check name => do Building.addEdge check none (← Building.resolve name)
  | follow c => do
    match (← get).follow? c with
    | some target => Building.stand target
    | none => Building.addEdges (.single c) none 1
  | chain count check => Building.addEdges check none count
  | mark name => do
    modify fun builder => builder.modifyCurrent fun node => { node with mark := some name }
    modify fun builder => { builder with marks := (name, builder.current) :: builder.marks }
  | goto name => do Building.stand (← Building.resolve name)
  | gotoNode id => modify fun builder => builder.gotoNode id
  | accept kind => do
    modify fun builder => builder.modifyCurrent fun node => { node with isEnd := true }
    modify fun builder => builder.modifyCurrent fun node => { node with kind := some kind }
  | callback change => modify fun builder => builder.callback change
  | ignoreWhitespace ignore =>
    modify fun builder =>
      { builder with blanks := { builder.blanks with ignoreWhitespace := ignore } }
  | whitespace chars => modify fun builder =>
    { builder with blanks := { builder.blanks with whitespace := chars } }
  | ignoreEol ignore => modify fun builder =>
    { builder with blanks := { builder.blanks with ignoreEol := ignore } }

namespace Builder

/-- Carries instructions out in place and goes on after those that fail. -/
def performAll (builder : Builder K) (instructions : List (Instruction K)) : Builder K :=
  instructions.foldl (fun builder instruction => (instruction.perform.run.run builder).2) builder

theorem modify_append_of_lt {α : Type} {front back : List α} {i : Nat} (hi : i < front.length)
    (change : α → α) :
    (front ++ back).modify i change = front.modify i change ++ back := by
  induction front generalizing i with
  | nil => cases hi
  | cons first front ih =>
    cases i with
    | zero => rfl
    | succ i => exact congrArg (first :: ·) (ih (Nat.lt_of_succ_lt_succ hi))

/-- A mark is looked up before anything is changed. -/
theorem run_resolve_bind {α : Type} (builder : Builder K) (name : String)
    (next : Nat → Building K α) :
    (Building.resolve name >>= next).run.run builder =
      match builder.resolve name with
      | .ok id => (next id).run.run builder
      | .error error => (.error error, builder) := by
  rw [Building.resolve, Builder.resolve]
  change StateT.run (ExceptT.run ((match builder.nodeId? name with
    | some id => pure id
    | none => throw (UnknownMark.mk name) : Building K Nat) >>= next)) builder = _
  cases builder.nodeId? name <;> rfl

variable {builder : Builder K}

namespace IsWellFormed

/-- Edges to new nodes are added the same way in place, although there the node
    comes before its edge. -/
theorem run_addEdges (hwell : builder.IsWellFormed) (check : CharClass) (guard : Option Guard)
    (count : Nat) :
    (Building.addEdges check guard (count + 1)).run.run builder =
      (Building.addEdges check guard count).run.run (builder.move check guard) := by
  have hcurrent : builder.current < builder.transitions.length := hwell.length_eq ▸ hwell.current_lt
  have hrun : (Building.addEdges check guard (count + 1)).run.run builder =
      (Building.addEdges check guard count).run.run
        { builder with
          nodes := builder.nodes ++ [{ id := builder.nodes.length }]
          transitions := List.modify (builder.transitions ++ [[]]) builder.current fun edges =>
            edges ++ [{ source := builder.current, target := builder.nodes.length, check, guard }]
          current := builder.nodes.length } := rfl
  rw [hrun, modify_append_of_lt hcurrent]
  rfl

/-- Edges to new nodes in place make a chain. -/
theorem run_addEdges_chain (hwell : builder.IsWellFormed) (check : CharClass) (count : Nat) :
    (Building.addEdges check none count).run.run builder = (.ok (), builder.chain count check) := by
  induction count generalizing builder with
  | zero => rfl
  | succ count ih => rw [hwell.run_addEdges, ih (hwell.move check none), Builder.chain]

/-- Carrying an instruction out in place comes to the same, and one that fails
    has changed nothing when it does. -/
theorem run_perform (hwell : builder.IsWellFormed) (instruction : Instruction K) :
    instruction.perform.run.run builder =
      match instruction.apply builder with
      | .ok changed => (.ok (), changed)
      | .error error => (.error error, builder) := by
  cases instruction with
  | move check guard => exact hwell.run_addEdges check guard 0
  | chain count check => exact hwell.run_addEdges_chain check count
  | follow c =>
    rw [Instruction.apply, Builder.follow]
    change (match builder.follow? c with
      | some target => Building.stand target
      | none => Building.addEdges (.single c) none 1).run.run builder = _
    cases builder.follow? c with
    | some target => rfl
    | none => exact hwell.run_addEdges (.single c) none 0
  | moveTo check name =>
    refine (run_resolve_bind builder name (Building.addEdge check none)).trans ?_
    rw [Instruction.apply, Builder.moveTo]
    cases builder.resolve name <;> rfl
  | goto name =>
    refine (run_resolve_bind builder name Building.stand).trans ?_
    rw [Instruction.apply, Builder.goto]
    cases builder.resolve name <;> rfl
  | accept kind =>
    exact congrArg (fun nodes => (Except.ok (), ({ builder with nodes } : Builder K)))
      (List.modify_modify_eq _ _ _ _)
  | mark | gotoNode | callback | ignoreWhitespace | whitespace | ignoreEol => rfl

/-- Carrying an instruction out in place leaves the builder behind that a step does. -/
theorem run_perform_snd (hwell : builder.IsWellFormed) (instruction : Instruction K) :
    (instruction.perform.run.run builder).2 = builder.step instruction := by
  rw [hwell.run_perform, step]
  cases instruction.apply builder <;> rfl

/-- No instruction spoils a builder, whether or not it fails. -/
theorem step (hwell : builder.IsWellFormed) (instruction : Instruction K) :
    (builder.step instruction).IsWellFormed := by
  rw [Builder.step]
  cases happly : instruction.apply builder with
  | ok changed => exact IsWellFormed.upholds instruction builder changed hwell happly
  | error error => exact hwell

/-- However many instructions are carried out, and whichever of them fail, the
    builder stays well formed. -/
theorem performAll (hwell : builder.IsWellFormed) (instructions : List (Instruction K)) :
    (builder.performAll instructions).IsWellFormed := by
  induction instructions generalizing builder with
  | nil => exact hwell
  | cons instruction rest ih =>
    refine ih (?_ : (instruction.perform.run.run builder).2.IsWellFormed)
    rw [hwell.run_perform_snd]
    exact hwell.step instruction

/-- Carrying instructions out in place comes to the same as taking steps. -/
theorem performAll_eq (hwell : builder.IsWellFormed) (instructions : List (Instruction K)) :
    builder.performAll instructions = instructions.foldl Builder.step builder := by
  induction instructions generalizing builder with
  | nil => rfl
  | cons instruction rest ih =>
    rw [List.foldl_cons, ← ih (hwell.step instruction), ← hwell.run_perform_snd]
    rfl

end IsWellFormed

end Builder

end GrammarKit.Automaton
