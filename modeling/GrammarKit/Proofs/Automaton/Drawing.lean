import GrammarKit.Automaton.Builder
import GrammarKit.Proofs.Automaton.Reading
import Mathlib.Data.List.Forall2
import Mathlib.Data.List.Nodup

namespace GrammarKit.Automaton

/-- An unguarded edge between nodes that go by names. -/
structure Arrow (S : Type) where
  source : S
  check : CharClass
  target : S

/-- What a builder has built so far, with names for the nodes, so that it can be
    told without the numbers that the builder hands out. Of several kinds,
    callbacks or marks the newest comes first and counts. -/
structure Drawing (S K : Type) where
  names : List S
  arrows : List (Arrow S)
  kinds : List (S × K)
  callbacks : List (S × Callback K)
  marks : List (String × S)
  current : S
  blanks : Blanks

variable {S K : Type} [DecidableEq S]

namespace Drawing

/-- The arrows that start in `name`, in the order in which they were added. -/
def arrowsFrom (drawing : Drawing S K) (name : S) : List (Arrow S) :=
  drawing.arrows.filter fun arrow => arrow.source = name

/-- The node reached from `name` by `c`. -/
def next? (drawing : Drawing S K) (name : S) (c : Char) : Option S :=
  ((drawing.arrowsFrom name).find? fun arrow => arrow.check.accepts c).map Arrow.target

/-- The target of an arrow from `name` for exactly this character. -/
def follow? (drawing : Drawing S K) (name : S) (c : Char) : Option S :=
  ((drawing.arrowsFrom name).find? fun arrow => arrow.check = .single c).map Arrow.target

/-- The node reached from `name` by a whole text. -/
def read? (drawing : Drawing S K) (name : S) : List Char → Option S
  | [] => some name
  | c :: text => (drawing.next? name c).bind fun target => drawing.read? target text

/-- The node reached from `name` by arrows for exactly the characters of a text. -/
def trace? (drawing : Drawing S K) (name : S) : List Char → Option S
  | [] => some name
  | c :: text => (drawing.follow? name c).bind fun target => drawing.trace? target text

/-- The kind of the tokens that end in a node, if any do. -/
def kind? (drawing : Drawing S K) (name : S) : Option K :=
  (drawing.kinds.find? fun entry => entry.1 = name).map Prod.snd

/-- What is done to the tokens that are found in a node, if anything is. -/
def callback? (drawing : Drawing S K) (name : S) : Option (Callback K) :=
  (drawing.callbacks.find? fun entry => entry.1 = name).map Prod.snd

/-- What is made of a token that is found in a node. -/
def finish (drawing : Drawing S K) (name : S) (token : Token K) :
    Except Miscut (Option (Token K)) :=
  match drawing.callback? name with
  | some change => change token
  | none => .ok (some token)

/-- The node that a mark stands for. -/
def marked? (drawing : Drawing S K) (mark : String) : Option S :=
  (drawing.marks.find? fun entry => entry.1 == mark).map Prod.snd

/-- Goes to an existing node. -/
def stand (drawing : Drawing S K) (name : S) : Drawing S K :=
  { drawing with current := name }

/-- Adds an arrow from the current node to an existing one, and stands there. -/
def link (drawing : Drawing S K) (check : CharClass) (name : S) : Drawing S K :=
  { drawing with arrows := drawing.arrows ++ [⟨drawing.current, check, name⟩], current := name }

/-- Adds an arrow from the current node to a new one, and stands there. -/
def grow (drawing : Drawing S K) (check : CharClass) (name : S) : Drawing S K :=
  { drawing.link check name with names := drawing.names ++ [name] }

/-- Follows an arrow for exactly this character, or adds one to a new node. -/
def follow (drawing : Drawing S K) (c : Char) (name : S) : Drawing S K :=
  match drawing.follow? drawing.current c with
  | some target => drawing.stand target
  | none => drawing.grow (.single c) name

/-- Marks the current node. -/
def mark (drawing : Drawing S K) (mark : String) : Drawing S K :=
  { drawing with marks := (mark, drawing.current) :: drawing.marks }

/-- Lets tokens of this kind end in the current node. -/
def accept (drawing : Drawing S K) (kind : K) : Drawing S K :=
  { drawing with kinds := (drawing.current, kind) :: drawing.kinds }

omit [DecidableEq S] in
@[simp] theorem names_accept (drawing : Drawing S K) (kind : K) :
    (drawing.accept kind).names = drawing.names := rfl

omit [DecidableEq S] in
@[simp] theorem arrows_accept (drawing : Drawing S K) (kind : K) :
    (drawing.accept kind).arrows = drawing.arrows := rfl

@[simp] theorem callback?_accept (drawing : Drawing S K) (kind : K) :
    (drawing.accept kind).callback? = drawing.callback? := rfl

/-- Sets what is done to the tokens that are found in the current node. -/
def callback (drawing : Drawing S K) (change : Callback K) : Drawing S K :=
  { drawing with callbacks := (drawing.current, change) :: drawing.callbacks }

/-- The start node alone. -/
def new (start : S) (blanks : Blanks) : Drawing S K where
  names := [start]
  arrows := []
  kinds := []
  callbacks := []
  marks := [(Builder.startMark, start)]
  current := start
  blanks := blanks

/-- Whatever is followed is an arrow. -/
theorem mem_of_follow? {drawing : Drawing S K} {name target : S} {c : Char}
    (hfollow : drawing.follow? name c = some target) :
    ⟨name, .single c, target⟩ ∈ drawing.arrows := by
  obtain ⟨⟨source, check, target⟩, harrow, rfl⟩ := Option.map_eq_some_iff.1 hfollow
  obtain ⟨hmem, hsource⟩ := List.mem_filter.1 (List.mem_of_find?_eq_some harrow)
  obtain rfl : source = name := of_decide_eq_true hsource
  obtain rfl : check = .single c := by simpa using List.find?_some harrow
  exact hmem

/-- Arrows that are added behind others leave those that are followed in place. -/
theorem follow?_of_append {drawing more : Drawing S K} {added : List (Arrow S)}
    (harrows : more.arrows = drawing.arrows ++ added) {name target : S} {c : Char}
    (hfollow : drawing.follow? name c = some target) : more.follow? name c = some target := by
  obtain ⟨arrow, harrow, rfl⟩ := Option.map_eq_some_iff.1 hfollow
  rw [follow?, arrowsFrom, harrows, List.filter_append, List.find?_append]
  rw [arrowsFrom] at harrow
  rw [harrow]
  rfl

/-- What could be traced can still be traced when arrows are added. -/
theorem trace?_of_append {drawing more : Drawing S K} {added : List (Arrow S)}
    (harrows : more.arrows = drawing.arrows ++ added) {name target : S} {text : List Char}
    (htrace : drawing.trace? name text = some target) : more.trace? name text = some target := by
  induction text generalizing name with
  | nil => exact htrace
  | cons c text ih =>
    obtain ⟨middle, hmiddle, htrace⟩ := Option.bind_eq_some_iff.1 htrace
    rw [trace?, follow?_of_append harrows hmiddle]
    exact ih htrace

/-- Traces and readings depend on the arrows alone. -/
theorem trace?_congr {drawing other : Drawing S K} (harrows : other.arrows = drawing.arrows)
    (name : S) (text : List Char) : other.trace? name text = drawing.trace? name text := by
  induction text generalizing name with
  | nil => rfl
  | cons c text ih =>
    rw [trace?, trace?, follow?, follow?, arrowsFrom, arrowsFrom, harrows]
    exact congrArg _ (funext fun target => ih target)

/-- A text is traced part by part. -/
theorem trace?_append (drawing : Drawing S K) (name : S) (before after : List Char) :
    drawing.trace? name (before ++ after) =
      (drawing.trace? name before).bind fun middle => drawing.trace? middle after := by
  induction before generalizing name with
  | nil => rfl
  | cons c before ih =>
    rw [List.cons_append, trace?, trace?, Option.bind_assoc]
    exact congrArg _ (funext fun target => ih target)

theorem trace?_concat (drawing : Drawing S K) (name : S) (before : List Char) (c : Char) :
    drawing.trace? name (before ++ [c]) = (drawing.trace? name before).bind fun middle =>
      drawing.follow? middle c := by
  rw [trace?_append]
  refine congrArg _ (funext fun middle => ?_)
  exact Option.bind_fun_some _

/-- Where nothing was followed before, a new arrow is. -/
theorem follow?_link (drawing : Drawing S K) (c : Char) (name : S)
    (hnone : drawing.follow? drawing.current c = none) :
    (drawing.link (.single c) name).follow? drawing.current c = some name := by
  rw [follow?, Option.map_eq_none_iff] at hnone
  rw [follow?, arrowsFrom, link, List.filter_append, List.find?_append]
  rw [arrowsFrom] at hnone
  rw [hnone]
  simp

/-- A text is read part by part. -/
theorem read?_append (drawing : Drawing S K) (name : S) (before after : List Char) :
    drawing.read? name (before ++ after) = (drawing.read? name before).bind fun middle =>
      drawing.read? middle after := by
  induction before generalizing name with
  | nil => rfl
  | cons c before ih =>
    rw [List.cons_append, read?, read?, Option.bind_assoc]
    exact congrArg _ (funext fun target => ih target)

end Drawing

/-- Whether an edge is drawn as `arrow`, where the nodes have these names. -/
def IsDrawn (names : List S) (edge : Transition) (arrow : Arrow S) : Prop :=
  edge.check = arrow.check ∧ edge.guard = none ∧ names[edge.target]? = some arrow.target

/-- Whether a drawing shows what a builder has built. -/
structure Shows (builder : Builder K) (drawing : Drawing S K) : Prop where
  nodup : drawing.names.Nodup
  length_nodes : builder.nodes.length = drawing.names.length
  length_transitions : builder.transitions.length = drawing.names.length
  current : drawing.names[builder.current]? = some drawing.current
  blanks : builder.blanks = drawing.blanks
  marks : List.Forall₂ (fun entry named => entry.1 = named.1 ∧
    drawing.names[entry.2]? = some named.2) builder.marks drawing.marks
  source_mem : ∀ arrow ∈ drawing.arrows, arrow.source ∈ drawing.names
  kind_mem : ∀ entry ∈ drawing.kinds, entry.1 ∈ drawing.names
  callback_mem : ∀ entry ∈ drawing.callbacks, entry.1 ∈ drawing.names
  edges : ∀ (id : Nat) (name : S), drawing.names[id]? = some name →
    ∃ edges, builder.transitions[id]? = some edges ∧
      List.Forall₂ (IsDrawn drawing.names) edges (drawing.arrowsFrom name)
  nodes : ∀ (id : Nat) (name : S), drawing.names[id]? = some name →
    ∃ node, builder.nodes[id]? = some node ∧ node.kind = drawing.kind? name ∧
      node.isEnd = (drawing.kind? name).isSome ∧ node.callback = drawing.callback? name

/-- Lists that agree one by one agree on what is found first. -/
theorem forall₂_find? {α β : Type} {R : α → β → Prop} {p : α → Bool} {q : β → Bool} {xs : List α}
    {ys : List β} (hforall : List.Forall₂ R xs ys) (hiff : ∀ x y, R x y → p x = q y) :
    Option.Rel R (xs.find? p) (ys.find? q) := by
  induction hforall with
  | nil => exact .none
  | @cons x y xs ys hfirst _ ih =>
    rw [List.find?_cons, List.find?_cons, hiff x y hfirst]
    cases q y with
    | true => exact .some hfirst
    | false => exact ih

theorem getElem?_append_of_eq_some {α : Type} {xs : List α} {i : Nat} {x : α} (hx : xs[i]? = some x)
    (ys : List α) :
    (xs ++ ys)[i]? = some x := by
  rw [List.getElem?_append_left (List.getElem?_eq_some_iff.1 hx).1, hx]

theorem getElem?_concat_eq_some_iff {α : Type} {xs : List α} {i : Nat} {x last : α} :
    (xs ++ [last])[i]? = some x ↔ xs[i]? = some x ∨ i = xs.length ∧ x = last := by
  rw [List.getElem?_append]
  split
  · next hlt => simp [Nat.ne_of_lt hlt]
  · next hle =>
    rw [List.getElem?_eq_none (Nat.le_of_not_lt hle), List.getElem?_singleton]
    grind

theorem modify_append_left {α : Type} (f : α → α) {xs : List α} (ys : List α) {i : Nat}
    (hi : i < xs.length) :
    (xs ++ ys).modify i f = xs.modify i f ++ ys := by
  induction xs generalizing i with
  | nil => cases hi
  | cons x xs ih =>
    cases i with
    | zero => rfl
    | succ i => simpa using ih (Nat.lt_of_succ_lt_succ hi)

omit [DecidableEq S] in
/-- Further names leave the drawn edges as they are. -/
theorem IsDrawn.append {names : List S} {edge : Transition} {arrow : Arrow S}
    (hdrawn : IsDrawn names edge arrow) (more : List S) : IsDrawn (names ++ more) edge arrow :=
  ⟨hdrawn.1, hdrawn.2.1, getElem?_append_of_eq_some hdrawn.2.2 more⟩

namespace Shows

variable {builder : Builder K} {drawing : Drawing S K} {name : S} {check : CharClass}

/-- The builder that has done nothing is shown by the start node alone. -/
theorem new (start : S) (blanks : Blanks) :
    Shows ({ Builder.new with blanks } : Builder K) (.new start blanks) where
  nodup := List.nodup_singleton start
  length_nodes := rfl
  length_transitions := rfl
  current := rfl
  blanks := rfl
  marks := .cons ⟨rfl, rfl⟩ .nil
  source_mem := fun _ harrow => nomatch harrow
  kind_mem := fun _ hentry => nomatch hentry
  callback_mem := fun _ hentry => nomatch hentry
  edges id name hname := by
    obtain ⟨rfl, rfl⟩ : id = 0 ∧ name = start := by
      cases id <;> simp_all [Drawing.new]
    exact ⟨[], rfl, .nil⟩
  nodes id name hname := by
    obtain ⟨rfl, rfl⟩ : id = 0 ∧ name = start := by
      cases id <;> simp_all [Drawing.new]
    exact ⟨_, rfl, rfl, rfl, rfl⟩

/-- No two nodes go by one name. -/
theorem eq_of_getElem? (hshows : Shows builder drawing) {i j : Nat}
    (hi : drawing.names[i]? = some name) (hj : drawing.names[j]? = some name) : i = j :=
  (List.getElem?_inj (List.getElem?_eq_some_iff.1 hi).1 hshows.nodup).1 (hi.trans hj.symm)

theorem eq_current_iff (hshows : Shows builder drawing) {id : Nat}
    (hid : drawing.names[id]? = some name) :
    builder.current = id ↔ drawing.current = name := by
  constructor
  · rintro rfl
    exact Option.some.inj (hshows.current.symm.trans hid)
  · rintro rfl
    exact hshows.eq_of_getElem? hshows.current hid

theorem current_mem (hshows : Shows builder drawing) : drawing.current ∈ drawing.names :=
  List.mem_of_getElem? hshows.current

/-- No arrow starts where no node is. -/
theorem arrowsFrom_eq_nil (hshows : Shows builder drawing) (hname : name ∉ drawing.names) :
    drawing.arrowsFrom name = [] := by
  refine List.filter_eq_nil_iff.2 fun arrow harrow hsource => hname ?_
  rw [← of_decide_eq_true hsource]
  exact hshows.source_mem arrow harrow

/-- Arrows lead to nodes only. -/
theorem target_mem (hshows : Shows builder drawing) {arrow : Arrow S}
    (harrow : arrow ∈ drawing.arrows) :
    arrow.target ∈ drawing.names := by
  obtain ⟨id, hid⟩ := List.mem_iff_getElem?.1 (hshows.source_mem arrow harrow)
  obtain ⟨edges, -, hdrawn⟩ := hshows.edges id arrow.source hid
  have hmem : arrow ∈ drawing.arrowsFrom arrow.source := List.mem_filter.2 ⟨harrow, by simp⟩
  obtain ⟨i, harrow⟩ := List.mem_iff_get.1 hmem
  have hlt : i < edges.length := hdrawn.length_eq.symm ▸ i.isLt
  obtain ⟨-, -, htarget⟩ := hdrawn.get hlt i.isLt
  rw [harrow] at htarget
  exact List.mem_of_getElem? htarget

theorem kind?_eq_none (hshows : Shows builder drawing) (hname : name ∉ drawing.names) :
    drawing.kind? name = none := by
  rw [Drawing.kind?, Option.map_eq_none_iff, List.find?_eq_none]
  intro entry hentry hfirst
  exact hname (of_decide_eq_true hfirst ▸ hshows.kind_mem entry hentry)

theorem callback?_eq_none (hshows : Shows builder drawing) (hname : name ∉ drawing.names) :
    drawing.callback? name = none := by
  rw [Drawing.callback?, Option.map_eq_none_iff, List.find?_eq_none]
  intro entry hentry hfirst
  exact hname (of_decide_eq_true hfirst ▸ hshows.callback_mem entry hentry)

theorem stand (hshows : Shows builder drawing) {id : Nat} (hid : drawing.names[id]? = some name) :
    Shows { builder with current := id } (drawing.stand name) :=
  { hshows with current := hid }

/-- A node that no edge leads to. -/
theorem addNode (hshows : Shows builder drawing) (hname : name ∉ drawing.names) :
    Shows
      { builder with
        nodes := builder.nodes ++ [{ id := builder.nodes.length }]
        transitions := builder.transitions ++ [[]] }
      { drawing with names := drawing.names ++ [name] } where
  nodup := List.nodup_append.2 ⟨hshows.nodup, List.nodup_singleton name, by
    intro other hother last hlast
    rw [List.mem_singleton.1 hlast]
    rintro rfl
    exact hname hother⟩
  length_nodes := by simp [hshows.length_nodes]
  length_transitions := by simp [hshows.length_transitions]
  current := getElem?_append_of_eq_some hshows.current _
  blanks := hshows.blanks
  marks := hshows.marks.imp fun _ _ hmark => ⟨hmark.1, getElem?_append_of_eq_some hmark.2 _⟩
  source_mem arrow harrow := List.mem_append_left _ (hshows.source_mem arrow harrow)
  kind_mem entry hentry := List.mem_append_left _ (hshows.kind_mem entry hentry)
  callback_mem entry hentry := List.mem_append_left _ (hshows.callback_mem entry hentry)
  edges id other hid := by
    rcases getElem?_concat_eq_some_iff.1 hid with hid | ⟨rfl, rfl⟩
    · obtain ⟨edges, hedges, hdrawn⟩ := hshows.edges id other hid
      exact ⟨edges, getElem?_append_of_eq_some hedges _, hdrawn.imp fun _ _ hdrawn =>
        hdrawn.append _⟩
    · have harrows :
          Drawing.arrowsFrom { drawing with names := drawing.names ++ [other] } other = [] :=
        hshows.arrowsFrom_eq_nil hname
      refine ⟨[], ?_, harrows ▸ .nil⟩
      rw [← hshows.length_transitions]
      exact List.getElem?_concat_length
  nodes id other hid := by
    rcases getElem?_concat_eq_some_iff.1 hid with hid | ⟨rfl, rfl⟩
    · obtain ⟨node, hnode, hinfo⟩ := hshows.nodes id other hid
      exact ⟨node, getElem?_append_of_eq_some hnode _, hinfo⟩
    · refine ⟨{ id := builder.nodes.length }, ?_, (hshows.kind?_eq_none hname).symm, ?_,
        (hshows.callback?_eq_none hname).symm⟩
      · rw [← hshows.length_nodes]
        exact List.getElem?_concat_length
      · exact (congrArg Option.isSome (hshows.kind?_eq_none hname)).symm

/-- An edge to an existing node is shown by an arrow to its name. -/
theorem moveToNode (hshows : Shows builder drawing) (check : CharClass) {id : Nat}
    (hid : drawing.names[id]? = some name) :
    Shows (builder.moveToNode check id) (drawing.link check name) where
  nodup := hshows.nodup
  length_nodes := hshows.length_nodes
  length_transitions := (List.length_modify ..).trans hshows.length_transitions
  current := hid
  blanks := hshows.blanks
  marks := hshows.marks
  source_mem arrow harrow := by
    rcases List.mem_append.1 harrow with harrow | harrow
    · exact hshows.source_mem arrow harrow
    · rw [List.mem_singleton.1 harrow]
      exact hshows.current_mem
  kind_mem := hshows.kind_mem
  callback_mem := hshows.callback_mem
  edges other source hsource := by
    obtain ⟨edges, hedges, hdrawn⟩ := hshows.edges other source hsource
    have harrows : (drawing.link check name).arrowsFrom source =
        drawing.arrowsFrom source ++
          if drawing.current = source then [⟨drawing.current, check, name⟩] else [] := by
      simp [Drawing.arrowsFrom, Drawing.link, List.filter_append, List.filter_singleton]
    rw [harrows, Builder.moveToNode, List.getElem?_modify, hedges]
    by_cases hcurrent : builder.current = other
    · rw [if_pos ((hshows.eq_current_iff hsource).1 hcurrent)]
      refine ⟨_, rfl, ?_⟩
      simp only [if_pos hcurrent]
      exact List.rel_append hdrawn (.cons ⟨rfl, rfl, hid⟩ .nil)
    · rw [if_neg fun heq => hcurrent ((hshows.eq_current_iff hsource).2 heq), List.append_nil]
      refine ⟨_, rfl, ?_⟩
      simp only [if_neg hcurrent]
      exact hdrawn
  nodes := hshows.nodes

/-- An edge to a new node is shown by an arrow to a name that no node had. -/
theorem move (hshows : Shows builder drawing) (check : CharClass) (hname : name ∉ drawing.names) :
    Shows (builder.move check none) (drawing.grow check name) := by
  have hadded := hshows.addNode hname
  have hid : (drawing.names ++ [name])[builder.nodes.length]? = some name := by
    rw [hshows.length_nodes]
    exact List.getElem?_concat_length
  have hlt : builder.current < builder.transitions.length := by
    rw [hshows.length_transitions]
    exact (List.getElem?_eq_some_iff.1 hshows.current).1
  have hmoved := hadded.moveToNode check hid
  simp only [Builder.moveToNode, modify_append_left _ _ hlt] at hmoved
  exact hmoved

/-- Marks that are drawn can be resolved, to the node of the name that they stand for. -/
theorem exists_marked (hshows : Shows builder drawing) {mark : String}
    (hmark : drawing.marked? mark = some name) :
    ∃ id, builder.resolve mark = .ok id ∧ drawing.names[id]? = some name := by
  have hfound := forall₂_find? (p := fun entry => entry.1 == mark)
    (q := fun entry => entry.1 == mark) hshows.marks fun entry named hmark => by rw [hmark.1]
  obtain ⟨named, hnamed, rfl⟩ := Option.map_eq_some_iff.1 hmark
  rw [hnamed] at hfound
  generalize hentry : builder.marks.find? (fun entry => entry.1 == mark) = found at hfound
  cases hfound with
  | @some entry _ hboth =>
    refine ⟨entry.2, ?_, hboth.2⟩
    simp [Builder.resolve, Builder.nodeId?, hentry]

theorem goto (hshows : Shows builder drawing) {mark : String}
    (hmark : drawing.marked? mark = some name) :
    ∃ moved, builder.goto mark = .ok moved ∧ Shows moved (drawing.stand name) := by
  obtain ⟨id, hid, hname⟩ := hshows.exists_marked hmark
  exact ⟨{ builder with current := id }, by rw [Builder.goto, hid]; rfl, hshows.stand hname⟩

theorem moveTo (hshows : Shows builder drawing) (check : CharClass) {mark : String}
    (hmark : drawing.marked? mark = some name) :
    ∃ moved, builder.moveTo check mark = .ok moved ∧ Shows moved (drawing.link check name) := by
  obtain ⟨id, hid, hname⟩ := hshows.exists_marked hmark
  exact ⟨builder.moveToNode check id, by rw [Builder.moveTo, hid]; rfl,
    hshows.moveToNode check hname⟩

theorem gotoNode (hshows : Shows builder drawing) {id : Nat}
    (hid : drawing.names[id]? = some name) :
    Shows (builder.gotoNode id) (drawing.stand name) := by
  have hlt : id < builder.nodes.length := by
    rw [hshows.length_nodes]
    exact (List.getElem?_eq_some_iff.1 hid).1
  rw [Builder.gotoNode, if_pos hlt]
  exact hshows.stand hid

/-- A change of the current node, of which the drawing takes down all that matters. -/
theorem modifyCurrent (hshows : Shows builder drawing) {change : Node K → Node K}
    {kinds : List (S × K)} {callbacks : List (S × Callback K)}
    (hkinds : ∀ entry ∈ kinds, entry ∈ drawing.kinds ∨ entry.1 = drawing.current)
    (hcallbacks : ∀ entry ∈ callbacks, entry ∈ drawing.callbacks ∨ entry.1 = drawing.current)
    (hother : ∀ name, name ≠ drawing.current →
      Drawing.kind? { drawing with kinds, callbacks } name = drawing.kind? name ∧
      Drawing.callback? { drawing with kinds, callbacks } name = drawing.callback? name)
    (hchange : ∀ node : Node K, node.kind = drawing.kind? drawing.current →
      node.isEnd = (drawing.kind? drawing.current).isSome →
      node.callback = drawing.callback? drawing.current →
      (change node).kind = Drawing.kind? { drawing with kinds, callbacks } drawing.current ∧
      (change node).isEnd =
      (Drawing.kind? { drawing with kinds, callbacks } drawing.current).isSome ∧
      (change node).callback = Drawing.callback? { drawing with kinds, callbacks }
      drawing.current) :
    Shows (builder.modifyCurrent change) { drawing with kinds, callbacks } where
  nodup := hshows.nodup
  length_nodes := (List.length_modify ..).trans hshows.length_nodes
  length_transitions := hshows.length_transitions
  current := hshows.current
  blanks := hshows.blanks
  marks := hshows.marks
  source_mem := hshows.source_mem
  kind_mem entry hentry := by
    rcases hkinds entry hentry with hentry | hentry
    · exact hshows.kind_mem entry hentry
    · rw [hentry]
      exact hshows.current_mem
  callback_mem entry hentry := by
    rcases hcallbacks entry hentry with hentry | hentry
    · exact hshows.callback_mem entry hentry
    · rw [hentry]
      exact hshows.current_mem
  edges := hshows.edges
  nodes id name hid := by
    obtain ⟨node, hnode, hkind, hend, hcallback⟩ := hshows.nodes id name hid
    by_cases hname : drawing.current = name
    · obtain rfl := (hshows.eq_current_iff hid).2 hname
      subst hname
      refine ⟨change node, ?_, hchange node hkind hend hcallback⟩
      rw [Builder.modifyCurrent, List.getElem?_modify_eq, hnode]
      rfl
    · refine ⟨node, ?_, ?_⟩
      · rw [Builder.modifyCurrent, List.getElem?_modify_ne _ _ fun heq =>
          hname ((hshows.eq_current_iff hid).1 heq), hnode]
      · rw [(hother name (Ne.symm hname)).1, (hother name (Ne.symm hname)).2]
        exact ⟨hkind, hend, hcallback⟩

end Shows

namespace Drawing

theorem kind?_accept (drawing : Drawing S K) (kind : K) (name : S) :
    (drawing.accept kind).kind? name = if drawing.current = name then some kind
      else drawing.kind? name := by
  rw [kind?, accept, List.find?_cons]
  by_cases hname : drawing.current = name
  · simp [hname]
  · simp [hname, kind?]

theorem callback?_callback (drawing : Drawing S K) (change : Callback K) (name : S) :
    (drawing.callback change).callback? name =
      if drawing.current = name then some change else drawing.callback? name := by
  rw [callback?, callback, List.find?_cons]
  by_cases hname : drawing.current = name
  · simp [hname]
  · simp [hname, callback?]

end Drawing

namespace Shows

variable {builder : Builder K} {drawing : Drawing S K}

theorem accept (hshows : Shows builder drawing) (kind : K) :
    Shows (builder.accept kind) (drawing.accept kind) := by
  have hcurrent : (drawing.accept kind).kind? drawing.current = some kind := by
    rw [Drawing.kind?_accept, if_pos rfl]
  refine hshows.modifyCurrent ?_ (fun entry hentry => Or.inl hentry) (fun name hname => ⟨?_, rfl⟩)
    fun node _ _ hcallback => ⟨hcurrent.symm, (congrArg Option.isSome hcurrent).symm, hcallback⟩
  · intro entry hentry
    rcases List.mem_cons.1 hentry with rfl | hentry
    · exact Or.inr rfl
    · exact Or.inl hentry
  · exact (drawing.kind?_accept kind name).trans (if_neg (Ne.symm hname))

theorem callback (hshows : Shows builder drawing) (change : Callback K) :
    Shows (builder.callback change) (drawing.callback change) := by
  have hcurrent : (drawing.callback change).callback? drawing.current = some change := by
    rw [Drawing.callback?_callback, if_pos rfl]
  refine hshows.modifyCurrent (fun entry hentry => Or.inl hentry) ?_ (fun name hname => ⟨rfl, ?_⟩)
    fun node hkind hend _ => ⟨hkind, hend, hcurrent.symm⟩
  · intro entry hentry
    rcases List.mem_cons.1 hentry with rfl | hentry
    · exact Or.inr rfl
    · exact Or.inl hentry
  · exact (drawing.callback?_callback change name).trans (if_neg (Ne.symm hname))

theorem mark (hshows : Shows builder drawing) (mark : String) :
    Shows (builder.mark mark) (drawing.mark mark) := by
  have hmodified :
      Shows (builder.modifyCurrent fun node => { node with mark := some mark }) drawing :=
    hshows.modifyCurrent (fun entry hentry => Or.inl hentry) (fun entry hentry => Or.inl hentry)
      (fun name _ => ⟨rfl, rfl⟩) fun node hkind hend hcallback => ⟨hkind, hend, hcallback⟩
  exact { hmodified with marks := .cons ⟨rfl, hshows.current⟩ hmodified.marks }

end Shows

namespace Shows

variable {builder : Builder K} {drawing : Drawing S K} {name : S}

/-- Whether numbers and names stand for the same nodes. -/
abbrev SameNode (names : List S) : Option Nat → Option S → Prop :=
  Option.Rel fun id name => names[id]? = some name

/-- Edges and arrows that are looked for by the same property lead to the same node. -/
theorem sameNode_find? (hshows : Shows builder drawing) {id : Nat}
    (hid : drawing.names[id]? = some name) {p : Transition → Bool} {q : Arrow S → Bool}
    (hiff : ∀ edge arrow, IsDrawn drawing.names edge arrow → p edge = q arrow) :
    SameNode drawing.names (((builder.transitions[id]?.getD []).find? p).map Transition.target)
      (((drawing.arrowsFrom name).find? q).map Arrow.target) := by
  obtain ⟨edges, hedges, hdrawn⟩ := hshows.edges id name hid
  rw [hedges, Option.getD_some]
  generalize hedge : edges.find? p = edge
  generalize harrow : (drawing.arrowsFrom name).find? q = arrow
  have hfound := forall₂_find? hdrawn hiff
  rw [hedge, harrow] at hfound
  cases hfound with
  | none => exact .none
  | some hdrawn => exact .some hdrawn.2.2

theorem sameNode_follow? (hshows : Shows builder drawing) (c : Char) :
    SameNode drawing.names (builder.follow? c) (drawing.follow? drawing.current c) := by
  refine hshows.sameNode_find? hshows.current fun edge arrow hdrawn => ?_
  rw [hdrawn.1, hdrawn.2.1]
  simp

/-- Following a character is shown by following it in the drawing, if the name
    is new where a node is. -/
theorem follow (hshows : Shows builder drawing) {c : Char}
    (hname : drawing.follow? drawing.current c = none → name ∉ drawing.names) :
    Shows (builder.follow c) (drawing.follow c name) := by
  have hsame := hshows.sameNode_follow? c
  rw [Builder.follow, Drawing.follow]
  generalize hfollow : drawing.follow? drawing.current c = found at hsame hname
  generalize builder.follow? c = target at hsame
  cases hsame with
  | none => exact hshows.move (.single c) (hname rfl)
  | some hid => exact hshows.stand hid

/-- Automaton and drawing go the same way by a character, whatever was read before. -/
theorem sameNode_next? (hshows : Shows builder drawing) {id : Nat}
    (hid : drawing.names[id]? = some name) (before : List Char) (c : Char) :
    SameNode drawing.names (builder.build.next? id before c) (drawing.next? name c) := by
  refine hshows.sameNode_find? hid fun edge arrow hdrawn => ?_
  rw [Transition.accepts, hdrawn.1, hdrawn.2.1]
  simp

/-- Automaton and drawing go the same way by a text. -/
theorem sameNode_reach? (hshows : Shows builder drawing) {id : Nat}
    (hid : drawing.names[id]? = some name) (before text : List Char) :
    SameNode drawing.names (builder.build.reach? id before text) (drawing.read? name text) := by
  induction text generalizing id name before with
  | nil => exact .some hid
  | cons c text ih =>
    have hnext := hshows.sameNode_next? hid before c
    rw [reach?, Drawing.read?]
    generalize builder.build.next? id before c = target at hnext
    generalize drawing.next? name c = named at hnext
    cases hnext with
    | none => exact .none
    | some htarget => exact ih htarget (before ++ [c])

/-- A text leads the automaton to the nodes whose names it is read to in the
    drawing, and to no others. -/
theorem exists_reach?_iff (hshows : Shows builder drawing) {start : S}
    (hstart : drawing.names[startNode]? = some start) {text : List Char} {id : Nat} :
    builder.build.reach? startNode [] text = some id ↔
      ∃ name, drawing.read? start text = some name ∧ drawing.names[id]? = some name := by
  have hsame := hshows.sameNode_reach? hstart [] text
  generalize builder.build.reach? startNode [] text = reached at hsame
  generalize drawing.read? start text = named at hsame
  cases hsame with
  | none => simp
  | @some target name hname =>
    constructor
    · rintro ⟨⟩
      exact ⟨name, rfl, hname⟩
    · rintro ⟨_, ⟨⟩, hid⟩
      exact congrArg some (hshows.eq_of_getElem? hname hid)

theorem exists_reach?_of_read? (hshows : Shows builder drawing) {start : S}
    (hstart : drawing.names[startNode]? = some start) {text : List Char}
    (hread : drawing.read? start text = some name) :
    ∃ id, drawing.names[id]? = some name ∧ builder.build.reach? startNode [] text = some id := by
  have hsame := hshows.sameNode_reach? hstart [] text
  generalize builder.build.reach? startNode [] text = reached at hsame
  rw [hread] at hsame
  cases hsame with
  | @some id _ hid => exact ⟨id, hid, rfl⟩

/-- The end nodes are those that have a kind in the drawing. -/
theorem isEnd_eq (hshows : Shows builder drawing) {id : Nat}
    (hid : drawing.names[id]? = some name) :
    builder.build.isEnd id = (drawing.kind? name).isSome := by
  obtain ⟨node, hnode, -, hend, -⟩ := hshows.nodes id name hid
  rw [← hend, isEnd, Automaton.node?, Builder.build, hnode]
  rfl

/-- What is made of a match is told by the kind and the callback of its node. -/
theorem accept_eq (hshows : Shows builder drawing) {id : Nat} (hid : drawing.names[id]? = some name)
    {kind : K} (hkind : drawing.kind? name = some kind) (start : Place) (reversed : List Char)
    (after : Place) :
    builder.build.accept start ⟨id, reversed, after⟩ =
      drawing.finish name (.ofSpan kind (String.ofList reversed.reverse) start.position) := by
  obtain ⟨node, hnode, hfound, -, hcallback⟩ := hshows.nodes id name hid
  cases hchange : node.callback <;>
    simp only [Automaton.accept, Automaton.node?, Builder.build, hnode, hfound.trans hkind,
      Node.finish, Drawing.finish, ← hcallback, hchange]

/-- A token that a match becomes is one that its node finishes, of the kind of the node. -/
theorem exists_finish_of_accept (hshows : Shows builder drawing) {id : Nat}
    (hid : drawing.names[id]? = some name) {start : Place} {reversed : List Char} {after : Place}
    {token : Token K}
    (haccept : builder.build.accept start ⟨id, reversed, after⟩ = .ok (some token)) :
    ∃ kind, drawing.kind? name = some kind ∧
      drawing.finish name (.ofSpan kind (String.ofList reversed.reverse) start.position) =
        .ok (some token) := by
  obtain ⟨node, hnode, hfound, -, -⟩ := hshows.nodes id name hid
  obtain ⟨stood, kind, hstood, hkind, -⟩ := exists_of_accept_eq_some haccept
  obtain rfl : node = stood := Option.some.inj (hnode.symm.trans hstood)
  refine ⟨kind, hfound.symm.trans hkind, ?_⟩
  rw [← hshows.accept_eq hid (hfound.symm.trans hkind) start reversed after, haccept]

/-- Scans end in the nodes that have a kind in the drawing. -/
theorem exists_stopsAt_iff (hshows : Shows builder drawing) {start : S}
    (hstart : drawing.names[startNode]? = some start) {text : List Char} :
    (∃ id, builder.build.StopsAt text id) ↔
      text ≠ [] ∧ ∃ name, drawing.read? start text = some name ∧
      (drawing.kind? name).isSome = true := by
  constructor
  · rintro ⟨id, hne, hreach, hend⟩
    obtain ⟨name, hname, hid⟩ := (hshows.exists_reach?_iff hstart).1 hreach
    exact ⟨hne, name, hname, by rw [← hshows.isEnd_eq hid, hend]⟩
  · rintro ⟨hne, name, hname, hkind⟩
    obtain ⟨id, hid, hreach⟩ := hshows.exists_reach?_of_read? hstart hname
    exact ⟨id, hne, hreach, by rw [hshows.isEnd_eq hid, hkind]⟩

end Shows

/-- Instructions that succeed are followed by the others. -/
theorem applyAll_append {builder built : Builder K} {first second : List (Instruction K)}
    (hfirst : builder.applyAll first = (built, none)) :
    builder.applyAll (first ++ second) = built.applyAll second := by
  induction first generalizing builder with
  | nil =>
    obtain rfl : builder = built := congrArg Prod.fst hfirst
    rfl
  | cons instruction first ih =>
    rw [List.cons_append, Builder.applyAll]
    rw [Builder.applyAll] at hfirst
    cases hstep : instruction.apply builder with
    | ok moved =>
      rw [hstep] at hfirst
      exact ih hfirst
    | error error =>
      rw [hstep] at hfirst
      cases congrArg Prod.snd hfirst

/-- Whether instructions lead from what one drawing shows to what the other
    shows, and none of them fails. -/
def Draws (instructions : List (Instruction K)) (before after : Drawing S K) : Prop :=
  ∀ builder, Shows builder before → ∃ built, builder.applyAll instructions = (built, none) ∧
    Shows built after

namespace Draws

variable {instruction : Instruction K} {rest : List (Instruction K)}
    {before middle after : Drawing S K} {name : S}

theorem nil (drawing : Drawing S K) : Draws [] drawing drawing :=
  fun builder hshows => ⟨builder, rfl, hshows⟩

theorem cons
    (hfirst : ∀ builder, Shows builder before → ∃ moved, instruction.apply builder = .ok moved ∧
      Shows moved middle)
    (hrest : Draws rest middle after) : Draws (instruction :: rest) before after := by
  intro builder hshows
  obtain ⟨moved, hmoved, hshows⟩ := hfirst builder hshows
  obtain ⟨built, hbuilt, hshows⟩ := hrest moved hshows
  exact ⟨built, by rw [Builder.applyAll, hmoved]; exact hbuilt, hshows⟩

/-- One drawing after the other. -/
theorem append {first second : List (Instruction K)} (hfirst : Draws first before middle)
    (hsecond : Draws second middle after) : Draws (first ++ second) before after := by
  intro builder hshows
  obtain ⟨built, hbuilt, hmiddle⟩ := hfirst builder hshows
  rw [applyAll_append hbuilt]
  exact hsecond built hmiddle

theorem gotoNode {id : Nat} (hid : before.names[id]? = some name)
    (hrest : Draws rest (before.stand name) after) :
    Draws (.gotoNode id :: rest) before after :=
  cons (fun _ hshows => ⟨_, rfl, hshows.gotoNode hid⟩) hrest

theorem goto (name : S) {mark : String} (hmark : before.marked? mark = some name)
    (hrest : Draws rest (before.stand name) after) :
    Draws (.goto mark :: rest) before after :=
  cons (fun _ hshows => hshows.goto hmark) hrest

/-- The next instruction adds an edge to a new node. -/
theorem move (name : S) {check : CharClass} (hname : name ∉ before.names)
    (hrest : Draws rest (before.grow check name) after) :
    Draws (.move check none :: rest) before after :=
  cons (fun _ hshows => ⟨_, rfl, hshows.move check hname⟩) hrest

/-- The next instruction adds an edge to a marked node. -/
theorem moveTo (name : S) {check : CharClass} {mark : String}
    (hmark : before.marked? mark = some name) (hrest : Draws rest (before.link check name) after) :
    Draws (.moveTo check mark :: rest) before after :=
  cons (fun _ hshows => hshows.moveTo check hmark) hrest

theorem mark {mark : String} (hrest : Draws rest (before.mark mark) after) :
    Draws (.mark mark :: rest) before after :=
  cons (fun _ hshows => ⟨_, rfl, hshows.mark mark⟩) hrest

theorem accept {kind : K} (hrest : Draws rest (before.accept kind) after) :
    Draws (.accept kind :: rest) before after :=
  cons (fun _ hshows => ⟨_, rfl, hshows.accept kind⟩) hrest

theorem callback {change : Callback K} (hrest : Draws rest (before.callback change) after) :
    Draws (.callback change :: rest) before after :=
  cons (fun _ hshows => ⟨_, rfl, hshows.callback change⟩) hrest

end Draws

end GrammarKit.Automaton
