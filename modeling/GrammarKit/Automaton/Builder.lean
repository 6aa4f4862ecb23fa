import GrammarKit.Automaton

namespace GrammarKit.Automaton

variable {K : Type}

/-- An automaton under construction, which stands on a current node; adding an
    edge moves it to the edge's target. Nodes can be marked, and marks are how
    edges lead back to existing nodes. The newest of several marks with one name
    counts. -/
structure Builder (K : Type) where
  nodes : List (Node K)
  transitions : List (List Transition)
  current : Nat
  marks : List (String × Nat)
  blanks : Blanks

/-- No node carries the mark that an operation refers to. -/
structure UnknownMark where
  mark : String
  deriving DecidableEq, Repr

def UnknownMark.message (error : UnknownMark) : String :=
  s!"No FSM node is marked '{error.mark}'"

namespace Builder

def startMark : String := "start"

/-- The start node alone, marked by its name. -/
def new : Builder K where
  nodes := [{ id := startNode, mark := some startMark }]
  transitions := [[]]
  current := startNode
  marks := [(startMark, startNode)]
  blanks := {}

def build (builder : Builder K) : Automaton K where
  nodes := builder.nodes
  transitions := builder.transitions
  blanks := builder.blanks

def node? (builder : Builder K) (id : Nat) : Option (Node K) :=
  builder.nodes[id]?

def nodeId? (builder : Builder K) (mark : String) : Option Nat :=
  (builder.marks.find? fun entry => entry.1 == mark).map Prod.snd

def isMarked (builder : Builder K) (mark : String) : Bool :=
  (builder.nodeId? mark).isSome

/-- The node with this mark. -/
def resolve (builder : Builder K) (mark : String) : Except UnknownMark Nat :=
  match builder.nodeId? mark with
  | some id => .ok id
  | none => .error ⟨mark⟩

/-- Stands on the node with this number, if there is one. -/
def gotoNode (builder : Builder K) (id : Nat) : Builder K :=
  if id < builder.nodes.length then { builder with current := id } else builder

def goto (builder : Builder K) (mark : String) : Except UnknownMark (Builder K) :=
  (builder.resolve mark).map fun id => { builder with current := id }

def modifyCurrent (builder : Builder K) (change : Node K → Node K) : Builder K :=
  { builder with nodes := builder.nodes.modify builder.current change }

/-- Names the current node. -/
def mark (builder : Builder K) (name : String) : Builder K :=
  { builder.modifyCurrent fun node => { node with mark := some name } with
    marks := (name, builder.current) :: builder.marks }

/-- Lets scans stop in the current node, which finds a token of this kind. -/
def accept (builder : Builder K) (kind : K) : Builder K :=
  builder.modifyCurrent fun node => { node with isEnd := true, kind := some kind }

/-- Changes the tokens found in the current node. An earlier callback is replaced. -/
def callback (builder : Builder K) (change : Callback K) : Builder K :=
  builder.modifyCurrent fun node => { node with callback := some change }

/-- Adds an edge from the current node to an existing one, and stands there. -/
def moveToNode (builder : Builder K) (check : CharClass) (target : Nat) : Builder K :=
  { builder with
    transitions := builder.transitions.modify builder.current fun edges =>
      edges ++ [{ source := builder.current, target, check }]
    current := target }

/-- Adds an edge from the current node to a new one, and stands there. -/
def move (builder : Builder K) (check : CharClass) (guard : Option Guard) : Builder K :=
  let target := builder.nodes.length
  { builder with
    nodes := builder.nodes ++ [{ id := target }]
    transitions := (builder.transitions.modify builder.current fun edges =>
      edges ++ [{ source := builder.current, target, check, guard }]) ++ [[]]
    current := target }

/-- Adds an edge to the node with this mark, and stands there. -/
def moveTo (builder : Builder K) (check : CharClass) (mark : String) :
    Except UnknownMark (Builder K) :=
  (builder.resolve mark).map (builder.moveToNode check)

/-- The target of an unguarded edge of the current node for exactly this character. -/
def follow? (builder : Builder K) (c : Char) : Option Nat :=
  ((builder.transitions[builder.current]?.getD []).find? fun edge =>
    edge.check = .single c && edge.guard.isNone).map Transition.target

/-- Follows an unguarded edge for exactly this character, or adds one. Words
    with a common beginning share its nodes in this way. -/
def follow (builder : Builder K) (c : Char) : Builder K :=
  match builder.follow? c with
  | some target => { builder with current := target }
  | none => builder.move (.single c) none

/-- Follows a whole word from the current node on. -/
def followAll (builder : Builder K) (word : List Char) : Builder K :=
  word.foldl follow builder

/-- Adds a chain of `count` edges that accept the same characters. -/
def chain (builder : Builder K) (count : Nat) (check : CharClass) : Builder K :=
  match count with
  | 0 => builder
  | count + 1 => (builder.move check none).chain count check

end Builder

/-- One operation on a builder. -/
inductive Instruction (K : Type) where
  | move (check : CharClass) (guard : Option Guard)
  | moveTo (check : CharClass) (name : String)
  | follow (c : Char)
  | chain (count : Nat) (check : CharClass)
  | mark (name : String)
  | goto (name : String)
  | gotoNode (id : Nat)
  | accept (kind : K)
  | callback (change : Callback K)
  | ignoreWhitespace (ignore : Bool)
  | whitespace (chars : List Char)
  | ignoreEol (ignore : Bool)

namespace Instruction

def apply (builder : Builder K) : Instruction K → Except UnknownMark (Builder K)
  | move check guard => .ok (builder.move check guard)
  | moveTo check name => builder.moveTo check name
  | follow c => .ok (builder.follow c)
  | chain count check => .ok (builder.chain count check)
  | mark name => .ok (builder.mark name)
  | goto name => builder.goto name
  | gotoNode id => .ok (builder.gotoNode id)
  | accept kind => .ok (builder.accept kind)
  | callback change => .ok (builder.callback change)
  | ignoreWhitespace ignore =>
    .ok { builder with blanks := { builder.blanks with ignoreWhitespace := ignore } }
  | whitespace chars => .ok { builder with blanks := { builder.blanks with whitespace := chars } }
  | ignoreEol ignore => .ok { builder with blanks := { builder.blanks with ignoreEol := ignore } }

end Instruction

namespace Builder

/-- Carries an instruction out; one that fails changes nothing. -/
def step (builder : Builder K) (instruction : Instruction K) : Builder K :=
  match instruction.apply builder with
  | .ok changed => changed
  | .error _ => builder

/-- Carries instructions out and goes on after those that fail. -/
def steps (builder : Builder K) (instructions : List (Instruction K)) : Builder K :=
  instructions.foldl step builder

/-- What operations can make of a builder, which may be replaced by a new one on the way. -/
inductive StemsFrom (builder : Builder K) : Builder K → Prop
  | kept (instructions : List (Instruction K)) : StemsFrom builder (builder.steps instructions)
  | replaced (instructions : List (Instruction K)) :
      StemsFrom builder ((new : Builder K).steps instructions)

/-- Carries instructions out up to the first that fails. What was built before it remains. -/
def applyAll (builder : Builder K) : List (Instruction K) → Builder K × Option UnknownMark
  | [] => (builder, none)
  | instruction :: rest =>
    match instruction.apply builder with
    | .ok changed => changed.applyAll rest
    | .error error => (builder, some error)

/-- Up to the first failure, instructions are carried out one after the other. -/
theorem exists_steps_of_applyAll (builder : Builder K) (instructions : List (Instruction K)) :
    ∃ done, done <+: instructions ∧ (builder.applyAll instructions).1 = builder.steps done := by
  induction instructions generalizing builder with
  | nil => exact ⟨[], List.prefix_rfl, rfl⟩
  | cons instruction rest ih =>
    rw [applyAll]
    cases happly : instruction.apply builder with
    | error error => exact ⟨[], List.nil_prefix, rfl⟩
    | ok changed =>
      obtain ⟨done, hdone, hchanged⟩ := ih changed
      refine ⟨instruction :: done, List.cons_prefix_cons.2 ⟨rfl, hdone⟩, hchanged.trans ?_⟩
      rw [steps, steps, List.foldl_cons, step, happly]

end Builder

end GrammarKit.Automaton
