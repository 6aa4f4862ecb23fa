import GrammarKit.Automaton

namespace GrammarKit.Automaton

variable {K : Type}

/-- A place in a text: the position and what is left of the text from there on. -/
structure Place where
  position : Position
  rest : List Char

def Place.atStart (text : List Char) : Place := ⟨.start, text⟩

/-- The place of a position in `source`. Past the end, or inside a character,
    nothing is left to read. -/
def Place.of (source : String) (position : Position) : Place :=
  ⟨position, (dropBytes position.index source.toList).getD []⟩

/-- Moves past what is skipped in front of a token. -/
def skipIgnored (automaton : Automaton K) (position : Position) : List Char → Place
  | [] => ⟨position, []⟩
  | c :: rest =>
    if automaton.blanks.ignores c then skipIgnored automaton (position.advance c) rest
    else ⟨position, c :: rest⟩

/-- An end node that the walk stood on: the text read up to there, last
    character first, and the place after it. -/
structure Match where
  node : Nat
  reversed : List Char
  after : Place

/-- Walks on from `node`, where `reversed` was read. Returns the last end node
    met, which is `best` when there is no further one, and the place where no
    edge accepts. -/
def walk (automaton : Automaton K) (node : Nat) (reversed : List Char) (best : Option Match)
    (position : Position) : List Char → Option Match × Place
  | [] => (best, ⟨position, []⟩)
  | c :: rest =>
    match automaton.next? node reversed.reverse c with
    | none => (best, ⟨position, c :: rest⟩)
    | some target =>
      let passed := position.advance c
      let best :=
        if automaton.isEnd target then some ⟨target, c :: reversed, passed, rest⟩ else best
      walk automaton target (c :: reversed) best passed rest

/-- How a scan ends. -/
inductive Outcome (K : Type) where
  | success (token : Token K) (node : Nat) (matched : List Char)
  | endOfStream (position : Position)
  | failure (character : Char) (position : Position)
  /-- The callback of the match came to a text that it could not cut. -/
  | miscut (cause : Miscut)

/-- The failure at a place where a token should have started. -/
def failureAt (place : Place) : Outcome K :=
  .failure (place.rest.head?.getD '\x00') place.position

/-- The failure of a walk that met no end node. When the text ran out, its last
    character is named. -/
def failureAfter (start stop : Place) : Outcome K :=
  .failure ((stop.rest.head? <|> start.rest.getLast?).getD '\x00') stop.position

/-- The token of a match, unless its callback rejects it. -/
def accept (automaton : Automaton K) (start : Place) (found : Match) :
    Except Miscut (Option (Token K)) :=
  match automaton.node? found.node with
  | none => .ok none
  | some node =>
    match node.kind with
    | none => .ok none
    | some kind => node.finish (.ofSpan kind (String.ofList found.reversed.reverse) start.position)

/-- Scans one token. The walk follows edges for as long as it can and then falls
    back to the last end node it passed, so the longest match wins. On success
    the place after it is returned, otherwise the place after what was
    skipped. -/
def run (automaton : Automaton K) (place : Place) : Outcome K × Place :=
  let start := automaton.skipIgnored place.position place.rest
  if start.rest.isEmpty then (.endOfStream start.position, start)
  else
    match automaton.walk startNode [] none start.position start.rest with
    | (none, stop) => (failureAfter start stop, start)
    | (some found, _) =>
      match automaton.accept start found with
      | .ok (some token) => (.success token found.node found.reversed.reverse, found.after)
      | .ok none => (failureAt start, start)
      | .error cause => (.miscut cause, start)

theorem skipIgnored_length_le (automaton : Automaton K) (position : Position) (text : List Char) :
    (automaton.skipIgnored position text).rest.length ≤ text.length := by
  induction text generalizing position with
  | nil => simp [skipIgnored]
  | cons c rest ih =>
    rw [skipIgnored]
    split
    · exact Nat.le_succ_of_le (ih _)
    · exact Nat.le_refl _

/-- A match that the walk finds anew ends after the first character. -/
theorem walk_length_lt {automaton : Automaton K} {node : Nat} {reversed : List Char}
    {best : Option Match} {position : Position} {text : List Char} {found : Match} {stop : Place}
    (h : automaton.walk node reversed best position text = (some found, stop)) :
    best = some found ∨ found.after.rest.length < text.length := by
  induction text generalizing node reversed best position with
  | nil => simp_all [walk]
  | cons c rest ih =>
    rw [walk] at h
    split at h
    · simp_all
    · rcases ih h with hbest | hlt
      · split at hbest
        · cases hbest
          exact Or.inr (Nat.lt_succ_self _)
        · exact Or.inl hbest
      · exact Or.inr (Nat.lt_succ_of_lt hlt)

theorem run_success_length_lt {automaton : Automaton K} {place after : Place} {token : Token K}
    {node : Nat} {matched : List Char}
    (h : automaton.run place = (.success token node matched, after)) :
    after.rest.length < place.rest.length := by
  have hskip := automaton.skipIgnored_length_le place.position place.rest
  simp only [run, failureAfter, failureAt] at h
  split at h
  · simp at h
  · split at h
    · simp at h
    · split at h
      · rename_i hwalk _ _ _
        obtain ⟨-, rfl⟩ := Prod.mk.inj h
        rcases walk_length_lt hwalk with hnone | hlt
        · simp at hnone
        · exact Nat.lt_of_lt_of_le hlt hskip
      · simp at h
      · simp at h

end GrammarKit.Automaton
