import GrammarKit.SyntaxTree
import Std.Data.HashMap

namespace GrammarKit.Matching

/-- Why matching could not go on at all. A flat grammar without left recursion,
    and tokens of which the last one marks the end, meet none of these. -/
inductive Fault where
  | tooDeep
  | notFlat
  | outOfRange (index : Nat)
  deriving DecidableEq, Repr

variable {K R : Type} [DecidableEq K] [TokenKind K]

/-- A tree and the number of tokens in front of what it leaves. -/
abbrev Found (K : Type) := SyntaxTree K × Nat

/-- What was learnt so far: outcomes by non-terminal and place, if they are
    remembered, and the furthest place of a mismatch with the kinds expected
    there. -/
structure Progress (K : Type) [DecidableEq K] [TokenKind K] where
  memo : Option (Std.HashMap (String × Nat) (Option (Found K)))
  furthest : Option (Nat × KindSet K) := none

abbrev Matcher (K : Type) [DecidableEq K] [TokenKind K] (α : Type) :=
  StateT (Progress K) (Except Fault) α

/-- Adds a mismatch to the furthest one. -/
def further (furthest : Option (Nat × KindSet K)) (position : Nat) (expected : KindSet K) :
    Option (Nat × KindSet K) :=
  match furthest with
  | none => some (position, expected)
  | some (place, kinds) =>
    if place = position then some (place, kinds ∪ expected)
    else if position < place then some (place, kinds)
    else some (position, expected)

/-- Notes a mismatch. -/
def mismatch (position : Nat) (expected : KindSet K) : Matcher K Unit :=
  modify fun progress => { progress with furthest := further progress.furthest position expected }

def kindAt (tokens : Array (Token K)) (position : Nat) : Option K :=
  tokens[position]?.bind Token.kind

def terminal (tokens : Array (Token K)) (kind : K) (discarded : Bool) (position : Nat) :
    Matcher K (Option (Found K)) := do
  match tokens[position]? with
  | some token =>
    if token.kind = some kind then return some (.leaf token discarded, position + 1)
    else
      mismatch position (.singleton kind)
      return none
  | none =>
    mismatch position (.singleton kind)
    return none

/-- Repeats a match until the last token is reached, until it fails, or until it
    takes no token. Nothing that was taken is given back. -/
def repeated (size : Nat) (once : Nat → Matcher K (Option (Found K))) (position : Nat) :
    Matcher K (List (SyntaxTree K) × Nat) := do
  if _hsize : position + 1 < size then
    match ← once position with
    | some (tree, stop) =>
      if _hstop : position < stop then
        let (trees, last) ← repeated size once stop
        return (tree :: trees, last)
      else return ([], position)
    | none => return ([], position)
  else return ([], position)
termination_by size - position

/-- Matches a clause, where `descend` matches non-terminals. -/
def clause (tokens : Array (Token K)) (descend : String → Nat → Matcher K (Option (Found K))) :
    Clause K → Nat → Matcher K (Option (Found K))
  | .terminal kind discarded, position => terminal tokens kind discarded position
  | .nonTerminal name _ discarded, position => do
    match ← descend name position with
    | some (tree, stop) => return some (tree.setDiscarded discarded, stop)
    | none => return none
  | .option inner discarded, position => do
    match ← clause tokens descend inner position with
    | some (tree, stop) => return some (.present inner.shape tree discarded, stop)
    | none => return some (.absent inner.shape discarded, position)
  | .zeroOrMore inner discarded, position => do
    let (trees, stop) ← repeated tokens.size (clause tokens descend inner) position
    return some (.many inner.shape trees discarded, stop)
  | .oneOrMore inner discarded, position => do
    match ← clause tokens descend inner position with
    | some (tree, next) =>
      let (trees, stop) ← repeated tokens.size (clause tokens descend inner) next
      return some (.many inner.shape (tree :: trees) discarded, stop)
    | none => return none
  | .group .., _ => throw .notFlat
  | .choice .., _ => throw .notFlat

/-- Matches clauses one after the other. -/
def sequence (tokens : Array (Token K)) (descend : String → Nat → Matcher K (Option (Found K))) :
    List (Clause K) → Nat → Matcher K (Option (List (SyntaxTree K) × Nat))
  | [], position => return some ([], position)
  | first :: rest, position => do
    match ← clause tokens descend first position with
    | none => return none
    | some (tree, next) =>
      match ← sequence tokens descend rest next with
      | none => return none
      | some (trees, stop) => return some (tree :: trees, stop)

/-- A rule that matched, with its place among the rules of its non-terminal. -/
structure Candidate (K R : Type) [DecidableEq K] [TokenKind K] where
  index : Nat
  rule : Rule K R
  children : List (SyntaxTree K)
  stop : Nat

/-- The better of two candidates, of which `best` was declared first. -/
def better (best : Option (Candidate K R)) (candidate : Candidate K R) : Candidate K R :=
  match best with
  | some first => if first.stop < candidate.stop then candidate else first
  | none => candidate

/-- Tries all rules that can start at the next token. Of those that match, the
    one that reaches furthest is taken, and of several the one declared
    first. -/
def bestRule (tokens : Array (Token K)) (descend : String → Nat → Matcher K (Option (Found K)))
    (position : Nat) (best : Option (Candidate K R)) (index : Nat) :
    List (Rule K R) → Matcher K (Option (Candidate K R))
  | [] => return best
  | rule :: rest => do
    if rule.canStartWith (kindAt tokens position) then
      match ← sequence tokens descend rule.clauses position with
      | some (children, stop) =>
        bestRule tokens descend position (some (better best ⟨index, rule, children, stop⟩))
          (index + 1) rest
      | none => bestRule tokens descend position best (index + 1) rest
    else bestRule tokens descend position best (index + 1) rest

/-- The node of a candidate. -/
def Candidate.found (candidate : Candidate K R) (name : String) : Found K :=
  (.node
    { name
      rule := candidate.index
      isBypass := candidate.rule.isBypass
      isGroup := candidate.rule.isSubrule
      isExpression := candidate.rule.isExpression }
    candidate.children,
   candidate.stop)

/-- Matches a non-terminal by its rules. When none of them can start, what they
    could start with is what was expected. -/
def attempt (grammar : Grammar K R) (tokens : Array (Token K))
    (descend : String → Nat → Matcher K (Option (Found K))) (name : String) (position : Nat) :
    Matcher K (Option (Found K)) := do
  match grammar.find? name with
  | none => return none
  | some nonTerminal =>
    if nonTerminal.rules.any fun rule => rule.canStartWith (kindAt tokens position) then
      let best ← bestRule tokens descend position none 0 nonTerminal.rules
      return best.map fun candidate => candidate.found name
    else
      mismatch position nonTerminal.leading
      return none

/-- Looks an outcome up before it is worked out, and keeps it afterwards. -/
def remembered (name : String) (position : Nat) (work : Matcher K (Option (Found K))) :
    Matcher K (Option (Found K)) := do
  match (← get).memo with
  | none => work
  | some table =>
    match table[(name, position)]? with
    | some outcome => return outcome
    | none =>
      let outcome ← work
      modify fun progress =>
        { progress with
          memo := progress.memo.map fun table => table.insert (name, position) outcome }
      return outcome

/-- Matches a non-terminal, with at most `depth` non-terminals inside each other. -/
def nonTerminal (grammar : Grammar K R) (tokens : Array (Token K)) :
    Nat → String → Nat → Matcher K (Option (Found K))
  | 0, _, _ => throw .tooDeep
  | depth + 1, name, position =>
    remembered name position (attempt grammar tokens (nonTerminal grammar tokens depth)
      name position)

/-- Without left recursion each non-terminal is entered at most once at a place
    before another token is matched. -/
def maxDepth (grammar : Grammar K R) (tokens : Array (Token K)) : Nat :=
  (tokens.size + 1) * (grammar.nonTerminals.length + 1)

/-- Why the tokens are not matched: the token at which this shows, and the kinds
    that could have stood there instead, none when only the end could. -/
inductive Failure (K : Type) [DecidableEq K] [TokenKind K] where
  | unexpected (token : Token K) (expected : KindSet K)
  | fault (fault : Fault)

/-- The failure when `position` was reached: the furthest mismatch, unless it lies before. -/
def failureAt (tokens : Array (Token K)) (furthest : Option (Nat × KindSet K)) (position : Nat) :
    Failure K :=
  let (place, expected) := match furthest with
    | some (place, expected) => if position ≤ place then (place, expected) else (position, ∅)
    | none => (position, ∅)
  match tokens[place]? with
  | some token => .unexpected token expected
  | none => .fault (.outOfRange place)

/-- Matches all tokens but the last one, which marks the end, as the
    non-terminal `start`, by descent through a flat and analysed grammar. Every
    mismatch is noted with its place, and only those furthest to the right are
    kept; they say what was expected there. Outcomes can be remembered by
    non-terminal and place, which changes nothing but the number of steps. -/
def parse (grammar : Grammar K R) (tokens : Array (Token K)) (memoize : Bool) (start : String) :
    Except (Failure K) (SyntaxTree K) :=
  let progress : Progress K := { memo := if memoize then some ∅ else none }
  match (nonTerminal grammar tokens (maxDepth grammar tokens) start 0).run progress with
  | .error fault => .error (.fault fault)
  | .ok (some (tree, stop), progress) =>
    if tokens.size - 1 ≤ stop then .ok tree else .error (failureAt tokens progress.furthest stop)
  | .ok (none, progress) => .error (failureAt tokens progress.furthest 0)

end GrammarKit.Matching
