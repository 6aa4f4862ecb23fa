import GrammarKit.Matching

namespace GrammarKit.Matching

variable {K R : Type} [DecidableEq K] [TokenKind K]

/-- A place where something did not match, and the kinds that were expected there. -/
structure Mismatch (K : Type) [DecidableEq K] [TokenKind K] where
  position : Nat
  expected : KindSet K

/-- A value with the mismatches that were met before it was known. -/
structure Outcome (K : Type) [DecidableEq K] [TokenKind K] (α : Type) where
  value : α
  mismatches : List (Mismatch K)

namespace Outcome

variable {α β : Type}

instance : Monad (Outcome K) where
  pure a := ⟨a, []⟩
  bind outcome next := ⟨(next outcome.value).value,
    outcome.mismatches ++ (next outcome.value).mismatches⟩

@[simp] theorem value_pure (a : α) : (pure a : Outcome K α).value = a := rfl

@[simp] theorem mismatches_pure (a : α) : (pure a : Outcome K α).mismatches = [] := rfl

@[simp] theorem value_bind (outcome : Outcome K α) (next : α → Outcome K β) :
    (outcome >>= next).value = (next outcome.value).value := rfl

@[simp] theorem mismatches_bind (outcome : Outcome K α) (next : α → Outcome K β) :
    (outcome >>= next).mismatches = outcome.mismatches ++ (next outcome.value).mismatches := rfl

instance : LawfulMonad (Outcome K) := by
  refine LawfulMonad.mk' _ ?_ ?_ ?_
  · intro α outcome
    change Outcome.mk outcome.value (outcome.mismatches ++ []) = outcome
    rw [List.append_nil]
  · intro α β a next
    rfl
  · intro α β γ outcome next later
    change Outcome.mk _ _ = Outcome.mk _ _
    simp only [value_bind, mismatches_bind, List.append_assoc]

/-- Only the value and the mismatches of what came before matter to what follows. -/
theorem bind_congr {first second : Outcome K α} {next later : α → Outcome K β}
    (houtcome : first = second) (hnext : next second.value = later second.value) :
    first >>= next = second >>= later := by
  subst houtcome
  change Outcome.mk _ _ = Outcome.mk _ _
  rw [hnext]

end Outcome

/-- Which rules are tried in front of a token, and from which place on
    repetitions try no more. -/
structure Strategy (K R : Type) [DecidableEq K] [TokenKind K] where
  tries : Rule K R → Option K → Bool
  limit : Nat

/-- Tries the rules that can start, and ends repetitions in front of the last token. -/
def Strategy.predictive (tokens : Array (Token K)) : Strategy K R where
  tries := Rule.canStartWith
  limit := tokens.size - 1

namespace Plain

/-- How non-terminals are matched at places. -/
abbrev Descent (K : Type) [DecidableEq K] [TokenKind K] := String → Nat → Outcome K
    (Option (Found K))

/-- Matches a token. -/
def terminal (tokens : Array (Token K)) (kind : K) (discarded : Bool) (position : Nat) :
    Outcome K (Option (Found K)) :=
  match tokens[position]? with
  | some token =>
    if token.kind = some kind then ⟨some (.leaf token discarded, position + 1), []⟩
    else ⟨none, [⟨position, .singleton kind⟩]⟩
  | none => ⟨none, [⟨position, .singleton kind⟩]⟩

/-- Repeats a match until `limit` is reached, until it fails, or until it takes no token. -/
def repeated (limit : Nat) (once : Nat → Outcome K (Option (Found K))) (position : Nat) :
    Outcome K (List (SyntaxTree K) × Nat) := do
  if _hlimit : position < limit then
    match ← once position with
    | some (tree, stop) =>
      if _hstop : position < stop then
        let (trees, last) ← repeated limit once stop
        return (tree :: trees, last)
      else return ([], position)
    | none => return ([], position)
  else return ([], position)
termination_by limit - position

/-- An option that holds what was found, or nothing. -/
def optional (shape : Shape) (discarded : Bool) (position : Nat) : Option (Found K) → Found K
  | some (tree, stop) => (.present shape tree discarded, stop)
  | none => (.absent shape discarded, position)

/-- Matches a clause, where `descend` matches non-terminals. -/
def clause (limit : Nat) (tokens : Array (Token K)) (descend : Descent K) :
    Clause K → Nat → Outcome K (Option (Found K))
  | .terminal kind discarded, position => terminal tokens kind discarded position
  | .nonTerminal name _ discarded, position => do
    return (← descend name position).map fun (tree, stop) => (tree.setDiscarded discarded, stop)
  | .option inner discarded, position => do
    return some (optional inner.shape discarded position
      (← clause limit tokens descend inner position))
  | .zeroOrMore inner discarded, position => do
    let (trees, stop) ← repeated limit (clause limit tokens descend inner) position
    return some (.many inner.shape trees discarded, stop)
  | .oneOrMore inner discarded, position => do
    match ← clause limit tokens descend inner position with
    | some (tree, next) =>
      let (trees, stop) ← repeated limit (clause limit tokens descend inner) next
      return some (.many inner.shape (tree :: trees) discarded, stop)
    | none => return none
  | .group .., _ => return none
  | .choice .., _ => return none

/-- Matches clauses one after the other. -/
def sequence (limit : Nat) (tokens : Array (Token K)) (descend : Descent K) :
    List (Clause K) → Nat → Outcome K (Option (List (SyntaxTree K) × Nat))
  | [], position => return some ([], position)
  | first :: rest, position => do
    match ← clause limit tokens descend first position with
    | some (tree, next) =>
      return (← sequence limit tokens descend rest next).map fun (trees, stop) =>
        (tree :: trees, stop)
    | none => return none

/-- Tries the clauses of a rule, unless it is left out. -/
def tried (strategy : Strategy K R) (tokens : Array (Token K)) (descend : Descent K)
    (position : Nat) (rule : Rule K R) : Outcome K (Option (List (SyntaxTree K) × Nat)) :=
  if strategy.tries rule (kindAt tokens position) then
    sequence strategy.limit tokens descend rule.clauses position
  else pure none

/-- The candidates among rules that begin with the one at `index`. -/
def candidates (strategy : Strategy K R) (tokens : Array (Token K)) (descend : Descent K)
    (position : Nat) :
    Nat → List (Rule K R) → Outcome K (List (Candidate K R))
  | _, [] => return []
  | index, rule :: rest => do
    let found ← tried strategy tokens descend position rule
    let later ← candidates strategy tokens descend position (index + 1) rest
    return (found.map fun (children, stop) => ⟨index, rule, children, stop⟩).toList ++ later

/-- The best of the candidates and of one that was declared before them. -/
def best (first : Option (Candidate K R)) (candidates : List (Candidate K R)) :
    Option (Candidate K R) :=
  candidates.foldl (fun best candidate => some (better best candidate)) first

/-- Matches a non-terminal by its rules. -/
def attempt (strategy : Strategy K R) (grammar : Grammar K R) (tokens : Array (Token K))
    (descend : Descent K) (name : String) (position : Nat) : Outcome K (Option (Found K)) :=
  match grammar.find? name with
  | none => return none
  | some nonTerminal =>
    if nonTerminal.rules.any fun rule => strategy.tries rule (kindAt tokens position) then do
      let found ← candidates strategy tokens descend position 0 nonTerminal.rules
      return (best none found).map fun candidate => candidate.found name
    else ⟨none, [⟨position, nonTerminal.leading⟩]⟩

/-- Matches a non-terminal without a memory, with at most so many non-terminals
    inside each other; below that nothing is found. All mismatches are listed in
    the order in which they were met. -/
def nonTerminal (strategy : Strategy K R) (grammar : Grammar K R) (tokens : Array (Token K)) :
    Nat → Descent K
  | 0, _, _ => return none
  | depth + 1, name, position =>
    attempt strategy grammar tokens (nonTerminal strategy grammar tokens depth) name position

section Values

variable {limit : Nat} {tokens : Array (Token K)} {descend : Descent K} {strategy : Strategy K R}

/-- A rule is tried if it can start with the next token. -/
theorem tried_predictive (position : Nat) (rule : Rule K R) :
    tried (.predictive tokens) tokens descend position rule =
      if rule.canStartWith (kindAt tokens position) then
        sequence (tokens.size - 1) tokens descend rule.clauses position
      else pure none := rfl

/-- Where no rule can start, what they could start with is missed. -/
theorem attempt_predictive {grammar : Grammar K R} {name : String} {nonTerminal : NonTerminal K R}
    (hfind : grammar.find? name = some nonTerminal) (position : Nat) :
    attempt (.predictive tokens) grammar tokens descend name position =
      if nonTerminal.rules.any fun rule => rule.canStartWith (kindAt tokens position) then do
        let found ← candidates (.predictive tokens) tokens descend position 0 nonTerminal.rules
        return (best none found).map fun candidate => candidate.found name
      else ⟨none, [⟨position, nonTerminal.leading⟩]⟩ := by
  simp only [attempt, hfind]
  rfl

/-- What a repetition finds goes on as long as a token is taken. -/
theorem value_repeated (once : Nat → Outcome K (Option (Found K))) (position : Nat) :
    (repeated limit once position).value =
      if position < limit then
        match (once position).value with
        | some (tree, stop) =>
          if position < stop then
            (tree :: (repeated limit once stop).value.1, (repeated limit once stop).value.2)
          else ([], position)
        | none => ([], position)
      else ([], position) := by
  rw [repeated]
  split
  · rw [Outcome.value_bind]
    split
    · split <;> rfl
    · rfl
  · rfl

theorem value_nonTerminal_clause (name : String) (role : Role) (discarded : Bool) (position : Nat) :
    (clause limit tokens descend (.nonTerminal name role discarded) position).value =
      (descend name position).value.map fun found => (found.1.setDiscarded discarded, found.2) :=
  rfl

theorem value_option (inner : Clause K) (discarded : Bool) (position : Nat) :
    (clause limit tokens descend (.option inner discarded) position).value =
      some (optional inner.shape discarded position
        (clause limit tokens descend inner position).value) := rfl

/-- A repetition finds its items. -/
theorem value_zeroOrMore (inner : Clause K) (discarded : Bool) (position : Nat) :
    (clause limit tokens descend (.zeroOrMore inner discarded) position).value =
      some (.many inner.shape
        (repeated limit (clause limit tokens descend inner) position).value.1 discarded,
        (repeated limit (clause limit tokens descend inner) position).value.2) := rfl

/-- A repetition that may not be empty finds a first item and those behind it. -/
theorem value_oneOrMore (inner : Clause K) (discarded : Bool) (position : Nat) :
    (clause limit tokens descend (.oneOrMore inner discarded) position).value =
      (clause limit tokens descend inner position).value.map fun first =>
        (.many inner.shape (first.1 :: (repeated limit (clause limit tokens descend inner)
          first.2).value.1) discarded,
          (repeated limit (clause limit tokens descend inner) first.2).value.2) := by
  rw [clause, Outcome.value_bind]
  cases (clause limit tokens descend inner position).value <;> rfl

/-- Clauses in a row find one tree each. -/
theorem value_sequence_cons (first : Clause K) (rest : List (Clause K)) (position : Nat) :
    (sequence limit tokens descend (first :: rest) position).value =
      (clause limit tokens descend first position).value.bind fun head =>
        (sequence limit tokens descend rest head.2).value.map fun tail =>
          (head.1 :: tail.1, tail.2) := by
  rw [sequence, Outcome.value_bind]
  cases (clause limit tokens descend first position).value <;> rfl

/-- The candidates are the rules that match, each with its place. -/
theorem mem_candidates_iff {position index : Nat} {rules : List (Rule K R)}
    {candidate : Candidate K R} :
    candidate ∈ (candidates strategy tokens descend position index rules).value ↔
      index ≤ candidate.index ∧ rules[candidate.index - index]? = some candidate.rule ∧
        (tried strategy tokens descend position candidate.rule).value =
          some (candidate.children, candidate.stop) := by
  induction rules generalizing index with
  | nil => simp [candidates]
  | cons rule rest ih =>
    obtain ⟨place, owner, children, stop⟩ := candidate
    rw [candidates, Outcome.value_bind, Outcome.value_bind, Outcome.value_pure, List.mem_append, ih,
      Option.mem_toList, Option.map_eq_some_iff]
    dsimp only
    constructor
    · rintro (⟨found, hfound, heq⟩ | ⟨hplace, hrule, hfound⟩)
      · cases heq
        exact ⟨Nat.le_refl _, by simp, hfound⟩
      · refine ⟨by omega, ?_, hfound⟩
        rwa [show place - index = place - (index + 1) + 1 by omega, List.getElem?_cons_succ]
    · rintro ⟨hplace, hrule, hfound⟩
      rcases Nat.eq_or_lt_of_le hplace with rfl | hplace
      · obtain rfl : rule = owner := by simpa using hrule
        exact Or.inl ⟨(children, stop), hfound, rfl⟩
      · rw [show place - index = place - (index + 1) + 1 by omega, List.getElem?_cons_succ] at hrule
        exact Or.inr ⟨hplace, hrule, hfound⟩

/-- Where no rule is tried there is no candidate, so the outcome is the best
    candidate in any case. -/
theorem value_attempt {grammar : Grammar K R} {name : String} {nonTerminal : NonTerminal K R}
    (hfind : grammar.find? name = some nonTerminal) (position : Nat) :
    (attempt strategy grammar tokens descend name position).value =
      (best none (candidates strategy tokens descend position 0 nonTerminal.rules).value).map
        fun candidate => candidate.found name := by
  simp only [attempt, hfind]
  split
  · rfl
  · next hnone =>
    have hnil : (candidates strategy tokens descend position 0 nonTerminal.rules).value = [] := by
      refine List.eq_nil_iff_forall_not_mem.2 fun candidate hmem => hnone ?_
      obtain ⟨_, hrule, hfound⟩ := mem_candidates_iff.1 hmem
      rw [tried] at hfound
      split at hfound
      · next htries => exact List.any_eq_true.2 ⟨candidate.rule, List.mem_of_getElem? hrule, htries⟩
      · cases hfound
    rw [hnil]
    rfl

/-- The better of two candidates is the second one only if that reaches further. -/
theorem better_eq_or (first : Option (Candidate K R)) (candidate : Candidate K R) :
    better first candidate = candidate ∨ first = some (better first candidate) := by
  cases first with
  | none => exact Or.inl rfl
  | some first =>
    simp only [better]
    split
    · exact Or.inl rfl
    · exact Or.inr rfl

/-- The better candidate reaches as far as each. -/
theorem stop_le_better (first : Option (Candidate K R)) (candidate : Candidate K R) :
    candidate.stop ≤ (better first candidate).stop ∧
      ∀ other, first = some other → other.stop ≤ (better first candidate).stop := by
  cases first with
  | none => simp [better]
  | some first =>
    simp only [better, Option.some.injEq, forall_eq']
    split <;> omega

/-- The best candidate is one of those there are and reaches at least as far as all of them. -/
theorem best_spec {first : Option (Candidate K R)} {candidates : List (Candidate K R)}
    {chosen : Candidate K R} (hbest : best first candidates = some chosen) :
    (first = some chosen ∨ chosen ∈ candidates) ∧
      (∀ other, first = some other → other.stop ≤ chosen.stop) ∧
      ∀ other ∈ candidates, other.stop ≤ chosen.stop := by
  induction candidates generalizing first with
  | nil =>
    obtain rfl : first = some chosen := hbest
    simp
  | cons candidate rest ih =>
    obtain ⟨hmem, hle, hrest⟩ := ih hbest
    obtain ⟨hcandidate, hfirst⟩ := stop_le_better first candidate
    have hbetter := hle _ rfl
    refine ⟨?_, fun other hother => Nat.le_trans (hfirst other hother) hbetter,
      fun other hother => ?_⟩
    · rcases hmem with hmem | hmem
      · obtain rfl := Option.some.inj hmem
        rcases better_eq_or first candidate with heq | heq
        · exact Or.inr (by rw [heq]; exact List.mem_cons_self)
        · exact Or.inl heq
      · exact Or.inr (List.mem_cons_of_mem _ hmem)
    · rcases List.mem_cons.1 hother with rfl | hother
      · exact Nat.le_trans hcandidate hbetter
      · exact hrest other hother

/-- Among candidates there is a best one. -/
theorem isSome_best_of_mem {candidates : List (Candidate K R)} {candidate : Candidate K R}
    (hmem : candidate ∈ candidates) : ∃ chosen, best none candidates = some chosen := by
  have hsome (first : Candidate K R) (candidates : List (Candidate K R)) :
      (best (some first) candidates).isSome = true := by
    induction candidates generalizing first with
    | nil => rfl
    | cons next rest ih => exact ih _
  cases candidates with
  | nil => cases hmem
  | cons first rest => exact Option.isSome_iff_exists.1 (hsome _ rest)

end Values

end Plain

end GrammarKit.Matching
