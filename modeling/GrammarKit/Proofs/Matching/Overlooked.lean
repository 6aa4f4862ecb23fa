import GrammarKit.Proofs.Matching.Attempts
import GrammarKit.Proofs.Matching.Exhaustive

namespace GrammarKit.Matching

variable {K R : Type} [DecidableEq K] [TokenKind K]

namespace Run

/-- The run that parses: rules that cannot start are passed over, and so are
    repetitions in front of the last token. -/
def predictive (grammar : Grammar K R) (tokens : Array (Token K)) :
    Run K R := ⟨grammar, tokens, .predictive tokens⟩

/-- A run that tries every rule of every non-terminal it enters, and every
    repetition in front of `limit`. -/
def exhaustive (grammar : Grammar K R) (tokens : Array (Token K)) (limit : Nat) : Run K R :=
  ⟨grammar, tokens, ⟨fun _ _ => true, limit⟩⟩

variable {run other : Run K R}

/-- Whether a run tries all that another one does, and nothing of the rest matches. -/
structure Extends (run other : Run K R) : Prop where
  tries {name : String} {place : Nat} {rule : Rule K R} :
    other.TriesRule name place rule → run.TriesRule name place rule
  triesRule_of_stop {name : String} {place stop : Nat} {rule : Rule K R} :
    run.TriesRule name place rule → other.stopAll? rule.clauses place = some stop →
      other.TriesRule name place rule
  limit_le : other.strategy.limit ≤ run.strategy.limit
  le_of_stop {inner : Clause K} {place stop : Nat} :
    ¬ place < other.strategy.limit → run.stop? inner place = some stop → stop ≤ place

section Congruence

/-- Clauses in a row end in the same place in two runs when each of them does
    where it is tried. -/
theorem stopAll?_congr {clauses : List (Clause K)} {place : Nat}
    (hparts : ∀ before part after stop, clauses = before ++ part :: after →
      run.stopAll? before place = some stop → run.stop? part stop = other.stop? part stop) :
    run.stopAll? clauses place = other.stopAll? clauses place := by
  induction clauses generalizing place with
  | nil => rw [stopAll?, stopAll?]
  | cons first rest ih =>
    have hfirst := hparts [] first rest place rfl rfl
    rw [stopAll?, stopAll?, ← hfirst]
    cases hstop : run.stop? first place with
    | none => rw [Option.bind_none, Option.bind_none]
    | some middle =>
      refine ih fun before part after stop hrest hbefore => ?_
      exact hparts (first :: before) part after stop (hrest ▸ rfl)
        (by rw [stopAll?, hstop]; exact hbefore)

variable (hextends : run.Extends other) (hacyclic : run.grammar.leftRecursions = [])
  (hagain : other.grammar.leftRecursions = [])

include hextends hacyclic hagain

/-- A non-terminal ends in the same place in two runs when its rules do. -/
theorem stop?_nonTerminal_congr {name : String} {role : Role} {discarded : Bool} {place : Nat}
    (hrules : ∀ rule, run.TriesRule name place rule →
      run.stopAll? rule.clauses place = other.stopAll? rule.clauses place) :
    run.stop? (.nonTerminal name role discarded) place =
      other.stop? (.nonTerminal name role discarded) place := by
  refine Option.ext fun stop => ?_
  rw [stop?_nonTerminal hacyclic, stop?_nonTerminal hagain]
  refine iff_of_eq (congrArg (IsGreatest · stop) (Set.ext fun last => exists_congr fun rule => ?_))
  constructor
  · rintro ⟨htries, hlast⟩
    rw [hrules rule htries] at hlast
    exact ⟨hextends.triesRule_of_stop htries hlast, hlast⟩
  · rintro ⟨htries, hlast⟩
    exact ⟨hextends.tries htries, (hrules rule (hextends.tries htries)).trans hlast⟩

/-- A goal is reached at the same place in two runs when that holds of all
    tokens that are looked at on the way. -/
theorem stop?_congr (goal : Goal K)
    (hterminal : ∀ kind discarded place, Relation.ReflTransGen run.Tries goal
      ⟨.terminal kind discarded, place⟩ →
      run.stop? (.terminal kind discarded) place = other.stop? (.terminal kind discarded) place) :
    run.stop? goal.clause goal.place = other.stop? goal.clause goal.place := by
  revert hterminal
  refine induct (motive := fun goal => (∀ kind discarded place,
    Relation.ReflTransGen run.Tries goal ⟨.terminal kind discarded, place⟩ →
      run.stop? (.terminal kind discarded) place = other.stop? (.terminal kind discarded) place) →
        run.stop? goal.clause goal.place = other.stop? goal.clause goal.place) hacyclic ?_ goal
  rintro ⟨part, place⟩ ih hterminal
  replace ih (next : Goal K) (hnext : run.Tries ⟨part, place⟩ next) :
      run.stop? next.clause next.place = other.stop? next.clause next.place :=
    ih next hnext fun kind discarded place hway => hterminal kind discarded place (hway.head hnext)
  dsimp only
  cases part with
  | terminal kind discarded => exact hterminal kind discarded place .refl
  | nonTerminal name role discarded =>
    refine stop?_nonTerminal_congr hextends hacyclic hagain fun rule htries => ?_
    exact stopAll?_congr fun before part after stop hclauses hbefore =>
      ih _ (.rule htries hclauses hbefore)
  | option inner discarded => rw [stop?_option, stop?_option, ih _ .option]
  | zeroOrMore inner discarded =>
    rw [stop?_zeroOrMore, stop?_zeroOrMore]
    by_cases hlimit : place < other.strategy.limit
    · have hmore := Nat.lt_of_lt_of_le hlimit hextends.limit_le
      rw [if_pos hmore, if_pos hlimit, ← ih _ (.zeroOrMore hmore)]
      cases hstop : run.stop? inner place with
      | none => simp only
      | some stop =>
        dsimp only
        split
        · next hlt => exact ih _ (.again hmore hstop hlt)
        · rfl
    · rw [if_neg hlimit]
      split
      · split
        · next hstop => rw [if_neg (Nat.not_lt.2 (hextends.le_of_stop hlimit hstop))]
        · rfl
      · rfl
  | oneOrMore inner discarded =>
    rw [stop?_oneOrMore, stop?_oneOrMore, ← ih _ .oneOrMore]
    cases hstop : run.stop? inner place with
    | none => rw [Option.bind_none, Option.bind_none]
    | some stop => exact ih _ (.more hstop)
  | group => rw [stop?_group, stop?_group]
  | choice => rw [stop?_choice, stop?_choice]

end Congruence

/-- What is tried on the way to a goal that cannot begin with the next token is
    tried at its place, and the goal begins with all that it begins with. -/
theorem Tries.of_not_begins (hends : EndsOnce run.tokens) {goal next : Goal K}
    (htries : run.Tries goal next)
    (hidle : ∀ kind, kindAt run.tokens goal.place = some kind →
      ¬ run.grammar.Begins [goal.clause] kind) :
    next.place = goal.place ∧ ∀ kind, run.grammar.Begins [next.clause] kind →
    run.grammar.Begins [goal.clause] kind := by
  cases htries with
  | rule hrule hclauses hstop =>
    obtain ⟨trees, hreads⟩ := exists_reads hstop
    rcases hreads.begins_or_yields_nil hends with ⟨kind, hkind, hbegins⟩ | ⟨hsame, hnone⟩
    · exact absurd (.nonTerminal hrule.1 (hclauses ▸ hbegins.append)) (hidle kind hkind)
    · refine ⟨hsame, fun kind hbegins => .nonTerminal hrule.1 ?_⟩
      rw [hclauses]
      exact hnone.begins_append hbegins.append
  | option => exact ⟨rfl, fun _ => .option⟩
  | zeroOrMore => exact ⟨rfl, fun _ => .zeroOrMore⟩
  | oneOrMore => exact ⟨rfl, fun _ => .oneOrMore⟩
  | again _ hstop hlt =>
    obtain ⟨tree, hreads⟩ := exists_read hstop
    rcases hreads.begins_or_yields_nil hends with ⟨kind, hkind, hbegins⟩ | ⟨hsame, -⟩
    · exact absurd (.zeroOrMore hbegins) (hidle kind hkind)
    · exact absurd hlt (hsame ▸ Nat.lt_irrefl _)
  | more hstop =>
    obtain ⟨tree, hreads⟩ := exists_read hstop
    rcases hreads.begins_or_yields_nil hends with ⟨kind, hkind, hbegins⟩ | ⟨hsame, -⟩
    · exact absurd (.oneOrMore hbegins) (hidle kind hkind)
    · refine ⟨hsame, fun kind hbegins => ?_⟩
      cases hbegins with
      | zeroOrMore hinner => exact .oneOrMore hinner
      | skip _ hnil => cases hnil

section Predictive

variable {grammar : Grammar K R} {tokens : Array (Token K)} {limit : Nat} {start : String}
    {part : Clause K} {place stop : Nat}

/-- Clauses that the parsing run passes over where it stands: those of a rule
    that cannot start, or the one of a repetition in front of the last token. -/
inductive Overlooks (grammar : Grammar K R) (tokens : Array (Token K)) (start : String) :
    List (Clause K) → Nat → Prop
  | rule {name : String} {role : Role} {discarded : Bool} {rule : Rule K R} {place : Nat} :
      (predictive grammar tokens).Tried start (.nonTerminal name role discarded) place →
        (name, rule) ∈ grammar.rules →
        rule.canStartWith (kindAt tokens place) = false →
        Overlooks grammar tokens start rule.clauses place
  | item {inner : Clause K} {discarded : Bool} {place : Nat} :
      (predictive grammar tokens).Tried start (.zeroOrMore inner discarded) place →
        ¬ place < tokens.size - 1 →
        Overlooks grammar tokens start [inner] place

variable (hanalysed : grammar.IsAnalysed) (hends : EndsOnce tokens)
    (hlimit : tokens.size - 1 ≤ limit)

include hanalysed hends

/-- What is overlooked at a place could not begin there. -/
theorem Overlooks.not_begins {clauses : List (Clause K)}
    (hoverlooks : Overlooks grammar tokens start clauses place) {kind : K}
    (hkind : kindAt tokens place = some kind) : ¬ grammar.Begins clauses kind := by
  cases hoverlooks with
  | @rule _ _ _ rule _ _ hrule hstart =>
    intro hbegins
    have hleading : kind ∈ rule.leading := hanalysed.leading_eq hrule ▸ hbegins.mem_firstOfAll
    simp [Rule.canStartWith, hkind, hleading] at hstart
  | item _ hlast => exact absurd (hends.lt_of_kindAt hkind) hlast

include hlimit

/-- To try all rules is to try more than those that can start, and nothing of
    the rest matches. -/
theorem exhaustive_extends :
    (exhaustive grammar tokens limit).Extends (predictive grammar tokens) where
  tries htries := ⟨htries.1, rfl⟩
  triesRule_of_stop htries hstop := by
    obtain ⟨trees, hreads⟩ := exists_reads hstop
    exact ⟨htries.1, hreads.canStartWith hanalysed hends htries.1⟩
  limit_le := hlimit
  le_of_stop hlast hstop := by
    obtain ⟨tree, hreads⟩ := exists_read hstop
    exact Nat.not_lt.1 (Exhaustive.not_lt_stop_of_reads hends hreads hlast)

variable (hacyclic : grammar.leftRecursions = [])

include hacyclic

/-- A clause ends in the same place when nothing is passed over. -/
theorem stop?_exhaustive (part : Clause K) (place : Nat) :
    (exhaustive grammar tokens limit).stop? part place =
      (predictive grammar tokens).stop? part place :=
  stop?_congr (exhaustive_extends hanalysed hends hlimit) hacyclic hacyclic ⟨part, place⟩
    fun kind discarded place _ => by rw [stop?_terminal, stop?_terminal]; rfl

/-- Clauses in a row end in the same place when nothing is passed over. -/
theorem stopAll?_exhaustive (clauses : List (Clause K)) (place : Nat) :
    (exhaustive grammar tokens limit).stopAll? clauses place = (predictive grammar tokens).stopAll?
      clauses place :=
  stopAll?_congr fun _ part _ stop _ _ => stop?_exhaustive hanalysed hends hlimit hacyclic part stop

/-- What is tried next is also tried when nothing is passed over. -/
theorem Tries.exhaustive {goal next : Goal K}
    (htries : (predictive grammar tokens).Tries goal next) :
    (Run.exhaustive grammar tokens limit).Tries goal next := by
  have hsame := stop?_exhaustive hanalysed hends hlimit hacyclic
  have hsameAll := stopAll?_exhaustive hanalysed hends hlimit hacyclic
  cases htries with
  | rule hrule hclauses hstop => exact .rule ⟨hrule.1, rfl⟩ hclauses ((hsameAll _ _).trans hstop)
  | option => exact .option
  | zeroOrMore hplace => exact .zeroOrMore (Nat.lt_of_lt_of_le hplace hlimit)
  | again hplace hstop hlt =>
    exact .again (Nat.lt_of_lt_of_le hplace hlimit) ((hsame _ _).trans hstop) hlt
  | oneOrMore => exact .oneOrMore
  | more hstop => exact .more ((hsame _ _).trans hstop)

/-- What is tried is also tried when nothing is passed over. -/
theorem Tried.exhaustive (htried : (predictive grammar tokens).Tried start part place) :
    (Run.exhaustive grammar tokens limit).Tried start part place :=
  Relation.ReflTransGen.mono (fun _ _ => Tries.exhaustive hanalysed hends hlimit hacyclic) _ _
    htried

/-- What is tried next from a goal of the parsing run is tried by it too, or it
    is part of what it overlooks. -/
theorem Tries.tried_or_overlooks {goal next : Goal K}
    (htried : (predictive grammar tokens).Tried start goal.clause goal.place)
    (htries : (Run.exhaustive grammar tokens limit).Tries goal next) :
    (predictive grammar tokens).Tried start next.clause next.place ∨
      ∃ clauses, Overlooks grammar tokens start clauses next.place ∧
        ∀ kind, grammar.Begins [next.clause] kind → grammar.Begins clauses kind := by
  have hsame := stop?_exhaustive hanalysed hends hlimit hacyclic
  have hsameAll := stopAll?_exhaustive hanalysed hends hlimit hacyclic
  cases htries with
  | @rule _ _ _ place _ rule _ _ _ hrule hclauses hstop =>
    cases hstart : rule.canStartWith (kindAt tokens place) with
    | true =>
      exact Or.inl
        (htried.tail (.rule ⟨hrule.1, hstart⟩ hclauses ((hsameAll _ _).symm.trans hstop)))
    | false =>
      have hoverlooks : Overlooks grammar tokens start rule.clauses place :=
        .rule htried hrule.1 hstart
      obtain ⟨trees, hreads⟩ := exists_reads hstop
      rcases hreads.begins_or_yields_nil hends with ⟨kind, hkind, hbegins⟩ | ⟨hplace, hnone⟩
      · exact absurd (hclauses ▸ hbegins.append) (hoverlooks.not_begins hanalysed hends hkind)
      · refine Or.inr ⟨rule.clauses, hplace.symm ▸ hoverlooks, fun kind hbegins => ?_⟩
        rw [hclauses]
        exact hnone.begins_append hbegins.append
  | option => exact Or.inl (htried.tail .option)
  | @zeroOrMore _ _ place =>
    by_cases hplace : place < tokens.size - 1
    · exact Or.inl (htried.tail (.zeroOrMore hplace))
    · exact Or.inr ⟨_, .item htried hplace, fun _ => id⟩
  | @again _ _ place stop _ hstop hlt =>
    have hplace : place < tokens.size - 1 := by
      by_contra hlast
      exact absurd ((exhaustive_extends hanalysed hends hlimit).le_of_stop hlast hstop)
        (Nat.not_le.2 hlt)
    exact Or.inl (htried.tail (.again hplace ((hsame _ _).symm.trans hstop) hlt))
  | oneOrMore => exact Or.inl (htried.tail .oneOrMore)
  | more hstop => exact Or.inl (htried.tail (.more ((hsame _ _).symm.trans hstop)))

/-- What is tried when nothing is passed over is tried in any case, or it is
    part of what is overlooked at its place, behind a clause that could not have
    begun there. -/
theorem tried_or_overlooks {goal : Goal K}
    (hway : Relation.ReflTransGen (Run.exhaustive grammar tokens limit).Tries
      ⟨.ofName start, 0⟩ goal) :
    (predictive grammar tokens).Tried start goal.clause goal.place ∨
      ∃ clauses, Overlooks grammar tokens start clauses goal.place ∧
        ∀ kind, grammar.Begins [goal.clause] kind → grammar.Begins clauses kind := by
  induction hway with
  | refl => exact Or.inl .refl
  | tail _ htries ih =>
    rcases ih with htried | ⟨clauses, hoverlooks, hsub⟩
    · exact htries.tried_or_overlooks hanalysed hends hlimit hacyclic htried
    · obtain ⟨hplace, hbegins⟩ := htries.of_not_begins hends fun kind hkind hbegins =>
        hoverlooks.not_begins hanalysed hends hkind (hsub kind hbegins)
      exact Or.inr ⟨clauses, hplace.symm ▸ hoverlooks, fun kind hnext =>
        hsub kind (hbegins kind hnext)⟩

end Predictive

end Run

end GrammarKit.Matching
