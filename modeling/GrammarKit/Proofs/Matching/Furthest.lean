import GrammarKit.Proofs.Matching.Overlooked

namespace GrammarKit.Matching

variable {K R : Type} [DecidableEq K] [TokenKind K]

/-- Whether a place is the furthest one of some mismatches, and the kinds are
    those that were expected there. -/
structure IsFurthest (mismatches : List (Mismatch K)) (place : Nat) (kinds : KindSet K) : Prop where
  exists_mem : ∃ mismatch ∈ mismatches, mismatch.position = place
  position_le : ∀ mismatch ∈ mismatches, mismatch.position ≤ place
  mem_iff : ∀ kind, kind ∈ kinds ↔ ∃ mismatch ∈ mismatches, mismatch.position = place ∧
    kind ∈ mismatch.expected

namespace IsFurthest

variable {mismatches : List (Mismatch K)} {place : Nat} {kinds : KindSet K}

theorem singleton (mismatch : Mismatch K) :
    IsFurthest [mismatch] mismatch.position mismatch.expected :=
  ⟨by simp, by simp, by simp⟩

/-- One mismatch more is at the furthest place, in front of it, or behind it. -/
theorem further (hfurthest : IsFurthest mismatches place kinds) (mismatch : Mismatch K) :
    ∃ other set, Matching.further (some (place, kinds)) mismatch.position mismatch.expected =
      some (other, set) ∧
      IsFurthest (mismatches ++ [mismatch]) other set := by
  obtain ⟨known, hknown, hplace⟩ := hfurthest.exists_mem
  have hle := hfurthest.position_le
  simp only [Matching.further]
  rcases Nat.lt_trichotomy place mismatch.position with hlt | heq | hlt
  · rw [if_neg (Nat.ne_of_lt hlt), if_neg (Nat.lt_asymm hlt)]
    refine ⟨_, _, rfl, ⟨mismatch, by simp, rfl⟩, fun other hother => ?_, fun kind => ?_⟩
    · rcases List.mem_append.1 hother with hother | hother
      · exact (hle other hother).trans (Nat.le_of_lt hlt)
      · rw [List.mem_singleton.1 hother]
    · have hnone (other : Mismatch K) (hother : other ∈ mismatches) :
          other.position ≠ mismatch.position :=
        Nat.ne_of_lt (Nat.lt_of_le_of_lt (hle other hother) hlt)
      grind
  · rw [if_pos heq]
    refine ⟨_, _, rfl, ⟨known, by simp [hknown], hplace⟩, fun other hother => ?_, fun kind => ?_⟩
    · rcases List.mem_append.1 hother with hother | hother
      · exact hle other hother
      · rw [List.mem_singleton.1 hother, heq]
    · rw [KindSet.mem_union, hfurthest.mem_iff]
      grind
  · rw [if_neg (Nat.ne_of_gt hlt), if_pos hlt]
    refine ⟨_, _, rfl, ⟨known, by simp [hknown], hplace⟩, fun other hother => ?_, fun kind => ?_⟩
    · rcases List.mem_append.1 hother with hother | hother
      · exact hle other hother
      · rw [List.mem_singleton.1 hother]
        exact Nat.le_of_lt hlt
    · rw [hfurthest.mem_iff]
      grind

/-- The furthest of all mismatches is what is left when all were noted. -/
theorem noted (hfurthest : IsFurthest mismatches place kinds) (later : List (Mismatch K)) :
    ∃ other set, Matching.noted (some (place, kinds)) later = some (other, set) ∧
      IsFurthest (mismatches ++ later) other set := by
  induction later generalizing mismatches place kinds with
  | nil => exact ⟨place, kinds, rfl, by rwa [List.append_nil]⟩
  | cons mismatch rest ih =>
    obtain ⟨other, set, hother, hfurther⟩ := hfurthest.further mismatch
    rw [Matching.noted, List.foldl_cons, hother, List.append_cons]
    exact ih hfurther

end IsFurthest

/-- Where something is missed there is a furthest place. -/
theorem exists_noted {mismatches : List (Mismatch K)} (hne : mismatches ≠ []) :
    ∃ place kinds, noted none mismatches = some (place, kinds) ∧
      IsFurthest mismatches place kinds := by
  cases mismatches with
  | nil => exact absurd rfl hne
  | cons first rest => exact (IsFurthest.singleton first).noted rest

/-- The failure at a place, if there is a token. -/
def failureOf (tokens : Array (Token K)) (place : Nat) (expected : KindSet K) : Failure K :=
  match tokens[place]? with
  | some token => .unexpected token expected
  | none => .fault (.outOfRange place)

/-- A failure is at the furthest mismatch or at the place that was reached, with
    all that was expected there. -/
theorem exists_failureOf (tokens : Array (Token K)) (mismatches : List (Mismatch K))
    (position : Nat) :
    ∃ place expected,
      failureAt tokens (noted none mismatches) position = failureOf tokens place expected ∧
      position ≤ place ∧ (∀ mismatch ∈ mismatches, mismatch.position ≤ place) ∧
        (place = position ∨ ∃ mismatch ∈ mismatches, mismatch.position = place) ∧
          ∀ kind, kind ∈ expected ↔ ∃ mismatch ∈ mismatches, mismatch.position = place ∧
            kind ∈ mismatch.expected := by
  by_cases hne : mismatches = []
  · subst hne
    exact ⟨position, ∅, rfl, Nat.le_refl _, by simp, Or.inl rfl, by simp⟩
  · obtain ⟨place, kinds, hnoted, hfurthest⟩ := exists_noted hne
    rw [hnoted]
    by_cases hle : position ≤ place
    · refine ⟨place, kinds, ?_, hle, hfurthest.position_le, Or.inr hfurthest.exists_mem,
        hfurthest.mem_iff⟩
      simp only [failureAt, if_pos hle]
      rfl
    · refine ⟨position, ∅, ?_, Nat.le_refl _, fun mismatch hmem => ?_, Or.inl rfl, fun kind => ?_⟩
      · simp only [failureAt, if_neg hle]
        rfl
      · have hplace := hfurthest.position_le mismatch hmem
        omega
      · refine iff_of_false (KindSet.not_mem_empty kind) ?_
        rintro ⟨mismatch, hmem, hposition, -⟩
        have hplace := hfurthest.position_le mismatch hmem
        omega

/-- Whether a clause is flat and refers only to what has rules. -/
def Goal.IsClosed (grammar : Grammar K R) (goal : Goal K) : Prop :=
  goal.clause.isFlat = true ∧ ∀ name ∈ goal.clause.references, grammar.rulesOf name ≠ []

namespace Run

/-- The places where the start ends and where clauses fail that are tried on the way. -/
def reached (run : Run K R) (start : String) : Set Nat :=
  {place | run.stop? (.ofName start) 0 = some place ∨ ∃ part, run.Tried start part place ∧
    run.stop? part place = none}

variable {run : Run K R} {start : String} {place stop : Nat}

/-- A goal is missed at its place. -/
theorem Misses.position_eq {goal : Goal K} {mismatch : Mismatch K}
    (hmisses : run.Misses goal mismatch) :
    mismatch.position = goal.place := by
  cases hmisses <;> rfl

/-- The start is a closed goal if it has rules. -/
theorem isClosed_start {grammar : Grammar K R} (hstart : grammar.rulesOf start ≠ []) :
    Goal.IsClosed grammar ⟨.ofName start, place⟩ := by
  refine ⟨rfl, fun name hname => ?_⟩
  obtain rfl : name = start := by simpa [Clause.ofName, Clause.references] using hname
  exact hstart

/-- What a closed goal tries is closed. -/
theorem Tries.isClosed (hflat : run.grammar.IsFlat) (hclosed : run.grammar.IsClosed)
    {goal next : Goal K} (htries : run.Tries goal next) (hgoal : Goal.IsClosed run.grammar goal) :
    Goal.IsClosed run.grammar next := by
  cases htries with
  | @rule _ _ _ _ _ rule before after part hrule hclauses =>
    have hpart : part ∈ rule.clauses := hclauses ▸ List.mem_append_right _ List.mem_cons_self
    exact ⟨hflat _ hrule.1 part hpart, fun name hname =>
      hclosed _ hrule.1 name (Clause.mem_referencesIn.2 ⟨part, hpart, hname⟩)⟩
  | option | zeroOrMore | again | oneOrMore | more => exact hgoal

/-- What is missed fails. -/
theorem Misses.stop?_eq_none (hacyclic : run.grammar.leftRecursions = []) {goal : Goal K}
    {mismatch : Mismatch K} (hmisses : run.Misses goal mismatch) :
    run.stop? goal.clause goal.place = none := by
  cases hmisses with
  | terminal hkind => rw [stop?_terminal, if_neg hkind]
  | nonTerminal _ hnone =>
    refine Option.eq_none_iff_forall_ne_some.2 fun stop hstop => ?_
    obtain ⟨rule, htries, -⟩ := exists_rule_of_stop? hacyclic hstop
    exact hnone rule htries

/-- Where clauses in a row fail, one of them does behind some that matched. -/
theorem exists_of_stopAll?_eq_none {clauses : List (Clause K)}
    (hnone : run.stopAll? clauses place = none) :
    ∃ before part after stop, clauses = before ++ part :: after ∧
      run.stopAll? before place = some stop ∧
      run.stop? part stop = none := by
  induction clauses generalizing place with
  | nil => cases hnone
  | cons first rest ih =>
    cases hfirst : run.stop? first place with
    | none => exact ⟨[], first, rest, place, rfl, rfl, hfirst⟩
    | some middle =>
      rw [stopAll?, hfirst] at hnone
      obtain ⟨before, part, after, stop, rfl, hbefore, hpart⟩ := ih hnone
      exact ⟨first :: before, part, after, stop,
        rfl, by rw [stopAll?, hfirst]; exact hbefore, hpart⟩

/-- Where a clause fails, something is missed on the way at its place or behind. -/
theorem exists_misses (hacyclic : run.grammar.leftRecursions = []) (hflat : run.grammar.IsFlat)
    (hclosed : run.grammar.IsClosed) (goal : Goal K) (hgoal : Goal.IsClosed run.grammar goal)
    (hnone : run.stop? goal.clause goal.place = none) :
    ∃ other mismatch, Relation.ReflTransGen run.Tries goal other ∧ run.Misses other mismatch ∧
      goal.place ≤ other.place := by
  revert hgoal hnone
  refine induct (motive := fun goal => Goal.IsClosed run.grammar goal →
    run.stop? goal.clause goal.place = none →
    ∃ other mismatch, Relation.ReflTransGen run.Tries goal other ∧ run.Misses other mismatch ∧
      goal.place ≤ other.place) hacyclic ?_ goal
  rintro ⟨part, place⟩ ih hgoal hnone
  replace ih (next : Goal K) (hnext : run.Tries ⟨part, place⟩ next)
      (hfails : run.stop? next.clause next.place = none) :
      ∃ other mismatch, Relation.ReflTransGen run.Tries ⟨part, place⟩ other ∧
        run.Misses other mismatch ∧
        place ≤ other.place := by
    obtain ⟨other, mismatch, hway, hmisses, hle⟩ :=
      ih next hnext (hnext.isClosed hflat hclosed hgoal) hfails
    exact ⟨other, mismatch, hway.head hnext, hmisses, hnext.place_le.trans hle⟩
  cases part with
  | terminal kind discarded =>
    have hkind : kindAt run.tokens place ≠ some kind := by
      rintro hkind
      simp [stop?_terminal, hkind] at hnone
    exact ⟨_, _, .refl, .terminal hkind, Nat.le_refl _⟩
  | nonTerminal name role discarded =>
    by_cases hrules : ∃ rule, run.TriesRule name place rule
    · obtain ⟨rule, htries⟩ := hrules
      cases hstop : run.stopAll? rule.clauses place with
      | none =>
        obtain ⟨before, part, after, stop, hclauses, hbefore, hpart⟩ :=
          exists_of_stopAll?_eq_none hstop
        exact ih _ (.rule htries hclauses hbefore) hpart
      | some stop =>
        obtain ⟨last, hlast, -⟩ := exists_stop?_of_rule hacyclic role discarded htries hstop
        simp [hlast] at hnone
    · cases hfind : run.grammar.find? name with
      | none =>
        have hdeclared := hgoal.2 name (by simp [Clause.references])
        rw [Grammar.rulesOf, hfind] at hdeclared
        exact absurd rfl hdeclared
      | some nonTerminal =>
        exact ⟨_, _, .refl, .nonTerminal hfind (not_exists.1 hrules), Nat.le_refl _⟩
  | option => simp [stop?_option] at hnone
  | zeroOrMore inner discarded =>
    obtain ⟨stop, hstop⟩ := exists_stop?_zeroOrMore run inner discarded place
    simp [hstop] at hnone
  | oneOrMore inner discarded =>
    cases hinner : run.stop? inner place with
    | none => exact ih _ .oneOrMore hinner
    | some stop =>
      obtain ⟨last, hlast⟩ := exists_stop?_zeroOrMore run inner discarded stop
      simp [stop?_oneOrMore, hinner, hlast] at hnone
  | group => cases hgoal.1
  | choice => cases hgoal.1

/-- What is found where a start is matched: how far it reaches at most, and what
    is missed there. Where a clause fails something was found missing at its
    place or behind, so the furthest of all places where something was missed
    lies behind everything that was tried, or the start ends there. -/
structure Reports (run : Run K R) (start : String) (place : Nat) (expected : KindSet K) : Prop where
  stop_le : ∀ stop, run.stop? (.ofName start) 0 = some stop → stop ≤ place
  place_le : ∀ part other mismatch, run.Tried start part other → run.Misses ⟨part, other⟩ mismatch →
    other ≤ place
  reached : run.stop? (.ofName start) 0 = some place ∨
    ∃ part mismatch, run.Tried start part place ∧ run.Misses ⟨part, place⟩ mismatch
  mem_expected_iff : ∀ kind, kind ∈ expected ↔
    ∃ part mismatch, run.Tried start part place ∧ run.Misses ⟨part, place⟩ mismatch ∧
      kind ∈ mismatch.expected

section Bounds

variable (hacyclic : run.grammar.leftRecursions = []) (hflat : run.grammar.IsFlat)
    (hclosed : run.grammar.IsClosed)

include hacyclic hflat hclosed

/-- Clauses in a row go on as far as they reach, or something is missed behind the place. -/
theorem exists_stopAll?_or_misses {goal : Goal K} (hgoal : Goal.IsClosed run.grammar goal)
    {clauses : List (Clause K)}
    (htries : ∀ before part after stop, clauses = before ++ part :: after →
      run.stopAll? before place = some stop → run.Tries goal ⟨part, stop⟩) :
    (∃ stop, run.stopAll? clauses place = some stop ∧ place ≤ stop) ∨
      ∃ other mismatch, Relation.ReflTransGen run.Tries goal other ∧ run.Misses other mismatch ∧
        place ≤ other.place := by
  cases hstop : run.stopAll? clauses place with
  | some stop => exact Or.inl ⟨stop, rfl, le_stopAll? hstop⟩
  | none =>
    obtain ⟨before, part, after, stop, hclauses, hbefore, hpart⟩ := exists_of_stopAll?_eq_none hstop
    have hnext := htries before part after stop hclauses hbefore
    obtain ⟨other, mismatch, hway, hmisses, hle⟩ :=
      exists_misses hacyclic hflat hclosed _ (hnext.isClosed hflat hclosed hgoal) hpart
    exact Or.inr ⟨other, mismatch, hway.head hnext, hmisses, (le_stopAll? hbefore).trans hle⟩

/-- Nothing that a goal tries is, or ends, behind all of the places that the
    goal reaches and where it misses something. -/
theorem Tries.place_le_bound {goal next : Goal K} {bound : Nat} (htries : run.Tries goal next)
    (hgoal : Goal.IsClosed run.grammar goal) (hplace : goal.place ≤ bound)
    (hstop : ∀ stop, run.stop? goal.clause goal.place = some stop → stop ≤ bound)
    (hmissed : ∀ other mismatch, Relation.ReflTransGen run.Tries goal other →
      run.Misses other mismatch → other.place ≤ bound) :
    next.place ≤ bound ∧ ∀ stop, run.stop? next.clause next.place = some stop → stop ≤ bound := by
  cases htries with
  | @rule name role discarded place middle rule before after part hrule hclauses hbefore =>
    have hdone {done rest : List (Clause K)} {stop : Nat} (hsplit : rule.clauses = done ++ rest)
        (hreached : run.stopAll? done place = some stop) : stop ≤ bound := by
      have hnext (first : List (Clause K)) (part : Clause K) (after : List (Clause K))
          (middle : Nat) (hrest : rest = first ++ part :: after) (hfirst : run.stopAll? first stop =
            some middle) : run.Tries ⟨.nonTerminal name role discarded, place⟩ ⟨part, middle⟩ := by
        refine .rule hrule (by rw [hsplit, hrest, List.append_assoc]) ?_
        rw [stopAll?_append, hreached]
        exact hfirst
      rcases exists_stopAll?_or_misses hacyclic hflat hclosed hgoal hnext with
        ⟨last, hlast, hle⟩ | ⟨other, mismatch, hway, hmisses, hle⟩
      · obtain ⟨final, hfinal, hlonger⟩ := exists_stop?_of_rule hacyclic role discarded hrule
          (by rw [hsplit, stopAll?_append, hreached]; exact hlast)
        have hbound := hstop final hfinal
        omega
      · exact hle.trans (hmissed other mismatch hway hmisses)
    refine ⟨hdone hclauses hbefore, fun stop hpart => ?_⟩
    refine hdone (hclauses.trans (List.append_cons before part after)) ?_
    rw [stopAll?_append, hbefore]
    exact (stopAll?_singleton part middle).trans hpart
  | @option inner discarded place =>
    refine ⟨hplace, fun stop hinner => hstop stop ?_⟩
    rw [stop?_option, hinner]
    rfl
  | @zeroOrMore inner discarded place hlimit =>
    refine ⟨hplace, fun stop hinner => ?_⟩
    rcases Nat.lt_or_ge place stop with hlt | hle
    · obtain ⟨last, hlast⟩ := exists_stop?_zeroOrMore run inner discarded stop
      exact (le_stop? hlast).trans
        (hstop last ((stop?_again discarded hlimit hinner hlt).trans hlast))
    · exact hle.trans hplace
  | @again inner discarded place stop hlimit hinner hlt =>
    have hmore (last : Nat) (hlast : run.stop? (.zeroOrMore inner discarded) stop = some last) :
        last ≤ bound :=
      hstop last ((stop?_again discarded hlimit hinner hlt).trans hlast)
    obtain ⟨last, hlast⟩ := exists_stop?_zeroOrMore run inner discarded stop
    exact ⟨(le_stop? hlast).trans (hmore last hlast), hmore⟩
  | @oneOrMore inner discarded place =>
    refine ⟨hplace, fun stop hinner => ?_⟩
    obtain ⟨last, hlast⟩ := exists_stop?_zeroOrMore run inner discarded stop
    refine (le_stop? hlast).trans (hstop last ?_)
    rw [stop?_oneOrMore, hinner]
    exact hlast
  | @more inner discarded place stop hinner =>
    have hmore (last : Nat) (hlast : run.stop? (.zeroOrMore inner discarded) stop = some last) :
        last ≤ bound := by
      refine hstop last ?_
      rw [stop?_oneOrMore, hinner]
      exact hlast
    obtain ⟨last, hlast⟩ := exists_stop?_zeroOrMore run inner discarded stop
    exact ⟨(le_stop? hlast).trans (hmore last hlast), hmore⟩

/-- No clause is tried behind the place of a report, and none ends there. -/
theorem Reports.bounds (hstart : run.grammar.rulesOf start ≠ []) {expected : KindSet K}
    (hreports : run.Reports start place expected) {goal : Goal K}
    (hway : Relation.ReflTransGen run.Tries ⟨.ofName start, 0⟩ goal) :
    Goal.IsClosed run.grammar goal ∧ goal.place ≤ place ∧
      ∀ stop, run.stop? goal.clause goal.place = some stop → stop ≤ place := by
  induction hway with
  | refl => exact ⟨isClosed_start hstart, Nat.zero_le _, hreports.stop_le⟩
  | @tail goal next hway htries ih =>
    obtain ⟨hgoal, hplace, hstop⟩ := ih
    refine ⟨htries.isClosed hflat hclosed hgoal, ?_⟩
    exact htries.place_le_bound hacyclic hflat hclosed hgoal hplace hstop
      fun other mismatch hother hmisses =>
      hreports.place_le other.clause other.place mismatch (hway.trans hother) hmisses

end Bounds

section Rejection

variable {grammar : Grammar K R} {tokens : Array (Token K)} {expected : KindSet K}

theorem stop?_start : (predictive grammar tokens).stop? (.ofName start) 0 =
    (Plain.outcome (.predictive tokens) grammar tokens start 0).value.map Prod.snd := by
  rw [stop?, outcome, Clause.ofName, Plain.value_nonTerminal_clause, Option.map_map]
  rfl

/-- What is missed by the start is missed by something that is tried on the way. -/
theorem mem_mismatches_start (hacyclic : grammar.leftRecursions = []) {mismatch : Mismatch K} :
    mismatch ∈ (Plain.outcome (.predictive tokens) grammar tokens start 0).mismatches ↔
      ∃ part, (predictive grammar tokens).Tried start part mismatch.position ∧
        (predictive grammar tokens).Misses ⟨part, mismatch.position⟩ mismatch := by
  have hiff := @mem_mismatches_iff _ _ _ _ (predictive grammar tokens) mismatch hacyclic
    ⟨.ofName start, 0⟩
  rw [outcome, Clause.ofName, Plain.clause, Outcome.mismatches_bind, Outcome.mismatches_pure,
    List.append_nil] at hiff
  refine hiff.trans ⟨?_, ?_⟩
  · rintro ⟨⟨part, other⟩, hway, hmisses⟩
    obtain rfl : mismatch.position = other := hmisses.position_eq
    exact ⟨part, hway, hmisses⟩
  · rintro ⟨part, hway, hmisses⟩
    exact ⟨_, hway, hmisses⟩

/-- The furthest place among mismatches and the end of a match is that of the report. -/
theorem reports_of_mismatches (hacyclic : grammar.leftRecursions = [])
    (hstop : ∀ stop, (predictive grammar tokens).stop? (.ofName start) 0 = some stop → stop ≤ place)
    (hmost : ∀ mismatch ∈ (Plain.outcome (.predictive tokens) grammar tokens start 0).mismatches,
      mismatch.position ≤ place)
    (hreached : (predictive grammar tokens).stop? (.ofName start) 0 = some place ∨
      ∃ mismatch ∈ (Plain.outcome (.predictive tokens) grammar tokens start 0).mismatches,
      mismatch.position = place)
    (hexpected : ∀ kind, kind ∈ expected ↔
      ∃ mismatch ∈ (Plain.outcome (.predictive tokens) grammar tokens start 0).mismatches,
      mismatch.position = place ∧ kind ∈ mismatch.expected) :
    (predictive grammar tokens).Reports start place expected where
  stop_le := hstop
  place_le part other mismatch htried hmisses := by
    obtain rfl : mismatch.position = other := hmisses.position_eq
    exact hmost mismatch ((mem_mismatches_start hacyclic).2 ⟨part, htried, hmisses⟩)
  reached := by
    refine hreached.imp_right ?_
    rintro ⟨mismatch, hmem, rfl⟩
    obtain ⟨part, htried, hmisses⟩ := (mem_mismatches_start hacyclic).1 hmem
    exact ⟨part, mismatch, htried, hmisses⟩
  mem_expected_iff kind := by
    rw [hexpected]
    constructor
    · rintro ⟨mismatch, hmem, rfl, hkind⟩
      obtain ⟨part, htried, hmisses⟩ := (mem_mismatches_start hacyclic).1 hmem
      exact ⟨part, mismatch, htried, hmisses, hkind⟩
    · rintro ⟨part, mismatch, htried, hmisses, hkind⟩
      obtain rfl : mismatch.position = place := hmisses.position_eq
      exact ⟨mismatch, (mem_mismatches_start hacyclic).2 ⟨part, htried, hmisses⟩, rfl, hkind⟩

/-- A result that is an error is the failure at the place that was reached. -/
theorem exists_of_resultOf_eq_error {outcome : Outcome K (Option (Found K))} {failure : Failure K}
    (hresult : resultOf tokens outcome = .error failure) :
    ∃ position, failure = failureAt tokens (noted none outcome.mismatches) position ∧
      (outcome.value.map Prod.snd = some position ∨ outcome.value.map Prod.snd = none ∧
        position = 0) := by
  rw [resultOf] at hresult
  cases hvalue : outcome.value with
  | none =>
    rw [hvalue] at hresult
    exact ⟨0, (Except.error.inj hresult).symm, Or.inr ⟨rfl, rfl⟩⟩
  | some found =>
    rw [hvalue] at hresult
    dsimp only at hresult
    split at hresult
    · cases hresult
    · exact ⟨found.2, (Except.error.inj hresult).symm, Or.inl rfl⟩

/-- There is a token at the place of a report, as neither the end of a match nor
    a mismatch is behind the last one. -/
theorem Reports.lt_size (hacyclic : grammar.leftRecursions = []) (hends : EndsOnce tokens)
    (hreports : (predictive grammar tokens).Reports start place expected) :
    place < tokens.size := by
  rcases hreports.reached with hstop | ⟨part, mismatch, htried, hmisses⟩
  · rw [stop?_start, Option.map_eq_some_iff] at hstop
    obtain ⟨⟨tree, _⟩, hvalue, rfl⟩ := hstop
    exact (Plain.outcome_sound start 0 tree _ hvalue).stop_lt_size hends hends.size_pos
  · obtain rfl : mismatch.position = place := hmisses.position_eq
    have hmem := (mem_mismatches_start hacyclic).2 ⟨part, htried, hmisses⟩
    exact Plain.nonTerminal_within _ hends _ start 0 hends.size_pos mismatch hmem

/-- A rejection names the token at the place of the report on what was tried,
    and what was expected there. -/
theorem exists_reports (hflat : grammar.IsFlat) (hacyclic : grammar.leftRecursions = [])
    (hclosed : grammar.IsClosed) (hends : EndsOnce tokens) (hstart : grammar.rulesOf start ≠ [])
    {memoize : Bool} {failure : Failure K}
    (hparse : parse grammar tokens memoize start = .error failure) :
    ∃ place token expected, failure = .unexpected token expected ∧ tokens[place]? = some token ∧
      (predictive grammar tokens).Reports start place expected := by
  have hresult := (parse_eq_resultOf hflat hacyclic memoize start).symm.trans hparse
  obtain ⟨position, hfailure, hvalue⟩ := exists_of_resultOf_eq_error hresult
  rw [← stop?_start] at hvalue
  obtain ⟨place, expected, heq, hle, hmost, hplace, hexpected⟩ := exists_failureOf tokens
    (Plain.outcome (.predictive tokens) grammar tokens start 0).mismatches position
  rw [heq, failureOf] at hfailure
  have hreports : (predictive grammar tokens).Reports start place expected := by
    refine reports_of_mismatches hacyclic (fun stop hstop => ?_) hmost ?_ hexpected
    · rcases hvalue with hsome | ⟨hnone, -⟩
      · rwa [← Option.some.inj (hsome.symm.trans hstop)]
      · cases hnone.symm.trans hstop
    · rcases hvalue with hsome | ⟨hnone, rfl⟩
      · rcases hplace with rfl | hmismatch
        · exact Or.inl hsome
        · exact Or.inr hmismatch
      · rcases hplace with rfl | hmismatch
        · obtain ⟨⟨part, other⟩, mismatch, hway, hmisses, -⟩ :=
            @exists_misses _ _ _ _ (predictive grammar tokens) hacyclic hflat hclosed
            ⟨.ofName start, 0⟩ (isClosed_start hstart) hnone
          obtain rfl : mismatch.position = other := hmisses.position_eq
          have hmem := (mem_mismatches_start hacyclic).2 ⟨part, hway, hmisses⟩
          exact Or.inr ⟨mismatch, hmem, Nat.le_zero.1 (hmost mismatch hmem)⟩
        · exact Or.inr hmismatch
  have hlt := hreports.lt_size hacyclic hends
  have htoken := Array.getElem?_eq_getElem hlt
  rw [htoken] at hfailure
  exact ⟨place, tokens[place], expected, hfailure, htoken, hreports⟩

section Exhaustive

variable (hflat : grammar.IsFlat) (hacyclic : grammar.leftRecursions = [])
    (hanalysed : grammar.IsAnalysed) (hclosed : grammar.IsClosed) (hends : EndsOnce tokens)
    (hstart : grammar.rulesOf start ≠ []) {limit : Nat} (hlimit : tokens.size - 1 ≤ limit)
    (hreports : (predictive grammar tokens).Reports start place expected)

include hflat hacyclic hanalysed hclosed hends hstart hlimit hreports

/-- No clause is tried behind the place of a report when nothing is passed over. -/
theorem Reports.le_place {part : Clause K} {other : Nat}
    (htried : (exhaustive grammar tokens limit).Tried start part other) : other ≤ place := by
  have hbounds {part : Clause K} {other : Nat}
      (htried : (predictive grammar tokens).Tried start part other) :
      other ≤ place := (hreports.bounds hacyclic hflat hclosed hstart htried).2.1
  rcases tried_or_overlooks hanalysed hends hlimit hacyclic htried with htried |
    ⟨clauses, hoverlooks, -⟩
  · exact hbounds htried
  · cases hoverlooks with
    | rule htried => exact hbounds htried
    | item htried => exact hbounds htried

/-- Nothing that was passed over could have led behind the place of the report. -/
theorem Reports.isGreatest :
    IsGreatest ((exhaustive grammar tokens limit).reached start) place := by
  have hsame := stop?_exhaustive hanalysed hends hlimit hacyclic
  refine ⟨?_, fun other hother => ?_⟩
  · rcases hreports.reached with hstop | ⟨part, mismatch, htried, hmisses⟩
    · exact Or.inl ((hsame _ _).trans hstop)
    · refine Or.inr ⟨part, htried.exhaustive hanalysed hends hlimit hacyclic, ?_⟩
      exact (hsame _ _).trans (hmisses.stop?_eq_none hacyclic)
  · rcases hother with hstop | ⟨part, htried, -⟩
    · exact hreports.stop_le other ((hsame _ _).symm.trans hstop)
    · exact hreports.le_place hflat hacyclic hanalysed hclosed hends hstart hlimit htried

end Exhaustive

end Rejection

end Run

/-- Tokens that are rejected are so with one error. It is at the furthest place
    of all where the start could end or a clause fails when nothing is passed
    over, whether outcomes are remembered or not. -/
theorem parse_error_furthest {grammar : Grammar K R} {tokens : Array (Token K)}
    (hflat : grammar.IsFlat) (hacyclic : grammar.leftRecursions = [])
    (hanalysed : grammar.IsAnalysed) (hclosed : grammar.IsClosed) (hends : EndsOnce tokens)
    {start : String} (hstart : grammar.rulesOf start ≠ []) {memoize : Bool} {failure : Failure K}
    (hparse : parse grammar tokens memoize start = .error failure) {limit : Nat}
    (hlimit : tokens.size - 1 ≤ limit) :
    ∃ place token expected, failure = .unexpected token expected ∧ tokens[place]? = some token ∧
      IsGreatest ((Run.exhaustive grammar tokens limit).reached start) place := by
  obtain ⟨place, token, expected, hfailure, htoken, hreports⟩ :=
    Run.exists_reports hflat hacyclic hclosed hends hstart hparse
  exact ⟨place, token, expected, hfailure, htoken,
    hreports.isGreatest hflat hacyclic hanalysed hclosed hends hstart hlimit⟩

namespace Sample

/-- A gap without a word behind it. -/
def gap : Array (Token (Kind signs)) := #[.ofSpan blank " " ⟨0, 0, 0⟩, .endOfStream ⟨1, 0, 1⟩]

theorem endsOnce_gap : EndsOnce gap := ⟨by decide, by decide⟩

theorem gap_eq_some {place : Nat} (htoken : gap[place]? = some (.endOfStream ⟨1, 0, 1⟩)) :
    place = 1 := by
  obtain ⟨hplace, hsame⟩ := Array.getElem?_eq_some_iff.1 htoken
  have hends := (endsOnce_gap.isEndOfStream_iff place hplace).1 (by rw [hsame]; rfl)
  exact Nat.succ.inj hends

theorem isClosed_looseText : looseText.IsClosed := by decide

theorem rulesOf_looseText : looseText.rulesOf "text" ≠ [] := by decide

theorem parse_gap :
    parse looseText gap true "text" = .error
      (.unexpected (.endOfStream ⟨1, 0, 1⟩) (.singleton word)) := by
  have hflat : looseText.IsFlat := isFlat_text _
  -- Evaluated without a table, from which the result is the same.
  rw [parse_eq_resultOf hflat leftRecursions_looseText, ← parse_eq_resultOf hflat
    leftRecursions_looseText false]
  with_unfolding_all rfl

end Sample

/-- The text could end in front of the gap, but a word is missed behind it. -/
theorem parse_error_furthest_gap :
    Sample.looseText.IsFlat ∧ Sample.looseText.leftRecursions = [] ∧ Sample.looseText.IsAnalysed ∧
      Sample.looseText.IsClosed ∧ EndsOnce Sample.gap ∧ Sample.looseText.rulesOf "text" ≠ [] ∧
        Sample.gap.size - 1 ≤ 4 ∧
          parse Sample.looseText Sample.gap true "text" =
            .error (.unexpected (.endOfStream ⟨1, 0, 1⟩) (.singleton Sample.word)) ∧
          IsGreatest ((Run.exhaustive Sample.looseText Sample.gap 4).reached "text") 1 := by
  refine ⟨Sample.isFlat_text _, Sample.leftRecursions_looseText, Grammar.isAnalysed_analyse _,
    Sample.isClosed_looseText, Sample.endsOnce_gap, Sample.rulesOf_looseText, by
      decide, Sample.parse_gap, ?_⟩
  obtain ⟨place, token, expected, hfailure, htoken, hgreatest⟩ :=
    parse_error_furthest (Sample.isFlat_text _) Sample.leftRecursions_looseText
      (Grammar.isAnalysed_analyse _) Sample.isClosed_looseText Sample.endsOnce_gap
      Sample.rulesOf_looseText Sample.parse_gap (by decide : Sample.gap.size - 1 ≤ 4)
  obtain ⟨rfl, rfl⟩ := Failure.unexpected.inj hfailure
  rwa [← Sample.gap_eq_some htoken]

end GrammarKit.Matching
