import GrammarKit.Proofs.Matching.Plain
import GrammarKit.Proofs.SyntaxTree.Derivation

namespace GrammarKit.Matching

/-- These are the tokens from one place up to another. -/
structure Spans {K : Type} (tokens : Array (Token K)) (start : Nat) (leaves : List (Token K))
    (stop : Nat) : Prop where
  drop_eq : tokens.toList.drop start = leaves ++ tokens.toList.drop stop
  stop_eq : stop = start + leaves.length

namespace Spans

variable {K : Type} {tokens : Array (Token K)} {start middle stop : Nat}
    {first rest : List (Token K)}

theorem refl : Spans tokens start [] start := ⟨rfl, rfl⟩

/-- Tokens up to a place and those from there on stand in a row. -/
theorem trans (hfirst : Spans tokens start first middle) (hrest : Spans tokens middle rest stop) :
    Spans tokens start (first ++ rest) stop where
  drop_eq := by rw [hfirst.drop_eq, hrest.drop_eq, List.append_assoc]
  stop_eq := by rw [hrest.stop_eq, hfirst.stop_eq, List.length_append, Nat.add_assoc]

theorem le (hspans : Spans tokens start first stop) : start ≤ stop := by
  rw [hspans.stop_eq]
  omega

/-- Who goes on from a place stays among the tokens. -/
theorem stop_le_size (hspans : Spans tokens start first stop) (hlt : start < stop) :
    stop ≤ tokens.size := by
  have hlength := congrArg List.length hspans.drop_eq
  have hstop := hspans.stop_eq
  simp only [List.length_append, List.length_drop, Array.length_toList] at hlength
  omega

/-- A match up to the last token has all tokens in front of it. -/
theorem eq_dropLast (hspans : Spans tokens 0 first (tokens.size - 1)) :
    first = tokens.toList.dropLast := by
  have hlength : first.length = tokens.size - 1 := by simpa using hspans.stop_eq.symm
  have htokens : tokens.toList = first ++ tokens.toList.drop (tokens.size - 1) := hspans.drop_eq
  rw [List.dropLast_eq_take, Array.length_toList, htokens, ← hlength, List.take_left]

end Spans

variable {K R : Type} [DecidableEq K] [TokenKind K]

/-- Trees for clauses, whose leaves are the tokens from one place up to another. -/
structure Reads (grammar : Grammar K R) (tokens : Array (Token K)) (clauses : List (Clause K))
    (start : Nat) (trees : List (SyntaxTree K)) (stop : Nat) : Prop where
  derives : grammar.Derives clauses trees
  spans : Spans tokens start (SyntaxTree.leavesIn trees) stop

/-- Clauses in a row are read one after the other. -/
theorem Reads.cons {grammar : Grammar K R} {tokens : Array (Token K)} {clause : Clause K}
    {tree : SyntaxTree K} {clauses : List (Clause K)} {trees : List (SyntaxTree K)}
    {start middle stop : Nat} (hfirst : Reads grammar tokens [clause] start [tree] middle)
    (hrest : Reads grammar tokens clauses middle trees stop) :
    Reads grammar tokens (clause :: clauses) start (tree :: trees) stop where
  derives := hfirst.derives.cons hrest.derives
  spans := by simpa [SyntaxTree.leavesIn] using hfirst.spans.trans hrest.spans

/-- A match that takes no token is a match of clauses that count as nullable. -/
theorem Reads.allNullable {grammar : Grammar K R} {tokens : Array (Token K)}
    {clauses : List (Clause K)} {start : Nat} {trees : List (SyntaxTree K)}
    (hreads : Reads grammar tokens clauses start trees start) :
    Clause.allNullable grammar.nullable.contains clauses = true := by
  have hnone : SyntaxTree.leavesIn trees = [] := by
    have hstop := hreads.spans.stop_eq
    exact List.length_eq_zero_iff.1 (by omega)
  have hyields := hreads.derives.yields
  rw [hnone] at hyields
  exact hyields.allNullable

namespace Plain

/-- What non-terminals match are derivations of theirs. -/
def Descent.Sound (grammar : Grammar K R) (tokens : Array (Token K)) (descend : Descent K) : Prop :=
  ∀ name position tree stop, (descend name position).value = some (tree, stop) →
    Reads grammar tokens [.ofName name] position [tree] stop

variable {grammar : Grammar K R} {tokens : Array (Token K)} {descend : Descent K} {limit : Nat}

/-- A token that is matched is read. -/
theorem terminal_reads {kind : K} {discarded : Bool} {position stop : Nat} {tree : SyntaxTree K}
    (hvalue : (terminal tokens kind discarded position).value = some (tree, stop)) :
    Reads grammar tokens [.terminal kind discarded] position [tree] stop := by
  unfold terminal at hvalue
  split at hvalue
  · next token htoken =>
    split at hvalue
    · next hkind =>
      cases hvalue
      obtain ⟨hlt, rfl⟩ := Array.getElem?_eq_some_iff.1 htoken
      refine ⟨.terminal hkind .nil, ?_, rfl⟩
      rw [List.drop_eq_getElem_cons (by simpa using hlt)]
      simp [SyntaxTree.leavesIn, SyntaxTree.leaves]
    · cases hvalue
  · cases hvalue

/-- The items of a repetition are read one after the other. -/
theorem repeated_reads (limit : Nat) {once : Nat → Outcome K (Option (Found K))} {inner : Clause K}
    (honce : ∀ position tree stop, (once position).value = some (tree, stop) →
      Reads grammar tokens [inner] position [tree] stop) (position : Nat) :
    (∀ item ∈ (repeated limit once position).value.1, grammar.Derives [inner] [item]) ∧
      Spans tokens position (SyntaxTree.leavesIn (repeated limit once position).value.1)
        (repeated limit once position).value.2 := by
  induction hmeasure : limit - position using Nat.strongRecOn generalizing position with
  | _ measure ih =>
    rw [value_repeated]
    split
    · next hlimit =>
      split
      · next tree stop hfound =>
        have hfirst := honce _ _ _ hfound
        split
        · next hstop =>
          obtain ⟨hitems, hspans⟩ := ih (limit - stop) (by omega) stop rfl
          refine ⟨?_, ?_⟩
          · rintro item hitem
            rcases List.mem_cons.1 hitem with rfl | hitem
            · exact hfirst.derives
            · exact hitems item hitem
          · simpa [SyntaxTree.leavesIn] using hfirst.spans.trans hspans
        · exact ⟨by simp, .refl⟩
      · exact ⟨by simp, .refl⟩
    · exact ⟨by simp, .refl⟩

/-- What a clause matches is read. -/
theorem clause_reads (hdescend : descend.Sound grammar tokens) :
    ∀ (part : Clause K) (position : Nat) (tree : SyntaxTree K) (stop : Nat),
      (clause limit tokens descend part position).value = some (tree, stop) →
        Reads grammar tokens [part] position [tree] stop
  | .terminal kind discarded, position, tree, stop, hvalue => terminal_reads hvalue
  | .nonTerminal name role discarded, position, tree, stop, hvalue => by
    rw [value_nonTerminal_clause, Option.map_eq_some_iff] at hvalue
    obtain ⟨⟨found, stop⟩, hfound, rfl, rfl⟩ := hvalue
    have hreads := hdescend _ _ _ _ hfound
    exact ⟨hreads.derives.setDiscarded role discarded, by simpa using hreads.spans⟩
  | .option inner discarded, position, tree, stop, hvalue => by
    rw [value_option] at hvalue
    cases hinner : (clause limit tokens descend inner position).value with
    | none =>
      rw [hinner] at hvalue
      cases hvalue
      exact ⟨.absent .nil, .refl⟩
    | some found =>
      obtain ⟨child, next⟩ := found
      rw [hinner] at hvalue
      cases hvalue
      have hreads := clause_reads hdescend inner position child stop hinner
      exact ⟨.present hreads.derives .nil, by simpa [SyntaxTree.leaves] using hreads.spans⟩
  | .zeroOrMore inner discarded, position, tree, stop, hvalue => by
    rw [value_zeroOrMore] at hvalue
    cases hvalue
    obtain ⟨hitems, hspans⟩ := repeated_reads limit (clause_reads hdescend inner) position
    exact ⟨.zeroOrMore hitems .nil, by simpa [SyntaxTree.leaves] using hspans⟩
  | .oneOrMore inner discarded, position, tree, stop, hvalue => by
    rw [value_oneOrMore, Option.map_eq_some_iff] at hvalue
    obtain ⟨⟨first, next⟩, hfirst, heq⟩ := hvalue
    cases heq
    have hreads := clause_reads hdescend inner position first next hfirst
    obtain ⟨hitems, hspans⟩ := repeated_reads limit (clause_reads hdescend inner) next
    refine ⟨.oneOrMore (by simp) ?_ .nil, ?_⟩
    · rintro item hitem
      rcases List.mem_cons.1 hitem with rfl | hitem
      · exact hreads.derives
      · exact hitems item hitem
    · simpa [SyntaxTree.leaves, SyntaxTree.leavesIn] using hreads.spans.trans hspans
  | .group .., _, _, _, hvalue => by cases hvalue
  | .choice .., _, _, _, hvalue => by cases hvalue

/-- What clauses in a row match is read. -/
theorem sequence_reads (hdescend : descend.Sound grammar tokens) {clauses : List (Clause K)}
    {position : Nat} {trees : List (SyntaxTree K)} {stop : Nat}
    (hvalue : (sequence limit tokens descend clauses position).value = some (trees, stop)) :
    Reads grammar tokens clauses position trees stop := by
  induction clauses generalizing position trees stop with
  | nil =>
    cases hvalue
    exact ⟨.nil, .refl⟩
  | cons first rest ih =>
    rw [value_sequence_cons, Option.bind_eq_some_iff] at hvalue
    obtain ⟨⟨tree, middle⟩, hfirst, hvalue⟩ := hvalue
    obtain ⟨⟨later, last⟩, hrest, heq⟩ := Option.map_eq_some_iff.1 hvalue
    cases heq
    exact (clause_reads hdescend first position tree middle hfirst).cons (ih hrest)

/-- What a rule matches is read. -/
theorem tried_reads {strategy : Strategy K R} (hdescend : descend.Sound grammar tokens)
    {position : Nat} {rule : Rule K R} {trees : List (SyntaxTree K)} {stop : Nat}
    (hvalue : (tried strategy tokens descend position rule).value = some (trees, stop)) :
    Reads grammar tokens rule.clauses position trees stop := by
  unfold tried at hvalue
  split at hvalue
  · exact sequence_reads hdescend hvalue
  · cases hvalue

/-- What a non-terminal matches is derived if that holds of those below it. -/
theorem attempt_sound {strategy : Strategy K R} (hdescend : descend.Sound grammar tokens) :
    Descent.Sound grammar tokens (attempt strategy grammar tokens descend) := by
  intro name position tree stop hvalue
  unfold attempt at hvalue
  split at hvalue
  · cases hvalue
  · next nonTerminal hfind =>
    split at hvalue
    · rw [Outcome.value_bind, Outcome.value_pure, Option.map_eq_some_iff] at hvalue
      obtain ⟨chosen, hbest, heq⟩ := hvalue
      cases heq
      obtain ⟨hmem, _, _⟩ := best_spec hbest
      obtain ⟨_, hrule, hfound⟩ := mem_candidates_iff.1 (hmem.resolve_left (by simp))
      have hreads := tried_reads hdescend hfound
      refine ⟨.nonTerminal (grammar.rule?_eq_some_iff.2 ⟨nonTerminal, hfind, hrule⟩)
        hreads.derives .nil, ?_⟩
      simpa [SyntaxTree.leaves] using hreads.spans
    · cases hvalue

/-- Whatever the strategy and the bound on the nesting, what is matched is
    derived, and no token is lost. -/
theorem nonTerminal_sound (strategy : Strategy K R) (grammar : Grammar K R)
    (tokens : Array (Token K)) (depth : Nat) :
    Descent.Sound grammar tokens (nonTerminal strategy grammar tokens depth) := by
  induction depth with
  | zero =>
    intro name position tree stop hvalue
    cases hvalue
  | succ depth ih => exact attempt_sound ih

end Plain

end GrammarKit.Matching
