import GrammarKit.Proofs.Grammar.Chain
import GrammarKit.Proofs.Matching.Completeness

namespace GrammarKit.Matching

open Grammar Precedence

variable {K R : Type} [DecidableEq K] [TokenKind K] {tokens : Array (Token K)} {position : Nat}
    {word later : List K}

namespace Plain

variable {descend : Descent K}

section Longest

variable {grammar : Grammar K R} (hanalysed : grammar.IsAnalysed) (hends : EndsOnce tokens)
  (hsound : descend.Sound grammar tokens)
  (hdescend : ∀ name position,
    descend name position = attempt (.predictive tokens) grammar tokens descend name position)
include hanalysed hends hsound hdescend

/-- A non-terminal matches what one of its rules matches, unless it can match more. -/
theorem reaches_of_longest {name : String} {role : Role} {discarded : Bool} {rule : Rule K R}
    (hrule : (name, rule) ∈ grammar.rules) (hposition : position < tokens.size)
    (hkinds : kindsFrom tokens position = word ++ later)
    (hreaches : Reaches tokens descend rule.clauses position (position + word.length))
    (hlongest : ∀ taken, grammar.Yields [.nonTerminal name role discarded] taken →
      taken <+: word ++ later → taken.length ≤ word.length) :
    Reaches tokens descend [.nonTerminal name role discarded] position
      (position + word.length) := by
  have hyields : grammar.Yields rule.clauses word := by
    obtain ⟨trees, hreads⟩ := hreaches.reads hsound
    obtain ⟨taken, hyields, htaken, hlength⟩ := hreads.yields
    exact (List.append_inj (htaken.symm.trans hkinds) (by omega)).1 ▸ hyields
  obtain ⟨nonTerminal, hfind, hmem⟩ := Grammar.mem_rules_iff.1 hrule
  obtain ⟨index, hindex⟩ := List.getElem?_of_mem hmem
  obtain ⟨chosen, hattempt, -, -, hle, -⟩ :=
    exists_candidate hanalysed hends hfind hindex hyields hposition hkinds hreaches
  have hfound : Reaches tokens descend [.nonTerminal name role discarded] position chosen.stop :=
    reaches_singleton_iff.2 ⟨_, by rw [value_nonTerminal_clause, hdescend, hattempt]; rfl⟩
  obtain ⟨trees, hreads⟩ := hfound.reads hsound
  obtain ⟨taken, htakenYields, htaken, hlength⟩ := hreads.yields
  have hmost := hlongest taken htakenYields ⟨_, htaken.symm.trans hkinds⟩
  have hstop : chosen.stop = position + word.length := by omega
  exact hstop ▸ hfound

/-- An operator is matched by a clause that offers it. -/
theorem reaches_operator {operator : Clause K} {kind : K} {kinds : List K}
    (hoffers : grammar.Offers kind operator) (hchoice : grammar.IsTokenChoice kinds operator)
    (hposition : position < tokens.size) (hkinds : kindsFrom tokens position = kind :: later) :
    Reaches tokens descend [operator] position (position + 1) := by
  have hterminal : Reaches tokens descend [.ofKind kind] position (position + 1) := by
    refine reaches_terminal ?_
    rw [hends.kindAt_eq_head? hposition, hkinds, List.head?_cons]
  rcases hoffers with rfl | ⟨name, rfl, rule, hrule, hclauses, -⟩
  · exact hterminal
  · show Reaches tokens descend _ position (position + [kind].length)
    refine reaches_of_longest hanalysed hends hsound hdescend hrule hposition hkinds ?_ ?_
    · rw [hclauses]
      exact hterminal
    · intro taken hyields _
      obtain ⟨_, -, rfl⟩ := hchoice.exists_of_yields hyields
      rfl

end Longest

section Chain

variable {layering : Layering K R} {kind : K} (hchain : layering.IsChain kind)
    (hends : EndsOnce tokens) (hsound : descend.Sound layering.grammar tokens)
    (hdescend : ∀ name position,
      descend name position =
        attempt (.predictive tokens) layering.grammar tokens descend name position)
include hchain hends hsound hdescend

/-- The layers from one on match chains of their operators up to the first other
    kind, although the next token does not decide which rule of a layer applies.
    Nothing stops short, for the rule that fits the chain is among those that
    are tried. Nothing runs long, for all that a layer can match is a chain, and
    a longer one would go on with an operator. -/
theorem reaches_chain {lower levels : List Nat}
    (hlevels : precedences layering.operations = lower ++ levels)
    (halternates : Alternates kind (kindsAt layering.operations levels) word)
    (hlater : ∀ other ∈ later.head?, other ∉ kindsAt layering.operations levels)
    (hposition : position < tokens.size) (hkinds : kindsFrom tokens position = word ++ later) :
    Reaches tokens descend [.ofName (layerBefore layering.root layering.operand levels)] position
      (position + word.length) := by
  have hanalysed : layering.grammar.IsAnalysed := isAnalysed_analyse _
  induction levels generalizing lower word later position with
  | nil =>
    obtain ⟨rule, hrule⟩ := hchain.exists_operand_rule
    obtain ⟨discarded, hclauses⟩ := hchain.operand_rule hrule
    obtain rfl : word = [kind] := by
      cases halternates with
      | single => rfl
      | cons hnone => simp [kindsAt] at hnone
    refine reaches_of_longest hanalysed hends hsound hdescend hrule hposition hkinds ?_ ?_
    · rw [hclauses]
      refine reaches_terminal ?_
      rw [hends.kindAt_eq_head? hposition, hkinds]
      rfl
    · intro taken hyields htaken
      exact halternates.length_le (hchain.alternates hlevels hyields) htaken hlater
  | cons precedence higher ih =>
    have hnext : LeadsTo layering.root layering.operand layering.operations precedence _ :=
      ⟨lower, higher, hlevels, rfl⟩
    have habove : precedences layering.operations = (lower ++ [precedence]) ++ higher := by
      simpa using hlevels
    -- the right operand of an operator belongs to the same layer, and is shorter
    induction hlength : word.length using Nat.strongRecOn generalizing word later position with
    | _ length ihLength =>
      suffices hrules : ∃ rule, (layerName layering.root precedence, rule) ∈
        layering.grammar.rules ∧
          Reaches tokens descend rule.clauses position (position + word.length) by
        obtain ⟨rule, hrule, hreaches⟩ := hrules
        rw [← hlength]
        refine reaches_of_longest hanalysed hends hsound hdescend hrule hposition hkinds hreaches ?_
        intro taken hyields htaken
        exact halternates.length_le (hchain.alternates hlevels hyields) htaken hlater
      rcases halternates.split fun other => mem_kindsAt_cons.1 with
        hall | ⟨first, operator, rest, rfl, hfirst, hoperator, hrest⟩
      · obtain ⟨rule, hrule, -, hclauses⟩ := hchain.exists_bypass (Or.inl ⟨precedence, rfl, hnext⟩)
        refine ⟨rule, hrule, ?_⟩
        rw [hclauses]
        exact ih habove hall (fun other hother hmem =>
          hlater other hother (mem_kindsAt_cons.2 (Or.inr hmem))) hposition
          hkinds
      · obtain ⟨operation, hoperation, hlevel, rfl⟩ := mem_kindsAt.1 hoperator
        obtain rfl : operation.precedence = precedence := List.mem_singleton.1 hlevel
        obtain ⟨rule, clause, kinds, hrule, hclauses, hoffers, hchoice⟩ :=
          hchain.isLayered.offers hoperation hnext
        rw [hchain.affix_eq operation hoperation] at hclauses
        refine ⟨rule, hrule, ?_⟩
        rw [hclauses]
        rw [List.append_assoc, List.cons_append] at hkinds
        have hleft := ih habove hfirst
          (by simpa using hchain.not_mem_kindsAt_higher hlevels hoperator) hposition hkinds
        refine hleft.append hends hsound hposition hkinds fun place hplace hbehind => ?_
        have hbetween : Reaches tokens descend [clause] place (place + [operation.kind].length) :=
          reaches_operator hanalysed hends hsound hdescend hoffers hchoice hplace hbehind
        refine hbetween.append hends hsound hplace hbehind fun place hplace hbehind => ?_
        exact ihLength rest.length (by simp [← hlength]; omega) hrest hlater hplace hbehind rfl

/-- The root matches a chain that takes all tokens but the last one. -/
theorem reaches_root
    (halternates : Alternates kind (layering.operations.map fun operation => operation.kind)
      (kindsFrom tokens 0)) :
    Reaches tokens descend [.ofName layering.root] 0 (0 + (kindsFrom tokens 0).length) := by
  have hkinds : kindsFrom tokens 0 = kindsFrom tokens 0 ++ [] := (List.append_nil _).symm
  have hall : Alternates kind (kindsAt layering.operations (precedences layering.operations))
      (kindsFrom tokens 0) := by
    refine halternates.mono fun other hother => ?_
    obtain ⟨operation, hoperation, rfl⟩ := List.mem_map.1 hother
    exact mem_kindsAt.2 ⟨operation, hoperation, mem_precedences.2 ⟨operation, hoperation, rfl⟩, rfl⟩
  have hlayers := reaches_chain hchain hends hsound hdescend (List.nil_append _).symm hall
    (by simp) hends.size_pos hkinds
  obtain ⟨next, hnext⟩ := hchain.exists_passesTo_root
  obtain ⟨rule, hrule, -⟩ := hchain.exists_bypass hnext
  refine reaches_of_longest (isAnalysed_analyse _) hends hsound hdescend hrule hends.size_pos hkinds
    ?_ ?_
  · rw [hchain.root_rule hrule]
    exact hlayers
  · intro taken _ htaken
    exact (List.append_nil _ ▸ htaken).length_le

end Chain

end Plain

/-- Chains of operators are accepted, and nothing else is. -/
theorem parse_root_eq_ok_iff {layering : Layering K R} {kind : K} (hchain : layering.IsChain kind)
    (hflat : layering.grammar.IsFlat) (hacyclic : layering.grammar.leftRecursions = [])
    (hends : EndsOnce tokens) (memoize : Bool) :
    (∃ tree, parse layering.grammar tokens memoize layering.root = .ok tree) ↔
      Alternates kind (layering.operations.map fun operation => operation.kind)
        (tokens.toList.dropLast.filterMap Token.kind) := by
  rw [exists_parse_eq_ok_iff hflat hacyclic hends, ← hends.kindsFrom_zero]
  constructor
  · intro hreaches
    rw [hends.kindsFrom_zero]
    exact hchain.alternates_root (hreaches.yields_dropLast Plain.outcome_sound)
  · intro halternates
    have hreaches := Plain.reaches_root hchain hends Plain.outcome_sound
      (Plain.outcome_eq_attempt hacyclic) halternates
    rwa [hends.kindsFrom_zero, hends.length_kinds, Nat.zero_add] at hreaches

end GrammarKit.Matching
