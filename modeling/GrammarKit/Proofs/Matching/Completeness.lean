import GrammarKit.Proofs.Grammar.Lookahead
import GrammarKit.Proofs.Matching.Parse

namespace GrammarKit

/-- The kinds of the tokens from a place on. -/
def kindsFrom {K : Type} (tokens : Array (Token K)) (position : Nat) : List K :=
  (tokens.toList.drop position).filterMap Token.kind

namespace Matching

/-- The kind at a place is the first of those from there on. -/
theorem EndsOnce.kindAt_eq_head? {K : Type} {tokens : Array (Token K)} (hends : EndsOnce tokens)
    {position : Nat} (hposition : position < tokens.size) :
    kindAt tokens position = (kindsFrom tokens position).head? := by
  have hdrop : tokens.toList.drop position = tokens[position] :: tokens.toList.drop
      (position + 1) := by
    rw [List.drop_eq_getElem_cons (by simpa using hposition), Array.getElem_toList]
  have hkindAt : kindAt tokens position = tokens[position].kind := by
    simp [kindAt, Array.getElem?_eq_getElem hposition]
  rw [hkindAt, kindsFrom, hdrop]
  cases hkind : tokens[position].kind with
  | some kind => simp [hkind]
  | none =>
    have hlast := (hends.isEndOfStream_iff position hposition).1
      (by simp [Token.isEndOfStream, hkind])
    have hnil : tokens.toList.drop (position + 1) = [] := List.drop_eq_nil_of_le (by simp [hlast])
    simp [hkind, hnil]

/-- The kinds from the beginning are those of all tokens but the last one. -/
theorem EndsOnce.kindsFrom_zero {K : Type} {tokens : Array (Token K)} (hends : EndsOnce tokens) :
    kindsFrom tokens 0 = tokens.toList.dropLast.filterMap Token.kind := by
  obtain ⟨last, htokens, hkind⟩ := hends.dropLast_append
  rw [kindsFrom, List.drop_zero, htokens, List.filterMap_append, List.dropLast_concat]
  simp [hkind]

/-- There is a kind for every token but the last one. -/
theorem EndsOnce.length_kinds {K : Type} {tokens : Array (Token K)} (hends : EndsOnce tokens) :
    (tokens.toList.dropLast.filterMap Token.kind).length = tokens.size - 1 := by
  have hkinds (token : Token K) (htoken : token ∈ tokens.toList.dropLast) :
      token.kind.isSome = true := by
    obtain ⟨position, hposition, rfl⟩ := List.getElem_of_mem htoken
    rw [List.length_dropLast, Array.length_toList] at hposition
    have hmark := hends.isEndOfStream_iff position (by omega)
    rw [List.getElem_dropLast, Array.getElem_toList]
    cases hkind : tokens[position].kind with
    | some kind => rfl
    | none =>
      have hlast := hmark.1 (by simp [Token.isEndOfStream, hkind])
      omega
  rw [List.filterMap_length_eq_length.2 hkinds, List.length_dropLast, Array.length_toList]

variable {K R : Type} [DecidableEq K] [TokenKind K] {grammar : Grammar K R}
    {tokens : Array (Token K)}

/-- What is matched is a word of its clauses, and the kinds behind it are what is left. -/
theorem Reads.yields {clauses : List (Clause K)} {start stop : Nat} {trees : List (SyntaxTree K)}
    (hreads : Reads grammar tokens clauses start trees stop) :
    ∃ word, grammar.Yields clauses word ∧ kindsFrom tokens start = word ++ kindsFrom tokens stop ∧
      stop = start + word.length := by
  refine ⟨_, hreads.derives.yields, ?_, ?_⟩
  · rw [kindsFrom, hreads.spans.drop_eq, List.filterMap_append, kindsFrom]
  · have hlength : ((SyntaxTree.leavesIn trees).filterMap Token.kind).length =
        (SyntaxTree.leavesIn trees).length :=
      List.filterMap_length_eq_length.2 hreads.derives.isSome_kind
    rw [hlength]
    exact hreads.spans.stop_eq

/-- A match as long as a word at its place leaves what stands behind that word. -/
theorem Reads.kindsFrom_stop {clauses : List (Clause K)} {start : Nat} {trees : List (SyntaxTree K)}
    {word later : List K} (hreads : Reads grammar tokens clauses start trees (start + word.length))
    (hkinds : kindsFrom tokens start = word ++ later) :
    kindsFrom tokens (start + word.length) = later := by
  obtain ⟨taken, _, htaken, hlength⟩ := hreads.yields
  exact (List.append_inj (htaken.symm.trans hkinds) (by omega)).2

/-- A match begins with the token at its place, or it is a match of nothing. -/
theorem Reads.begins_or_yields_nil (hends : EndsOnce tokens) {clauses : List (Clause K)}
    {start stop : Nat} {trees : List (SyntaxTree K)}
    (hreads : Reads grammar tokens clauses start trees stop) :
    (∃ kind, kindAt tokens start = some kind ∧ grammar.Begins clauses kind) ∨
      stop = start ∧ grammar.Yields clauses [] := by
  obtain ⟨word, hyields, hkinds, hstop⟩ := hreads.yields
  cases word with
  | nil => exact Or.inr ⟨hstop, hyields⟩
  | cons kind word =>
    rw [List.length_cons] at hstop
    have hsize := hreads.spans.stop_le_size (by omega)
    refine Or.inl ⟨kind, ?_, hyields.begins⟩
    rw [hends.kindAt_eq_head? (by omega), hkinds]
    rfl

/-- A rule that matches can start with the token at its place. -/
theorem Reads.canStartWith (hanalysed : grammar.IsAnalysed) (hends : EndsOnce tokens)
    {name : String} {rule : Rule K R} (hrule : (name, rule) ∈ grammar.rules) {start stop : Nat}
    {trees : List (SyntaxTree K)} (hreads : Reads grammar tokens rule.clauses start trees stop) :
    rule.canStartWith (kindAt tokens start) = true := by
  obtain ⟨word, hyields, hkinds, hstop⟩ := hreads.yields
  refine hanalysed.canStartWith hrule hyields fun hne => ?_
  have hlength : 0 < word.length := List.length_pos_iff.2 hne
  have hsize := hreads.spans.stop_le_size (by omega)
  rw [hends.kindAt_eq_head? (by omega), hkinds, List.head?_append_of_ne_nil _ hne]

/-- A match takes nothing where its clauses cannot begin with the kinds at its place. -/
theorem Reads.stop_eq_start {clauses rest : List (Clause K)} {start stop : Nat}
    {trees : List (SyntaxTree K)} (hreads : Reads grammar tokens clauses start trees stop)
    (hrest : grammar.Yields rest (kindsFrom tokens start))
    (hdisjoint : ∀ kind, grammar.Begins clauses kind → ¬ grammar.Begins rest kind) :
    stop = start := by
  obtain ⟨word, hyields, hkinds, rfl⟩ := hreads.yields
  cases word with
  | nil => rfl
  | cons kind word =>
    rw [hkinds, List.cons_append] at hrest
    exact absurd hrest.begins (hdisjoint kind hyields.begins)

namespace Plain

variable {descend : Descent K} {position middle stop : Nat} {clauses : List (Clause K)}
    {part inner : Clause K}

/-- Clauses are matched from one place up to another. -/
def Reaches (tokens : Array (Token K)) (descend : Descent K) (clauses : List (Clause K))
    (position stop : Nat) : Prop :=
  ∃ trees, (sequence (tokens.size - 1) tokens descend clauses position).value = some (trees, stop)

/-- A clause alone is matched where it ends. -/
theorem reaches_singleton_iff :
    Reaches tokens descend [part] position stop ↔
      ∃ tree, (clause (tokens.size - 1) tokens descend part position).value =
        some (tree, stop) := by
  constructor
  · rintro ⟨trees, hvalue⟩
    rw [value_sequence_cons, Option.bind_eq_some_iff] at hvalue
    obtain ⟨⟨tree, middle⟩, hfirst, hrest⟩ := hvalue
    cases hrest
    exact ⟨tree, hfirst⟩
  · rintro ⟨tree, hvalue⟩
    exact ⟨[tree], by rw [value_sequence_cons, hvalue]; rfl⟩

/-- Clauses in a row are matched one after the other. -/
theorem Reaches.cons (hfirst : Reaches tokens descend [part] position middle)
    (hrest : Reaches tokens descend clauses middle stop) :
    Reaches tokens descend (part :: clauses) position stop := by
  obtain ⟨tree, hfirst⟩ := reaches_singleton_iff.1 hfirst
  obtain ⟨trees, hrest⟩ := hrest
  exact ⟨tree :: trees, by simp [value_sequence_cons, hfirst, hrest]⟩

/-- What is matched is read. -/
theorem Reaches.reads (hsound : descend.Sound grammar tokens)
    (hreaches : Reaches tokens descend clauses position stop) :
    ∃ trees, Reads grammar tokens clauses position trees stop := by
  obtain ⟨trees, hvalue⟩ := hreaches
  exact ⟨trees, sequence_reads hsound hvalue⟩

/-- A token is matched where it stands. -/
theorem reaches_terminal {kind : K} {discarded : Bool}
    (hkind : kindAt tokens position = some kind) :
    Reaches tokens descend [.terminal kind discarded] position (position + 1) := by
  obtain ⟨token, htoken, hkind⟩ := Option.bind_eq_some_iff.1 hkind
  refine reaches_singleton_iff.2 ⟨.leaf token discarded, ?_⟩
  simp [clause, terminal, htoken, hkind]

/-- An option is taken where its clause is matched. -/
theorem Reaches.present {discarded : Bool} (hinner : Reaches tokens descend [inner] position stop) :
    Reaches tokens descend [.option inner discarded] position stop := by
  obtain ⟨tree, hinner⟩ := reaches_singleton_iff.1 hinner
  exact reaches_singleton_iff.2 ⟨_, by rw [value_option, hinner]; rfl⟩

/-- An option is left out in front of what cannot begin it. -/
theorem reaches_absent (hsound : descend.Sound grammar tokens) {discarded : Bool}
    {rest : List (Clause K)} (hrest : grammar.Yields rest (kindsFrom tokens position))
    (hdisjoint : ∀ kind, grammar.Begins [inner] kind → ¬ grammar.Begins rest kind) :
    Reaches tokens descend [.option inner discarded] position position := by
  refine reaches_singleton_iff.2 ?_
  rw [value_option]
  cases hinner : (clause (tokens.size - 1) tokens descend inner position).value with
  | none => exact ⟨_, rfl⟩
  | some found =>
    obtain ⟨tree, stop⟩ := found
    obtain rfl := (clause_reads hsound inner position tree stop hinner).stop_eq_start
      hrest hdisjoint
    exact ⟨_, rfl⟩

/-- A repetition takes one item after the other, and stops in front of what
    cannot begin another one. Items that take no token are passed over. -/
theorem stop_repeated (hends : EndsOnce tokens) (hsound : descend.Sound grammar tokens)
    {discarded : Bool} {rest : List (Clause K)} {later : List K} (hrest : grammar.Yields rest later)
    (hdisjoint : ∀ kind, grammar.Begins [inner] kind → ¬ grammar.Begins rest kind)
    {items : List (List K)} (hyields : ∀ item ∈ items, grammar.Yields [inner] item)
    (hreaches : ∀ item ∈ items, ∀ {place : Nat} {behind : List K},
      grammar.Yields (.zeroOrMore inner discarded :: rest) behind → place < tokens.size →
      kindsFrom tokens place = item ++ behind →
      Reaches tokens descend [inner] place (place + item.length))
    (hposition : position < tokens.size)
    (hkinds : kindsFrom tokens position = items.flatten ++ later) :
    (repeated (tokens.size - 1) (clause (tokens.size - 1) tokens descend inner) position).value.2 =
      position + items.flatten.length := by
  induction items generalizing position with
  | nil =>
    rw [value_repeated]
    split
    · split
      · next tree stop hfound =>
        have hstop := (clause_reads hsound inner position tree stop hfound).stop_eq_start
          (hkinds ▸ hrest) hdisjoint
        simp [hstop]
      · rfl
    · rfl
  | cons item items ih =>
    obtain ⟨_, hyieldsItems⟩ := List.forall_mem_cons.1 hyields
    obtain ⟨hreachesItem, hreachesItems⟩ := List.forall_mem_cons.1 hreaches
    rw [List.flatten_cons, List.append_assoc] at hkinds
    cases item with
    | nil => simpa using ih hyieldsItems hreachesItems hposition hkinds
    | cons kind word =>
      have hbehind : grammar.Yields (.zeroOrMore inner discarded :: rest)
          (items.flatten ++ later) :=
        .zeroOrMore hyieldsItems hrest
      obtain ⟨tree, hfound⟩ := reaches_singleton_iff.1 (hreachesItem hbehind hposition hkinds)
      have hreads := clause_reads hsound inner position tree _ hfound
      have hnext := hreads.stop_lt_size hends hposition
      have hlimit : position < tokens.size - 1 := by
        simp only [List.length_cons] at hnext
        omega
      have hstop : position < position + (kind :: word).length := by simp
      rw [value_repeated, if_pos hlimit, hfound]
      simp only [if_pos hstop]
      rw [ih hyieldsItems hreachesItems hnext (hreads.kindsFrom_stop hkinds), List.flatten_cons,
        List.length_append, Nat.add_assoc]

/-- A repetition is matched up to where its last item ends. -/
theorem reaches_zeroOrMore {discarded : Bool} :
    Reaches tokens descend [.zeroOrMore inner discarded] position
      (repeated (tokens.size - 1) (clause (tokens.size - 1) tokens descend inner)
        position).value.2 :=
  reaches_singleton_iff.2 ⟨_, value_zeroOrMore inner discarded position⟩

/-- A repetition that may not be empty is matched if its first item is. -/
theorem Reaches.oneOrMore {discarded : Bool}
    (hfirst : Reaches tokens descend [inner] position middle) :
    Reaches tokens descend [.oneOrMore inner discarded] position
      (repeated (tokens.size - 1) (clause (tokens.size - 1) tokens descend inner)
        middle).value.2 := by
  obtain ⟨tree, hfirst⟩ := reaches_singleton_iff.1 hfirst
  exact reaches_singleton_iff.2 ⟨_, by rw [value_oneOrMore, hfirst]; rfl⟩

variable {start name : String} {role : Role} {discarded : Bool} {rule : Rule K R}
    {rest : List (Clause K)} {word later : List K}

/-- A rule that matches a word leads to a match of its non-terminal that is at least as long. -/
theorem exists_candidate (hanalysed : grammar.IsAnalysed) (hends : EndsOnce tokens)
    {nonTerminal : NonTerminal K R} (hfind : grammar.find? name = some nonTerminal) {index : Nat}
    (hrule : nonTerminal.rules[index]? = some rule) (hyields : grammar.Yields rule.clauses word)
    (hposition : position < tokens.size) (hkinds : kindsFrom tokens position = word ++ later)
    (hreaches : Reaches tokens descend rule.clauses position stop) :
    ∃ chosen : Candidate K R,
      (attempt (.predictive tokens) grammar tokens descend name position).value =
        some (chosen.found name) ∧
        nonTerminal.rules[chosen.index]? = some chosen.rule ∧
          (tried (.predictive tokens) tokens descend position chosen.rule).value =
              some (chosen.children, chosen.stop) ∧
            stop ≤ chosen.stop ∧ (chosen.index = index → chosen.stop = stop) := by
  obtain ⟨trees, hvalue⟩ := hreaches
  have hmem : rule ∈ nonTerminal.rules := List.mem_of_getElem? hrule
  have hstart : rule.canStartWith (kindAt tokens position) = true := by
    refine hanalysed.canStartWith (Grammar.mem_rules_iff.2 ⟨nonTerminal, hfind, hmem⟩)
      hyields fun hne => ?_
    rw [hends.kindAt_eq_head? hposition, hkinds]
    exact List.head?_append_of_ne_nil word hne
  have htried : (tried (.predictive tokens) tokens descend position rule).value =
      some (trees, stop) := by
    rw [tried_predictive, if_pos hstart, hvalue]
  have hcandidate : (⟨index, rule, trees, stop⟩ : Candidate K R) ∈
      (candidates (.predictive tokens) tokens descend position 0 nonTerminal.rules).value :=
    mem_candidates_iff.2 ⟨Nat.zero_le _, hrule, htried⟩
  obtain ⟨chosen, hchosen⟩ := isSome_best_of_mem hcandidate
  obtain ⟨hbest, _, hmost⟩ := best_spec hchosen
  obtain ⟨_, hchosenRule, hfound⟩ := mem_candidates_iff.1 (hbest.resolve_left (by simp))
  refine ⟨chosen, ?_, hchosenRule, hfound, hmost _ hcandidate, fun hindex => ?_⟩
  · have hany : (nonTerminal.rules.any fun rule => rule.canStartWith (kindAt tokens position)) =
        true :=
      List.any_eq_true.2 ⟨rule, hmem, hstart⟩
    rw [attempt_predictive hfind, if_pos hany, Outcome.value_bind, hchosen]
    rfl
  · subst hindex
    obtain rfl : chosen.rule = rule := Option.some.inj (hchosenRule.symm.trans hrule)
    rw [htried] at hfound
    exact (Prod.mk.inj (Option.some.inj hfound)).2.symm

/-- Where the next token decides, no other rule of a non-terminal reaches
    further than the one that derives the word. -/
theorem reaches_nonTerminal (hll1 : grammar.IsLL1 start) (hanalysed : grammar.IsAnalysed)
    (hends : EndsOnce tokens) (hsound : descend.Sound grammar tokens)
    (hdescend : descend name position = attempt (.predictive tokens) grammar tokens descend
      name position)
    (hrule : (name, rule) ∈ grammar.rules) (hyields : grammar.Yields rule.clauses word)
    (hexpects : grammar.Expects start (.nonTerminal name role discarded :: rest))
    (hrest : grammar.Yields rest later) (hposition : position < tokens.size)
    (hkinds : kindsFrom tokens position = word ++ later)
    (hreaches : Reaches tokens descend rule.clauses position (position + word.length)) :
    Reaches tokens descend [.nonTerminal name role discarded] position
      (position + word.length) := by
  obtain ⟨nonTerminal, hfind, hmem⟩ := Grammar.mem_rules_iff.1 hrule
  obtain ⟨index, hindex⟩ := List.getElem?_of_mem hmem
  obtain ⟨chosen, hattempt, hchosen, htried, hle, hsame⟩ :=
    exists_candidate hanalysed hends hfind hindex hyields hposition hkinds hreaches
  have hfound : Reaches tokens descend [.nonTerminal name role discarded] position chosen.stop :=
    reaches_singleton_iff.2 ⟨_, by rw [value_nonTerminal_clause, hdescend, hattempt]; rfl⟩
  suffices hstop : chosen.stop = position + word.length from hstop ▸ hfound
  cases word with
  | nil =>
    obtain ⟨trees, hreads⟩ := hfound.reads hsound
    refine hreads.stop_eq_start (by simpa [hkinds] using hrest) fun kind hbegins hfollows => ?_
    have hempty : grammar.Yields [.nonTerminal name role discarded] [] := by
      simpa using Grammar.Yields.nonTerminal hrule hyields .nil
    exact hll1.nonTerminal name role discarded hempty kind hbegins ⟨rest, hexpects, hfollows⟩
  | cons kind word =>
    obtain ⟨taken, htaken, htakenKinds, hlength⟩ := (tried_reads hsound htried).yields
    cases taken with
    | nil =>
      simp only [List.length_cons, List.length_nil] at hle hlength
      omega
    | cons other taken =>
      obtain rfl : kind = other := by
        rw [hkinds, List.cons_append, List.cons_append] at htakenKinds
        exact (List.cons.inj htakenKinds).1
      have hchosenRule : (name, chosen.rule) ∈ grammar.rules :=
        Grammar.mem_rules_iff.2 ⟨nonTerminal, hfind, List.mem_of_getElem? hchosen⟩
      have hkindRule : kind ∈ rule.leading :=
        hanalysed.leading_eq hrule ▸ hyields.begins.mem_firstOfAll
      have hkindChosen : kind ∈ chosen.rule.leading :=
        hanalysed.leading_eq hchosenRule ▸ htaken.begins.mem_firstOfAll
      exact hsame (hll1.index_eq hfind hchosen hindex hkindChosen hkindRule)

/-- A word is matched part by part. -/
theorem Reaches.append (hends : EndsOnce tokens) (hsound : descend.Sound grammar tokens)
    {first : List K} (hfirst : Reaches tokens descend [part] position (position + first.length))
    (hposition : position < tokens.size) (hkinds : kindsFrom tokens position = first ++ later)
    (hrest : ∀ place, place < tokens.size → kindsFrom tokens place = later →
      Reaches tokens descend clauses place (place + word.length)) :
    Reaches tokens descend (part :: clauses) position (position + (first ++ word).length) := by
  obtain ⟨trees, hreads⟩ := hfirst.reads hsound
  rw [List.length_append, ← Nat.add_assoc]
  exact hfirst.cons (hrest _ (hreads.stop_lt_size hends hposition) (hreads.kindsFrom_stop hkinds))

/-- In a grammar whose next token always decides, every word that clauses yield
    is matched, and nothing behind it. Matching takes as much as it can and
    never takes anything back, and there that is what any derivation takes. -/
theorem reaches_of_yields (hflat : grammar.IsFlat) (hanalysed : grammar.IsAnalysed)
    (hll1 : grammar.IsLL1 start) (hends : EndsOnce tokens) (hsound : descend.Sound grammar tokens)
    (hdescend : ∀ name position, position < tokens.size →
      descend name position = attempt (.predictive tokens) grammar tokens descend name position)
    {after : List (Clause K)} (hyields : grammar.Yields clauses word)
    (hclauses : ∀ clause ∈ clauses, clause.isFlat = true)
    (hexpects : grammar.Expects start (clauses ++ after)) (hafter : grammar.Yields after later)
    (hposition : position < tokens.size) (hkinds : kindsFrom tokens position = word ++ later) :
    Reaches tokens descend clauses position (position + word.length) := by
  induction hyields generalizing after later position with
  | nil => exact ⟨[], rfl⟩
  | @terminal kind discarded rest word hrest ih =>
    obtain ⟨_, hflatRest⟩ := List.forall_mem_cons.1 hclauses
    have hkindAt : kindAt tokens position = some kind := by
      rw [hends.kindAt_eq_head? hposition, hkinds, List.cons_append, List.head?_cons]
    have hfirst : Reaches tokens descend [.terminal kind discarded] position
        (position + [kind].length) :=
      reaches_terminal hkindAt
    exact hfirst.append hends hsound hposition hkinds fun place => ih hflatRest hexpects.drop hafter
  | @nonTerminal name role discarded rule rest first word hrule hyieldsRule hrest ihRule ihRest =>
    obtain ⟨_, hflatRest⟩ := List.forall_mem_cons.1 hclauses
    rw [List.append_assoc] at hkinds
    have hlater := hrest.append hafter
    have hinside := ihRule (hflat _ hrule) (hexpects.nonTerminal hrule) hlater hposition hkinds
    have hfirst : Reaches tokens descend [.nonTerminal name role discarded] position
        (position + first.length) :=
      reaches_nonTerminal hll1 hanalysed hends hsound (hdescend name position hposition) hrule
        hyieldsRule hexpects hlater hposition hkinds hinside
    exact hfirst.append hends hsound hposition hkinds fun place =>
      ihRest hflatRest hexpects.drop hafter
  | group | choice => simp [Clause.isFlat] at hclauses
  | @absent inner discarded rest word hrest ih =>
    obtain ⟨_, hflatRest⟩ := List.forall_mem_cons.1 hclauses
    have hfirst : Reaches tokens descend [.option inner discarded] position position :=
      reaches_absent hsound (hkinds ▸ hrest.append hafter)
        fun kind hbegins hfollows => hll1.option inner discarded kind hbegins
        ⟨_, hexpects, hfollows⟩
    exact hfirst.cons (ih hflatRest hexpects.drop hafter hposition hkinds)
  | @present inner discarded rest first word hyieldsInner hrest ihInner ihRest =>
    obtain ⟨hflatInner, hflatRest⟩ := List.forall_mem_cons.1 hclauses
    rw [List.append_assoc] at hkinds
    have hlater := hrest.append hafter
    have hinside := ihInner (List.forall_mem_singleton.2 hflatInner) hexpects.option hlater
      hposition hkinds
    exact hinside.present.append hends hsound hposition hkinds fun place =>
      ihRest hflatRest hexpects.drop hafter
  | @zeroOrMore inner discarded rest items word hyieldsItems hrest ihItems ihRest =>
    obtain ⟨hflatInner, hflatRest⟩ := List.forall_mem_cons.1 hclauses
    rw [List.append_assoc] at hkinds
    have hstop := stop_repeated hends hsound (hrest.append hafter)
      (fun kind hbegins hfollows => hll1.zeroOrMore inner discarded kind hbegins
        ⟨_, hexpects, hfollows⟩) hyieldsItems (fun item hitem _ _ =>
          ihItems item hitem (List.forall_mem_singleton.2 hflatInner) hexpects.zeroOrMore)
      hposition hkinds
    have hfirst : Reaches tokens descend [.zeroOrMore inner discarded] position
        (position + items.flatten.length) :=
      hstop ▸ reaches_zeroOrMore
    exact hfirst.append hends hsound hposition hkinds fun place =>
      ihRest hflatRest hexpects.drop hafter
  | @oneOrMore inner discarded rest items word hne hyieldsItems hrest ihItems ihRest =>
    obtain ⟨hflatInner, hflatRest⟩ := List.forall_mem_cons.1 hclauses
    obtain ⟨head, items, rfl⟩ := List.exists_cons_of_ne_nil hne
    rw [List.append_assoc] at hkinds
    have hlater := hrest.append hafter
    have hreaches (item : List K) (hitem : item ∈ head :: items) {place : Nat} {behind : List K}
        (hbehind : grammar.Yields (.zeroOrMore inner discarded :: (rest ++ after)) behind)
        (hplace : place < tokens.size) (hleft : kindsFrom tokens place = item ++ behind) :
        Reaches tokens descend [inner] place (place + item.length) :=
      ihItems item hitem (List.forall_mem_singleton.2 hflatInner) hexpects.oneOrMore
        hbehind hplace hleft
    obtain ⟨_, hyieldsLater⟩ := List.forall_mem_cons.1 hyieldsItems
    have hsplit := hkinds
    rw [List.flatten_cons, List.append_assoc] at hsplit
    have hhead := hreaches head List.mem_cons_self (.zeroOrMore hyieldsLater hlater)
      hposition hsplit
    obtain ⟨trees, hreads⟩ := hhead.reads hsound
    have hstop := stop_repeated hends hsound hlater
      (fun kind hbegins hfollows => hll1.oneOrMore inner discarded kind hbegins
        ⟨_, hexpects, hfollows⟩)
      hyieldsLater (fun item hitem _ _ => hreaches item (List.mem_cons_of_mem _ hitem))
      (hreads.stop_lt_size hends hposition) (hreads.kindsFrom_stop hsplit)
    have hfirst : Reaches tokens descend [.oneOrMore inner discarded] position
        (position + (head :: items).flatten.length) := by
      rw [List.flatten_cons, List.length_append, ← Nat.add_assoc, ← hstop]
      exact hhead.oneOrMore
    exact hfirst.append hends hsound hposition hkinds fun place =>
      ihRest hflatRest hexpects.drop hafter

end Plain

/-- What is accepted is what the start matches up to the last token. -/
theorem exists_parse_eq_ok_iff (hflat : grammar.IsFlat) (hacyclic : grammar.leftRecursions = [])
    (hends : EndsOnce tokens) {memoize : Bool} {start : String} :
    (∃ tree, parse grammar tokens memoize start = .ok tree) ↔
      Plain.Reaches tokens (Plain.outcome (.predictive tokens) grammar tokens) [.ofName start] 0
        (tokens.size - 1) := by
  simp only [parse_eq_ok_iff hflat hacyclic hends, Plain.reaches_singleton_iff, Clause.ofName,
    Plain.value_nonTerminal_clause, Option.map_eq_some_iff]
  constructor
  · rintro ⟨tree, hvalue⟩
    exact ⟨_, (tree, tokens.size - 1), hvalue, rfl⟩
  · rintro ⟨_, ⟨tree, stop⟩, hvalue, heq⟩
    obtain rfl : stop = tokens.size - 1 := (Prod.mk.inj heq).2
    exact ⟨tree, hvalue⟩

/-- What clauses match up to the last token is a word of theirs. -/
theorem Plain.Reaches.yields_dropLast {descend : Plain.Descent K} {clauses : List (Clause K)}
    (hsound : descend.Sound grammar tokens)
    (hreaches : Plain.Reaches tokens descend clauses 0 (tokens.size - 1)) :
    grammar.Yields clauses (tokens.toList.dropLast.filterMap Token.kind) := by
  obtain ⟨trees, hreads⟩ := hreaches.reads hsound
  exact hreads.spans.eq_dropLast ▸ hreads.derives.yields

/-- Where the next token always decides, exactly the words of the start are accepted. -/
theorem parse_eq_ok_iff_yields (hflat : grammar.IsFlat) (hacyclic : grammar.leftRecursions = [])
    (hanalysed : grammar.IsAnalysed) (hends : EndsOnce tokens) {start : String}
    (hll1 : grammar.IsLL1 start) (memoize : Bool) :
    (∃ tree, parse grammar tokens memoize start = .ok tree) ↔
      grammar.Yields [.ofName start] (tokens.toList.dropLast.filterMap Token.kind) := by
  rw [exists_parse_eq_ok_iff hflat hacyclic hends]
  refine ⟨fun hreaches => hreaches.yields_dropLast Plain.outcome_sound, fun hyields => ?_⟩
  have hreaches := Plain.reaches_of_yields hflat hanalysed hll1 hends Plain.outcome_sound
    (fun name position _ => Plain.outcome_eq_attempt hacyclic name position) hyields
    (by simp [Clause.ofName, Clause.isFlat]) .start .nil hends.size_pos
    (by rw [hends.kindsFrom_zero, List.append_nil])
  rwa [hends.length_kinds, Nat.zero_add] at hreaches

namespace Sample

/-- Words with gaps of blanks. -/
def strictText : Grammar (Kind signs) Unit := text (.ofKind blank)

theorem leftRecursions_strictText : strictText.leftRecursions = [] := by decide +kernel

/-- Nothing stands behind the text. -/
theorem isFollowed_strictText : strictText.IsFollowed fun _ => ∅ where
  separated := by decide
  nullable := by decide
  leading_disjoint := by decide
  nullable_unique := by decide

/-- The next token always decides in the sample. -/
theorem isLL1_strictText : strictText.IsLL1 "text" := isFollowed_strictText.isLL1

end Sample

theorem parse_eq_ok_iff_yields_strictText :
    Sample.strictText.IsFlat ∧ Sample.strictText.leftRecursions = [] ∧
      Sample.strictText.IsAnalysed ∧
      EndsOnce Sample.line ∧ Sample.strictText.IsLL1 "text" ∧
        ((∃ tree, parse Sample.strictText Sample.line true "text" = .ok tree) ↔
          Sample.strictText.Yields [.ofName "text"] [Sample.blank, Sample.word]) :=
  ⟨Sample.isFlat_text _, Sample.leftRecursions_strictText, Grammar.isAnalysed_analyse _,
    Sample.endsOnce_line, Sample.isLL1_strictText,
    parse_eq_ok_iff_yields (Sample.isFlat_text _) Sample.leftRecursions_strictText
      (Grammar.isAnalysed_analyse _) Sample.endsOnce_line Sample.isLL1_strictText true⟩

end Matching

end GrammarKit
