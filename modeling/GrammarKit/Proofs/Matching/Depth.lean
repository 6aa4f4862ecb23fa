import GrammarKit.Proofs.Grammar.Acyclic
import GrammarKit.Proofs.Matching.Soundness

namespace GrammarKit.Matching

variable {K R : Type} [DecidableEq K] [TokenKind K]

/-- A non-terminal that clauses may enter at a place: right where they start if
    they can begin with it, and anywhere behind. -/
def MayEnter (grammar : Grammar K R) (tokens : Array (Token K)) (clauses : List (Clause K))
    (position : Nat) (name : String) (place : Nat) : Prop :=
  (place = position ∧ name ∈ Clause.leftmostOfAll grammar.nullable.contains clauses) ∨
    (position < place ∧ place ≤ tokens.size)

namespace MayEnter

variable {grammar : Grammar K R} {tokens : Array (Token K)} {name : String}
    {place position stop : Nat} {clauses : List (Clause K)} {part : Clause K}

/-- What the first clause enters is entered by all. -/
theorem head (henter : MayEnter grammar tokens [part] position name place) :
    MayEnter grammar tokens (part :: clauses) position name place := by
  refine henter.imp (And.imp_right fun hname => ?_) id
  simp only [Clause.leftmostOfAll, List.append_nil, ite_self] at hname ⊢
  split
  · exact List.mem_append_left _ hname
  · exact hname

/-- What the remaining clauses enter was entered by all clauses: the first one
    took a token, or it is nullable. -/
theorem tail {tree : SyntaxTree K} (henter : MayEnter grammar tokens clauses stop name place)
    (hreads : Reads grammar tokens [part] position [tree] stop) :
    MayEnter grammar tokens (part :: clauses) position name place := by
  rcases Nat.eq_or_lt_of_le hreads.spans.le with rfl | hlt
  · refine henter.imp (And.imp_right fun hname => ?_) id
    have hnullable : part.isNullable grammar.nullable.contains = true := by
      simpa [Clause.allNullable] using hreads.allNullable
    simp only [Clause.leftmostOfAll, hnullable, if_true]
    exact List.mem_append_right _ hname
  · rcases henter with ⟨rfl, _⟩ | ⟨hplace, hsize⟩
    · exact Or.inr ⟨hlt, hreads.spans.stop_le_size hlt⟩
    · exact Or.inr ⟨hlt.trans hplace, hsize⟩

/-- An option or repetition enters what its inner clause enters. -/
theorem outer {inner : Clause K} (henter : MayEnter grammar tokens [inner] position name place)
    (hleftmost : part.leftmost grammar.nullable.contains =
      inner.leftmost grammar.nullable.contains) :
    MayEnter grammar tokens [part] position name place := by
  simpa [MayEnter, Clause.leftmostOfAll, hleftmost] using henter

/-- A repetition enters what its inner clause enters wherever an item may start. -/
theorem behind {inner : Clause K} (henter : MayEnter grammar tokens [inner] stop name place)
    (hle : position ≤ stop) (hstop : position < stop → stop ≤ tokens.size)
    (hleftmost : part.leftmost grammar.nullable.contains =
      inner.leftmost grammar.nullable.contains) :
    MayEnter grammar tokens [part] position name place := by
  rcases Nat.eq_or_lt_of_le hle with rfl | hlt
  · exact henter.outer hleftmost
  · rcases henter with ⟨rfl, _⟩ | ⟨hplace, hsize⟩
    · exact Or.inr ⟨hlt, hstop hlt⟩
    · exact Or.inr ⟨hlt.trans hplace, hsize⟩

end MayEnter

/-- A number that gets smaller with every non-terminal inside another one: first
    the tokens that are left count, then the rank of the name. -/
def weight {grammar : Grammar K R} (ranking : grammar.Ranking) (tokens : Array (Token K))
    (name : String) (position : Nat) : Nat :=
  (tokens.size - position) * (grammar.nonTerminals.length + 1) + ranking.rank name

variable {grammar : Grammar K R} {tokens : Array (Token K)}

/-- The bound on the nesting is above every weight. -/
theorem weight_lt_maxDepth (ranking : grammar.Ranking) (name : String) (position : Nat) :
    weight ranking tokens name position < maxDepth grammar tokens := by
  have hrank := ranking.rank_le name
  have hleft := Nat.mul_le_mul_right (grammar.nonTerminals.length + 1)
    (Nat.sub_le tokens.size position)
  simp only [weight, maxDepth, Nat.add_mul, Nat.one_mul] at hleft ⊢
  omega

/-- The rules of a non-terminal enter only what weighs less. -/
theorem MayEnter.weight_lt (ranking : grammar.Ranking) {owner name : String} {rule : Rule K R}
    {position place : Nat} (henter : MayEnter grammar tokens rule.clauses position name place)
    (hrule : (owner, rule) ∈ grammar.rules) :
    weight ranking tokens name place < weight ranking tokens owner position := by
  simp only [weight]
  rcases henter with ⟨rfl, hname⟩ | ⟨hlt, hplace⟩
  · exact Nat.add_lt_add_left (ranking.rank_lt owner name (Grammar.enters_of_mem_rules hrule hname))
      _
  · have hrank := ranking.rank_le name
    have hfewer : (tokens.size - place + 1) * (grammar.nonTerminals.length + 1) ≤
        (tokens.size - position) * (grammar.nonTerminals.length + 1) :=
          Nat.mul_le_mul_right _ (by omega)
    rw [Nat.add_mul, Nat.one_mul] at hfewer
    omega

namespace Plain

variable {first second : Descent K} {limit : Nat}

/-- A clause ends among the tokens. -/
theorem clause_stop_le_size (hsound : first.Sound grammar tokens) (part : Clause K) (place : Nat)
    (tree : SyntaxTree K) (stop : Nat)
    (hfound : (clause limit tokens first part place).value = some (tree, stop))
    (hlt : place < stop) : stop ≤ tokens.size :=
  (clause_reads hsound part place tree stop hfound).spans.stop_le_size hlt

/-- A repetition depends only on its items. -/
theorem repeated_congr {once again : Nat → Outcome K (Option (Found K))} {size position : Nat}
    (honce : ∀ place tree stop, (once place).value = some (tree, stop) → place < stop → stop ≤ size)
    (hsame : ∀ place, position ≤ place → (position < place → place ≤ size) →
      once place = again place) :
    repeated limit once position = repeated limit again position := by
  induction hmeasure : limit - position using Nat.strongRecOn generalizing position with
  | _ measure ih =>
    have hfirst := hsame position (Nat.le_refl _) fun hlt => absurd hlt (Nat.lt_irrefl _)
    rw [repeated, repeated]
    split
    · refine Outcome.bind_congr hfirst ?_
      rw [← hfirst]
      split
      · next tree stop hfound =>
        split
        · next hstop =>
          have hsize := honce position tree stop hfound hstop
          rw [ih (limit - stop) (by omega) (fun place hle hplace =>
            hsame place (by omega) (by omega)) rfl]
        · rfl
      · rfl
    · rfl

/-- What a clause matches depends only on the non-terminals that it may enter. -/
theorem clause_congr (hsound : first.Sound grammar tokens) : ∀ (part : Clause K) (position : Nat),
    (∀ name place, MayEnter grammar tokens [part] position name place →
      first name place = second name place) →
      clause limit tokens first part position = clause limit tokens second part position
  | .terminal .., _, _ => rfl
  | .nonTerminal name _ _, position, hsame => by
    rw [clause, clause, hsame name position
      (Or.inl ⟨rfl, by simp [Clause.leftmostOfAll, Clause.leftmost]⟩)]
  | .option inner _, position, hsame => by
    have hinner := clause_congr hsound inner position
      fun name place henter => hsame name place (henter.outer (by simp only [Clause.leftmost]))
    rw [clause, clause, hinner]
  | .zeroOrMore inner _, position, hsame => by
    have hinner (stop : Nat) (hle : position ≤ stop) (hstop : position < stop →
        stop ≤ tokens.size) :
        clause limit tokens first inner stop = clause limit tokens second inner stop :=
      clause_congr hsound inner stop
        fun name place henter => hsame name place
        (henter.behind hle hstop (by simp only [Clause.leftmost]))
    rw [clause, clause, repeated_congr (clause_stop_le_size hsound inner) hinner]
  | .oneOrMore inner _, position, hsame => by
    have hinner (stop : Nat) (hle : position ≤ stop) (hstop : position < stop →
        stop ≤ tokens.size) :
        clause limit tokens first inner stop = clause limit tokens second inner stop :=
      clause_congr hsound inner stop
        fun name place henter => hsame name place
        (henter.behind hle hstop (by simp only [Clause.leftmost]))
    have hhead := hinner position (Nat.le_refl _) fun hlt => absurd hlt (Nat.lt_irrefl _)
    rw [clause, clause]
    refine Outcome.bind_congr hhead ?_
    rw [← hhead]
    split
    · next tree stop hfound =>
      have hspans := (clause_reads hsound inner position tree stop hfound).spans
      have hle := hspans.le
      have hsize := hspans.stop_le_size
      rw [repeated_congr (clause_stop_le_size hsound inner)
        fun place hplace hnext => hinner place (by omega) (by omega)]
    · rfl
  | .group .., _, _ => rfl
  | .choice .., _, _ => rfl

/-- What clauses in a row match depends only on the non-terminals that they may enter. -/
theorem sequence_congr (hsound : first.Sound grammar tokens) {clauses : List (Clause K)}
    {position : Nat}
    (hsame : ∀ name place, MayEnter grammar tokens clauses position name place →
      first name place = second name place) :
    sequence limit tokens first clauses position = sequence limit tokens second clauses
      position := by
  induction clauses generalizing position with
  | nil => rfl
  | cons part rest ih =>
    have hpart : clause limit tokens first part position =
        clause limit tokens second part position :=
      clause_congr hsound part position fun name place henter => hsame name place henter.head
    rw [sequence, sequence]
    refine Outcome.bind_congr hpart ?_
    rw [← hpart]
    split
    · next tree stop hfound =>
      have hreads := clause_reads hsound part position tree stop hfound
      rw [ih fun name place henter => hsame name place (henter.tail hreads)]
    · rfl

/-- Which rules match depends only on the non-terminals that they may enter. -/
theorem candidates_congr {strategy : Strategy K R} (hsound : first.Sound grammar tokens)
    {position : Nat} (index : Nat) (rules : List (Rule K R))
    (hsame : ∀ rule ∈ rules, ∀ name place, MayEnter grammar tokens rule.clauses position name
      place → first name place = second name place) :
    candidates strategy tokens first position index rules =
      candidates strategy tokens second position index rules := by
  induction rules generalizing index with
  | nil => rfl
  | cons rule rest ih =>
    have htried : tried strategy tokens first position rule =
        tried strategy tokens second position rule := by
      rw [tried, tried, sequence_congr hsound (hsame rule List.mem_cons_self)]
    rw [candidates, candidates, htried, ih (index + 1) fun other hother =>
      hsame other (List.mem_cons_of_mem _ hother)]

variable {strategy : Strategy K R}

/-- What a non-terminal matches depends only on those that weigh less. -/
theorem attempt_congr (ranking : grammar.Ranking) (hsound : first.Sound grammar tokens)
    {owner : String} {position : Nat}
    (hsame : ∀ name place, weight ranking tokens name place < weight ranking tokens owner position →
      first name place = second name place) :
    attempt strategy grammar tokens first owner position = attempt strategy grammar tokens second
      owner position := by
  unfold attempt
  split
  · rfl
  · next nonTerminal hfind =>
    rw [candidates_congr hsound 0 nonTerminal.rules fun rule hrule name place henter => ?_]
    exact hsame name place (henter.weight_lt ranking
      (Grammar.mem_rules_iff.2 ⟨nonTerminal, hfind, hrule⟩))

/-- Beyond the weight of a non-terminal the bound on the nesting is not felt. -/
theorem nonTerminal_eq_succ (ranking : grammar.Ranking) {depth : Nat} {name : String}
    {position : Nat} (hdepth : weight ranking tokens name position < depth) :
    nonTerminal strategy grammar tokens depth name position =
      nonTerminal strategy grammar tokens (depth + 1) name position := by
  induction depth generalizing name position with
  | zero => exact absurd hdepth (Nat.not_lt_zero _)
  | succ depth ih =>
    refine attempt_congr ranking (nonTerminal_sound strategy grammar tokens depth) ?_
    intro other place hweight
    exact ih (by omega)

/-- What a non-terminal matches at a place, with as much nesting as it takes. -/
def outcome (strategy : Strategy K R) (grammar : Grammar K R) (tokens : Array (Token K)) :
    Descent K :=
  nonTerminal strategy grammar tokens (maxDepth grammar tokens)

/-- What is matched is derived. -/
theorem outcome_sound : (outcome strategy grammar tokens).Sound grammar tokens :=
  nonTerminal_sound strategy grammar tokens _

/-- Without left recursion a non-terminal is matched by its rules, with no bound
    on the nesting. -/
theorem outcome_eq_attempt (hacyclic : grammar.leftRecursions = []) (name : String)
    (position : Nat) :
    outcome strategy grammar tokens name position =
      attempt strategy grammar tokens (outcome strategy grammar tokens) name position := by
  obtain ⟨ranking⟩ := Grammar.nonempty_ranking hacyclic
  exact nonTerminal_eq_succ ranking (weight_lt_maxDepth ranking name position)

end Plain

end GrammarKit.Matching
