import GrammarKit.Proofs.Grammar.Language
import Mathlib.Logic.Relation

namespace GrammarKit

/-- The kind of a clause that is a token. -/
def Clause.kind? {K : Type} : Clause K → Option K
  | terminal kind _ => some kind
  | _ => none

namespace Grammar

variable {K R : Type} [DecidableEq K] [TokenKind K]

/-- What a clause may be replaced by. A repetition is replaced by an item and
    another repetition. -/
inductive Expands (grammar : Grammar K R) : Clause K → List (Clause K) → Prop
  | nonTerminal {name : String} {role : Role} {discarded : Bool} {rule : Rule K R} :
      (name, rule) ∈ grammar.rules → Expands grammar (.nonTerminal name role discarded) rule.clauses
  | group {members : List (Clause K)} {discarded : Bool} :
      Expands grammar (.group members discarded) members
  | choice {members : List (Clause K)} {member : Clause K} {discarded : Bool} :
      member ∈ members → Expands grammar (.choice members discarded) [member]
  | absent {inner : Clause K} {discarded : Bool} : Expands grammar (.option inner discarded) []
  | present {inner : Clause K} {discarded : Bool} :
      Expands grammar (.option inner discarded) [inner]
  | done {inner : Clause K} {discarded : Bool} : Expands grammar (.zeroOrMore inner discarded) []
  | again {inner : Clause K} {discarded : Bool} :
      Expands grammar (.zeroOrMore inner discarded) [inner, .zeroOrMore inner discarded]
  | oneOrMore {inner : Clause K} {discarded : Bool} :
      Expands grammar (.oneOrMore inner discarded) [inner, .zeroOrMore inner discarded]

/-- One of several clauses in a row is replaced. -/
inductive Rewrites (grammar : Grammar K R) : List (Clause K) → List (Clause K) → Prop
  | head {clause : Clause K} {form rest : List (Clause K)} :
      grammar.Expands clause form → Rewrites grammar (clause :: rest) (form ++ rest)
  | tail {first : Clause K} {rest form : List (Clause K)} :
      Rewrites grammar rest form → Rewrites grammar (first :: rest) (first :: form)

/-- Any number of replacements. -/
abbrev RewritesTo (grammar : Grammar K R) : List (Clause K) → List (Clause K) → Prop :=
  Relation.ReflTransGen grammar.Rewrites

variable {grammar : Grammar K R} {clauses others form more rest : List (Clause K)}
    {clause : Clause K} {word later : List K} {kind : K}

/-- Clauses in front do not keep others from being replaced. -/
theorem Rewrites.append_left (before : List (Clause K))
    (hrewrites : grammar.Rewrites clauses form) :
    grammar.Rewrites (before ++ clauses) (before ++ form) := by
  induction before with
  | nil => exact hrewrites
  | cons first before ih => exact .tail ih

/-- Clauses behind do not keep others from being replaced. -/
theorem Rewrites.append_right (after : List (Clause K))
    (hrewrites : grammar.Rewrites clauses form) :
    grammar.Rewrites (clauses ++ after) (form ++ after) := by
  induction hrewrites with
  | head hexpands =>
    rw [List.cons_append, List.append_assoc]
    exact .head hexpands
  | tail _ ih => exact .tail ih

/-- Clauses in a row are rewritten one after the other. -/
theorem RewritesTo.append (hfirst : grammar.RewritesTo clauses form)
    (hrest : grammar.RewritesTo others more) :
    grammar.RewritesTo (clauses ++ others) (form ++ more) :=
  (hfirst.lift (· ++ others) fun _ _ => Rewrites.append_right others).trans
    (hrest.lift (form ++ ·) fun _ _ => Rewrites.append_left form)

/-- Whether clauses can be rewritten to tokens of these kinds. -/
def Spells (grammar : Grammar K R) (clauses : List (Clause K)) (word : List K) : Prop :=
  ∃ form, grammar.RewritesTo clauses form ∧ form.map Clause.kind? = word.map some

theorem Spells.nil : grammar.Spells [] [] := ⟨[], .refl, rfl⟩

/-- Clauses in a row spell one word behind the other. -/
theorem Spells.append (hfirst : grammar.Spells clauses word) (hrest : grammar.Spells others later) :
    grammar.Spells (clauses ++ others) (word ++ later) := by
  obtain ⟨form, hform, hword⟩ := hfirst
  obtain ⟨more, hmore, hlater⟩ := hrest
  exact ⟨form ++ more, hform.append hmore, by rw [List.map_append, List.map_append, hword, hlater]⟩

/-- What a clause may be replaced by spells the words of the clause. -/
theorem Spells.of_expands (hfirst : grammar.Spells clauses word)
    (hexpands : grammar.Expands clause clauses) (hrest : grammar.Spells rest later) :
    grammar.Spells (clause :: rest) (word ++ later) := by
  obtain ⟨form, hform, hword⟩ := hfirst.append hrest
  exact ⟨form, .head (.head hexpands) hform, hword⟩

/-- A repetition spells items in a row. -/
theorem Spells.zeroOrMore {inner : Clause K} {discarded : Bool} {items : List (List K)}
    (hitems : ∀ item ∈ items, grammar.Spells [inner] item) :
    grammar.Spells [.zeroOrMore inner discarded] items.flatten := by
  induction items with
  | nil =>
    have hnone : grammar.Spells [] [] := .nil
    simpa using hnone.of_expands .done .nil
  | cons first rest ih =>
    have hfirst := hitems first List.mem_cons_self
    have hrest := ih fun item hitem => hitems item (List.mem_cons_of_mem _ hitem)
    simpa using (hfirst.append hrest).of_expands .again .nil

/-- What clauses yield they can be rewritten to. -/
theorem Yields.spells (hyields : grammar.Yields clauses word) : grammar.Spells clauses word := by
  induction hyields with
  | nil => exact .nil
  | @terminal kind discarded _ _ _ ih =>
    have hfirst : grammar.Spells [.terminal kind discarded] [kind] := ⟨_, .refl, rfl⟩
    exact hfirst.append ih
  | nonTerminal hrule _ _ ihFirst ihRest => exact ihFirst.of_expands (.nonTerminal hrule) ihRest
  | group _ _ ihFirst ihRest => exact ihFirst.of_expands .group ihRest
  | choice hmember _ _ ihFirst ihRest => exact ihFirst.of_expands (.choice hmember) ihRest
  | absent _ ih => exact Spells.nil.of_expands .absent ih
  | present _ _ ihFirst ihRest => exact ihFirst.of_expands .present ihRest
  | zeroOrMore _ _ ihItems ihRest => exact (Spells.zeroOrMore ihItems).append ihRest
  | @oneOrMore inner discarded _ items _ hne _ _ ihItems ihRest =>
    obtain ⟨first, items, rfl⟩ := List.exists_cons_of_ne_nil hne
    have hfirst := ihItems first List.mem_cons_self
    have hmore : grammar.Spells [.zeroOrMore inner discarded] items.flatten :=
      .zeroOrMore fun item hitem => ihItems item (List.mem_cons_of_mem _ hitem)
    exact (hfirst.append hmore).of_expands .oneOrMore ihRest

/-- Clauses that yield nothing can be rewritten to nothing at all. -/
theorem Yields.rewritesTo_nil (hyields : grammar.Yields clauses []) :
    grammar.RewritesTo clauses [] := by
  obtain ⟨form, hform, hnone⟩ := hyields.spells
  obtain rfl : form = [] := by simpa using hnone
  exact hform

/-- Whether clauses can be rewritten to something with a token of this kind in front. -/
def Heads (grammar : Grammar K R) (clauses : List (Clause K)) (kind : K) : Prop :=
  ∃ discarded rest, grammar.RewritesTo clauses (.terminal kind discarded :: rest)

theorem Heads.append (hheads : grammar.Heads clauses kind) (rest : List (Clause K)) :
    grammar.Heads (clauses ++ rest) kind := by
  obtain ⟨discarded, after, hform⟩ := hheads
  exact ⟨discarded, after ++ rest, RewritesTo.append hform .refl⟩

/-- What a clause may be replaced by puts in front what the clause can put there. -/
theorem Heads.of_expands (hheads : grammar.Heads clauses kind)
    (hexpands : grammar.Expands clause clauses) :
    grammar.Heads (clause :: rest) kind := by
  obtain ⟨discarded, after, hform⟩ := hheads.append rest
  exact ⟨discarded, after, .head (.head hexpands) hform⟩

/-- What clauses begin with stands first in something that they can be rewritten to. -/
theorem Begins.heads (hbegins : grammar.Begins clauses kind) : grammar.Heads clauses kind := by
  induction hbegins with
  | terminal => exact ⟨_, _, .refl⟩
  | nonTerminal hrule _ ih => exact ih.of_expands (.nonTerminal hrule)
  | group _ ih => exact ih.of_expands .group
  | choice hmember _ ih => exact ih.of_expands (.choice hmember)
  | option _ ih => exact ih.of_expands .present
  | zeroOrMore _ ih => exact (ih.append _).of_expands .again
  | oneOrMore _ ih => exact (ih.append _).of_expands .oneOrMore
  | skip hnone _ ih =>
    obtain ⟨discarded, after, hform⟩ := ih
    exact ⟨discarded, after, hnone.rewritesTo_nil.append hform⟩

section Backward

/-- A word of clauses in a row is one of the first clauses and one of the others. -/
theorem Yields.split (hyields : grammar.Yields (clauses ++ rest) word) :
    ∃ first later, word = first ++ later ∧ grammar.Yields clauses first ∧
      grammar.Yields rest later := by
  induction clauses generalizing word with
  | nil => exact ⟨[], word, rfl, .nil, hyields⟩
  | cons clause clauses ih =>
    obtain ⟨first, others, rfl, hclause, hothers⟩ := hyields.uncons
    obtain ⟨middle, later, rfl, hmiddle, hlater⟩ := ih hothers
    exact ⟨first ++ middle, later, (List.append_assoc ..).symm, hclause.append hmiddle, hlater⟩

/-- The words of an item followed by any number of items. -/
theorem Yields.items {inner : Clause K} {discarded : Bool}
    (hyields : grammar.Yields [inner, .zeroOrMore inner discarded] word) :
    ∃ items : List (List K), items ≠ [] ∧ word = items.flatten ∧
      ∀ item ∈ items, grammar.Yields [inner] item := by
  obtain ⟨first, later, rfl, hfirst, hlater⟩ := hyields.uncons
  cases hlater with
  | @zeroOrMore _ _ _ items _ hitems hnil =>
    cases hnil
    refine ⟨first :: items, List.cons_ne_nil _ _, by simp, ?_⟩
    exact List.forall_mem_cons.2 ⟨hfirst, hitems⟩

/-- No replacement gives a clause a word that it did not have before. -/
theorem Expands.yields (hexpands : grammar.Expands clause form)
    (hyields : grammar.Yields form word) :
    grammar.Yields [clause] word := by
  cases hexpands with
  | nonTerminal hrule => exact yields_nonTerminal_iff.2 ⟨_, hrule, hyields⟩
  | group => simpa using Yields.group hyields .nil
  | choice hmember => simpa using Yields.choice hmember hyields .nil
  | absent => exact .absent hyields
  | present => simpa using Yields.present hyields .nil
  | @done inner discarded =>
    cases hyields
    exact @Yields.zeroOrMore _ _ _ _ grammar inner discarded [] [] [] (by simp) .nil
  | again =>
    obtain ⟨items, -, rfl, hitems⟩ := hyields.items
    simpa using Yields.zeroOrMore hitems .nil
  | oneOrMore =>
    obtain ⟨items, hne, rfl, hitems⟩ := hyields.items
    simpa using Yields.oneOrMore hne hitems .nil

/-- No rewriting step gives clauses a word that they did not have before. -/
theorem Rewrites.yields (hrewrites : grammar.Rewrites clauses form)
    (hyields : grammar.Yields form word) :
    grammar.Yields clauses word := by
  induction hrewrites generalizing word with
  | head hexpands =>
    obtain ⟨first, later, rfl, hfirst, hlater⟩ := hyields.split
    exact (hexpands.yields hfirst).append hlater
  | tail _ ih =>
    obtain ⟨first, later, rfl, hfirst, hlater⟩ := hyields.uncons
    exact hfirst.append (ih hlater)

/-- Clauses can be rewritten to nothing at all exactly when they yield nothing. -/
theorem rewritesTo_nil_iff : grammar.RewritesTo clauses [] ↔ grammar.Yields clauses [] := by
  refine ⟨fun hrewrites => ?_, Yields.rewritesTo_nil⟩
  induction hrewrites using Relation.ReflTransGen.head_induction_on with
  | refl => exact .nil
  | head hstep _ ih => exact hstep.yields ih

/-- Clauses begin with what the first one begins with, or with what the others
    do if it yields nothing. -/
theorem Begins.uncons (hbegins : grammar.Begins (clause :: rest) kind) :
    grammar.Begins [clause] kind ∨ (grammar.Yields [clause] [] ∧ grammar.Begins rest kind) := by
  cases hbegins with
  | terminal => exact Or.inl .terminal
  | nonTerminal hrule hclauses => exact Or.inl (.nonTerminal hrule hclauses)
  | group hmembers => exact Or.inl (.group hmembers)
  | choice hmember hinner => exact Or.inl (.choice hmember hinner)
  | option hinner => exact Or.inl (.option hinner)
  | zeroOrMore hinner => exact Or.inl (.zeroOrMore hinner)
  | oneOrMore hinner => exact Or.inl (.oneOrMore hinner)
  | skip hnone hrest => exact Or.inr ⟨hnone, hrest⟩

theorem not_begins_nil : ¬ grammar.Begins [] kind := nofun

/-- Clauses in a row begin with what the first ones begin with, or with what the
    others do if those yield nothing. -/
theorem Begins.split (hbegins : grammar.Begins (clauses ++ rest) kind) :
    grammar.Begins clauses kind ∨ (grammar.Yields clauses [] ∧ grammar.Begins rest kind) := by
  induction clauses with
  | nil => exact Or.inr ⟨.nil, hbegins⟩
  | cons clause clauses ih =>
    rcases hbegins.uncons with hclause | ⟨hnone, hothers⟩
    · exact Or.inl (@Begins.append _ _ _ _ grammar [clause] kind clauses hclause)
    · rcases ih hothers with hclauses | ⟨hnothing, hrest⟩
      · exact Or.inl (.skip hnone hclauses)
      · exact Or.inr ⟨hnone.append hnothing, hrest⟩

/-- What an item followed by any number of items begins with, an item begins with. -/
theorem Begins.item {inner : Clause K} {discarded : Bool}
    (hbegins : grammar.Begins [inner, .zeroOrMore inner discarded] kind) :
    grammar.Begins [inner] kind := by
  rcases hbegins.uncons with hinner | ⟨-, hmore⟩
  · exact hinner
  · cases hmore with
    | zeroOrMore hinner => exact hinner
    | skip _ hnil => exact absurd hnil not_begins_nil

/-- No replacement gives a clause a kind to begin with that it did not have before. -/
theorem Expands.begins (hexpands : grammar.Expands clause form)
    (hbegins : grammar.Begins form kind) :
    grammar.Begins [clause] kind := by
  cases hexpands with
  | nonTerminal hrule => exact .nonTerminal hrule hbegins
  | group => exact .group hbegins
  | choice hmember => exact .choice hmember hbegins
  | absent | done => exact absurd hbegins not_begins_nil
  | present => exact .option hbegins
  | again => exact .zeroOrMore hbegins.item
  | oneOrMore => exact .oneOrMore hbegins.item

/-- No rewriting step gives clauses a kind to begin with that they did not have before. -/
theorem Rewrites.begins (hrewrites : grammar.Rewrites clauses form)
    (hbegins : grammar.Begins form kind) :
    grammar.Begins clauses kind := by
  induction hrewrites with
  | @head clause form rest hexpands =>
    rcases hbegins.split with hform | ⟨hnone, hrest⟩
    · exact @Begins.append _ _ _ _ grammar [clause] kind rest (hexpands.begins hform)
    · exact .skip (hexpands.yields hnone) hrest
  | @tail first rest form _ ih =>
    rcases hbegins.uncons with hfirst | ⟨hnone, hform⟩
    · exact @Begins.append _ _ _ _ grammar [first] kind rest hfirst
    · exact .skip hnone (ih hform)

/-- What stands first in something that clauses can be rewritten to they begin with. -/
theorem heads_iff : grammar.Heads clauses kind ↔ grammar.Begins clauses kind := by
  refine ⟨?_, Begins.heads⟩
  rintro ⟨discarded, after, hrewrites⟩
  induction hrewrites using Relation.ReflTransGen.head_induction_on with
  | refl => exact .terminal
  | head hstep _ ih => exact hstep.begins ih

end Backward

end Grammar

end GrammarKit
