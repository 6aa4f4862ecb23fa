import GrammarKit.Proofs.Reduction.Total
import GrammarKit.Proofs.RuleText.Notation
import GrammarKit.Proofs.SyntaxTree.Normal
import GrammarKit.RuleText.Reader

namespace GrammarKit

namespace Grammar

variable {K R : Type} [DecidableEq K] [TokenKind K] {grammar : Grammar K R}

/-- Trees are normal from the beginning where no rule leads on and none has operators. -/
theorem Derives.normalizeEach_eq (hbypass : ∀ entry ∈ grammar.rules, entry.2.isBypass = false)
    (haffix : ∀ entry ∈ grammar.rules, entry.2.affix = none) {clauses : List (Clause K)}
    {trees : List (SyntaxTree K)} (hderives : grammar.Derives clauses trees) :
    SyntaxTree.normalizeEach grammar trees = trees := by
  have hitems {items : List (SyntaxTree K)} (hitem : ∀ item ∈ items,
      SyntaxTree.normalizeEach grammar [item] = [item]) :
      SyntaxTree.normalizeEach grammar items = items := by
    rw [normalizeEach_eq_map]
    exact (List.map_congr_left fun item hmem => (List.cons.inj (hitem item hmem)).1).trans
      (List.map_id _)
  induction hderives with
  | nil => rfl
  | terminal _ _ ih | absent _ ih => rw [SyntaxTree.normalizeEach, SyntaxTree.normalize, ih]
  | nonTerminal hrule _ _ ihChildren ih =>
    have hleads := hbypass _ (mem_rules_of_rule? hrule)
    have hplain := haffix _ (mem_rules_of_rule? hrule)
    dsimp only at hleads hplain
    rw [SyntaxTree.normalizeEach, SyntaxTree.normalize, ihChildren, ih]
    simp [SyntaxTree.normalNode, Rule.isExpression, hleads, hplain]
  | present _ _ ihChild ih =>
    rw [SyntaxTree.normalizeEach, SyntaxTree.normalize, ih, (List.cons.inj ihChild).1]
  | zeroOrMore _ _ ihItems ih | oneOrMore _ _ _ ihItems ih =>
    rw [SyntaxTree.normalizeEach, SyntaxTree.normalize, hitems ihItems, ih]

end Grammar

namespace RuleText

open Arguments Reduction

/-- The rules of rule notation, with what their parts are made into. -/
inductive Production : String → List (Clause RuleToken) → Taking Part → Prop
  | rule : Production "rule"
      [.terminal .identifier false, .terminal .colon true,
        .zeroOrMore (.nonTerminal "clause" .rule false) false] readRule
  | clause : Production "clause"
      [.nonTerminal "atom" .rule false, .option (.nonTerminal "modifier" .rule false) false,
        .option (.terminal .discard false) false] readClause
  | name : Production "atom" [.terminal .identifier false] readName
  | group : Production "atom"
      [.terminal .openParen true, .oneOrMore (.nonTerminal "clause" .rule false) false,
        .terminal .closeParen true] readGroup
  | choice : Production "atom"
      [.terminal .openBracket true, .terminal .identifier false,
        .zeroOrMore (.nonTerminal "alternative" .rule false) false, .terminal .closeBracket true]
          readChoice
  | alternative : Production "alternative" [.terminal .or true, .terminal .identifier false]
      readAlternative
  | modifier (modifier : Modifier) :
      Production "modifier" [.terminal modifier.kind false] (return .modifier modifier)

variable {name : String} {clauses : List (Clause RuleToken)} {taking : Taking Part}

/-- Each rule of the grammar is one of the productions. -/
theorem exists_production {rule : Rule RuleToken PartReducer}
    (hrule : (name, rule) ∈ grammar.rules) :
    rule.isSubrule = false ∧ rule.isBypass = false ∧ rule.affix = none ∧
      ∃ taking, Production name rule.clauses taking ∧ rule.reducer = some (.ofTaking taking) := by
  obtain ⟨before, hbefore, rfl⟩ := Grammar.mem_rules_analyse.1 hrule
  have hentry := (Grammar.mem_rules_addAll.1 hbefore).resolve_left nofun
  simp only [List.mem_cons, List.not_mem_nil, or_false, Prod.mk.injEq] at hentry
  rcases hentry with ⟨rfl, rfl⟩ | ⟨rfl, rfl⟩ | ⟨rfl, rfl⟩ | ⟨rfl, rfl⟩ | ⟨rfl, rfl⟩ |
    ⟨rfl, rfl⟩ | ⟨rfl, rfl⟩ | ⟨rfl, rfl⟩ | ⟨rfl, rfl⟩
  all_goals refine ⟨rfl, rfl, rfl, _, ?_, rfl⟩
  · exact .rule
  · exact .clause
  · exact .name
  · exact .group
  · exact .choice
  · exact .alternative
  · exact .modifier .optional
  · exact .modifier .zeroOrMore
  · exact .modifier .oneOrMore

/-- Each production is a rule of the grammar. -/
theorem Production.exists_rule (hproduction : Production name clauses taking) :
    ∃ rule, (name, rule) ∈ grammar.rules ∧ rule.clauses = clauses := by
  have hentry : (name, clauses) ∈ grammar.rules.map fun entry => (entry.1, entry.2.clauses) := by
    cases hproduction with
    | modifier modifier => cases modifier <;> decide
    | _ => decide
  obtain ⟨⟨_, rule⟩, hrule, heq⟩ := List.mem_map.1 hentry
  obtain ⟨rfl, rfl⟩ := Prod.mk.inj heq
  exact ⟨rule, hrule, rfl⟩

section Parts

/-- The non-terminal that stands for a part. -/
def Part.nonTerminal : Part → String
  | .rule _ => "rule"
  | .clause _ => "clause"
  | .atom _ => "atom"
  | .modifier _ => "modifier"
  | .name _ => "alternative"

/-- The words that a part is written as. -/
def Part.words : Part → List Word
  | .rule written => written.words
  | .clause text | .atom text => text.words
  | .modifier sort => [sign sort.kind]
  | .name text => [sign .or, nameWord text]

/-- Whether groups and choices are not empty, and what is to be marked yet has no marks. -/
def Part.IsProper : Part → Prop
  | .rule written => written.IsProper
  | .clause text => text.IsProper
  | .atom text => text.IsProper ∧ text.withMarks none false = text
  | .modifier _ | .name _ => True

/-- Whether a part is a proper one that a non-terminal stands for. -/
structure Part.IsOf (part : Part) (name : String) : Prop where
  nonTerminal_eq : part.nonTerminal = name
  isProper : part.IsProper

/-- Marks do not make a clause improper. -/
theorem ClauseText.IsProper.withMarks {clause : ClauseText} (hproper : clause.IsProper)
    (modifier : Option Modifier) (discarded : Bool) :
    (clause.withMarks modifier discarded).IsProper := by
  cases clause <;> exact hproper

/-- Marks are written behind the clause. -/
theorem ClauseText.words_withMarks {clause : ClauseText}
    (hbare : clause.withMarks none false = clause) (modifier : Option Modifier) (discarded : Bool) :
    (clause.withMarks modifier discarded).words = clause.words ++ marks modifier discarded := by
  rw [← hbare]
  cases clause <;> simp [withMarks, words, marks, discards]

namespace Part.IsOf

variable {part : Part} {parts : List Part}

/-- What stands for a clause is a clause. -/
theorem exists_clause (hpart : part.IsOf "clause") :
    ∃ clause, part = .clause clause ∧ clause.IsProper := by
  cases part with
  | clause clause => exact ⟨clause, rfl, hpart.isProper⟩
  | _ => exact absurd hpart.nonTerminal_eq (by simp [Part.nonTerminal])

/-- What can be marked is a clause without marks. -/
theorem exists_atom (hpart : part.IsOf "atom") :
    ∃ clause, part = .atom clause ∧ clause.IsProper ∧ clause.withMarks none false = clause := by
  cases part with
  | atom clause => exact ⟨clause, rfl, hpart.isProper⟩
  | _ => exact absurd hpart.nonTerminal_eq (by simp [Part.nonTerminal])

/-- What stands for a modifier is one. -/
theorem exists_modifier (hpart : part.IsOf "modifier") : ∃ modifier, part = .modifier modifier := by
  cases part with
  | modifier modifier => exact ⟨modifier, rfl⟩
  | _ => exact absurd hpart.nonTerminal_eq (by simp [Part.nonTerminal])

theorem exists_modifierOption {found : Option Part}
    (hfound : ∀ part ∈ found, part.IsOf "modifier") :
    ∃ modifier : Option Modifier, found = modifier.map .modifier := by
  cases found with
  | none => exact ⟨none, rfl⟩
  | some part =>
    obtain ⟨modifier, rfl⟩ := (hfound part rfl).exists_modifier
    exact ⟨some modifier, rfl⟩

theorem exists_name (hpart : part.IsOf "alternative") : ∃ name, part = .name name := by
  cases part with
  | name name => exact ⟨name, rfl⟩
  | _ => exact absurd hpart.nonTerminal_eq (by simp [Part.nonTerminal])

/-- What stands for a rule is a rule. -/
theorem exists_rule (hpart : part.IsOf "rule") : ∃ rule, part = .rule rule ∧ rule.IsProper := by
  cases part with
  | rule rule => exact ⟨rule, rfl, hpart.isProper⟩
  | _ => exact absurd hpart.nonTerminal_eq (by simp [Part.nonTerminal])

/-- What stands for clauses are clauses. -/
theorem exists_clauses (hparts : ∀ part ∈ parts, part.IsOf "clause") :
    ∃ clauses, parts = clauses.map .clause ∧ AreProper clauses ∧
      parts.flatMap Part.words = wordsOfAll clauses := by
  induction parts with
  | nil => exact ⟨[], rfl, trivial, rfl⟩
  | cons part rest ih =>
    obtain ⟨hpart, hrest⟩ := List.forall_mem_cons.1 hparts
    obtain ⟨clause, rfl, hproper⟩ := hpart.exists_clause
    obtain ⟨clauses, rfl, hclauses, hwords⟩ := ih hrest
    exact ⟨clause :: clauses, rfl, ⟨hproper, hclauses⟩, by rw [List.flatMap_cons, hwords,
      wordsOfAll, Part.words]⟩

/-- What stands for alternatives are names. -/
theorem exists_names (hparts : ∀ part ∈ parts, part.IsOf "alternative") :
    ∃ names : List String, parts = names.map .name ∧
      parts.flatMap Part.words = names.flatMap fun name => [sign .or, nameWord name] := by
  induction parts with
  | nil => exact ⟨[], rfl, rfl⟩
  | cons part rest ih =>
    obtain ⟨hpart, hrest⟩ := List.forall_mem_cons.1 hparts
    obtain ⟨name, rfl⟩ := hpart.exists_name
    obtain ⟨names, rfl, hwords⟩ := ih hrest
    exact ⟨name :: names, rfl, by rw [List.flatMap_cons, hwords, List.flatMap_cons, Part.words]⟩

end Part.IsOf

end Parts

section Taking

/-- A rule is made of a name and clauses. -/
theorem yields_readRule (token : Token RuleToken) (clauses : List ClauseText) :
    ∃ after, Yields readRule (.ofValues [.token token, .values (clauses.map .clause)])
      (.rule ⟨token.value, clauses⟩)
      after := by
  refine ⟨_, yields_bind_iff.2 ⟨token, _, rfl, yields_bind_iff.2 ⟨_, _, rfl, yields_bind_iff.2
    ⟨clauses, _, yields_mapM_map ?_ clauses _, yields_pure_iff.2 ⟨rfl, rfl⟩⟩⟩⟩⟩
  exact fun _ _ => rfl

/-- A clause is made of one without marks, a modifier and a mark. -/
theorem yields_readClause (clause : ClauseText) (modifier : Option Modifier)
    (mark : Option (Token RuleToken)) :
    ∃ after, Yields readClause
      (.ofValues [.value (.atom clause), .valueOption (modifier.map .modifier), .tokenOption mark])
      (.clause (clause.withMarks modifier mark.isSome)) after := by
  cases modifier <;> exact ⟨_, rfl⟩

/-- A name alone is a clause. -/
theorem yields_readName (token : Token RuleToken) :
    ∃ after, Yields readName (.ofValues [.token token]) (.atom (.name token.value none false))
      after := ⟨_, rfl⟩

/-- A group is made of clauses. -/
theorem yields_readGroup (clauses : List ClauseText) :
    ∃ after, Yields readGroup (.ofValues [.values (clauses.map .clause)])
      (.atom (.group clauses none false)) after := by
  refine ⟨_, yields_bind_iff.2 ⟨_, _, rfl, yields_bind_iff.2
    ⟨clauses, _, yields_mapM_map ?_ clauses _, yields_pure_iff.2 ⟨rfl, rfl⟩⟩⟩⟩
  exact fun _ _ => rfl

/-- A choice is made of a first name and alternatives. -/
theorem yields_readChoice (token : Token RuleToken) (names : List String) :
    ∃ after, Yields readChoice (.ofValues [.token token, .values (names.map .name)])
      (.atom (.choice (token.value :: names) none false)) after := by
  refine ⟨_, yields_bind_iff.2 ⟨token, _, rfl, yields_bind_iff.2 ⟨_, _, rfl, yields_bind_iff.2
    ⟨names, _, yields_mapM_map ?_ names _, yields_pure_iff.2 ⟨rfl, rfl⟩⟩⟩⟩⟩
  exact fun _ _ => rfl

theorem yields_readAlternative (token : Token RuleToken) :
    ∃ after, Yields readAlternative (.ofValues [.token token]) (.name token.value) after := ⟨_, rfl⟩

end Taking

section Trees

/-- A token as it has to be written if it is of a kind whose tokens are all alike. -/
def spelled (kind : RuleToken) (value : String) : Word := (kind, kind.text?.getD value)

/-- Whether the tree of a clause is reduced to what the words of its tokens stand for. -/
inductive Represents : Clause RuleToken → SyntaxTree RuleToken → Prop
  | token {kind : RuleToken} {discarded : Bool} {tree : SyntaxTree RuleToken}
      {token : Token RuleToken} : tree.isDiscarded = discarded → Makes grammar tree (.token token) →
        wordsOf tree.leaves = [spelled kind token.value] →
        Represents (.terminal kind discarded) tree
  | part {name : String} {discarded : Bool} {tree : SyntaxTree RuleToken} {part : Part} :
      tree.isDiscarded = discarded → Makes grammar tree (.value part) → part.IsOf name →
        wordsOf tree.leaves = part.words → Represents (.nonTerminal name .rule discarded) tree
  | tokenOption {kind : RuleToken} {hidden discarded : Bool} {tree : SyntaxTree RuleToken}
      {mark : Option (Token RuleToken)} :
      tree.isDiscarded = discarded → Makes grammar tree (.tokenOption mark) →
        wordsOf tree.leaves = (mark.map fun token => spelled kind token.value).toList →
          Represents (.option (.terminal kind hidden) discarded) tree
  | partOption {name : String} {hidden discarded : Bool} {tree : SyntaxTree RuleToken}
      {found : Option Part} : tree.isDiscarded = discarded →
        Makes grammar tree (.valueOption found) → (∀ part ∈ found, part.IsOf name) →
        wordsOf tree.leaves = found.toList.flatMap Part.words →
          Represents (.option (.nonTerminal name .rule hidden) discarded) tree
  | parts {name : String} {hidden discarded : Bool} {tree : SyntaxTree RuleToken}
      {parts : List Part} : tree.isDiscarded = discarded → Makes grammar tree (.values parts) →
        (∀ part ∈ parts, part.IsOf name) →
        wordsOf tree.leaves = parts.flatMap Part.words →
          Represents (.zeroOrMore (.nonTerminal name .rule hidden) discarded) tree
  | someParts {name : String} {hidden discarded : Bool} {tree : SyntaxTree RuleToken}
      {parts : List Part} :
      tree.isDiscarded = discarded → Makes grammar tree (.values parts) → parts ≠ [] →
        (∀ part ∈ parts, part.IsOf name) → wordsOf tree.leaves = parts.flatMap Part.words →
          Represents (.oneOrMore (.nonTerminal name .rule hidden) discarded) tree

/-- Words of tokens in a row stand in a row. -/
theorem wordsOf_append (first rest : List (Token RuleToken)) :
    wordsOf (first ++ rest) = wordsOf first ++ wordsOf rest :=
  List.filterMap_append ..

/-- The words of a tree stand in front of those of the trees behind it. -/
theorem wordsOf_leavesIn_cons (tree : SyntaxTree RuleToken) (rest : List (SyntaxTree RuleToken)) :
    wordsOf (SyntaxTree.leavesIn (tree :: rest)) = wordsOf tree.leaves ++ wordsOf
      (SyntaxTree.leavesIn rest) :=
  wordsOf_append _ _

theorem wordsOf_leavesIn_nil : wordsOf (SyntaxTree.leavesIn []) = [] := rfl

namespace Represents

variable {tree : SyntaxTree RuleToken} {kind : RuleToken} {hidden discarded : Bool}

/-- The tree of a token has the token as its value. -/
theorem exists_token (htree : Represents (.terminal kind discarded) tree) :
    tree.isDiscarded = discarded ∧
    ∃ token, Makes grammar tree (.token token) ∧
      wordsOf tree.leaves = [spelled kind token.value] := by
  cases htree with
  | token hdiscarded hmakes hwords => exact ⟨hdiscarded, _, hmakes, hwords⟩

/-- The tree of a non-terminal has a part as its value. -/
theorem exists_part (htree : Represents (.nonTerminal name .rule discarded) tree) :
    tree.isDiscarded = discarded ∧
    ∃ part, Makes grammar tree (.value part) ∧ part.IsOf name ∧
      wordsOf tree.leaves = part.words := by
  cases htree with
  | part hdiscarded hmakes hpart hwords => exact ⟨hdiscarded, _, hmakes, hpart, hwords⟩

/-- The tree of an optional token has the token as its value, or none. -/
theorem exists_tokenOption (htree : Represents (.option (.terminal kind hidden) discarded) tree) :
    tree.isDiscarded = discarded ∧ ∃ mark, Makes grammar tree (.tokenOption mark) ∧
      wordsOf tree.leaves = (mark.map fun token => spelled kind token.value).toList := by
  cases htree with
  | tokenOption hdiscarded hmakes hwords => exact ⟨hdiscarded, _, hmakes, hwords⟩

/-- The tree of an optional non-terminal has a part as its value, or none. -/
theorem exists_partOption
    (htree : Represents (.option (.nonTerminal name .rule hidden) discarded) tree) :
    tree.isDiscarded = discarded ∧ ∃ found, Makes grammar tree (.valueOption found) ∧
      (∀ part ∈ found, part.IsOf name) ∧
      wordsOf tree.leaves = found.toList.flatMap Part.words := by
  cases htree with
  | partOption hdiscarded hmakes hfound hwords => exact ⟨hdiscarded, _, hmakes, hfound, hwords⟩

/-- The tree of a repetition has the parts of its items as its values. -/
theorem exists_parts
    (htree : Represents (.zeroOrMore (.nonTerminal name .rule hidden) discarded) tree) :
    tree.isDiscarded = discarded ∧ ∃ parts, Makes grammar tree (.values parts) ∧
      (∀ part ∈ parts, part.IsOf name) ∧
      wordsOf tree.leaves = parts.flatMap Part.words := by
  cases htree with
  | parts hdiscarded hmakes hparts hwords => exact ⟨hdiscarded, _, hmakes, hparts, hwords⟩

/-- The tree of a repetition that is not empty has the parts of its items as its values. -/
theorem exists_someParts
    (htree : Represents (.oneOrMore (.nonTerminal name .rule hidden) discarded) tree) :
    tree.isDiscarded = discarded ∧ ∃ parts, Makes grammar tree (.values parts) ∧ parts ≠ [] ∧
      (∀ part ∈ parts, part.IsOf name) ∧ wordsOf tree.leaves = parts.flatMap Part.words := by
  cases htree with
  | someParts hdiscarded hmakes hne hparts hwords =>
    exact ⟨hdiscarded, _, hmakes, hne, hparts, hwords⟩

end Represents

/-- Whether the children that are shown have values of which `taking` makes a
    part that `name` stands for, with the words of all children. -/
def MakePart (name : String) (taking : Taking Part) (children : List (SyntaxTree RuleToken)) :
    Prop :=
  ∃ values part after,
    List.Forall₂ (Makes grammar) (children.filter fun tree => !tree.isDiscarded) values ∧
    Yields taking (.ofValues values) part after ∧ part.IsOf name ∧
    wordsOf (SyntaxTree.leavesIn children) = part.words

section MakePart

variable {children : List (SyntaxTree RuleToken)}

/-- The children of a rule make a rule. -/
theorem makePart_readRule
    (hchildren : List.Forall₂ Represents [.terminal .identifier false, .terminal .colon true,
      .zeroOrMore (.nonTerminal "clause" .rule false) false] children) :
    MakePart "rule" readRule children := by
  obtain _ | ⟨hname, _ | ⟨hcolon, _ | ⟨hmany, _ | _⟩⟩⟩ := hchildren
  obtain ⟨hshown, token, htoken, hword⟩ := hname.exists_token
  obtain ⟨hhidden, _, -, hsign⟩ := hcolon.exists_token
  obtain ⟨hlist, parts, hmakes, hparts, hwords⟩ := hmany.exists_parts
  obtain ⟨clauses, rfl, hproper, hclauses⟩ := Part.IsOf.exists_clauses hparts
  obtain ⟨after, hyields⟩ := yields_readRule token clauses
  refine ⟨_, _, after, ?_, hyields, ⟨rfl, hproper⟩, ?_⟩
  · simpa [hshown, hhidden, hlist] using ⟨htoken, hmakes⟩
  · simp only [wordsOf_leavesIn_cons, wordsOf_leavesIn_nil, hword, hsign, hwords, hclauses,
      List.append_nil]
    rfl

/-- The children of a clause make a clause. -/
theorem makePart_readClause (hchildren : List.Forall₂ Represents
    [.nonTerminal "atom" .rule false, .option (.nonTerminal "modifier" .rule false) false,
      .option (.terminal .discard false) false] children) :
    MakePart "clause" readClause children := by
  obtain _ | ⟨hatom, _ | ⟨hmodifier, _ | ⟨hmark, _ | _⟩⟩⟩ := hchildren
  obtain ⟨hshown, part, hmakes, hpart, hwords⟩ := hatom.exists_part
  obtain ⟨hsecond, found, hmakesFound, hfound, hwordsFound⟩ := hmodifier.exists_partOption
  obtain ⟨hthird, mark, hmakesMark, hwordsMark⟩ := hmark.exists_tokenOption
  obtain ⟨clause, rfl, hproper, hbare⟩ := hpart.exists_atom
  obtain ⟨modifier, rfl⟩ := Part.IsOf.exists_modifierOption hfound
  obtain ⟨after, hyields⟩ := yields_readClause clause modifier mark
  refine ⟨_, _, after, ?_, hyields, ⟨rfl, hproper.withMarks _ _⟩, ?_⟩
  · simpa [hshown, hsecond, hthird] using ⟨hmakes, hmakesFound, hmakesMark⟩
  · simp only [wordsOf_leavesIn_cons, wordsOf_leavesIn_nil, hwords, hwordsFound, hwordsMark,
      List.append_nil, Part.words, ClauseText.words_withMarks hbare]
    cases modifier <;> cases mark <;> rfl

/-- The child of a name makes a clause. -/
theorem makePart_readName (hchildren : List.Forall₂ Represents
    [.terminal .identifier false] children) :
    MakePart "atom" readName children := by
  obtain _ | ⟨hname, _ | _⟩ := hchildren
  obtain ⟨hshown, token, htoken, hword⟩ := hname.exists_token
  obtain ⟨after, hyields⟩ := yields_readName token
  refine ⟨_, _, after, ?_, hyields, ⟨rfl, trivial, rfl⟩, ?_⟩
  · simpa [hshown] using htoken
  · simp only [wordsOf_leavesIn_cons, wordsOf_leavesIn_nil, hword]
    rfl

/-- The children of a group make a group. -/
theorem makePart_readGroup (hchildren : List.Forall₂ Represents
    [.terminal .openParen true, .oneOrMore (.nonTerminal "clause" .rule false) false,
      .terminal .closeParen true] children) :
    MakePart "atom" readGroup children := by
  obtain _ | ⟨hopening, _ | ⟨hmany, _ | ⟨hclosing, _ | _⟩⟩⟩ := hchildren
  obtain ⟨hfirst, _, -, hwordFirst⟩ := hopening.exists_token
  obtain ⟨hlist, parts, hmakes, hne, hparts, hwords⟩ := hmany.exists_someParts
  obtain ⟨hlast, _, -, hwordLast⟩ := hclosing.exists_token
  obtain ⟨clauses, rfl, hproper, hclauses⟩ := Part.IsOf.exists_clauses hparts
  obtain ⟨after, hyields⟩ := yields_readGroup clauses
  refine ⟨_, _, after, ?_, hyields, ⟨rfl, ⟨fun hnil => hne (by rw [hnil]; rfl), hproper⟩, rfl⟩, ?_⟩
  · simpa [hfirst, hlist, hlast] using hmakes
  · simp only [wordsOf_leavesIn_cons, wordsOf_leavesIn_nil, hwordFirst, hwordLast, hwords, hclauses,
      List.append_nil]
    rfl

/-- The children of a choice make a choice. -/
theorem makePart_readChoice
    (hchildren : List.Forall₂ Represents [.terminal .openBracket true, .terminal .identifier false,
      .zeroOrMore (.nonTerminal "alternative" .rule false) false, .terminal .closeBracket true]
      children) :
    MakePart "atom" readChoice children := by
  obtain _ | ⟨hopening, _ | ⟨hname, _ | ⟨hmany, _ | ⟨hclosing, _ | _⟩⟩⟩⟩ := hchildren
  obtain ⟨hfirst, _, -, hwordFirst⟩ := hopening.exists_token
  obtain ⟨hshown, token, htoken, hword⟩ := hname.exists_token
  obtain ⟨hlist, parts, hmakes, hparts, hwords⟩ := hmany.exists_parts
  obtain ⟨hlast, _, -, hwordLast⟩ := hclosing.exists_token
  obtain ⟨names, rfl, hnames⟩ := Part.IsOf.exists_names hparts
  obtain ⟨after, hyields⟩ := yields_readChoice token names
  refine ⟨_, _, after, ?_, hyields, ⟨rfl, List.cons_ne_nil _ _, rfl⟩, ?_⟩
  · simpa [hfirst, hshown, hlist, hlast] using ⟨htoken, hmakes⟩
  · simp only [wordsOf_leavesIn_cons, wordsOf_leavesIn_nil, hwordFirst, hword, hwordLast,
      hwords, hnames, List.append_nil]
    rfl

/-- The child of an alternative makes a name. -/
theorem makePart_readAlternative (hchildren : List.Forall₂ Represents
    [.terminal .or true, .terminal .identifier false] children) :
    MakePart "alternative" readAlternative children := by
  obtain _ | ⟨hbar, _ | ⟨hname, _ | _⟩⟩ := hchildren
  obtain ⟨hhidden, _, -, hsign⟩ := hbar.exists_token
  obtain ⟨hshown, token, htoken, hword⟩ := hname.exists_token
  obtain ⟨after, hyields⟩ := yields_readAlternative token
  refine ⟨_, _, after, ?_, hyields, ⟨rfl, trivial⟩, ?_⟩
  · simpa [hhidden, hshown] using htoken
  · simp only [wordsOf_leavesIn_cons, wordsOf_leavesIn_nil, hsign, hword, List.append_nil]
    rfl

/-- The child of a modifier makes a modifier. -/
theorem makePart_modifier (modifier : Modifier)
    (hchildren : List.Forall₂ Represents [.terminal modifier.kind false] children) :
    MakePart "modifier" (return .modifier modifier) children := by
  obtain _ | ⟨hsign, _ | _⟩ := hchildren
  obtain ⟨hshown, token, htoken, hword⟩ := hsign.exists_token
  refine ⟨[.token token], .modifier modifier, _, ?_, rfl, ⟨rfl, trivial⟩, ?_⟩
  · simpa [hshown] using htoken
  · simp only [wordsOf_leavesIn_cons, wordsOf_leavesIn_nil, hword]
    cases modifier <;> rfl

/-- The children of a node have values that a part is made of, and its words are theirs. -/
theorem Production.makePart (hproduction : Production name clauses taking)
    (hchildren : List.Forall₂ Represents clauses children) : MakePart name taking children := by
  cases hproduction with
  | rule => exact makePart_readRule hchildren
  | clause => exact makePart_readClause hchildren
  | name => exact makePart_readName hchildren
  | group => exact makePart_readGroup hchildren
  | choice => exact makePart_readChoice hchildren
  | alternative => exact makePart_readAlternative hchildren
  | modifier modifier => exact makePart_modifier modifier hchildren

end MakePart

/-- A repetition of results is the list of them. -/
theorem manyValue_map_value (parts : List Part) :
    manyValue .value (parts.map .value) = (.values parts : Value RuleToken Part) := by
  simp [manyValue, List.filterMap_map, Function.comp_def, Value.asValue?]

/-- Each item of a repetition has a part as its value. -/
theorem forall₂_parts_of_items {items : List (SyntaxTree RuleToken)} {hidden : Bool}
    (hitems : ∀ item ∈ items, Represents (.nonTerminal name .rule hidden) item) :
    ∃ parts : List Part, List.Forall₂ (Makes grammar) items (parts.map .value) ∧
      (∀ part ∈ parts, part.IsOf name) ∧
      wordsOf (SyntaxTree.leavesIn items) = parts.flatMap Part.words := by
  induction items with
  | nil => exact ⟨[], .nil, nofun, rfl⟩
  | cons item rest ih =>
    obtain ⟨hitem, hrest⟩ := List.forall_mem_cons.1 hitems
    obtain ⟨-, part, hmakes, hpart, hwords⟩ := hitem.exists_part
    obtain ⟨parts, hmakesRest, hparts, hwordsRest⟩ := ih hrest
    exact ⟨part :: parts, .cons hmakes hmakesRest, List.forall_mem_cons.2 ⟨hpart, hparts⟩,
      by rw [wordsOf_leavesIn_cons, hwords, hwordsRest, List.flatMap_cons]⟩

/-- The parts that the items of a repetition are made into, one for each. -/
theorem exists_parts_of_items {items : List (SyntaxTree RuleToken)} {hidden : Bool}
    (hitems : ∀ item ∈ items, Represents (.nonTerminal name .rule hidden) item) (discarded : Bool) :
    ∃ parts : List Part, parts.length = items.length ∧
      Makes grammar (.many .value items discarded) (.values parts) ∧
      (∀ part ∈ parts, part.IsOf name) ∧
        wordsOf (SyntaxTree.many .value items discarded).leaves = parts.flatMap Part.words := by
  obtain ⟨parts, hmakes, hparts, hwords⟩ := forall₂_parts_of_items hitems
  refine ⟨parts, by simpa using hmakes.length_eq.symm, ?_, hparts, hwords⟩
  exact manyValue_map_value parts ▸ makes_many hmakes .value discarded

/-- Whether a clause is of a sort that rule notation has. -/
def isSimple : Clause RuleToken → Bool
  | .terminal .. | .nonTerminal _ .rule _ | .option (.terminal ..) _ | .option
      (.nonTerminal _ .rule _) _
  | .zeroOrMore (.nonTerminal _ .rule _) _ | .oneOrMore (.nonTerminal _ .rule _) _ => true
  | _ => false

/-- All clauses of rule notation are simple. -/
theorem Production.isSimple (hproduction : Production name clauses taking) :
    ∀ clause ∈ clauses, RuleText.isSimple clause = true := by
  cases hproduction <;> simp [RuleText.isSimple]

/-- Whether every word is written as all words of its kind are. -/
def AreSpelled (words : List Word) : Prop := ∀ word ∈ words, word = spelled word.1 word.2

theorem areSpelled_append {first rest : List Word} :
    AreSpelled (first ++ rest) ↔ AreSpelled first ∧ AreSpelled rest := List.forall_mem_append

theorem AreSpelled.of_mem {items : List (SyntaxTree RuleToken)}
    (hspelled : AreSpelled (wordsOf (SyntaxTree.leavesIn items))) {item : SyntaxTree RuleToken}
    (hitem : item ∈ items) : AreSpelled (wordsOf (SyntaxTree.leavesIn [item])) := by
  induction items with
  | nil => cases hitem
  | cons first rest ih =>
    rw [wordsOf_leavesIn_cons, areSpelled_append] at hspelled
    rcases List.mem_cons.1 hitem with rfl | hitem
    · rw [SyntaxTree.leavesIn_singleton]
      exact hspelled.1
    · exact ih hspelled.2 hitem

section Represents

variable {kind : RuleToken} {inner : Clause RuleToken} {discarded : Bool}
    {children items : List (SyntaxTree RuleToken)}

/-- A token represents itself. -/
theorem represents_leaf {token : Token RuleToken} (hkind : token.kind = some kind)
    (hspelled : AreSpelled (wordsOf (SyntaxTree.leaf token discarded).leaves)) :
    Represents (.terminal kind discarded) (.leaf token discarded) := by
  have hwords : wordsOf (SyntaxTree.leaf token discarded).leaves = [(kind, token.value)] := by
    simp [SyntaxTree.leaves, wordsOf, hkind]
  refine .token rfl (makes_leaf token discarded) ?_
  rw [hwords, hspelled (kind, token.value) (by simp [hwords])]

/-- A node represents the part that is made of its children. -/
theorem represents_node {index : Nat} {rule : Rule RuleToken PartReducer}
    (hrule : grammar.rule? name index = some rule)
    (hchildren : (∀ clause ∈ rule.clauses, isSimple clause = true) →
      List.Forall₂ Represents rule.clauses children) :
    Represents (.nonTerminal name .rule discarded)
      (.node
        { name
          rule := index
          isBypass := rule.isBypass
          isGroup := rule.isSubrule
          isExpression := rule.isExpression
          discarded } children) := by
  obtain ⟨hgroup, hbypass, -, taking, hproduction, hreducer⟩ :=
    exists_production (Grammar.mem_rules_of_rule? hrule)
  obtain ⟨values, part, after, hvalues, hyields, hpart, hwords⟩ :=
    hproduction.makePart (hchildren hproduction.isSimple)
  refine .part rfl (makes_node hgroup hbypass ?_ hvalues (ofTaking_eq_ok hyields)) hpart hwords
  rw [reducer?_eq hrule rfl, hreducer]

/-- An option that is not there represents nothing. -/
theorem represents_absent (hsimple : isSimple (.option inner discarded) = true) :
    Represents (.option inner discarded) (.absent inner.shape discarded) := by
  match inner, hsimple with
  | .terminal .., _ =>
    exact @Represents.tokenOption _ _ _ _ none rfl (makes_absent .token discarded) rfl
  | .nonTerminal _ .rule _, _ =>
    exact @Represents.partOption _ _ _ _ none rfl (makes_absent .value discarded) nofun rfl

/-- An option that is there represents what its child does. -/
theorem represents_present {child : SyntaxTree RuleToken}
    (hsimple : isSimple (.option inner discarded) = true)
    (hchild : isSimple inner = true → Represents inner child) :
    Represents (.option inner discarded) (.present inner.shape child discarded) := by
  match inner, hsimple with
  | .terminal .., _ =>
    obtain ⟨-, token, hmakes, hwords⟩ := (hchild rfl).exists_token
    exact @Represents.tokenOption _ _ _ _ (some token) rfl (hmakes.present .token discarded) hwords
  | .nonTerminal _ .rule _, _ =>
    obtain ⟨-, part, hmakes, hpart, hwords⟩ := (hchild rfl).exists_part
    refine @Represents.partOption _ _ _ _ (some part) rfl (hmakes.present .value discarded) ?_ ?_
    · rintro _ ⟨⟩
      exact hpart
    · simpa [SyntaxTree.leaves] using hwords

/-- A repetition represents what its items do. -/
theorem represents_zeroOrMore (hsimple : isSimple (.zeroOrMore inner discarded) = true)
    (hitems : isSimple inner = true → ∀ item ∈ items, Represents inner item) :
    Represents (.zeroOrMore inner discarded) (.many inner.shape items discarded) := by
  match inner, hsimple with
  | .nonTerminal _ .rule _, _ =>
    obtain ⟨parts, -, hmakes, hparts, hwords⟩ := exists_parts_of_items (hitems rfl) discarded
    exact .parts rfl hmakes hparts hwords

/-- A repetition that is not empty represents what its items do. -/
theorem represents_oneOrMore (hne : items ≠ [])
    (hsimple : isSimple (.oneOrMore inner discarded) = true)
    (hitems : isSimple inner = true → ∀ item ∈ items, Represents inner item) :
    Represents (.oneOrMore inner discarded) (.many inner.shape items discarded) := by
  match inner, hsimple with
  | .nonTerminal _ .rule _, _ =>
    obtain ⟨parts, hlength, hmakes, hparts, hwords⟩ := exists_parts_of_items (hitems rfl) discarded
    refine .someParts rfl hmakes ?_ hparts hwords
    rw [← List.length_pos_iff, hlength]
    exact List.length_pos_iff.2 hne

end Represents

/-- Every tree of rule notation is reduced to what its words stand for. -/
theorem represents_of_derives {trees : List (SyntaxTree RuleToken)}
    (hderives : grammar.Derives clauses trees)
    (hsimple : ∀ clause ∈ clauses, isSimple clause = true)
    (hspelled : AreSpelled (wordsOf (SyntaxTree.leavesIn trees))) :
    List.Forall₂ Represents clauses trees := by
  have hsingle {inner : Clause RuleToken} {item : SyntaxTree RuleToken}
      (hinner : isSimple inner = true) (hforall : (∀ clause ∈ [inner], isSimple clause = true) →
        List.Forall₂ Represents [inner] [item]) : Represents inner item := by
    obtain _ | ⟨hitem, _⟩ := hforall (List.forall_mem_singleton.2 hinner)
    exact hitem
  induction hderives with
  | nil => exact .nil
  | terminal hkind _ ih =>
    obtain ⟨-, hrest⟩ := List.forall_mem_cons.1 hsimple
    rw [wordsOf_leavesIn_cons, areSpelled_append] at hspelled
    exact .cons (represents_leaf hkind hspelled.1) (ih hrest hspelled.2)
  | @nonTerminal name role _ _ _ _ _ _ hrule _ _ ihChildren ih =>
    obtain ⟨hfirst, hrest⟩ := List.forall_mem_cons.1 hsimple
    rw [wordsOf_leavesIn_cons, areSpelled_append] at hspelled
    cases role with
    | rule =>
      exact .cons (represents_node hrule fun hclauses => ihChildren hclauses hspelled.1)
        (ih hrest hspelled.2)
    | _ => cases hfirst
  | absent _ ih =>
    obtain ⟨hfirst, hrest⟩ := List.forall_mem_cons.1 hsimple
    exact .cons (represents_absent hfirst) (ih hrest hspelled)
  | present _ _ ihChild ih =>
    obtain ⟨hfirst, hrest⟩ := List.forall_mem_cons.1 hsimple
    rw [wordsOf_leavesIn_cons, areSpelled_append] at hspelled
    rw [SyntaxTree.leavesIn_singleton] at ihChild
    refine .cons (represents_present hfirst fun hinner => ?_) (ih hrest hspelled.2)
    exact hsingle hinner fun hclauses => ihChild hclauses hspelled.1
  | zeroOrMore _ _ ihItems ih =>
    obtain ⟨hfirst, hrest⟩ := List.forall_mem_cons.1 hsimple
    rw [wordsOf_leavesIn_cons, areSpelled_append] at hspelled
    refine .cons (represents_zeroOrMore hfirst fun hinner item hitem => ?_) (ih hrest hspelled.2)
    exact hsingle hinner fun hclauses => ihItems item hitem hclauses (hspelled.1.of_mem hitem)
  | oneOrMore hne _ _ ihItems ih =>
    obtain ⟨hfirst, hrest⟩ := List.forall_mem_cons.1 hsimple
    rw [wordsOf_leavesIn_cons, areSpelled_append] at hspelled
    refine .cons (represents_oneOrMore hne hfirst fun hinner item hitem => ?_) (ih hrest hspelled.2)
    exact hsingle hinner fun hclauses => ihItems item hitem hclauses (hspelled.1.of_mem hitem)

end Trees

end RuleText

end GrammarKit
