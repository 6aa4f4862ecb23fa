import GrammarKit.Proofs.Parser.Arguments
import GrammarKit.Proofs.Reduction.Items

namespace GrammarKit

variable {K O C : Type} [DecidableEq K] [TokenKind K]

namespace Clause

omit [DecidableEq K] [TokenKind K]

/-- Clauses look like ones that are written if each of them does. -/
theorem areWritten_of_forall {clauses : List (Clause K)}
    (hall : ∀ clause ∈ clauses, clause.IsWritten) :
    AreWritten clauses := by
  induction clauses with
  | nil => trivial
  | cons first rest ih =>
    obtain ⟨hfirst, hrest⟩ := List.forall_mem_cons.1 hall
    exact ⟨hfirst, ih hrest⟩

/-- What a clause that is written is made of is written. -/
theorem isHereditary_isWritten : IsHereditary (K := K) IsWritten AreWritten where
  head hwritten := hwritten.1
  tail hwritten := hwritten.2
  group := id
  choice hwritten := areWritten_of_forall fun alternative halternative =>
    (isWritten_of_isMereName (hwritten.2 alternative halternative)).1
  option hwritten := hwritten.2.2
  zeroOrMore hwritten := hwritten.2.2
  oneOrMore hwritten := hwritten.2.2

/-- What a clause is made of refers to nothing else. -/
theorem isHereditary_references (holds : String → Prop) :
    IsHereditary (K := K) (fun clause => ∀ name ∈ clause.references, holds name)
      fun clauses => ∀ name ∈ referencesIn clauses, holds name where
  head hall := (List.forall_mem_append.1 hall).1
  tail hall := (List.forall_mem_append.1 hall).2
  group := id
  choice := id
  option := id
  zeroOrMore := id
  oneOrMore := id

end Clause

namespace Grammar

/-- What a clause without mixed choices is made of has none. -/
theorem isHereditary_unmixedIn {R : Type} (grammar : Grammar K R) :
    Clause.IsHereditary (fun clause => grammar.UnmixedIn [clause]) grammar.UnmixedIn where
  head hunmixed := (unmixedIn_cons_iff.1 hunmixed).1
  tail hunmixed := (unmixedIn_cons_iff.1 hunmixed).2
  group hunmixed := by simpa only [UnmixedIn, Clause.valueChoicesIn, Clause.valueChoices,
    List.append_nil] using hunmixed
  choice hunmixed := by simpa only [UnmixedIn, Clause.valueChoicesIn, Clause.valueChoices,
    List.append_nil] using hunmixed
  option := id
  zeroOrMore := id
  oneOrMore := id

end Grammar

namespace Layering

open Grammar

variable {layering : Layering K (Reducer K O C)}

/-- A choice between names is reduced to a token if all of them are those of
    kinds, and to a result otherwise. -/
theorem IsSeparate.eq_form_of_mem (hseparate : layering.IsSeparate) {members : List (Clause K)}
    {member flat : Clause K} (hmember : member ∈ members) (hmere : member.isMereName = true)
    (hstands : layering.grammar.Stands [member] [flat])
    (hfree : ∀ name ∈ Clause.referencesIn members, layering.IsFree name)
    (htokens : ∀ kind discarded, flat = .terminal kind discarded →
      members.all Clause.isTerminal = true)
    {form : Option Shape} (hform : layering.grammar.CanBe flat form) :
    form = some (if members.all Clause.isTerminal then .token else .value) := by
  cases hstands with
  | terminal =>
    cases hform
    rw [if_pos (htokens _ _ rfl)]
  | @nonTerminal next =>
    have hnot : ¬ members.all Clause.isTerminal = true := fun hall => by
      cases List.all_eq_true.1 hall _ hmember
    have hnext := hfree next (Clause.mem_referencesIn.2 ⟨_, hmember, List.mem_cons_self⟩)
    rw [if_neg hnot]
    exact hseparate.eq_of_canBe hform hnext.1
  | group | choice | option | zeroOrMore | oneOrMore => cases hmere

/-- A clause that stands for one that may be repeated is reduced to what its
    repetition collects. -/
theorem IsSeparate.eq_shape_of_canBe (hseparate : layering.IsSeparate) {original flat : Clause K}
    (hstands : layering.grammar.Stands [original] [flat]) (hatom : original.isAtom = true)
    (hwritten : original.IsWritten) (hfree : ∀ name ∈ original.references, layering.IsFree name)
    (hunmixed : layering.grammar.UnmixedIn [flat]) {form : Option Shape}
    (hform : layering.grammar.CanBe flat form) : form = some flat.shape := by
  rw [hstands.shape_eq hwritten]
  cases hstands with
  | terminal =>
    cases hform
    rfl
  | nonTerminal => exact hseparate.eq_of_canBe hform (hfree _ List.mem_cons_self).1
  | group hgroup =>
    cases hform with
    | passedOn hrule hbypass =>
      obtain ⟨-, -, hnot, -⟩ := hgroup _ hrule
      rw [hnot] at hbypass
      cases hbypass
    | node hrule =>
      obtain ⟨-, hsubrule, -⟩ := hgroup _ hrule
      rw [hsubrule]
      rfl
  | @choice name members inner _ _ _ hchoice _ hmembers =>
    obtain ⟨hne, hmere⟩ := hwritten
    cases hform with
    | node hrule hnot =>
      obtain ⟨_, -, -, hbypass, -⟩ := hchoice hne _ hrule
      rw [hbypass] at hnot
      cases hnot
    | passedOn hrule hbypass hclauses hform =>
      obtain ⟨flat, hflat, halternative, -⟩ := hchoice hne _ hrule
      obtain rfl := List.singleton_inj.1 (hclauses.symm.trans halternative)
      obtain ⟨member, hmember, hmemberStands⟩ := hmembers.exists_of_mem hflat
      refine hseparate.eq_form_of_mem hmember (hmere member hmember) hmemberStands hfree ?_ hform
      -- A token among values would be a mixed choice.
      rintro kind discarded rfl
      by_contra hnot
      rw [Flat.choiceRole, if_neg hnot] at hunmixed
      exact hunmixed name List.mem_cons_self _ hrule kind discarded hclauses
  | option | zeroOrMore | oneOrMore => cases hatom

/-- Rules that look like ones that are written keep their items, if the names
    that are made up are used for nothing else. -/
theorem IsSeparate.keepsItems (hseparate : layering.IsSeparate) : layering.grammar.KeepsItems := by
  rintro ⟨name, rule⟩ hrule flat hflat form hform
  obtain ⟨entry, hentry, original, horiginal, hstands⟩ :=
    hseparate.exists_of_mem_repeated hrule hflat
  have hwritten : original.isAtom = true ∧ original.IsWritten := by
    obtain ⟨_, hrepetition | hrepetition⟩ :=
      Clause.isHereditary_isWritten.exists_of_mem_repeatedIn (hseparate.areWritten entry hentry)
        horiginal
    · exact hrepetition.2
    · exact hrepetition.2
  have hfree := (Clause.isHereditary_references layering.IsFree).of_mem_repeatedIn
    (hseparate.references entry hentry) horiginal
  have hunmixed := layering.grammar.isHereditary_unmixedIn.of_mem_repeatedIn
    (hseparate.unmixedIn hrule) hflat
  exact hseparate.eq_shape_of_canBe hstands hwritten.1 hwritten.2 hfree hunmixed hform

end Layering

namespace Parser

open Precedence Reduction

variable {declarations : List (Declaration K O C)} {operations : List (Operation K (Reducer K O C))}
  {options : ParserOptions} {start operand : String} {parser : Parser K O C}

/-- In a parser rules that only lead on have a single clause. -/
theorem IsBuilt.leadsSingly
    (hbuilt : IsBuilt declarations operations options start operand parser) :
    parser.grammar.LeadsSingly := by
  rw [hbuilt.grammar_eq, hbuilt.unflattened_eq]
  refine Grammar.LeadsSingly.analyse ⟨?_, ?_⟩
  · exact Grammar.exists_clause_of_isBypass isPlain_of_mem_rules
  · exact Grammar.not_isBypass_of_affix isPlain_of_mem_rules

/-- Whether all clauses that are declared as such look like ones that are written. -/
def ClausesAreWritten (declarations : List (Declaration K O C)) : Prop :=
  ∀ name clauses reducer, .clauses name clauses reducer ∈ declarations → Clause.AreWritten clauses

/-- Clauses that are read from texts are written ones in any case. -/
theorem ClausesAreWritten.areWritten (hwritten : ClausesAreWritten declarations) :
    ∀ entry ∈ (declared declarations options start).grammar.rules,
      Clause.AreWritten entry.2.clauses := by
  rintro ⟨name, rule⟩ hrule
  obtain ⟨declaration, hmem, hdeclares⟩ := mem_rules_declared.1 hrule
  cases hdeclares with
  | text hread => exact RuleText.isWritten_of_read hread
  | clauses => exact hwritten _ _ _ hmem

/-- A parser keeps its items if its rules look like ones that are written and
    the names that are made up are reserved. -/
theorem IsBuilt.keepsItems (hbuilt : IsBuilt declarations operations options start operand parser)
    (hwritten : ClausesAreWritten declarations)
    (hnames : NamesAreReserved declarations operations options start) :
    parser.grammar.KeepsItems := by
  rw [hbuilt.grammar_eq_layering]
  exact (hbuilt.isSeparate_of_areWritten hwritten.areWritten hnames).keepsItems

/-- What a parser that was built makes of the repetitions that it visits, where
    a text has a value. There is an entry for each item that has the form of the
    repetition, so for all of them if and only if no item has another form. No
    item has one if the rules repeat nothing that is reduced to another form, as
    is the case if all clauses look like ones that are written and the names
    that are made up are used for nothing else. -/
theorem parseFrom_collects {lexer : Lexer K}
    (hbuild : (build lexer declarations operations options start).value = some parser)
    {source first : String} {context last : C} {result : O}
    (hparse : parser.parseFrom source first context = (.ok result, last)) :
    (∃ tree, parser.syntaxTreeFrom source first = .ok tree ∧ ∀ shape items discarded found,
      Visits parser.grammar tree context (.many shape items discarded) found →
        ∃ values collected next, Collects parser.grammar shape items discarded found values
          collected next ∧
          (shape.Lists values collected ↔ ∀ item ∈ items, item.form? = some shape) ∧
            (parser.grammar.KeepsItems → shape.Lists values collected)) ∧
      (ClausesAreWritten declarations → NamesAreReserved declarations operations options start →
        parser.grammar.KeepsItems) := by
  obtain ⟨operand, hbuilt⟩ := exists_isBuilt hbuild
  refine ⟨?_, hbuilt.keepsItems⟩
  obtain ⟨tree, htree, hreduce⟩ := parseFrom_eq_ok_iff.1 hparse
  obtain ⟨tokens, raw, -, hraw, rfl⟩ := exists_parse_of_syntaxTreeFrom htree
  have hderives := hbuilt.derives hraw
  obtain ⟨hnormal, -⟩ := List.forall₂_cons.1 (hderives.isNormalMatch hbuilt.leadsSingly)
  obtain ⟨value, after, hvalue, -⟩ := yields_bind_iff.1 hreduce
  refine ⟨_, htree, fun shape items discarded found hvisits => ?_⟩
  obtain ⟨values, collected, next, hcollects⟩ := hvisits.exists_collects hnormal.stays hvalue
  refine ⟨values, collected, next, hcollects, hcollects.lists_iff,
    fun hkeeps => hcollects.lists_iff.2 ?_⟩
  have hrepetition : (shape, items) ∈ (raw.normalize parser.grammar).repetitions :=
    hvisits.repetitions_subset List.mem_cons_self
  exact hderives.form?_eq_of_mem_repetitions hbuilt.leadsSingly hkeeps hrepetition

namespace Sample

/-- The number of entries of the first argument, if it is a list. -/
def sizing : Reducer (Kind symbols) Nat Unit := fun arguments context =>
  (.ok (match arguments.get? 0 with
    | some (.tokens found) => found.length
    | some (.values found) => found.length
    | some (.groups found) => found.length
    | _ => 0), context)

/-- Any number of signs. -/
def signs : List (Declaration (Kind symbols) Nat Unit) :=
  [.text "signs : [ PLUS | MINUS ]*" sizing false]

/-- The rule of signs as it was declared. -/
def signRules : Grammar (Kind symbols) (Reducer (Kind symbols) Nat Unit) :=
  (Grammar.empty "signs").add "signs"
    { clauses := [.zeroOrMore (.choice [.ofKind plus, .ofKind minus] false) false],
      reducer := some sizing }

theorem read_signs :
    (RuleText.read "signs : [ PLUS | MINUS ]*" .ebnf :
      Except _ (String × List (Clause (Kind symbols)))) =
    .ok ("signs", [.zeroOrMore (.choice [.ofKind plus, .ofKind minus] false) false]) :=
  RuleText.read_eq_ok (by decide +kernel)

theorem declared_signs : declared signs {} "signs" = { grammar := signRules, operands := [] } := by
  simp only [declared, signs, List.foldl, Reading.insert, read_signs]
  rfl

theorem insertOperations_signs : (declared signs {} "signs").insertOperations "expressions" [] =
    { grammar := signRules, operands := [] } := by
  rw [declared_signs, insertOperations_nil]

/-- The parser of signs. -/
def signsParser : Parser (Kind symbols) Nat Unit := ⟨lexer, signRules.flatten.analyse, {}⟩

/-- The parser of signs is built without a word. -/
theorem build_signs :
    build lexer signs [] {} "signs" = ⟨some signsParser, [], fun h => nomatch h⟩ :=
  build_eq insertOperations_signs (by decide +kernel)

theorem namesAreReserved_signs : NamesAreReserved signs [] {} "signs" := by
  have hwhole : unflattened signs [] {} "signs" = signRules :=
    congrArg Reading.grammar insertOperations_signs
  constructor
  · constructor
    · simp only [hwhole, layerNames_nil]
      decide
    · simp only [hwhole, declared_signs, layerNames_nil]
      decide
  · simp only [hwhole, declared_signs, layerNames_nil]
    decide

/-- A repetition of two tokens under the root. -/
def pairTree (shape : Shape) (first second : Token (Kind symbols)) : SyntaxTree (Kind symbols) :=
  .node { name := "signs", rule := 0 } [.many shape [.leaf first false, .leaf second false] false]

/-- The tokens of such a tree. -/
def pair? (shape : Shape) :
    SyntaxTree (Kind symbols) → Option (Token (Kind symbols) × Token (Kind symbols))
  | .node label [.many found [.leaf first false, .leaf second false] false] =>
    if label = { name := "signs", rule := 0 } ∧ found = shape then some (first, second) else none
  | _ => none

/-- A tree with two such tokens is a pair. -/
theorem eq_pairTree_of_pair?_eq_some {shape : Shape} {tree : SyntaxTree (Kind symbols)}
    {first second : Token (Kind symbols)} (hpair : pair? shape tree = some (first, second)) :
    tree = pairTree shape first second := by
  unfold pair? at hpair
  split at hpair
  · split at hpair
    · next hsame =>
      obtain ⟨rfl, rfl⟩ := hsame
      obtain ⟨rfl, rfl⟩ := Prod.mk.inj (Option.some.inj hpair)
      rfl
    · cases hpair
  · cases hpair

/-- Two characters are read as a pair. -/
theorem exists_pairTree {declarations : List (Declaration (Kind symbols) Nat Unit)}
    {parser : Parser (Kind symbols) Nat Unit}
    (hbuild : (build lexer declarations [] {} "signs").value = some parser) (shape : Shape)
    (source : String)
    (hpair : (((parser.withMemoize false).syntaxTreeFrom source "signs").toOption.bind
      (pair? shape)).isSome = true) :
    ∃ first second, parser.syntaxTreeFrom source "signs" = .ok (pairTree shape first second) := by
  obtain ⟨operand, hbuilt⟩ := exists_isBuilt hbuild
  rw [hbuilt.syntaxTreeFrom_withMemoize_eq] at hpair
  obtain ⟨⟨first, second⟩, hsome⟩ := Option.isSome_iff_exists.1 hpair
  cases htree : parser.syntaxTreeFrom source "signs" with
  | error failure =>
    rw [htree] at hsome
    cases hsome
  | ok tree =>
    rw [htree] at hsome
    exact ⟨first, second, congrArg Except.ok (eq_pairTree_of_pair?_eq_some hsome)⟩

/-- A visit comes to the only child of the root at once. -/
theorem visits_child {grammar : Grammar (Kind symbols) (Reducer (Kind symbols) Nat Unit)}
    {label : NodeLabel (Kind symbols)} {child : SyntaxTree (Kind symbols)}
    (hshown : child.isDiscarded = false) :
    Visits grammar (.node label [child]) () child () :=
  .next (@Enters.node _ _ _ _ _ grammar label [] [] child () () [] hshown
    (yields_pure_iff.2 ⟨rfl, rfl⟩)) (.refl _ _)

end Sample

open Sample in
theorem parseFrom_collects_signs :
    ∃ (first second : Token (Kind symbols)) (values : List (Value (Kind symbols) Nat))
    (collected : Value (Kind symbols) Nat), (build Sample.lexer signs [] {} "signs").value =
      some signsParser ∧
      signsParser.parseFrom "+-" "signs" () = (.ok 2, ()) ∧ signsParser.grammar.KeepsItems ∧
        Collects signsParser.grammar .token [.leaf first false, .leaf second false] false
          () values collected () ∧
          Shape.token.Lists values collected := by
  have hbuild : (build Sample.lexer signs [] {} "signs").value = some signsParser := by
    rw [build_signs]
  obtain ⟨first, second, hpair⟩ := exists_pairTree hbuild .token "+-" (by decide +kernel)
  have hparse : signsParser.parseFrom "+-" "signs" () = (.ok 2, ()) :=
    parseFrom_eq_ok_iff.2 ⟨_, hpair, rfl⟩
  obtain ⟨⟨tree, htree, hcollects⟩, hkeeps⟩ := parseFrom_collects hbuild hparse
  obtain rfl := Except.ok.inj (htree.symm.trans hpair)
  have hkept := hkeeps (by simp [ClausesAreWritten, signs]) namesAreReserved_signs
  obtain ⟨values, collected, next, hcollects, -, hlists⟩ := hcollects _ _ _ _ (visits_child rfl)
  exact ⟨first, second, values, collected, hbuild, hparse, hkept, hcollects, hlists hkept⟩

namespace Sample

/-- Any number of tokens, each of which is chosen in two steps. -/
def nested : List (Declaration (Kind symbols) Nat Unit) :=
  [.clauses "signs"
    [.zeroOrMore (.choice [.choice [.ofKind plus, .ofKind minus] false,
      .choice [.ofKind power, .ofKind int] false] false) false] sizing]

/-- The rule as it was declared. -/
def nestedRules : Grammar (Kind symbols) (Reducer (Kind symbols) Nat Unit) :=
  (Grammar.empty "signs").add "signs"
    { clauses := [.zeroOrMore
        (.choice [.choice [.ofKind plus, .ofKind minus] false,
          .choice [.ofKind power, .ofKind int] false] false) false]
      reducer := some sizing }

theorem insertOperations_nested : (declared nested {} "signs").insertOperations "expressions" [] =
    { grammar := nestedRules, operands := [] } :=
  insertOperations_nil _ _

/-- The parser of tokens that are chosen in two steps. -/
def nestedParser : Parser (Kind symbols) Nat Unit := ⟨lexer, nestedRules.flatten.analyse, {}⟩

/-- The parser of tokens that are chosen in two steps is built without a word. -/
theorem build_nested :
    build lexer nested [] {} "signs" = ⟨some nestedParser, [], fun h => nomatch h⟩ :=
  build_eq insertOperations_nested (by decide +kernel)

end Sample

open Sample in
/-- A build has nothing to say about a choice between choices of tokens. Its
    matches are tokens, but a repetition of it collects results, so both items
    of a text are visited and none is left in the list. -/
theorem exists_items_left_out :
    ∃ (parser : Parser (Kind symbols) Nat Unit) (tree : SyntaxTree (Kind symbols))
        (items : List (SyntaxTree (Kind symbols))),
      (build Sample.lexer nested [] {} "signs").value = some parser ∧
      (build Sample.lexer nested [] {} "signs").diagnostics = [] ∧
        parser.parseFrom "+^" "signs" () = (.ok 0, ()) ∧
        parser.syntaxTreeFrom "+^" "signs" = .ok tree ∧
          Visits parser.grammar tree () (.many .value items false) () ∧
          items.length = 2 ∧ Yields (visit parser.grammar (.many .value items false)) ()
            (.values []) () := by
  have hbuild : (build Sample.lexer nested [] {} "signs").value = some nestedParser := by
    rw [build_nested]
  have hclear : (build Sample.lexer nested [] {} "signs").diagnostics = [] := by rw [build_nested]
  obtain ⟨first, second, hpair⟩ := exists_pairTree hbuild .value "+^" (by decide +kernel)
  have hparse : nestedParser.parseFrom "+^" "signs" () = (.ok 0, ()) :=
    parseFrom_eq_ok_iff.2 ⟨_, hpair, rfl⟩
  exact ⟨nestedParser, _, _, hbuild, hclear, hparse, hpair, visits_child rfl, rfl, rfl⟩

end Parser

end GrammarKit
