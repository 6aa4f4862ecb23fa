import GrammarKit.Proofs.Parser.Built
import GrammarKit.Proofs.SyntaxTree.Taken

namespace GrammarKit

variable {K O C : Type}

namespace SyntaxTree

/-- What an option holds. -/
def option? : SyntaxTree K → Option (Option (SyntaxTree K))
  | absent .. => some none
  | present _ child _ => some (some child)
  | _ => none

/-- The matches of a repetition. -/
def items? : SyntaxTree K → Option (List (SyntaxTree K))
  | many _ children _ => some children
  | _ => none

end SyntaxTree

namespace Shape

/-- Whether a value is an option of this form that holds a value for the tree,
    or nothing if there is none. -/
def SuitsOption (suits : SyntaxTree K → Value K O → Prop) (found : Option (SyntaxTree K))
    (value : Value K O) :
    Shape → Prop
  | token => ∃ tokens, value = .tokenOption tokens ∧
      Option.Rel (fun tree token => suits tree (.token token)) found tokens
  | .value => ∃ results, value = .valueOption results ∧
      Option.Rel (fun tree result => suits tree (.value result)) found results
  | group => ∃ groups, value = .groupOption groups ∧
      Option.Rel (fun tree items => suits tree (.group items)) found groups

/-- Whether a value is a list of this form, with an entry for each tree. -/
def SuitsMany (suits : SyntaxTree K → Value K O → Prop) (trees : List (SyntaxTree K))
    (value : Value K O) : Shape → Prop
  | token => ∃ tokens, value = .tokens tokens ∧
      List.Forall₂ (fun tree token => suits tree (.token token)) trees tokens
  | .value => ∃ results, value = .values results ∧
      List.Forall₂ (fun tree result => suits tree (.value result)) trees results
  | group => ∃ groups, value = .groups groups ∧
      List.Forall₂ (fun tree items => suits tree (.group items)) trees groups

end Shape

/-- The value of an option that is not there suits. -/
theorem Shape.suitsOption_emptyOption (form : Shape) (suits : SyntaxTree K → Value K O → Prop) :
    form.SuitsOption suits none (Reduction.emptyOption form) := by
  cases form <;> exact ⟨none, rfl, .none⟩

namespace Clause

variable [DecidableEq K] [TokenKind K]

mutual

/-- Whether a value is what a clause promises for the tree that it matched. -/
def Suits : Clause K → SyntaxTree K → Value K O → Prop
  | terminal .., tree, value => ∃ token, tree.token? = some token ∧ value = .token token
  | nonTerminal .., _, value => ∃ result, value = .value result
  | group members _, tree, value =>
    ∃ label children items, tree = .node label children ∧ value = .group items ∧
      SuitAll members children items
  | choice alternatives _, tree, value =>
    if alternatives.all isTerminal then ∃ token, tree.token? = some token ∧ value = .token token
    else ∃ result, value = .value result
  | option inner _, tree, value => ∃ found, tree.option? = some found ∧
      inner.form.SuitsOption (Suits inner) found value
  | zeroOrMore inner _, tree, value => ∃ items, tree.items? = some items ∧
      inner.form.SuitsMany (Suits inner) items value
  | oneOrMore inner _, tree, value =>
    ∃ items, tree.items? = some items ∧ items ≠ [] ∧ inner.form.SuitsMany (Suits inner) items value

/-- Whether named values are what clauses promise: one for each clause that is
    not discarded, in the same order. -/
def SuitAll : List (Clause K) → List (SyntaxTree K) → List (String × Value K O) → Prop
  | [], trees, items => trees = [] ∧ items = []
  | clause :: clauses, trees, items =>
    ∃ tree others, trees = tree :: others ∧
      if clause.isDiscarded then SuitAll clauses others items
      else ∃ value rest, items = (tree.name, value) :: rest ∧ Suits clause tree value ∧
        SuitAll clauses others rest

end

/-- What a name, a group or a choice promises has the form of the clause. -/
theorem Suits.form {clause : Clause K} (hatom : clause.isAtom = true) {tree : SyntaxTree K}
    {value : Value K O} (hsuits : clause.Suits tree value) :
    match clause.form with
    | .token => ∃ token, value = .token token
    | .value => ∃ result, value = .value result
    | .group => ∃ items, value = .group items := by
  cases clause with
  | terminal =>
    obtain ⟨token, -, rfl⟩ := hsuits
    exact ⟨token, rfl⟩
  | nonTerminal => exact hsuits
  | group =>
    obtain ⟨_, _, items, -, rfl, -⟩ := hsuits
    exact ⟨items, rfl⟩
  | choice alternatives discarded =>
    rw [Suits] at hsuits
    rw [Clause.form]
    split at hsuits
    · next hall =>
      obtain ⟨token, -, rfl⟩ := hsuits
      rw [if_pos hall]
      exact ⟨token, rfl⟩
    · next hall =>
      rw [if_neg hall]
      exact hsuits
  | option | zeroOrMore | oneOrMore => cases hatom

end Clause

namespace Reduction

variable [DecidableEq K] [TokenKind K] {grammar : Grammar K (Reducer K O C)}

/-- Whether a node is reduced by applying a reducer to the values of the
    children that are shown, each of them in a slot of its own, in the context
    that reducing the children has left behind. What the reducer comes to is the
    value of the node, and what it fails with is reported for the non-terminal
    of the node. -/
def Applies (grammar : Grammar K (Reducer K O C)) (reducer : Reducer K O C) (label : NodeLabel K)
    (children : List (SyntaxTree K)) : Prop :=
  ∀ context, (visit grammar (.node label children)).run.run context =
    match (visitShown grammar children).run.run context with
    | (.error failure, between) => (.error failure, between)
    | (.ok items, between) =>
      match reducer ⟨items.map fun item => some item.2⟩ between with
      | (.ok value, after) => (.ok (.value value), after)
      | (.error reason, after) => (.error ⟨label.name, reason⟩, after)

/-- A node with a reducer, which is no group and does not only lead on, is
    reduced by applying it. -/
theorem applies_of_reducer? {label : NodeLabel K} {reducer : Reducer K O C}
    (hgroup : label.isGroup = false) (hbypass : label.isBypass = false)
    (hreducer : reducer? grammar label = some reducer) (children : List (SyntaxTree K)) :
    Applies grammar reducer label children := by
  intro context
  rw [visit_node_eq hgroup hbypass, run_bind]
  obtain ⟨failure | items, between⟩ := (visitShown grammar children).run.run context
  · rfl
  · have hslots : Arguments.ofValues (items.map Prod.snd) =
        ⟨items.map fun item => some item.2⟩ := by
      rw [Arguments.ofValues, List.map_map]
      rfl
    rcases hcall : reducer ⟨items.map fun item => some item.2⟩ between with
      ⟨reason | value, after⟩
    · simp only [run_callReducer, hreducer, hslots, hcall]
    · simp only [run_callReducer, hreducer, hslots, hcall]

/-- A node that calls a reducer has its result as its value. -/
theorem Evaluates.call {tree : SyntaxTree K} {value : Value K O} (hcall : tree.IsCall)
    (hvalue : Evaluates grammar tree value) : ∃ result, value = .value result := by
  obtain ⟨label, children, rfl, hbypass, hgroup⟩ := hcall
  obtain ⟨items, -, hnode⟩ := hvalue.node
  rcases hnode with ⟨htrue, -⟩ | ⟨-, htrue, -⟩ | ⟨-, _, _, result, _, -, -, rfl⟩
  · rw [hgroup] at htrue
    cases htrue
  · rw [hbypass] at htrue
    cases htrue
  · exact ⟨result, rfl⟩

theorem forall₂_filterMap {α β γ : Type} {read : β → Option γ} {related : α → γ → Prop}
    {first : List α} {second : List β}
    (hlists : List.Forall₂ (fun a b => ∃ c, read b = some c ∧ related a c) first second) :
    List.Forall₂ related first (second.filterMap read) := by
  induction hlists with
  | nil => exact .nil
  | cons hhead _ ih =>
    obtain ⟨c, hread, hrelated⟩ := hhead
    rw [List.filterMap_cons_some hread]
    exact .cons hrelated ih

/-- What an option is reduced to, where the value of its child has the right form. -/
theorem suitsOption_of_evaluates {inner : Clause K} (hatom : inner.isAtom = true)
    {child : SyntaxTree K} {value : Value K O} (hsuits : inner.Suits child value) :
    inner.form.SuitsOption inner.Suits (some child) (optionValue inner.form value) := by
  have hform := hsuits.form hatom
  cases heq : inner.form with
  | token | value | group =>
    rw [heq] at hform
    obtain ⟨found, rfl⟩ := hform
    exact ⟨some found, rfl, .some hsuits⟩

/-- What a repetition is reduced to: no item is left out, where all their values
    have the right form. -/
theorem suitsMany_of_evaluates {inner : Clause K} (hatom : inner.isAtom = true)
    {trees : List (SyntaxTree K)} {values : List (Value K O)}
    (hsuits : List.Forall₂ inner.Suits trees values) :
    inner.form.SuitsMany inner.Suits trees (manyValue inner.form values) := by
  have hforms := hsuits.imp fun tree value hvalue => And.intro hvalue (hvalue.form hatom)
  cases heq : inner.form with
  | token | value | group =>
    refine ⟨_, rfl, forall₂_filterMap (hforms.imp fun tree value hvalue => ?_)⟩
    obtain ⟨hvalue, hform⟩ := hvalue
    rw [heq] at hform
    obtain ⟨found, rfl⟩ := hform
    exact ⟨found, rfl, hvalue⟩

mutual

/-- Where a tree has the form of what a clause matches, it is reduced to what
    the clause promises. -/
theorem suits_of_evaluates :
    ∀ {clause : Clause K} {tree : SyntaxTree K} {value : Value K O}, clause.IsWritten →
    clause.Fits tree → Evaluates grammar tree value → clause.Suits tree value
  | .terminal .., _, _, _, hfits, hvalue => by
    obtain ⟨token, discarded, rfl⟩ := hfits
    exact ⟨token, rfl, hvalue.leaf⟩
  | .nonTerminal .., _, _, _, hfits, hvalue => hvalue.call hfits
  | .group members _, _, _, hwritten, hfits, hvalue => by
    obtain ⟨label, children, rfl, hgroup, hall⟩ := hfits
    obtain ⟨items, hitems, hnode⟩ := hvalue.node
    rcases hnode with ⟨-, rfl⟩ | ⟨hfalse, -⟩ | ⟨hfalse, -⟩
    · exact ⟨label, children, items, rfl, rfl, suitAll_of_evaluateShown hwritten hall hitems⟩
    · rw [hgroup] at hfalse
      cases hfalse
    · rw [hgroup] at hfalse
      cases hfalse
  | .choice alternatives _, _, _, _, hfits, hvalue => by
    rw [Clause.Fits] at hfits
    rw [Clause.Suits]
    split at hfits
    · next hall =>
      obtain ⟨token, discarded, rfl⟩ := hfits
      rw [if_pos hall]
      exact ⟨token, rfl, hvalue.leaf⟩
    · next hall =>
      rw [if_neg hall]
      exact hvalue.call hfits
  | .option inner _, _, _, hwritten, hfits, hvalue => by
    obtain ⟨-, hatom, hwritten⟩ := hwritten
    rcases hfits with ⟨discarded, rfl⟩ | ⟨child, discarded, rfl, hchild⟩
    · rw [hvalue.absent]
      exact ⟨none, rfl, Shape.suitsOption_emptyOption _ _⟩
    · obtain ⟨found, hfound, rfl⟩ := hvalue.present
      exact ⟨some child, rfl, suitsOption_of_evaluates hatom
        (suits_of_evaluates hwritten hchild hfound)⟩
  | .zeroOrMore inner _, _, _, hwritten, hfits, hvalue => by
    obtain ⟨-, hatom, hwritten⟩ := hwritten
    obtain ⟨items, discarded, rfl, hitems⟩ := hfits
    obtain ⟨values, hvalues, rfl⟩ := hvalue.many
    refine ⟨items, rfl, suitsMany_of_evaluates hatom ?_⟩
    exact ((List.forall₂_and_left _ _).2 ⟨hitems, hvalues⟩).imp fun _ _ hitem =>
      suits_of_evaluates hwritten hitem.1 hitem.2
  | .oneOrMore inner _, _, _, hwritten, hfits, hvalue => by
    obtain ⟨-, hatom, hwritten⟩ := hwritten
    obtain ⟨items, discarded, rfl, hne, hitems⟩ := hfits
    obtain ⟨values, hvalues, rfl⟩ := hvalue.many
    refine ⟨items, rfl, hne, suitsMany_of_evaluates hatom ?_⟩
    exact ((List.forall₂_and_left _ _).2 ⟨hitems, hvalues⟩).imp fun _ _ hitem =>
      suits_of_evaluates hwritten hitem.1 hitem.2

theorem suitAll_of_evaluateShown : ∀ {clauses : List (Clause K)} {trees : List (SyntaxTree K)}
    {items : List (String × Value K O)}, Clause.AreWritten clauses → Clause.FitAll clauses trees →
      EvaluateShown grammar trees items → Clause.SuitAll clauses trees items
  | [], trees, items, _, hall, hitems => by
    obtain rfl : trees = [] := hall
    cases hitems
    exact ⟨rfl, rfl⟩
  | clause :: clauses, _, items, hwritten, hall, hitems => by
    obtain ⟨tree, others, rfl, hdiscarded, hfits, hrest⟩ := hall
    refine ⟨tree, others, rfl, ?_⟩
    cases hclause : clause.isDiscarded with
    | true =>
      exact suitAll_of_evaluateShown hwritten.2 hrest (hitems.hidden (hdiscarded.trans hclause))
    | false =>
      obtain ⟨value, rest, rfl, hvalue, hrestItems⟩ := hitems.uncons (hdiscarded.trans hclause)
      exact ⟨value, rest, rfl, suits_of_evaluates hwritten.1 hfits hvalue,
        suitAll_of_evaluateShown hwritten.2 hrest hrestItems⟩

end

end Reduction

/-- Whether values are an operator and its operands, in their places. -/
def Affix.Suits (kind : K) (arguments : List (Value K O)) : Affix → Prop
  | prefixOp => ∃ token right, arguments = [.token token, .value right] ∧ token.kind = some kind
  | infixOp => ∃ left token right, arguments = [.value left, .token token, .value right] ∧
      token.kind = some kind
  | postfixOp => ∃ left token, arguments = [.value left, .token token] ∧ token.kind = some kind

namespace Layering

open Reduction

variable [DecidableEq K] [TokenKind K] {layering : Layering K (Reducer K O C)}

/-- The operands of an operator are reduced to results. -/
theorem OperandsFit.suits {grammar : Grammar K (Reducer K O C)}
    {operation : Operation K (Reducer K O C)} {children : List (SyntaxTree K)}
    (hfits : OperandsFit operation children) {items : List (String × Value K O)}
    (hitems : EvaluateShown grammar children items) :
    operation.affix.Suits operation.kind (items.map Prod.snd) := by
  obtain ⟨token, hkind, hfits⟩ := hfits
  cases haffix : operation.affix with
  | prefixOp =>
    rw [haffix] at hfits
    obtain ⟨right, rfl, hright, hshown⟩ := hfits
    obtain ⟨_, _, rfl, hoperator, hitems⟩ := hitems.uncons rfl
    obtain ⟨_, _, rfl, hvalue, hitems⟩ := hitems.uncons hshown
    obtain rfl := hitems.eq_nil
    obtain ⟨result, rfl⟩ := hvalue.call hright
    exact ⟨token, result, by simp [hoperator.leaf], hkind⟩
  | infixOp =>
    rw [haffix] at hfits
    obtain ⟨left, right, rfl, ⟨hleft, hleftShown⟩, hright, hshown⟩ := hfits
    obtain ⟨_, _, rfl, hfirst, hitems⟩ := hitems.uncons hleftShown
    obtain ⟨_, _, rfl, hoperator, hitems⟩ := hitems.uncons rfl
    obtain ⟨_, _, rfl, hvalue, hitems⟩ := hitems.uncons hshown
    obtain rfl := hitems.eq_nil
    obtain ⟨first, rfl⟩ := hfirst.call hleft
    obtain ⟨second, rfl⟩ := hvalue.call hright
    exact ⟨first, token, second, by simp [hoperator.leaf], hkind⟩
  | postfixOp =>
    rw [haffix] at hfits
    obtain ⟨left, rfl, hleft, hshown⟩ := hfits
    obtain ⟨_, _, rfl, hvalue, hitems⟩ := hitems.uncons hshown
    obtain ⟨_, _, rfl, hoperator, hitems⟩ := hitems.uncons rfl
    obtain rfl := hitems.eq_nil
    obtain ⟨result, rfl⟩ := hvalue.call hleft
    exact ⟨result, token, by simp [hoperator.leaf], hkind⟩

end Layering

namespace Parser

open Precedence Reduction

variable [DecidableEq K] [TokenKind K]

/-- Whether the names that are made up are used for nothing else, and rules do
    not mention them either. -/
structure NamesAreReserved (declarations : List (Declaration K O C))
    (operations : List (Operation K (Reducer K O C))) (options : ParserOptions) (start : String) :
    Prop extends NamesAreApart declarations operations options start where
  references : ∀ entry ∈ (declared declarations options start).grammar.rules,
    ∀ name ∈ Clause.referencesIn entry.2.clauses,
      name ∉ (unflattened declarations operations options start).partNames ∧
        name ∉ layerNames options.expressionRoot operations

/-- The names that are made up are kept apart where they are reserved and the
    rules look like ones that are written. -/
theorem IsBuilt.isSeparate_of_areWritten {declarations : List (Declaration K O C)}
    {operations : List (Operation K (Reducer K O C))} {options : ParserOptions}
    {start operand : String} {parser : Parser K O C}
    (hbuilt : IsBuilt declarations operations options start operand parser)
    (hwritten : ∀ entry ∈ (declared declarations options start).grammar.rules,
      Clause.AreWritten entry.2.clauses)
    (hnames : NamesAreReserved declarations operations options start) :
    (layering declarations operations options start operand).IsSeparate where
  toIsApart := hbuilt.isApart hnames.toNamesAreApart
  areWritten := hwritten
  references entry hentry name hname := by
    rw [Layering.IsFree, hbuilt.layered_eq]
    exact hnames.references entry hentry name hname
  mixedChoices_eq_nil := by
    rw [hbuilt.layered_eq]
    exact hbuilt.mixedChoices_eq

/-- Rules that are read from texts keep the names that are made up apart. -/
theorem IsBuilt.isSeparate {declarations : List (Declaration K O C)}
    {operations : List (Operation K (Reducer K O C))} {options : ParserOptions}
    {start operand : String} {parser : Parser K O C}
    (hbuilt : IsBuilt declarations operations options start operand parser)
    (htext : ∀ declaration ∈ declarations, ∃ text reducer isOperand,
      declaration = .text text reducer isOperand)
    (hnames : NamesAreReserved declarations operations options start) :
    (layering declarations operations options start operand).IsSeparate := by
  refine hbuilt.isSeparate_of_areWritten ?_ hnames
  rintro ⟨name, rule⟩ hrule
  obtain ⟨declaration, hmem, hdeclares⟩ := mem_rules_declared.1 hrule
  obtain ⟨text, reducer, isOperand, rfl⟩ := htext declaration hmem
  cases hdeclares with
  | text hread => exact RuleText.isWritten_of_read hread

/-- Whether a node is reduced by applying a reducer that was declared: that of a
    rule to the arguments that the clauses of the rule promise, or that of an
    operator to the operator and its operands. -/
def CallsAsDeclared (declarations : List (Declaration K O C))
    (operations : List (Operation K (Reducer K O C))) (options : ParserOptions) (start : String)
    (grammar : Grammar K (Reducer K O C)) (label : NodeLabel K) (children : List (SyntaxTree K)) :
    Prop :=
  ∃ reducer, reducer? grammar label = some reducer ∧ Applies grammar reducer label children ∧
    ((∃ declaration ∈ declarations, ∃ rule, Declares options.dialect declaration label.name rule ∧
        (declared declarations options start).grammar.rule? label.name label.rule = some rule ∧
          rule.reducer = some reducer ∧ ∀ context items after,
            Yields (visitShown grammar children) context items after →
              Clause.SuitAll rule.clauses children items) ∨
      ∃ operation ∈ operations, label.operator = some operation.toOperator ∧
        operation.reducer = reducer ∧
        ∀ context items after, Yields (visitShown grammar children) context items after →
          operation.affix.Suits operation.kind (items.map Prod.snd))

/-- Reducers are applied to what declarations promise: an argument for each
    clause that is not discarded, of the form that the clause has, or an
    operator between or beside its operands. -/
theorem calls_as_declared {lexer : Lexer K} {declarations : List (Declaration K O C)}
    {operations : List (Operation K (Reducer K O C))} {options : ParserOptions} {start : String}
    {parser : Parser K O C}
    (hbuild : (build lexer declarations operations options start).value = some parser)
    (htext : ∀ declaration ∈ declarations, ∃ text reducer isOperand,
      declaration = .text text reducer isOperand)
    (hnames : NamesAreReserved declarations operations options start) {source first : String}
    {tree : SyntaxTree K}
    (hfirst : first ∈ (declared declarations options start).grammar.names ∨
      first = options.expressionRoot)
    (htree : parser.syntaxTreeFrom source first = .ok tree) :
    tree.Everywhere fun label children =>
      label.isGroup = false → CallsAsDeclared declarations operations options start parser.grammar
        label children := by
  obtain ⟨operand, hbuilt⟩ := exists_isBuilt hbuild
  obtain ⟨tokens, raw, -, hraw, rfl⟩ := exists_parse_of_syntaxTreeFrom htree
  have hseparate := hbuilt.isSeparate htext hnames
  have hgrammar := hbuilt.grammar_eq_layering
  have hderives := hbuilt.derives hraw
  rw [hgrammar] at hderives ⊢
  have htaken := (List.forall₂_cons.1 (hseparate.taken (hderives.normal hseparate.isLayered))).1
  have hpart :
      first ∉ (layering declarations operations options start operand).layered.partNames := by
    rw [hbuilt.layered_eq]
    rcases hfirst with hdeclared | rfl
    · exact (hnames.names first hdeclared).1
    · exact fun hpart => (hnames.parts _ hpart).1 rfl
  obtain ⟨-, heverywhere⟩ := htaken.isOperand rfl hpart
  intro entry hentry hgroup
  have htakes := heverywhere entry hentry
  rcases htakes.fits hgroup with ⟨rule, hrule, -, hreducer, hall⟩ |
    ⟨operation, hmem, hoperator, hreducer, hfits⟩
  · have hrules := Grammar.mem_rules_of_rule? hrule
    obtain ⟨declaration, hdeclaration, hdeclares⟩ := mem_rules_declared.1 hrules
    obtain ⟨reducer, hsome⟩ := hdeclares.exists_reducer
    have hfound := hreducer.trans hsome
    have happlies := applies_of_reducer? hgroup htakes.isBypass_eq_false hfound entry.2
    refine ⟨reducer, hfound, happlies, Or.inl ⟨declaration, hdeclaration, rule, hdeclares,
      hrule, hsome, ?_⟩⟩
    intro context items after hitems
    exact suitAll_of_evaluateShown (hseparate.areWritten _ hrules) hall
      (evaluateShown_of_yields hitems)
  · have happlies := applies_of_reducer? hgroup htakes.isBypass_eq_false hreducer entry.2
    refine ⟨operation.reducer, hreducer, happlies, Or.inr ⟨operation, hmem, hoperator, rfl, ?_⟩⟩
    intro context items after hitems
    exact hfits.suits (evaluateShown_of_yields hitems)

namespace Sample

theorem namesAreReserved : NamesAreReserved calculator operations {} "expressions" where
  toNamesAreApart := namesAreApart
  references := by
    rw [declared_calculator, unflattened_calculator, layerNames_operations]
    decide

end Sample

open Sample in
theorem calls_as_declared_calculator :
    ∃ (parser : Parser (Kind symbols) Nat Unit) (tree : SyntaxTree (Kind symbols)),
      (build Sample.lexer calculator operations {} "expressions").value = some parser ∧
        (∀ declaration ∈ calculator, ∃ text reducer isOperand,
          declaration = .text text reducer isOperand) ∧
          NamesAreReserved calculator operations {} "expressions" ∧
            parser.syntaxTreeFrom "1-1-1^1" "expressions" = .ok tree ∧
              tree.Everywhere fun label children => label.isGroup = false →
                CallsAsDeclared calculator operations {} "expressions" parser.grammar label
                  children := by
  obtain ⟨tree, htree⟩ := exists_syntaxTree
  have htext : ∀ declaration ∈ calculator, ∃ text reducer isOperand,
      declaration = .text text reducer isOperand :=
    List.forall_mem_singleton.2 ⟨_, _, _, rfl⟩
  exact ⟨calculatorParser, tree, build_calculator, htext, namesAreReserved, htree,
    calls_as_declared build_calculator htext namesAreReserved (Or.inr rfl) htree⟩

end Parser

end GrammarKit
