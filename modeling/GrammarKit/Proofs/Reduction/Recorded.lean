import GrammarKit.Proofs.Grammar.Lookup
import GrammarKit.Proofs.Reduction.Visit
import GrammarKit.Proofs.SyntaxTree.Visited

namespace GrammarKit

variable {K O C : Type}

/-- A call of a reducer: whose it is, what it was given, and what became of it. -/
structure Call (K O C : Type) where
  nonTerminal : String
  rule : Nat
  operator : Option K
  arguments : Arguments K O
  before : C
  outcome : Except ReduceError O
  after : C

/-- A reducer that does the same and adds the call to a record. -/
def Reducer.recorded (reducer : Reducer K O C) (nonTerminal : String) (rule : Nat)
    (operator : Option K) :
    Reducer K O (C × List (Call K O C)) := fun arguments state =>
  let (outcome, after) := reducer arguments state.1
  (outcome, after, state.2 ++ [⟨nonTerminal, rule, operator, arguments, state.1, outcome, after⟩])

variable [DecidableEq K] [TokenKind K]

/-- A rule whose reducers keep a record, by its non-terminal and its place there. -/
def Rule.recorded (nonTerminal : String) (index : Nat) (rule : Rule K (Reducer K O C)) :
    Rule K (Reducer K O (C × List (Call K O C))) where
  clauses := rule.clauses
  reducer := rule.reducer.map fun reducer => reducer.recorded nonTerminal index none
  affix := rule.affix
  operations := rule.operations.map fun operation =>
    { operation.toOperator with
      reducer := operation.reducer.recorded nonTerminal index (some operation.kind) }
  isSubrule := rule.isSubrule
  isBypass := rule.isBypass
  leading := rule.leading
  mayBeEmpty := rule.mayBeEmpty

/-- A grammar all of whose reducers keep a record of their calls next to the
    context. A reduction does the same with it, and the record tells what was
    called. -/
def Grammar.recorded (grammar : Grammar K (Reducer K O C)) :
    Grammar K (Reducer K O (C × List (Call K O C))) where
  start := grammar.start
  nonTerminals := grammar.nonTerminals.map fun nonTerminal =>
    { name := nonTerminal.name, rules := nonTerminal.rules.mapIdx (Rule.recorded nonTerminal.name)
      leading := nonTerminal.leading }
  sorted := List.pairwise_map.2 grammar.sorted

/-- The operation of a token is the one before, with a record. -/
theorem Rule.operation?_recorded (nonTerminal : String) (index : Nat)
    (rule : Rule K (Reducer K O C)) (kind : K) :
    ((rule.recorded nonTerminal index).operation? kind).map Operation.reducer =
      (rule.operation? kind).map fun operation => operation.reducer.recorded nonTerminal index
        (some kind) := by
  simp only [operation?, recorded, ← List.map_reverse, List.find?_map, Option.map_map,
    Function.comp_def]
  cases hfind : rule.operations.reverse.find? fun operation => operation.kind = kind with
  | none => rfl
  | some operation =>
    obtain rfl : operation.kind = kind := by simpa using List.find?_some hfind
    rfl

/-- A rule stands in its place, with a record. -/
theorem Grammar.rule?_recorded (grammar : Grammar K (Reducer K O C)) (name : String) (index : Nat) :
    grammar.recorded.rule? name index = (grammar.rule? name index).map
      (Rule.recorded name index) := by
  have hfind : grammar.recorded.find? name = (grammar.find? name).map fun nonTerminal =>
      { name := nonTerminal.name, rules := nonTerminal.rules.mapIdx (Rule.recorded nonTerminal.name)
        leading := nonTerminal.leading } := by
    rw [find?, find?, recorded, List.find?_map]
    rfl
  rw [rule?, rule?, hfind]
  cases hname : grammar.find? name with
  | none => rfl
  | some nonTerminal =>
    obtain rfl : nonTerminal.name = name := (find?_eq_some_iff.1 hname).2
    exact List.getElem?_mapIdx

namespace Reduction

/-- The reducer of a node is the one before, with a record. -/
theorem reducer?_recorded (grammar : Grammar K (Reducer K O C)) (label : NodeLabel K) :
    reducer? grammar.recorded label =
      (reducer? grammar label).map fun reducer =>
        reducer.recorded label.name label.rule (label.operator.map Operator.kind) := by
  rw [reducer?, reducer?, grammar.rule?_recorded]
  cases grammar.rule? label.name label.rule with
  | none => rfl
  | some rule =>
    cases label.operator with
    | none => rfl
    | some operator =>
      refine (rule.operation?_recorded label.name label.rule operator.kind).trans ?_
      change _ = Option.map _ ((rule.operation? operator.kind).map Operation.reducer)
      rw [Option.map_map]
      rfl

/-- Whether a list of calls is what nodes make of a context when their reducers
    are called one after the other, each with the context as it was left. The
    first failure, or the first node without a reducer, ends it. -/
inductive Accounts (grammar : Grammar K (Reducer K O C)) :
    List (NodeLabel K) → C → List (Call K O C) → Option ReductionFailure → C → Prop
  | done (context : C) : Accounts grammar [] context [] none context
  | call {label : NodeLabel K} {labels : List (NodeLabel K)} {reducer : Reducer K O C}
      {arguments : Arguments K O} {before between after : C} {value : O} {calls : List (Call K O C)}
      {failure : Option ReductionFailure} :
      reducer? grammar label = some reducer → reducer arguments before = (.ok value, between) →
      Accounts grammar labels between calls failure after →
        Accounts grammar (label :: labels) before
          (⟨label.name, label.rule, label.operator.map Operator.kind, arguments, before, .ok value,
            between⟩ :: calls) failure after
  | fail {label : NodeLabel K} {labels : List (NodeLabel K)} {reducer : Reducer K O C}
      {arguments : Arguments K O} {before after : C} {reason : ReduceError} :
      reducer? grammar label = some reducer → reducer arguments before = (.error reason, after) →
        Accounts grammar (label :: labels) before
          [⟨label.name, label.rule, label.operator.map Operator.kind, arguments, before,
            .error reason, after⟩] (some ⟨label.name, reason⟩) after
  | missing {label : NodeLabel K} {labels : List (NodeLabel K)} {context : C} :
      reducer? grammar label = none →
        Accounts grammar (label :: labels) context [] (some ⟨label.name, .noReducer label.name⟩)
          context

variable {grammar : Grammar K (Reducer K O C)} {labels others : List (NodeLabel K)}
    {before between after : C} {calls more : List (Call K O C)}

/-- Calls of some nodes and then of others are calls of all. -/
theorem Accounts.append {ending : Option ReductionFailure}
    (hcalls : Accounts grammar labels before calls ending between) (hending : ending = none)
    {failure : Option ReductionFailure}
    (hmore : Accounts grammar others between more failure after) :
    Accounts grammar (labels ++ others) before (calls ++ more) failure after := by
  induction hcalls with
  | done => exact hmore
  | call hreducer hcall _ ih => exact .call hreducer hcall (ih hending hmore)
  | fail | missing => cases hending

/-- After a failure it makes no difference which nodes would have come. -/
theorem Accounts.stopped {ending : Option ReductionFailure}
    (hcalls : Accounts grammar labels before calls ending after) (hending : ending ≠ none)
    (others : List (NodeLabel K)) :
    Accounts grammar (labels ++ others) before calls ending after := by
  induction hcalls with
  | done => exact absurd rfl hending
  | call hreducer hcall _ ih => exact .call hreducer hcall (ih hending)
  | fail hreducer hcall => exact .fail hreducer hcall
  | missing hreducer => exact .missing hreducer

/-- The failure of a computation that failed. -/
def failure? {ε α : Type} : Except ε α → Option ε
  | .ok _ => none
  | .error failure => some failure

/-- Whether a computation and the one that keeps a record come to the same, and
    the calls that are added to the record are those of the given nodes. -/
def Records {α : Type} (grammar : Grammar K (Reducer K O C)) (action : Reducing C α)
    (recording : Reducing (C × List (Call K O C)) α) (labels : List (NodeLabel K)) : Prop :=
  ∀ before record, ∃ result after calls,
    action.run.run before = (result, after) ∧ recording.run.run (before, record) =
      (result, after, record ++ calls) ∧
      Accounts grammar labels before calls (failure? result) after

section Records

variable {α β : Type} {action : Reducing C α} {recording : Reducing (C × List (Call K O C)) α}

theorem records_pure (value : α) : Records grammar (pure value) (pure value) [] := by
  intro before record
  exact ⟨.ok value, before, [], rfl, by rw [List.append_nil]; rfl, .done before⟩

/-- Records of one computation and then of another are records of both. -/
theorem Records.bind {next : α → Reducing C β}
    {nextRecording : α → Reducing (C × List (Call K O C)) β}
    (haction : Records grammar action recording labels)
    (hnext : ∀ before value after, Yields action before value after →
      Records grammar (next value) (nextRecording value) others) :
    Records grammar (action >>= next) (recording >>= nextRecording) (labels ++ others) := by
  intro before record
  obtain ⟨result, between, calls, hrun, hrecording, haccounts⟩ := haction before record
  cases result with
  | error failure =>
    exact ⟨.error failure, between, calls, by rw [run_bind, hrun], by rw [run_bind, hrecording],
      haccounts.stopped nofun others⟩
  | ok value =>
    obtain ⟨result, after, more, hnextRun, hnextRecording, hmore⟩ :=
      hnext before value between hrun between (record ++ calls)
    refine ⟨result, after, calls ++ more, ?_, ?_, haccounts.append rfl hmore⟩
    · rw [run_bind, hrun]
      exact hnextRun
    · rw [run_bind, hrecording, ← List.append_assoc]
      exact hnextRecording

/-- Calling a reducer adds the call to the record. -/
theorem records_callReducer (label : NodeLabel K) (values : List (Value K O)) :
    Records grammar (callReducer grammar label values) (callReducer grammar.recorded label values)
      [label] := by
  intro before record
  rw [run_callReducer, run_callReducer, reducer?_recorded]
  cases hreducer : reducer? grammar label with
  | none => exact ⟨_, before, [], rfl, by rw [List.append_nil]; rfl, .missing hreducer⟩
  | some reducer =>
    obtain ⟨outcome, after, hcall⟩ : ∃ outcome after,
      reducer (.ofValues values) before = (outcome, after) :=
      ⟨_, _, rfl⟩
    simp only [Option.map_some, Reducer.recorded, hcall]
    cases outcome with
    | ok value => exact ⟨_, after, _, rfl, rfl, .call hreducer hcall (.done after)⟩
    | error reason => exact ⟨_, after, _, rfl, rfl, .fail hreducer hcall⟩

/-- A node adds a call to the record if it is reduced by a reducer. -/
theorem records_nodeValue {label : NodeLabel K} {children : List (SyntaxTree K)}
    {items : List (String × Value K O)}
    (hitems : items.length = (SyntaxTree.shown children).length) :
    Records grammar (nodeValue grammar label items) (nodeValue grammar.recorded label items)
      (if SyntaxTree.isReduced label children then [label] else []) := by
  unfold nodeValue SyntaxTree.isReduced
  rw [← hitems]
  cases label.isGroup with
  | true => exact records_pure _
  | false =>
    rw [if_neg Bool.false_ne_true, if_neg Bool.false_ne_true]
    cases label.isBypass with
    | false => exact records_callReducer label _
    | true =>
      match items with
      | [] => exact records_callReducer label _
      | [(_, value)] => exact records_pure value
      | (_, first) :: (_, second) :: rest =>
        have hcall : Records grammar (callReducer grammar label
            (first :: second :: rest.map Prod.snd)) _ [label] :=
          records_callReducer label _
        simpa using hcall

/-- A visit gives a value for each tree that is shown. -/
theorem length_of_yields_visitShown {trees : List (SyntaxTree K)}
    {items : List (String × Value K O)} {context after : C}
    (hvisit : Yields (visitShown grammar trees) context items after) :
    items.length = (SyntaxTree.shown trees).length :=
  (evaluateShown_of_yields hvisit).length_eq.symm

omit [DecidableEq K] [TokenKind K] in
theorem map_snd_below (place : Nat) (entries : List (List Nat × NodeLabel K)) :
    (entries.map fun (path, label) => (place :: path, label)).map Prod.snd =
      entries.map Prod.snd := by
  rw [List.map_map]
  rfl

mutual

/-- Visiting a tree calls the reducers of the nodes that are reduced. -/
theorem records_visit : ∀ tree : SyntaxTree K,
    Records grammar (visit grammar tree) (visit grammar.recorded tree) (tree.reduced.map Prod.snd)
  | .leaf .. | .absent .. => by
    rw [visit, visit]
    exact records_pure _
  | .present shape child _ => by
    rw [visit, visit, SyntaxTree.reduced, map_snd_below, ← List.append_nil
      ((SyntaxTree.reduced child).map _)]
    exact (records_visit child).bind fun _ _ _ _ => records_pure _
  | .many shape children _ => by
    rw [visit, visit, SyntaxTree.reduced, ← List.append_nil ((SyntaxTree.reducedAmong _ _ _).map _)]
    exact (records_visitEach children 0).bind fun _ _ _ _ => records_pure _
  | .node label children => by
    rw [visit, visit, SyntaxTree.reduced, List.map_append]
    refine (records_visitShown children 0).bind fun _ items _ hitems => ?_
    have hnode : Records grammar (nodeValue grammar label items) _ _ :=
      records_nodeValue (length_of_yields_visitShown hitems)
    split
    · next hreduced => rwa [if_pos hreduced] at hnode
    · next hreduced => rwa [if_neg hreduced] at hnode

theorem records_visitEach : ∀ (trees : List (SyntaxTree K)) (place : Nat),
    Records grammar (visitEach grammar trees) (visitEach grammar.recorded trees)
      ((SyntaxTree.reducedAmong (fun _ => true) place trees).map Prod.snd)
  | [], _ => by
    rw [visitEach, visitEach]
    exact records_pure _
  | tree :: rest, place => by
    rw [visitEach, visitEach, SyntaxTree.reducedAmong, if_pos rfl, List.map_append, map_snd_below]
    refine (records_visit tree).bind fun _ _ _ _ => ?_
    rw [← List.append_nil ((SyntaxTree.reducedAmong _ _ rest).map _)]
    exact (records_visitEach rest (place + 1)).bind fun _ _ _ _ => records_pure _

theorem records_visitShown : ∀ (trees : List (SyntaxTree K)) (place : Nat),
    Records grammar (visitShown grammar trees) (visitShown grammar.recorded trees)
      ((SyntaxTree.reducedAmong (fun child => !child.isDiscarded) place trees).map Prod.snd)
  | [], _ => by
    rw [visitShown, visitShown]
    exact records_pure _
  | tree :: rest, place => by
    rw [visitShown, visitShown, SyntaxTree.reducedAmong, List.map_append]
    cases tree.isDiscarded with
    | true => exact records_visitShown rest (place + 1)
    | false =>
      simp only [Bool.false_eq_true, if_false, Bool.not_false, if_true, map_snd_below]
      refine (records_visit tree).bind fun _ _ _ _ => ?_
      rw [← List.append_nil ((SyntaxTree.reducedAmong _ _ rest).map _)]
      exact (records_visitShown rest (place + 1)).bind fun _ _ _ _ => records_pure _

end

/-- Reducing a tree visits it, and only asks afterwards whether a reducer made
    the value of the root. -/
theorem run_reduce (tree : SyntaxTree K) (context : C) :
    (reduce grammar tree).run.run context =
      match (visit grammar tree).run.run context with
      | (.ok (.value value), after) => (.ok value, after)
      | (.ok other, after) =>
        (.error ⟨tree.name, .unexpectedArgument 0 .value other.variant⟩, after)
      | (.error failure, after) => (.error failure, after) := by
  refine run_bind.trans ?_
  obtain ⟨failure | value, after⟩ := (visit grammar tree).run.run context
  · rfl
  · cases value <;> rfl

end Records

/-- Reducing a tree calls the reducers of the nodes that it comes to, but of
    groups and of nodes that pass on a single argument, once each and in
    post-order, with the context as the call before left it. A call that fails
    or a node without a reducer ends it, and names the node's non-terminal;
    otherwise all of them are called. -/
theorem reduce_calls (grammar : Grammar K (Reducer K O C)) (tree : SyntaxTree K) (context : C) :
    ∃ nodes : List (List Nat × NodeLabel K),
      (SyntaxTree.InPostOrder nodes ∧ (nodes.map Prod.fst).Nodup ∧
        (∀ path label, (path, label) ∈ nodes ↔
          ∃ children, tree.Reaches path (.node label children) ∧
            SyntaxTree.isReduced label children = true) ∧
        ¬∃ above label children place child below entry, tree.Reaches above (.node label children) ∧
          children[place]? = some child ∧ child.isDiscarded = true ∧ entry ∈ nodes ∧
          entry.1 = above ++ place :: below) ∧
      ∃ result after calls failure,
        (reduce grammar tree).run.run context = (result, after) ∧
        (reduce grammar.recorded tree).run.run (context, []) = (result, after, calls) ∧
        Accounts grammar (nodes.map Prod.snd) context calls failure after ∧
        match failure with
        | some failure => result = .error failure
        | none => (∃ value, result = .ok value) ∨
            ∃ variant, result = .error ⟨tree.name, .unexpectedArgument 0 .value variant⟩ := by
  have horder := SyntaxTree.inPostOrder_reduced tree
  refine ⟨tree.reduced, ⟨horder, ?_, fun _ _ => SyntaxTree.mem_reduced_iff, ?_⟩, ?_⟩
  · exact List.pairwise_map.2 (horder.imp fun hprecedes => hprecedes.ne)
  · rintro ⟨above, label, children, place, child, below, ⟨path, inner⟩, hparent, hchild,
      hdiscarded, hmem, rfl⟩
    obtain ⟨_, hreaches, -⟩ := SyntaxTree.mem_reduced_iff.1 hmem
    cases hdiscarded.symm.trans (hparent.isDiscarded_eq_false rfl hchild hreaches)
  · obtain ⟨result, after, calls, hvisit, hrecorded, haccounts⟩ := records_visit tree context []
    rw [run_reduce, run_reduce, hvisit, hrecorded]
    cases result with
    | error failure => exact ⟨.error failure, after, calls, some failure, rfl, rfl, haccounts, rfl⟩
    | ok value =>
      cases value with
      | value result =>
        exact ⟨.ok result, after, calls, none, rfl, rfl, haccounts, .inl ⟨result, rfl⟩⟩
      | _ => exact ⟨_, after, calls, none, rfl, rfl, haccounts, .inr ⟨_, rfl⟩⟩

end Reduction

end GrammarKit
