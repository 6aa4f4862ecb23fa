import GrammarKit.Proofs.Lexer.Enlarged
import GrammarKit.Proofs.Lexer.Munch
import GrammarKit.Proofs.Lexer.Scan
import GrammarKit.Proofs.Lexer.Upheld

namespace GrammarKit

namespace Automaton

variable {K : Type}

namespace Builder

variable {builder changed few more : Builder K}

/-- A mark that leads to a node is there. -/
theorem mem_of_resolve {mark : String} {change : Nat → Builder K}
    (hok : (builder.resolve mark).map change = .ok changed) :
    mark ∈ builder.marks.map Prod.fst := by
  rw [resolve] at hok
  cases hid : builder.nodeId? mark with
  | none =>
    rw [hid] at hok
    cases hok
  | some id => exact isMarked_iff.1 (Option.isSome_of_eq_some hid)

/-- An instruction that succeeds found the mark that it refers to. -/
theorem mem_marks_of_apply {instruction : Instruction K}
    (happly : instruction.apply builder = .ok changed) {name : String}
    (hneeded : instruction.needed? = some name) : name ∈ builder.marks.map Prod.fst := by
  cases instruction with
  | moveTo check mark =>
    obtain rfl := Option.some.inj hneeded
    exact mem_of_resolve happly
  | goto mark =>
    obtain rfl := Option.some.inj hneeded
    exact mem_of_resolve happly
  | move | follow | chain | mark | gotoNode | accept | callback | ignoreWhitespace | whitespace
  | ignoreEol => cases hneeded

theorem marks_gotoNode (builder : Builder K) (id : Nat) :
    (builder.gotoNode id).marks = builder.marks := by
  rw [gotoNode]
  split <;> rfl

/-- The start node is always there. -/
theorem gotoNode_startNode (hwell : builder.IsWellFormed) :
    builder.gotoNode startNode = { builder with current := startNode } :=
  if_pos hwell.start_lt

/-- Whether instructions refer to no mark that one builder lacks and the other has. -/
def NeedNoMore (few more : Builder K) (instructions : List (Instruction K)) : Prop :=
  ∀ instruction ∈ instructions, ∀ name, instruction.needed? = some name →
    name ∈ more.marks.map Prod.fst → name ∈ few.marks.map Prod.fst

/-- Instructions that are carried out first need no more than all. -/
theorem NeedNoMore.of_append {first second : List (Instruction K)}
    (hneed : few.NeedNoMore more (first ++ second)) :
    few.NeedNoMore more first ∧ few.NeedNoMore more second :=
  ⟨fun instruction hmem => hneed instruction (List.mem_append_left _ hmem),
    fun instruction hmem => hneed instruction (List.mem_append_right _ hmem)⟩

/-- Marks that both builders get do not matter. -/
theorem NeedNoMore.of_marks {made : List String} {fewer larger : Builder K}
    {instructions : List (Instruction K)} (hneed : few.NeedNoMore more instructions)
    (hfewer : fewer.marks.map Prod.fst = made ++ few.marks.map Prod.fst)
    (hlarger : larger.marks.map Prod.fst = made ++ more.marks.map Prod.fst) :
    fewer.NeedNoMore larger instructions := by
  intro instruction hmem name hname hknown
  rw [hlarger] at hknown
  rw [hfewer]
  rcases List.mem_append.1 hknown with hmade | hknown
  · exact List.mem_append_left _ hmade
  · exact List.mem_append_right _ (hneed instruction hmem name hname hknown)

/-- Instructions that go through on one builder go through on the other. -/
theorem NeedNoMore.applyAll {instructions : List (Instruction K)}
    (hneed : few.NeedNoMore more instructions) (hnone : (more.applyAll instructions).2 = none) :
    (few.applyAll instructions).2 = none ∧ ∃ made,
      (few.applyAll instructions).1.marks.map Prod.fst = made ++ few.marks.map Prod.fst ∧
        (more.applyAll instructions).1.marks.map Prod.fst = made ++ more.marks.map Prod.fst := by
  induction instructions generalizing few more with
  | nil => exact ⟨rfl, [], rfl, rfl⟩
  | cons instruction rest ih =>
    rw [Builder.applyAll] at hnone
    cases hlarger : instruction.apply more with
    | error error =>
      rw [hlarger] at hnone
      cases hnone
    | ok larger =>
      rw [hlarger] at hnone
      obtain ⟨fewer, hfewer⟩ := exists_apply_eq_ok fun name hname =>
        hneed instruction List.mem_cons_self name hname (mem_marks_of_apply hlarger hname)
      have hmore := marks_of_apply hlarger
      have hfew := marks_of_apply hfewer
      have hrest : few.NeedNoMore more rest := fun other hother =>
        hneed other (List.mem_cons_of_mem _ hother)
      obtain ⟨hok, made, hmade, hsame⟩ := ih (hrest.of_marks hfew hmore) hnone
      rw [Builder.applyAll, Builder.applyAll, hfewer, hlarger]
      refine ⟨hok, made ++ instruction.made?.toList, ?_, ?_⟩
      · rw [hmade, hfew, List.append_assoc]
      · rw [hsame, hmore, List.append_assoc]

end Builder

end Automaton

namespace Lexer

open Automaton

variable {K : Type} {few more : Builder K}

/-- Extensions that carry out the instructions of their scripts, each up to the
    first that fails. -/
def scripted (scripts : List (K × (K → List (Instruction K)))) : List (K × Extension K) :=
  scripts.map fun (kind, script) => (kind, .ofInstructions script)

/-- All instructions of scripts. -/
def instructionsOf (scripts : List (K × (K → List (Instruction K)))) : List (Instruction K) :=
  scripts.flatMap fun (kind, script) => script kind

/-- Extensions are added one after the other. -/
theorem addExtensions_append (builder : Builder K) (first second : List (K × Extension K)) :
    addExtensions builder (first ++ second) =
      ((addExtensions (addExtensions builder first).1 second).1,
        (addExtensions builder first).2 ++ (addExtensions (addExtensions builder first).1
          second).2) := by
  induction first generalizing builder with
  | nil => rfl
  | cons extension first ih => simp only [List.cons_append, addExtensions, ih, List.append_assoc]

/-- Scripts that go through on one builder go through on the other. -/
theorem addExtensions_eq_nil {scripts : List (K × (K → List (Instruction K)))}
    (hneed : few.NeedNoMore more (instructionsOf scripts))
    (hnone : (addExtensions more (scripted scripts)).2 = []) :
    (addExtensions few (scripted scripts)).2 = [] := by
  induction scripts generalizing few more with
  | nil => rfl
  | cons entry rest ih =>
    obtain ⟨kind, script⟩ := entry
    rw [instructionsOf, List.flatMap_cons] at hneed
    obtain ⟨hfirst, hrest⟩ := hneed.of_append
    obtain ⟨herror, hnone⟩ := List.append_eq_nil_iff.1 hnone
    have hstart : (few.gotoNode startNode).NeedNoMore (more.gotoNode startNode) (script kind) := by
      rwa [Builder.NeedNoMore, Builder.marks_gotoNode, Builder.marks_gotoNode]
    obtain ⟨hok, made, hfew, hmore⟩ :=
      hstart.applyAll (Option.map_eq_none_iff.1 (Option.toList_eq_nil_iff.1 herror))
    rw [Builder.marks_gotoNode] at hfew hmore
    have hlater := ih (hrest.of_marks hfew hmore) hnone
    refine List.append_eq_nil_iff.2 ⟨?_, hlater⟩
    exact Option.toList_eq_nil_iff.2 (Option.map_eq_none_iff.2 hok)

/-- A comment marker leads to nodes that belong together. -/
theorem exists_embeds_marker {place : Nat → Nat} (hembeds : Builder.Embeds place few more)
    (hfew : few.IsWellFormed) (hmore : more.IsWellFormed) (marker : List Char) :
    ∃ next, Builder.Embeds next ((few.gotoNode startNode).followAll marker)
      ((more.gotoNode startNode).followAll marker) ∧
      ((more.gotoNode startNode).followAll marker).current =
        next ((few.gotoNode startNode).followAll marker).current := by
  have hfewStart := Builder.IsWellFormed.upholds (.gotoNode startNode) few _ hfew rfl
  have hmoreStart := Builder.IsWellFormed.upholds (.gotoNode startNode) more _ hmore rfl
  rw [Builder.gotoNode_startNode hfew] at hfewStart ⊢
  rw [Builder.gotoNode_startNode hmore] at hmoreStart ⊢
  have hstart :
      Builder.Embeds place { few with current := startNode } { more with current := startNode } :=
    { hembeds with }
  exact hstart.followAll hfewStart hmoreStart hembeds.start.symm marker

/-- What instructions uphold is kept when a marker is added. -/
theorem upheld_marker {P : Builder K → Prop}
    (hupholds : ∀ instruction : Instruction K, instruction.Upholds P) {builder : Builder K}
    (hbuilder : P builder) (marker : List Char) :
    P ((builder.gotoNode startNode).followAll marker) :=
  Builder.upheld_followAll (fun c => hupholds (.follow c))
    (hupholds (.gotoNode startNode) builder _ hbuilder rfl) marker

/-- The nodes in which comments end stay ends of tokens. -/
theorem isEnd_marker {table : CommentTable} (hfew : few.IsWellFormed)
    (htable : ∀ entry ∈ table, few.build.isEnd entry.1 = true) (marker : List Char) :
    ∀ entry ∈ table, ((few.gotoNode startNode).followAll marker).build.isEnd entry.1 = true := by
  have hkept := (upheld_marker (Builder.Embeds.upholds id few) ⟨hfew, .refl few⟩ marker).2
  exact fun entry hentry => hkept.isEnd entry.1 (htable entry hentry)

/-- Comment markers that are accepted by a builder are accepted by all that it contains. -/
theorem addComments_eq_nil {place : Nat → Nat} (hembeds : Builder.Embeds place few more)
    (hfew : few.IsWellFormed) (hmore : more.IsWellFormed) {table larger : CommentTable}
    (htable : ∀ entry ∈ table, few.build.isEnd entry.1 = true)
    {comments others : List (K × String × CommentEnd)}
    (hnone : (addComments more larger (comments ++ others)).2.2 = []) :
    (addComments few table comments).2.2 = [] := by
  induction comments generalizing place few more table larger with
  | nil => rfl
  | cons comment comments ih =>
    obtain ⟨kind, marker, ending⟩ := comment
    obtain ⟨next, hnext, hreached⟩ := exists_embeds_marker hembeds hfew hmore marker.toList
    have hfewNext := upheld_marker Builder.IsWellFormed.upholds hfew marker.toList
    have hmoreNext := upheld_marker Builder.IsWellFormed.upholds hmore marker.toList
    have hends := isEnd_marker hfew htable marker.toList
    rw [List.cons_append, addComments] at hnone
    rw [addComments]
    dsimp only at hnone ⊢
    generalize (few.gotoNode startNode).followAll marker.toList = fewer at *
    generalize (more.gotoNode startNode).followAll marker.toList = most at *
    split at hnone
    · cases hnone
    · next hfree =>
      rw [Bool.or_eq_true, not_or] at hfree
      have hopen : ¬fewer.build.isEnd fewer.current = true :=
        fun hend => hfree.1 (hreached ▸ hnext.isEnd _ hend)
      have hnew : ¬(table.ending? fewer.current).isSome = true := by
        intro hsome
        obtain ⟨ending, hending⟩ := Option.isSome_iff_exists.1 hsome
        exact hopen (hends _ (CommentTable.mem_of_ending? hending))
      rw [if_neg (by rw [Bool.or_eq_true, not_or]; exact ⟨hopen, hnew⟩)]
      have haccepted := Builder.IsWellFormed.upholds (.accept kind) fewer _ hfewNext rfl
      refine ih (hnext.accept_both hmoreNext hreached kind kind) haccepted
        (Builder.IsWellFormed.upholds (.accept kind) most _ hmoreNext rfl)
        (fun entry hentry => ?_) hnone
      rcases List.mem_append.1 hentry with hold | hadded
      · exact Builder.isEnd_modifyCurrent (fun _ _ => rfl) (hends entry hold)
      · obtain rfl := List.mem_singleton.1 hadded
        exact hfewNext.isEnd_accept kind

/-- Problems of one kind are still reported when there are some. -/
theorem map_code_subset {problems others : List (Problem K)} {code : Code}
    (hall : ∀ problem ∈ problems, problem.code = code)
    (hothers : ∀ problem ∈ others, problem.code = code) (hsome : problems ≠ [] → others ≠ []) :
    problems.map Problem.code ⊆ others.map Problem.code := by
  intro found hfound
  obtain ⟨problem, hproblem, rfl⟩ := List.mem_map.1 hfound
  obtain ⟨other, hother⟩ := List.exists_mem_of_ne_nil _ (hsome (List.ne_nil_of_mem hproblem))
  exact List.mem_map.2 ⟨other, hother, (hothers other hother).trans (hall problem hproblem).symm⟩

/-- Extensions that fail have one code. -/
theorem code_addExtensions {builder : Builder K} {extensions : List (K × Extension K)} :
    ∀ problem ∈ (addExtensions builder extensions).2, problem.code = .lexerExtension := by
  intro problem hproblem
  obtain ⟨kind, error, rfl⟩ := exists_of_mem_addExtensions problem hproblem
  rfl

/-- Comments that are refused have one code. -/
theorem code_addComments {builder : Builder K} {table : CommentTable}
    {comments : List (K × String × CommentEnd)} :
    ∀ problem ∈ (addComments builder table comments).2.2, problem.code = .lexerSugarConflict := by
  intro problem hproblem
  obtain ⟨marker, kind, rfl⟩ := exists_of_mem_addComments problem hproblem
  rfl

/-- Comments that are refused are refused by all builders that contain the one
    in which they were. -/
theorem code_addComments_subset {place : Nat → Nat} (hembeds : Builder.Embeds place few more)
    (hfew : few.IsWellFormed) (hmore : more.IsWellFormed)
    (comments others : List (K × String × CommentEnd)) :
    (addComments few [] comments).2.2.map Problem.code ⊆
      (addComments more [] (comments ++ others)).2.2.map Problem.code :=
  map_code_subset code_addComments code_addComments
    (mt (addComments_eq_nil hembeds hfew hmore fun _ hentry => absurd hentry List.not_mem_nil))

namespace Family

/-- Whether the family is an extension. -/
def isExtension : Family K → Bool
  | extension _ => true
  | _ => false

/-- Comments and extensions, which are added to what all other families have built. -/
def isExtra : Family K → Bool
  | comment .. | extension _ => true
  | _ => false

end Family

namespace Families

/-- Without its extensions, a list of declarations is sorted as with them. -/
theorem insertAll_filter (families : Families K) (declarations : List (K × Family K)) :
    ({ families with extensions := [] } : Families K).insertAll
        (declarations.filter fun declaration => !declaration.2.isExtension) =
      ({ (families.insertAll declarations).1 with extensions := [] },
        (families.insertAll declarations).2) := by
  induction declarations generalizing families with
  | nil => rfl
  | cons declaration rest ih =>
    obtain ⟨kind, family⟩ := declaration
    have hrest := ih (families.insert kind family).1
    cases family with
    | extension fragment => exact hrest
    | identifier | int | double | keyword | sugar | string | char | comment =>
      rw [List.filter_cons_of_pos rfl, insertAll, insertAll]
      exact congrArg (fun sorted : Families K × _ => (sorted.1, _ ++ sorted.2)) hrest

/-- Comments and extensions leave the edges of the other families alone. -/
theorem edges_insertAll {families : Families K} {declarations : List (K × Family K)}
    (hextra : ∀ declaration ∈ declarations, declaration.2.isExtra = true) (options : LexerOptions) :
    (families.insertAll declarations).1.edges options = families.edges options := by
  induction declarations generalizing families with
  | nil => rfl
  | cons declaration rest ih =>
    obtain ⟨kind, family⟩ := declaration
    refine (ih fun other hother => hextra other (List.mem_cons_of_mem _ hother)).trans ?_
    cases family with
    | comment | extension => rfl
    | identifier | int | double | keyword | sugar | string | char =>
      cases hextra _ List.mem_cons_self

/-- Declarations are sorted one after the other. -/
theorem ofList_append (first second : List (K × Family K)) :
    ofList (first ++ second) =
      (((ofList first).1.insertAll second).1,
        (ofList first).2 ++ ((ofList first).1.insertAll second).2) :=
  insertAll_append {} first second

end Families

namespace FamilyLexer

section Problems

variable (declarations further : List (K × Family K)) (options : LexerOptions)

/-- The declarations without extensions. -/
def plain : List (K × Family K) :=
  declarations.filter fun declaration => !declaration.2.isExtension

/-- Without extensions the other families are sorted as before. -/
theorem ofList_plain :
    Families.ofList (plain declarations) =
      ({ (Families.ofList declarations).1 with extensions := [] },
        (Families.ofList declarations).2) :=
  Families.insertAll_filter {} declarations

/-- What is found early among fewer declarations is found among more. -/
theorem code_earlyProblems_subset :
    (earlyProblems declarations options).map Problem.code ⊆
      (earlyProblems (declarations ++ further) options).map Problem.code := by
  simp only [earlyProblems, Families.ofList_append, List.map_append]
  refine append_subset_append (List.subset_append_left _ _) ?_
  exact (Families.isPartOf_insertAll _ further).code_problems_subset options

end Problems

variable {declarations further : List (K × Family K)} {options : LexerOptions}

/-- Where nothing is found among more declarations nothing is found among fewer. -/
theorem earlyProblems_eq_nil (hnone : earlyProblems (declarations ++ further) options = []) :
    earlyProblems declarations options = [] := by
  have hsub := code_earlyProblems_subset declarations further options
  rw [hnone] at hsub
  exact List.map_eq_nil_iff.1 (List.subset_nil.1 hsub)

/-- Where nothing is found the families are what the checks ask for. -/
theorem isSound_of_earlyProblems (hnone : earlyProblems declarations options = []) :
    (Families.ofList declarations).1.IsSound options :=
  Families.isSound_of_problems (List.append_eq_nil_iff.1 hnone).2

/-- The extensions that are declared in addition come last. -/
theorem extensions_append (declarations further : List (K × Family K)) :
    (Families.ofList (declarations ++ further)).1.extensions =
      (Families.ofList declarations).1.extensions ++ further.filterMap Family.extension? := by
  obtain ⟨-, -, -, -, -, hextensions⟩ := (Families.ofList declarations).1.insertAll_lists further
  rw [Families.ofList_append, hextensions]

/-- What is found late among all declarations is found while extensions are
    added, and then comments. -/
theorem lateProblems_append (declarations further : List (K × Family K)) (options : LexerOptions) :
    lateProblems (declarations ++ further) options =
      let families := (Families.ofList declarations).1
      let extension :=
        addExtensions (((Families.ofList (declarations ++ further)).1).assembled options)
        (families.extensions ++ further.filterMap Family.extension?)
      extension.2 ++ (addComments extension.1 []
        (families.comments ++ further.flatMap Family.comments)).2.2 := by
  obtain ⟨-, -, -, -, hcomments, hextensions⟩ :=
    (Families.ofList declarations).1.insertAll_lists further
  rw [lateProblems, Families.ofList_append, hcomments, hextensions]

/-- Without extensions only comments can be refused late. -/
theorem lateProblems_plain (declarations : List (K × Family K)) (options : LexerOptions) :
    lateProblems (plain declarations) options =
      (addComments ((Families.ofList declarations).1.assembled options) []
        (Families.ofList declarations).1.comments).2.2 := by
  rw [lateProblems, ofList_plain]
  rfl

/-- What all instructions uphold is kept by extensions that carry out
    instructions on the builder they are handed. -/
theorem upheld_extended {P : Builder K → Prop}
    (hupholds : ∀ instruction : Instruction K, instruction.Upholds P) {builder : Builder K}
    {extensions : List (K × Extension K)} (hgrows : EachExtension Builder.Grows builder extensions)
    (hbuilder : P builder) :
    P (addExtensions builder extensions).1 :=
  (hgrows.imp fun _ _ hgrows => hgrows.upheld hupholds).upheld (fun id => hupholds (.gotoNode id))
    hbuilder

/-- Comments and extensions leave it as it is what the other families have built. -/
theorem assembled_append (hextra : ∀ declaration ∈ further, declaration.2.isExtra = true) :
    (Families.ofList (declarations ++ further)).1.assembled options =
      (Families.ofList declarations).1.assembled options := by
  rw [Families.ofList_append, Families.assembled, Families.edges_insertAll hextra,
    Families.assembled]

/-- Whether the extensions carry out scripts, and these refer to no mark that
    the families lack and that is set for what is declared in addition. -/
def LacksNoMore (declarations further : List (K × Family K)) (options : LexerOptions) : Prop :=
  ∃ scripts, (Families.ofList declarations).1.extensions = scripted scripts ∧
    ((Families.ofList declarations).1.assembled options).NeedNoMore
      ((Families.ofList (declarations ++ further)).1.assembled options) (instructionsOf scripts)

/-- Whether the extensions that are declared in addition carry out instructions
    on the builder they are handed, and put no other one in its place. -/
def AddsOnly (declarations further : List (K × Family K)) (options : LexerOptions) : Prop :=
  EachExtension Builder.Grows
    (addExtensions ((Families.ofList (declarations ++ further)).1.assembled options)
      (Families.ofList declarations).1.extensions).1
    (further.filterMap Family.extension?)

/-- Extensions that failed fail again, unless what was declared in addition has
    set a mark that they lacked. -/
theorem extensionProblems_ne_nil (hneed : LacksNoMore declarations further options)
    (hfails : (addExtensions ((Families.ofList declarations).1.assembled options)
      (Families.ofList declarations).1.extensions).2 ≠ []) :
    (addExtensions ((Families.ofList (declarations ++ further)).1.assembled options)
      (Families.ofList (declarations ++ further)).1.extensions).2 ≠ [] := by
  intro hnone
  obtain ⟨scripts, hscripts, hneed⟩ := hneed
  rw [extensions_append, hscripts, addExtensions_append] at hnone
  rw [hscripts] at hfails
  exact hfails (addExtensions_eq_nil hneed (List.append_eq_nil_iff.1 hnone).1)

variable [DecidableEq K] [TokenKind K]

/-- The codes of what a build reports. -/
def codes (declarations : List (K × Family K)) (options : LexerOptions) : List Code :=
  (build declarations options).diagnostics.map Diagnostic.code

/-- A build reports the codes of what is found early, or else of what is found late. -/
theorem codes_eq (declarations : List (K × Family K)) (options : LexerOptions) :
    codes declarations options =
      (if (earlyProblems declarations options).isEmpty then lateProblems declarations options
        else earlyProblems declarations options).map Problem.code := by
  rw [codes, diagnostics_build, List.map_map]
  rfl

/-- When nothing is found early a build reports the codes of what is found late. -/
theorem codes_eq_of_early (hnone : earlyProblems declarations options = []) :
    codes declarations options = (lateProblems declarations options).map Problem.code := by
  rw [codes_eq, hnone]
  rfl

/-- What shows before anything is built is reported whatever else is declared. -/
theorem codes_subset_of_early (hsome : earlyProblems declarations options ≠ []) :
    codes declarations options ⊆ codes (declarations ++ further) options := by
  rw [codes_eq, codes_eq, if_neg (mt List.isEmpty_iff.1 hsome),
    if_neg (mt List.isEmpty_iff.1 (mt earlyProblems_eq_nil hsome))]
  exact code_earlyProblems_subset declarations further options

/-- That an extension failed is still reported if extensions that failed fail again. -/
theorem lexerExtension_mem_codes_append
    (hnone : earlyProblems (declarations ++ further) options = [])
    (hfails : (addExtensions ((Families.ofList declarations).1.assembled options)
      (Families.ofList declarations).1.extensions).2 ≠ [] →
      (addExtensions ((Families.ofList (declarations ++ further)).1.assembled options)
        (Families.ofList (declarations ++ further)).1.extensions).2 ≠ [])
    (hcode : .lexerExtension ∈ codes declarations options) :
    .lexerExtension ∈ codes (declarations ++ further) options := by
  rw [codes_eq_of_early (earlyProblems_eq_nil hnone), lateProblems, List.map_append,
    List.mem_append] at hcode
  rw [codes_eq_of_early hnone, lateProblems, List.map_append]
  refine List.mem_append_left _ ?_
  rcases hcode with hextension | hcomment
  · exact map_code_subset code_addExtensions code_addExtensions hfails hextension
  · obtain ⟨problem, hproblem, hcode⟩ := List.mem_map.1 hcomment
    rw [code_addComments problem hproblem] at hcode
    cases hcode

/-- Without extensions, what is reported is reported whatever else is declared,
    and whatever extensions add to what is built. -/
theorem codes_plain_subset (hnone : earlyProblems (declarations ++ further) options = [])
    (hgrows : Extend Builder.Grows (declarations ++ further) options) :
    codes (plain declarations) options ⊆ codes (declarations ++ further) options := by
  have hbefore := earlyProblems_eq_nil hnone
  have hplain : earlyProblems (plain declarations) options = [] := by
    rw [← hbefore, earlyProblems, ofList_plain]
    rfl
  have hpart : (Families.ofList declarations).1.IsPartOf
      (Families.ofList (declarations ++ further)).1 := by
    rw [Families.ofList_append]
    exact Families.isPartOf_insertAll _ further
  obtain ⟨place, hembeds⟩ := hpart.exists_embeds (isSound_of_earlyProblems hbefore)
    (isSound_of_earlyProblems hnone)
  obtain ⟨hmore, hextended⟩ := upheld_extended (Builder.Embeds.upholds place _) hgrows
    ⟨Families.isWellFormed_assembled _ options, hembeds⟩
  rw [extensions_append] at hmore hextended
  rw [codes_eq_of_early hplain, codes_eq_of_early hnone, lateProblems_plain, lateProblems_append]
  dsimp only
  rw [List.map_append]
  exact List.subset_append_of_subset_right _
    (code_addComments_subset hextended (Families.isWellFormed_assembled _ options) hmore _ _)

/-- Extensions that are declared in addition come last, so the others find what
    they found before. -/
theorem lexerExtension_mem_codes_of_extra
    (hnone : earlyProblems (declarations ++ further) options = [])
    (hextra : ∀ declaration ∈ further, declaration.2.isExtra = true)
    (hcode : .lexerExtension ∈ codes declarations options) :
    .lexerExtension ∈ codes (declarations ++ further) options := by
  refine lexerExtension_mem_codes_append hnone (fun hfails hnothing => hfails ?_) hcode
  rw [extensions_append, assembled_append hextra, addExtensions_append] at hnothing
  exact (List.append_eq_nil_iff.1 hnothing).1

/-- Comments and extensions come last, so they hide nothing, unless an extension
    takes away what was built. -/
theorem codes_subset_of_extra (hnone : earlyProblems (declarations ++ further) options = [])
    (hextra : ∀ declaration ∈ further, declaration.2.isExtra = true)
    (hadds : AddsOnly declarations further options) :
    codes declarations options ⊆ codes (declarations ++ further) options := by
  have hextended := isWellFormed_addExtensions
    (Families.isWellFormed_assembled (Families.ofList declarations).1 options)
    (Families.ofList declarations).1.extensions
  rw [AddsOnly, assembled_append hextra] at hadds
  rw [codes_eq_of_early (earlyProblems_eq_nil hnone), codes_eq_of_early hnone, lateProblems_append,
    assembled_append hextra, lateProblems]
  dsimp only
  rw [addExtensions_append, List.map_append, List.map_append, List.map_append]
  generalize (addExtensions _ (Families.ofList declarations).1.extensions).1 = extended
    at hextended hadds ⊢
  obtain ⟨hmore, hembeds⟩ := upheld_extended (Builder.Embeds.upholds id extended) hadds
    ⟨hextended, .refl extended⟩
  exact append_subset_append (List.subset_append_left _ _)
    (code_addComments_subset hembeds hextended hmore _ _)

/-- More declarations hide nothing that shows before anything is built. When the
    declarations pass these checks together, what extensions lack stays reported
    if they carry out scripts and the families that are added set no mark for
    these. What comments without extensions run into stays reported if no
    extension puts another builder in the place of the one that it is handed.
    When only comments and extensions are added, what extensions lack stays
    reported, and so does everything else if none of those that are added
    replaces the builder. -/
theorem codes_append (declarations further : List (K × Family K)) (options : LexerOptions) :
    (earlyProblems declarations options ≠ [] →
      codes declarations options ⊆ codes (declarations ++ further) options) ∧
      (earlyProblems (declarations ++ further) options = [] →
        (LacksNoMore declarations further options → .lexerExtension ∈ codes declarations options →
          .lexerExtension ∈ codes (declarations ++ further) options) ∧
        (Extend Builder.Grows (declarations ++ further) options →
          codes (plain declarations) options ⊆ codes (declarations ++ further) options) ∧
        ((∀ declaration ∈ further, declaration.2.isExtra = true) →
          (.lexerExtension ∈ codes declarations options →
            .lexerExtension ∈ codes (declarations ++ further) options) ∧
          (AddsOnly declarations further options →
            codes declarations options ⊆ codes (declarations ++ further) options))) :=
  ⟨codes_subset_of_early, fun hnone =>
    ⟨fun hneed => lexerExtension_mem_codes_append hnone (extensionProblems_ne_nil hneed),
      codes_plain_subset hnone, fun hextra => ⟨lexerExtension_mem_codes_of_extra hnone hextra,
        codes_subset_of_extra hnone hextra⟩⟩⟩

end FamilyLexer

namespace Sample

/-- An extension that does the same for each kind. -/
def extending (kind : Kind sums) (instructions : List (Instruction (Kind sums))) :
    Kind sums × Family (Kind sums) :=
  (kind, .extension (.ofInstructions fun _ => instructions))

/-- A plus that is an operator and opens comments, and an extension of a node
    that nothing marks. -/
def faulty : List (Kind sums × Family (Kind sums)) :=
  [(plus, .sugar "+"), (note, .comment (some "+") none), extending name [.goto "nowhere"]]

/-- An extension that accepts a plus, which opens comments too. -/
def overlapping : List (Kind sums × Family (Kind sums)) :=
  [extending plus [.move (.single '+') none, .accept plus], (note, .comment (some "+") none)]

/-- An extension that looks for a second node. -/
def counting : Kind sums × Family (Kind sums) :=
  (name, .extension
    { extend := fun _ builder =>
        (builder, if (builder.node? 1).isSome then none else some ⟨"second"⟩)
      stemsFrom := fun _ _ => .kept [] })

/-- An extension that starts anew. -/
def replacing : Kind sums × Family (Kind sums) :=
  (name, .extension { extend := fun _ _ => (.new, none), stemsFrom := fun _ _ => .replaced [] })

/-- The extension refers to no mark that numbers set. -/
theorem lacksNoMore_faulty : FamilyLexer.LacksNoMore faulty [(number, .int)] {} := by
  refine ⟨[(name, fun _ => [.goto "nowhere"])], rfl,
    fun instruction hinstruction mark hmark hknown => ?_⟩
  obtain rfl := List.mem_singleton.1 hinstruction
  obtain rfl := Option.some.inj hmark
  exact absurd hknown (by decide)

/-- The script of the extension fails at once, so nothing is carried out. -/
theorem grows_faulty : Extend Builder.Grows (faulty ++ [(number, .int)]) {} :=
  ⟨⟨[], rfl⟩, trivial⟩

end Sample

theorem codes_append_faulty :
    FamilyLexer.earlyProblems [(Sample.plus, .sugar "plus")] {} ≠ [] ∧
      FamilyLexer.codes [(Sample.plus, .sugar "plus")] {} ⊆
        FamilyLexer.codes ([(Sample.plus, .sugar "plus")] ++ [(Sample.number, .int)]) {} ∧
      FamilyLexer.earlyProblems (Sample.faulty ++ [(Sample.number, .int)]) {} = [] ∧
      FamilyLexer.LacksNoMore Sample.faulty [(Sample.number, .int)] {} ∧
      .lexerExtension ∈ FamilyLexer.codes (Sample.faulty ++ [(Sample.number, .int)]) {} ∧
      Extend Builder.Grows (Sample.faulty ++ [(Sample.number, .int)]) {} ∧
      .lexerSugarConflict ∈ FamilyLexer.codes (Sample.faulty ++ [(Sample.number, .int)]) {} ∧
      FamilyLexer.earlyProblems (Sample.faulty ++ [(Sample.note, .comment (some "#") none)]) {} =
        [] ∧
      FamilyLexer.AddsOnly Sample.faulty [(Sample.note, .comment (some "#") none)] {} ∧
      FamilyLexer.codes Sample.faulty {} ⊆
        FamilyLexer.codes (Sample.faulty ++ [(Sample.note, .comment (some "#") none)]) {} := by
  have hletter : FamilyLexer.earlyProblems [(Sample.plus, .sugar "plus")] {} ≠ [] :=
    mt List.isEmpty_iff.2 (by decide)
  have hnumber : FamilyLexer.earlyProblems (Sample.faulty ++ [(Sample.number, .int)]) {} = [] :=
    List.isEmpty_iff.1 (by decide)
  have hnote : FamilyLexer.earlyProblems (Sample.faulty ++
      [(Sample.note, .comment (some "#") none)]) {} = [] :=
    List.isEmpty_iff.1 (by decide)
  obtain ⟨hextension, hplain, -⟩ :=
    (FamilyLexer.codes_append Sample.faulty [(Sample.number, .int)] {}).2 hnumber
  obtain ⟨-, hextra⟩ := ((FamilyLexer.codes_append Sample.faulty _ {}).2 hnote).2.2 (by decide)
  exact ⟨hletter, (FamilyLexer.codes_append _ _ {}).1 hletter, hnumber, Sample.lacksNoMore_faulty,
    hextension Sample.lacksNoMore_faulty (by decide), Sample.grows_faulty,
    hplain Sample.grows_faulty (by decide), hnote, trivial, hextra trivial⟩

/-- Numbers can set the mark that an extension lacked, or bring the node that it
    looked for. A sugar can keep the edge of an extension, and with it the
    conflict of a comment with that edge, from being found, and an extension can
    replace all that comments ran into. -/
theorem codes_vanish :
    FamilyLexer.codes [Sample.extending Sample.name [.goto Families.intMark]] {} =
      [.lexerExtension] ∧
      FamilyLexer.codes ([Sample.extending Sample.name [.goto Families.intMark]] ++
        [(Sample.number, .int)]) {} = [] ∧
      FamilyLexer.codes [Sample.counting] {} = [.lexerExtension] ∧
      FamilyLexer.codes ([Sample.counting] ++ [(Sample.number, .int)]) {} = [] ∧
      FamilyLexer.codes Sample.overlapping {} = [.lexerSugarConflict] ∧
      FamilyLexer.codes (Sample.overlapping ++ [(Sample.increment, .sugar "++")]) {} = [] ∧
      FamilyLexer.codes [(Sample.plus, .sugar "+"), (Sample.note, .comment (some "+") none)] {} =
        [.lexerSugarConflict] ∧
      FamilyLexer.codes ([(Sample.plus, .sugar "+"), (Sample.note, .comment (some "+") none)] ++
        [Sample.replacing]) {} =
        [] := by
  decide

end Lexer

end GrammarKit
