import GrammarKit.Proofs.Automaton.WellFormed

namespace GrammarKit

namespace Automaton

variable {K : Type}

/-- The mark that an instruction refers to. -/
def Instruction.needed? : Instruction K → Option String
  | moveTo _ name | goto name => some name
  | _ => none

/-- The mark that an instruction makes. -/
def Instruction.made? : Instruction K → Option String
  | mark name => some name
  | _ => none

/-- Whether instructions refer only to marks among `known` and to those that
    they have made before. -/
def AreSupplied (known : List String) : List (Instruction K) → Prop
  | [] => True
  | instruction :: rest =>
    (∀ name, instruction.needed? = some name → name ∈ known) ∧
      AreSupplied (instruction.made?.toList ++ known) rest

namespace AreSupplied

variable {known more : List String} {first second : List (Instruction K)}

/-- More marks do no harm. -/
theorem mono (hsupplied : AreSupplied known first) (hsub : known ⊆ more) :
    AreSupplied more first := by
  induction first generalizing known more with
  | nil => trivial
  | cons instruction rest ih =>
    obtain ⟨hneeded, hrest⟩ := hsupplied
    refine ⟨fun name hname => hsub (hneeded name hname), ih hrest ?_⟩
    exact List.append_subset.2 ⟨List.subset_append_left _ _,
      List.subset_append_of_subset_right _ hsub⟩

/-- Instructions that are supplied by themselves are supplied behind others. -/
theorem append (hfirst : AreSupplied known first) (hsecond : AreSupplied known second) :
    AreSupplied known (first ++ second) := by
  induction first generalizing known with
  | nil => exact hsecond
  | cons instruction rest ih =>
    obtain ⟨hneeded, hrest⟩ := hfirst
    exact ⟨hneeded, ih hrest (hsecond.mono (List.subset_append_right _ _))⟩

/-- Instructions are supplied when those for each item are. -/
theorem flatMap {α : Type} {items : List α} {edges : α → List (Instruction K)}
    (hsupplied : ∀ item ∈ items, AreSupplied known (edges item)) :
    AreSupplied known (items.flatMap edges) := by
  induction items with
  | nil => trivial
  | cons item rest ih =>
    rw [List.flatMap_cons]
    exact (hsupplied item List.mem_cons_self).append
      (ih fun other hother => hsupplied other (List.mem_cons_of_mem _ hother))

/-- Instructions that make no use of marks are supplied. -/
theorem of_needed?_eq_none (hnone : ∀ instruction ∈ first, instruction.needed? = none) :
    AreSupplied known first := by
  induction first generalizing known with
  | nil => trivial
  | cons instruction rest ih =>
    refine ⟨fun name hname => ?_, ih fun other hother =>
      hnone other (List.mem_cons_of_mem _ hother)⟩
    rw [hnone instruction List.mem_cons_self] at hname
    cases hname

end AreSupplied

namespace Builder

variable {builder changed : Builder K} {known : List String}

/-- A node is marked when the name is among the marks. -/
theorem isMarked_iff {name : String} :
    builder.isMarked name = true ↔ name ∈ builder.marks.map Prod.fst := by
  simp [isMarked, nodeId?, List.find?_isSome]

theorem marks_chain (builder : Builder K) (count : Nat) (check : CharClass) :
    (builder.chain count check).marks = builder.marks := by
  induction count generalizing builder with
  | zero => rfl
  | succ count ih => exact ih (builder.move check none)

/-- Marks are added to those that are there and never lost. -/
theorem marks_of_apply {instruction : Instruction K}
    (happly : instruction.apply builder = .ok changed) :
    changed.marks.map Prod.fst = instruction.made?.toList ++ builder.marks.map Prod.fst := by
  cases instruction with
  | moveTo check name =>
    obtain ⟨id, rfl⟩ := exists_of_resolve happly
    rfl
  | goto name =>
    obtain ⟨id, rfl⟩ := exists_of_resolve happly
    rfl
  | move | mark | accept | callback | ignoreWhitespace | whitespace | ignoreEol =>
    obtain rfl := Except.ok.inj happly
    rfl
  | follow c =>
    obtain rfl := Except.ok.inj happly
    rw [follow]
    split <;> rfl
  | gotoNode id =>
    obtain rfl := Except.ok.inj happly
    rw [gotoNode]
    split <;> rfl
  | chain count check =>
    obtain rfl := Except.ok.inj happly
    exact congrArg _ (builder.marks_chain count check)

/-- A mark that is there leads to a node. -/
theorem resolve_eq_ok_of_mem {name : String} (hname : name ∈ builder.marks.map Prod.fst) :
    ∃ id, builder.resolve name = .ok id := by
  obtain ⟨id, hid⟩ := Option.isSome_iff_exists.1 (isMarked_iff.2 hname)
  exact ⟨id, by rw [resolve, hid]⟩

/-- An instruction fails only for lack of the mark that it refers to. -/
theorem exists_apply_eq_ok {instruction : Instruction K}
    (hneeded : ∀ name, instruction.needed? = some name → name ∈ builder.marks.map Prod.fst) :
    ∃ changed, instruction.apply builder = .ok changed := by
  cases instruction with
  | moveTo check name =>
    obtain ⟨id, hid⟩ := resolve_eq_ok_of_mem (hneeded name rfl)
    exact ⟨_, by rw [Instruction.apply, moveTo, hid]; rfl⟩
  | goto name =>
    obtain ⟨id, hid⟩ := resolve_eq_ok_of_mem (hneeded name rfl)
    exact ⟨_, by rw [Instruction.apply, goto, hid]; rfl⟩
  | move | mark | accept | callback | ignoreWhitespace | whitespace | ignoreEol | follow
  | gotoNode | chain =>
    exact ⟨_, rfl⟩

/-- Instructions that are supplied go through. -/
theorem applyAll_of_areSupplied {instructions : List (Instruction K)}
    (hsupplied : AreSupplied known instructions) (hknown : known ⊆ builder.marks.map Prod.fst) :
    (builder.applyAll instructions).2 = none := by
  induction instructions generalizing builder known with
  | nil => rfl
  | cons instruction rest ih =>
    obtain ⟨hneeded, hrest⟩ := hsupplied
    obtain ⟨changed, happly⟩ := exists_apply_eq_ok fun name hname => hknown (hneeded name hname)
    rw [applyAll, happly]
    refine ih hrest ?_
    rw [marks_of_apply happly]
    exact List.append_subset.2 ⟨List.subset_append_left _ _,
      List.subset_append_of_subset_right _ hknown⟩

end Builder

end Automaton

namespace Lexer

open Automaton

variable {K : Type}

namespace Families

section Supplied

attribute [local simp] AreSupplied Instruction.needed? Instruction.made?

theorem areSupplied_identifierEdges (families : Families K) (options : LexerOptions) :
    AreSupplied [] (families.identifierEdges options) := by
  rw [identifierEdges]
  split <;> simp [fromStart]

/-- The marks that fractions go on from are those of whole numbers, which are
    there whenever doubles are declared. -/
theorem areSupplied_numberEdges (families : Families K) (options : LexerOptions) :
    AreSupplied [] (families.numberEdges options) := by
  rw [numberEdges]
  cases hdouble : families.double with
  | none => cases families.int <;> simp [fromStart]
  | some kind => cases families.int <;> simp [fromStart]

theorem areSupplied_sugarEdges (kind : K) (text : String) :
    AreSupplied [] (sugarEdges kind text) := by
  refine AreSupplied.of_needed?_eq_none fun instruction hinstruction => ?_
  simp only [sugarEdges, fromStart, List.mem_cons, List.mem_append, List.mem_map, List.not_mem_nil,
    or_false] at hinstruction
  obtain rfl | ⟨c, -, rfl⟩ | rfl := hinstruction <;> rfl

theorem areSupplied_stringEdges (kind : K) (delimiter escape : Char) :
    AreSupplied [] (stringEdges kind delimiter escape) := by
  rw [stringEdges]
  split <;> simp [fromStart]

theorem areSupplied_charEdges (kind : K) (delimiter escape : Char) :
    AreSupplied [] (charEdges kind delimiter escape) := by
  simp [charEdges, fromStart]

end Supplied

/-- The edges of each family lead only to nodes that the family has marked itself. -/
theorem areSupplied_edges (families : Families K) (options : LexerOptions) :
    AreSupplied [] (families.edges options) := by
  have hwords := (families.areSupplied_identifierEdges options).append
    (families.areSupplied_numberEdges options)
  have hsugars := AreSupplied.flatMap fun entry (_ : entry ∈ families.sugars) =>
    areSupplied_sugarEdges entry.1 entry.2
  have hstrings := AreSupplied.flatMap fun entry (_ : entry ∈ families.strings) =>
    areSupplied_stringEdges entry.1 entry.2.1 entry.2.2
  have hchars := AreSupplied.flatMap fun entry (_ : entry ∈ families.chars) =>
    areSupplied_charEdges entry.1 entry.2.1 entry.2.2
  exact ((hwords.append hsugars).append hstrings).append hchars

/-- What the families have built is well formed. -/
theorem isWellFormed_assembled (families : Families K) (options : LexerOptions) :
    (families.assembled options).IsWellFormed :=
  Builder.upheld_applyAll (fun instruction _ => Builder.IsWellFormed.upholds instruction)
    (Builder.isWellFormed_new.setBlanks options.blanks)

/-- Whatever is declared, and whatever was built before, the edges of the
    families can be added. -/
theorem applyAll_edges (families : Families K) (options : LexerOptions) (builder : Builder K) :
    (builder.applyAll (families.edges options)).2 = none :=
  Builder.applyAll_of_areSupplied (families.areSupplied_edges options) (List.nil_subset _)

end Families

/-- Whatever an extension does, the builder that it leaves behind is well formed. -/
theorem EachExtension.isWellFormed (builder : Builder K) (extensions : List (K × Extension K)) :
    EachExtension (fun handed extended => handed.IsWellFormed → extended.IsWellFormed)
      builder extensions :=
  .of_forall (fun entry _ handed => (entry.2.stemsFrom entry.1 handed).upheld .upholds
    Builder.isWellFormed_new) builder

/-- What the extensions make of a well-formed builder is well formed. -/
theorem isWellFormed_addExtensions {builder : Builder K} (hwell : builder.IsWellFormed)
    (extensions : List (K × Extension K)) : (addExtensions builder extensions).1.IsWellFormed :=
  (EachExtension.isWellFormed builder extensions).upheld (fun id => .upholds (.gotoNode id)) hwell

namespace Problem

/-- Whether a problem is found before anything is built. -/
def IsEarly : Problem K → Prop
  | extension .. | assembly .. | commentTaken .. => False
  | _ => True

end Problem

/-- Problems with delimiters are found before anything is built. -/
theorem isEarly_of_mem_delimiterProblems {before literals : List (K × Char × Char)} :
    ∀ problem ∈ delimiterProblems before literals, problem.IsEarly := by
  induction literals generalizing before with
  | nil => nofun
  | cons literal rest ih =>
    intro problem hproblem
    simp only [delimiterProblems, List.mem_append, Option.mem_toList, Option.map_eq_some_iff,
      List.mem_ite_nil_right, List.mem_singleton] at hproblem
    obtain (⟨first, -, rfl⟩ | ⟨-, rfl⟩) | hrest := hproblem
    · trivial
    · trivial
    · exact ih problem hrest

/-- Problems with sugars are found before anything is built. -/
theorem isEarly_of_mem_sugarProblems {delimiters : List Char} {before : List String}
    {sugars : List (K × String)} :
    ∀ problem ∈ sugarProblems delimiters before sugars, problem.IsEarly := by
  induction sugars generalizing before with
  | nil => nofun
  | cons sugar rest ih =>
    intro problem hproblem
    simp only [sugarProblems, List.mem_append, List.mem_ite_nil_right, List.mem_singleton]
      at hproblem
    obtain ((⟨-, rfl⟩ | ⟨-, rfl⟩) | ⟨-, rfl⟩) | hrest := hproblem
    · trivial
    · trivial
    · trivial
    · exact ih problem hrest

/-- What the checks find is found before anything is built. -/
theorem Families.isEarly_of_mem_problems {families : Families K} {options : LexerOptions} :
    ∀ problem ∈ families.problems options, problem.IsEarly := by
  intro problem hproblem
  simp only [problems, commentProblems, keywordProblems, List.mem_append, List.mem_filterMap]
    at hproblem
  obtain ((hdelimiter | hsugar) | ⟨entry, -, hentry⟩) | ⟨entry, -, hentry⟩ := hproblem
  · exact isEarly_of_mem_delimiterProblems problem hdelimiter
  · exact isEarly_of_mem_sugarProblems problem hsugar
  · obtain rfl := Option.some.inj (Option.ite_none_right_eq_some.1 hentry).2
    trivial
  · obtain rfl := Option.some.inj (Option.ite_none_left_eq_some.1 hentry).2
    trivial

/-- Adding extensions finds nothing but extensions that failed. -/
theorem exists_of_mem_addExtensions {builder : Builder K} {extensions : List (K × Extension K)} :
    ∀ problem ∈ (addExtensions builder extensions).2, ∃ kind error,
      problem = .extension kind error := by
  induction extensions generalizing builder with
  | nil => nofun
  | cons extension rest ih =>
    intro problem hproblem
    rcases List.mem_append.1 hproblem with herror | hrest
    · obtain ⟨error, -, rfl⟩ := Option.map_eq_some_iff.1 (Option.mem_toList.1 herror)
      exact ⟨extension.1, error, rfl⟩
    · exact ih problem hrest

/-- Adding comments finds nothing but markers that end where a token ends already. -/
theorem exists_of_mem_addComments {builder : Builder K} {table : CommentTable}
    {comments : List (K × String × CommentEnd)} :
    ∀ problem ∈ (addComments builder table comments).2.2, ∃ marker kind,
      problem = .commentTaken marker kind := by
  induction comments generalizing builder table with
  | nil => nofun
  | cons comment rest ih =>
    obtain ⟨kind, marker, ending⟩ := comment
    intro problem hproblem
    rw [addComments] at hproblem
    dsimp only at hproblem
    split at hproblem
    · rcases List.mem_cons.1 hproblem with rfl | hrest
      · exact ⟨marker, kind, rfl⟩
      · exact ih problem hrest
    · exact ih problem hproblem

namespace FamilyLexer

/-- What is found before anything is built. -/
def earlyProblems (declarations : List (K × Family K)) (options : LexerOptions) :
    List (Problem K) :=
  (Families.ofList declarations).2.map (fun found =>
    .duplicateFamily found.first found.second found.family) ++
      (Families.ofList declarations).1.problems options

/-- What is found while the automaton is extended. -/
def lateProblems (declarations : List (K × Family K)) (options : LexerOptions) : List (Problem K) :=
  let families := (Families.ofList declarations).1
  let extension := addExtensions (families.assembled options) families.extensions
  extension.2 ++ (addComments extension.1 [] families.comments).2.2

variable [DecidableEq K] [TokenKind K]

/-- A build reports what is found before, and otherwise what is found while the
    automaton is extended. -/
theorem diagnostics_build (declarations : List (K × Family K)) (options : LexerOptions) :
    (build declarations options).diagnostics =
      ((if (earlyProblems declarations options).isEmpty then lateProblems declarations options
        else earlyProblems declarations options).map Problem.diagnostic) := by
  have herror := (Families.ofList declarations).1.applyAll_edges options
    { Builder.new with blanks := options.blanks }
  unfold build earlyProblems lateProblems Families.assembled
  generalize Families.ofList declarations = sorted at herror ⊢
  obtain ⟨families, duplicates⟩ := sorted
  dsimp only at herror ⊢
  generalize ({ Builder.new with blanks := options.blanks } : Builder K).applyAll
    (families.edges options) = assembly
    at herror ⊢
  obtain ⟨assembled, error⟩ := assembly
  obtain rfl : error = none := herror
  cases (duplicates.map _ ++ families.problems options).isEmpty <;> rfl

/-- No build reports that the automaton could not be put together. -/
theorem code_ne_lexerAssembly (declarations : List (K × Family K)) (options : LexerOptions) :
    Code.lexerAssembly ∉ (build declarations options).diagnostics.map Diagnostic.code := by
  intro hcode
  rw [diagnostics_build, List.map_map] at hcode
  obtain ⟨problem, hproblem, hcode⟩ := List.mem_map.1 hcode
  split at hproblem
  · rcases List.mem_append.1 hproblem with hextension | hcomment
    · obtain ⟨kind, error, rfl⟩ := exists_of_mem_addExtensions problem hextension
      cases hcode
    · obtain ⟨marker, kind, rfl⟩ := exists_of_mem_addComments problem hcomment
      cases hcode
  · have hearly : problem.IsEarly := by
      rcases List.mem_append.1 hproblem with hduplicate | hproblem
      · obtain ⟨found, -, rfl⟩ := List.mem_map.1 hduplicate
        trivial
      · exact Families.isEarly_of_mem_problems problem hproblem
    cases problem with
    | assembly error => exact hearly
    | _ => cases hcode

/-- Whatever is done to a fresh builder, and whichever instructions fail, its
    automaton is well formed and no scan with it looks up anything in vain;
    instructions that fail leave it as it was. So a lexer can be put together
    from any families, and no build reports that it could not be. -/
theorem build_isWellFormed :
    (∀ instructions : List (Instruction K),
      let builder := (Builder.new : Builder K).performAll instructions
      builder.IsWellFormed ∧
        (∀ instruction : Instruction K, instruction.perform.run.run builder =
          match instruction.apply builder with
          | .ok changed => (.ok (), changed)
          | .error error => (.error error, builder)) ∧
        ∀ place, builder.build.runChecked place = .ok (builder.build.run place)) ∧
      (∀ (families : Families K) (options : LexerOptions),
        (({ Builder.new with blanks := options.blanks } : Builder K).applyAll
          (families.edges options)).2 = none) ∧
      ∀ (declarations : List (K × Family K)) (options : LexerOptions),
        Code.lexerAssembly ∉ (build declarations options).diagnostics.map Diagnostic.code := by
  refine ⟨fun instructions => ?_, fun families options => families.applyAll_edges options _,
    code_ne_lexerAssembly⟩
  have hwell := Builder.isWellFormed_new.performAll instructions
  exact ⟨hwell, hwell.run_perform, hwell.runChecked_eq⟩

end FamilyLexer

end Lexer

end GrammarKit
