import GrammarKit.Proofs.Lexer.Declared

namespace GrammarKit

namespace Automaton

variable {K : Type}

namespace Instruction

/-- Whether an instruction upholds a property of builders, so that it holds from
    the first instruction to the last. -/
def Upholds (P : Builder K → Prop) (instruction : Instruction K) : Prop :=
  ∀ builder changed, P builder → instruction.apply builder = .ok changed → P changed

/-- Whether an instruction changes what is ignored. -/
def SetsBlanks : Instruction K → Prop
  | ignoreWhitespace _ | whitespace _ | ignoreEol _ => True
  | _ => False

end Instruction

namespace Builder

variable {P : Builder K → Prop} {builder : Builder K}

/-- What instructions uphold holds after all of them, those that fail included. -/
theorem upheld_steps {instructions : List (Instruction K)}
    (hupholds : ∀ instruction ∈ instructions, instruction.Upholds P) (hbuilder : P builder) :
    P (builder.steps instructions) := by
  induction instructions generalizing builder with
  | nil => exact hbuilder
  | cons instruction rest ih =>
    have hstep : P (builder.step instruction) := by
      rw [step]
      cases happly : instruction.apply builder with
      | error error => exact hbuilder
      | ok changed => exact hupholds instruction List.mem_cons_self builder changed hbuilder happly
    exact ih (fun other hother => hupholds other (List.mem_cons_of_mem _ hother)) hstep

/-- What instructions uphold holds up to the first that fails. -/
theorem upheld_applyAll {instructions : List (Instruction K)}
    (hupholds : ∀ instruction ∈ instructions, instruction.Upholds P) (hbuilder : P builder) :
    P (builder.applyAll instructions).1 := by
  obtain ⟨done, hdone, heq⟩ := builder.exists_steps_of_applyAll instructions
  rw [heq]
  exact upheld_steps (fun instruction hinstruction =>
    hupholds instruction (hdone.subset hinstruction)) hbuilder

/-- What all operations uphold, and a new builder has, is kept by whatever is
    made of a builder. -/
theorem StemsFrom.upheld {result : Builder K} (hstems : builder.StemsFrom result)
    (hupholds : ∀ instruction : Instruction K, instruction.Upholds P) (hnew : P new)
    (hbuilder : P builder) : P result := by
  cases hstems with
  | kept instructions => exact upheld_steps (fun instruction _ => hupholds instruction) hbuilder
  | replaced instructions => exact upheld_steps (fun instruction _ => hupholds instruction) hnew

/-- Whether operations lead from one builder to another, which was then not
    replaced on the way. -/
def Grows (handed extended : Builder K) : Prop :=
  ∃ instructions, extended = handed.steps instructions

/-- What all operations uphold is kept by a builder that grows. -/
theorem Grows.upheld {extended : Builder K} (hgrows : builder.Grows extended)
    (hupholds : ∀ instruction : Instruction K, instruction.Upholds P) (hbuilder : P builder) :
    P extended := by
  obtain ⟨instructions, rfl⟩ := hgrows
  exact upheld_steps (fun instruction _ => hupholds instruction) hbuilder

/-- What following a character upholds is kept when a word is followed. -/
theorem upheld_followAll (hfollow : ∀ c, (Instruction.follow c).Upholds P) (hbuilder : P builder)
    (word : List Char) :
    P (builder.followAll word) := by
  induction word generalizing builder with
  | nil => exact hbuilder
  | cons c word ih => exact ih (hfollow c builder _ hbuilder rfl)

/-- An instruction that refers to a mark fails, or goes on with the node that carries it. -/
theorem exists_of_resolve {mark : String} {change : Nat → Builder K} {changed : Builder K}
    (hok : (builder.resolve mark).map change = .ok changed) : ∃ id, changed = change id := by
  cases hresolve : builder.resolve mark with
  | error error =>
    rw [hresolve] at hok
    cases hok
  | ok id =>
    rw [hresolve] at hok
    exact ⟨id, (Except.ok.inj hok).symm⟩

theorem blanks_chain (builder : Builder K) (count : Nat) (check : CharClass) :
    (builder.chain count check).blanks = builder.blanks := by
  induction count generalizing builder with
  | zero => rfl
  | succ count ih => exact ih (builder.move check none)

/-- What is ignored stays the same unless an instruction sets it. -/
theorem upholds_blanks {blanks : Blanks} {instruction : Instruction K}
    (hsets : ¬instruction.SetsBlanks) :
    instruction.Upholds fun builder => builder.blanks = blanks := by
  intro builder changed hblanks happly
  subst hblanks
  cases instruction with
  | moveTo check mark =>
    obtain ⟨id, rfl⟩ := exists_of_resolve happly
    rfl
  | goto mark =>
    obtain ⟨id, rfl⟩ := exists_of_resolve happly
    rfl
  | move | mark | accept | callback =>
    obtain rfl := Except.ok.inj happly
    rfl
  | follow c =>
    obtain rfl := Except.ok.inj happly
    rw [follow]
    split <;> rfl
  | gotoNode id =>
    obtain rfl := Except.ok.inj happly
    rw [gotoNode]
    split <;> rfl
  | chain count check =>
    obtain rfl := Except.ok.inj happly
    exact builder.blanks_chain count check
  | ignoreWhitespace | whitespace | ignoreEol => exact absurd trivial hsets

/-- Whether all callbacks have a property. -/
def CallbacksHave (Q : Callback K → Prop) (builder : Builder K) : Prop :=
  ∀ node ∈ builder.nodes, ∀ change, node.callback = some change → Q change

variable {Q : Callback K → Prop}

/-- An edge to a new node sets no callback. -/
theorem CallbacksHave.move (hcallbacks : builder.CallbacksHave Q) (check : CharClass)
    (guard : Option Guard) :
    (builder.move check guard).CallbacksHave Q := by
  intro node hnode change hchange
  rcases List.mem_append.1 hnode with hnode | hnode
  · exact hcallbacks node hnode change hchange
  · obtain rfl := List.mem_singleton.1 hnode
    cases hchange

theorem CallbacksHave.chain (hcallbacks : builder.CallbacksHave Q) (count : Nat)
    (check : CharClass) :
    (builder.chain count check).CallbacksHave Q := by
  induction count generalizing builder with
  | zero => exact hcallbacks
  | succ count ih => exact ih (hcallbacks.move check none)

/-- Callbacks keep a property that the edit keeps. -/
theorem CallbacksHave.modifyCurrent (hcallbacks : builder.CallbacksHave Q) {edit : Node K → Node K}
    (hedit : ∀ node change, (edit node).callback = some change → node.callback = some change ∨
      Q change) :
    (builder.modifyCurrent edit).CallbacksHave Q := by
  intro node hnode change hchange
  obtain ⟨id, hid⟩ := List.mem_iff_getElem?.1 hnode
  rw [Builder.modifyCurrent, List.getElem?_modify] at hid
  obtain ⟨old, hold, rfl⟩ := Option.map_eq_some_iff.1 hid
  have hmem := List.mem_of_getElem? hold
  split at hchange
  · rcases hedit old change hchange with hsame | hnew
    · exact hcallbacks old hmem change hsame
    · exact hnew
  · exact hcallbacks old hmem change hchange

/-- Callbacks come from the instructions that set them. -/
theorem upholds_callbacks {instruction : Instruction K}
    (hset : ∀ change, instruction = .callback change → Q change) :
    instruction.Upholds (CallbacksHave Q) := by
  intro builder changed hcallbacks happly
  cases instruction with
  | moveTo check mark =>
    obtain ⟨id, rfl⟩ := exists_of_resolve happly
    exact hcallbacks
  | goto mark =>
    obtain ⟨id, rfl⟩ := exists_of_resolve happly
    exact hcallbacks
  | ignoreWhitespace | whitespace | ignoreEol =>
    obtain rfl := Except.ok.inj happly
    exact hcallbacks
  | move check guard =>
    obtain rfl := Except.ok.inj happly
    exact hcallbacks.move check guard
  | follow c =>
    obtain rfl := Except.ok.inj happly
    rw [follow]
    split
    · exact hcallbacks
    · exact hcallbacks.move _ _
  | gotoNode id =>
    obtain rfl := Except.ok.inj happly
    rw [gotoNode]
    split <;> exact hcallbacks
  | chain count check =>
    obtain rfl := Except.ok.inj happly
    exact hcallbacks.chain count check
  | mark | accept =>
    obtain rfl := Except.ok.inj happly
    exact hcallbacks.modifyCurrent fun _ _ hsame => Or.inl hsame
  | callback change =>
    obtain rfl := Except.ok.inj happly
    exact hcallbacks.modifyCurrent fun _ _ hnew =>
      Or.inr (hset _ (congrArg _ (Option.some.inj hnew)))

/-- Whether the callbacks of a builder that were not set in an earlier one have a property. -/
def SetsOnly (Q : Callback K → Prop) (handed extended : Builder K) : Prop :=
  extended.CallbacksHave fun change => Q change ∨ ∃ node ∈ handed.nodes, node.callback = some change

/-- All callbacks have a property that those set before and those set since have. -/
theorem SetsOnly.callbacksHave {handed extended : Builder K} (hsets : SetsOnly Q handed extended)
    (hcallbacks : handed.CallbacksHave Q) : extended.CallbacksHave Q := by
  intro node hnode change hchange
  rcases hsets node hnode change hchange with hnew | ⟨old, hold, hsame⟩
  · exact hnew
  · exact hcallbacks old hold change hsame

/-- Instructions set the callbacks that they name. -/
theorem setsOnly_applyAll {instructions : List (Instruction K)}
    (hset : ∀ change, .callback change ∈ instructions → Q change) (builder : Builder K) :
    SetsOnly Q builder (builder.applyAll instructions).1 :=
  upheld_applyAll
    (fun _ hinstruction => upholds_callbacks fun change heq =>
      Or.inl (hset change (heq ▸ hinstruction))) fun node hnode _ hchange =>
        Or.inr ⟨node, hnode, hchange⟩

end Builder

end Automaton

namespace Lexer

open Automaton

variable {K : Type} {P : Builder K → Prop} {builder : Builder K}

/-- Whether each extension makes of the builder that it is handed one that
    stands in a relation to it. -/
def EachExtension (R : Builder K → Builder K → Prop) (builder : Builder K) :
    List (K × Extension K) → Prop
  | [] => True
  | (kind, extension) :: rest =>
    let handed := builder.gotoNode startNode
    let extended := (extension.extend kind handed).1
    R handed extended ∧ EachExtension R extended rest

namespace EachExtension

variable {R S : Builder K → Builder K → Prop} {extensions : List (K × Extension K)}

/-- What each extension does to any builder it does to those that it is handed. -/
theorem of_forall
    (hall : ∀ entry ∈ extensions, ∀ handed, R handed (entry.2.extend entry.1 handed).1)
    (builder : Builder K) :
    EachExtension R builder extensions := by
  induction extensions generalizing builder with
  | nil => trivial
  | cons entry rest ih =>
    exact ⟨hall entry List.mem_cons_self _,
      ih (fun other hother => hall other (List.mem_cons_of_mem _ hother)) _⟩

/-- A relation may be replaced by one that is implied. -/
theorem imp (hR : ∀ handed extended, R handed extended → S handed extended) {builder : Builder K}
    (heach : EachExtension R builder extensions) : EachExtension S builder extensions := by
  induction extensions generalizing builder with
  | nil => trivial
  | cons entry rest ih => exact ⟨hR _ _ heach.1, ih heach.2⟩

/-- Two relations hold together. -/
theorem and {builder : Builder K} (hfirst : EachExtension R builder extensions)
    (hsecond : EachExtension S builder extensions) :
    EachExtension (fun handed extended => R handed extended ∧ S handed extended) builder
      extensions := by
  induction extensions generalizing builder with
  | nil => trivial
  | cons entry rest ih => exact ⟨⟨hfirst.1, hsecond.1⟩, ih hfirst.2 hsecond.2⟩

/-- What each extension keeps, all of them keep together. -/
theorem upheld
    (heach : EachExtension (fun handed extended => P handed → P extended) builder extensions)
    (hgoto : ∀ id, (Instruction.gotoNode id).Upholds P) (hbuilder : P builder) :
    P (addExtensions builder extensions).1 := by
  induction extensions generalizing builder with
  | nil => exact hbuilder
  | cons entry rest ih => exact ih heach.2 (heach.1 (hgoto startNode builder _ hbuilder rfl))

end EachExtension

/-- Adding comments keeps what following words and accepting keeps. -/
theorem upheld_addComments (hgoto : ∀ id, (Instruction.gotoNode id).Upholds P)
    (hfollow : ∀ c, (Instruction.follow c).Upholds P)
    (haccept : ∀ kind, (Instruction.accept kind).Upholds P) (hbuilder : P builder)
    (table : CommentTable) (comments : List (K × String × CommentEnd)) :
    P (addComments builder table comments).1 := by
  induction comments generalizing builder table with
  | nil => exact hbuilder
  | cons comment comments ih =>
    obtain ⟨kind, marker, ending⟩ := comment
    have hreached := Builder.upheld_followAll hfollow (hgoto startNode builder _ hbuilder rfl)
      marker.toList
    rw [addComments]
    dsimp only
    split
    · exact ih hreached table
    · exact ih (haccept kind _ _ hreached rfl) _

/-- The builder with the edges of all families but comments and extensions. -/
def Families.assembled (families : Families K) (options : LexerOptions) : Builder K :=
  (({ Builder.new with blanks := options.blanks } : Builder K).applyAll (families.edges options)).1

/-- Whether each extension of a list of declarations makes of the builder that
    it is handed one that stands in a relation to it. -/
def Extend (R : Builder K → Builder K → Prop) (declarations : List (K × Family K))
    (options : LexerOptions) : Prop :=
  EachExtension R ((Families.ofList declarations).1.assembled options)
    (Families.ofList declarations).1.extensions

namespace FamilyLexer

variable [DecidableEq K] [TokenKind K] {declarations : List (K × Family K)} {options : LexerOptions}
  {lexer : FamilyLexer K}

section Upheld

variable (hbuild : (build declarations options).value = some lexer)
    (hgoto : ∀ id, (Instruction.gotoNode id).Upholds P)
    (hfollow : ∀ c, (Instruction.follow c).Upholds P)
    (haccept : ∀ kind, (Instruction.accept kind).Upholds P)
    (hextensions : Extend (fun handed extended => P handed → P extended) declarations options)

include hbuild hgoto hfollow haccept hextensions

/-- What holds of the builder with the edges of the families, and is kept by the
    extensions and by the start markers of comments, holds of the builder from
    which the automaton was taken. -/
theorem exists_upheld_of_assembled
    (hassembled : P ((Families.ofList declarations).1.assembled options)) :
    ∃ built, lexer.automaton = built.build ∧ P built := by
  obtain ⟨-, -, assembled, extended, built, heq, hextended, hbuilt, hautomaton⟩ :=
    exists_steps_of_build hbuild
  have hsecond := hextensions.upheld hgoto hassembled
  rw [Families.assembled, heq, hextended] at hsecond
  have hthird := upheld_addComments hgoto hfollow haccept hsecond []
    (Families.ofList declarations).1.comments
  rw [hbuilt] at hthird
  exact ⟨built, hautomaton, hthird⟩

/-- What holds of a fresh builder, and is upheld by all instructions of the
    families and by the extensions, holds of the builder from which the
    automaton was taken. -/
theorem exists_upheld_of_build
    (hedges : ∀ instruction ∈ (Families.ofList declarations).1.edges options, instruction.Upholds P)
    (hnew : P { Builder.new with blanks := options.blanks }) :
    ∃ built, lexer.automaton = built.build ∧ P built :=
  exists_upheld_of_assembled hbuild hgoto hfollow haccept hextensions
    (Builder.upheld_applyAll hedges hnew)

end Upheld

end FamilyLexer

end Lexer

end GrammarKit
