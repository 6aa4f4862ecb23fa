import GrammarKit.Lexer.Assembly
import Mathlib.Data.List.Basic

namespace GrammarKit.Lexer

open Automaton

variable {K : Type}

namespace Family

/-- The kind and the word of a keyword. -/
def keyword? : K × Family K → Option (K × String)
  | (kind, keyword word) => some (kind, word)
  | _ => none

/-- The kind and the text of a sugar. -/
def sugar? : K × Family K → Option (K × String)
  | (kind, sugar text) => some (kind, text)
  | _ => none

/-- The kind, the delimiter and the escape character of a string literal. -/
def string? : K × Family K → Option (K × Char × Char)
  | (kind, string delimiter escape) => some (kind, delimiter, escape)
  | _ => none

/-- The kind, the delimiter and the escape character of a character literal. -/
def char? : K × Family K → Option (K × Char × Char)
  | (kind, char delimiter escape) => some (kind, delimiter, escape)
  | _ => none

/-- The kind, the start marker and the end of each form of comment. -/
def comments : K × Family K → List (K × String × CommentEnd)
  | (kind, comment single multi) => Families.commentsOf kind single multi
  | _ => []

/-- The kind and the extension of an extension. -/
def extension? : K × Family K → Option (K × Extension K)
  | (kind, extension added) => some (kind, added)
  | _ => none

end Family

namespace Families

/-- The families that are declared once at most. -/
inductive IsSingle : Family K → Prop
  | identifier : IsSingle .identifier
  | int : IsSingle .int
  | double : IsSingle .double

/-- The kind of a family that is declared once at most. -/
def kindOf? (families : Families K) : Family K → Option K
  | .identifier => families.identifier
  | .int => families.int
  | .double => families.double
  | _ => none

/-- Declarations are sorted by family without loss, in their order. -/
theorem insertAll_lists (families : Families K) (declarations : List (K × Family K)) :
    let sorted := (families.insertAll declarations).1
    sorted.keywords = families.keywords ++ declarations.filterMap Family.keyword? ∧
      sorted.sugars = families.sugars ++ declarations.filterMap Family.sugar? ∧
      sorted.strings = families.strings ++ declarations.filterMap Family.string? ∧
      sorted.chars = families.chars ++ declarations.filterMap Family.char? ∧
      sorted.comments = families.comments ++ declarations.flatMap Family.comments ∧
      sorted.extensions = families.extensions ++ declarations.filterMap Family.extension? := by
  induction declarations generalizing families with
  | nil => simp [insertAll]
  | cons declaration rest ih =>
    obtain ⟨kind, family⟩ := declaration
    have hrest := ih (families.insert kind family).1
    cases family <;>
      simpa [insertAll, insert, List.filterMap_cons, Family.keyword?, Family.sugar?,
        Family.string?, Family.char?, Family.comments, Family.extension?] using hrest

/-- A family that is declared once keeps the kind that it has, or gets one. -/
theorem kindOf?_insert {families : Families K} {kind first : K} {family added : Family K}
    (hsingle : IsSingle family) (hduplicates : (families.insert first added).2 = []) :
    (families.insert first added).1.kindOf? family = some kind ↔
      families.kindOf? family = some kind ∨ (kind, family) = (first, added) := by
  cases hsingle <;> cases added <;> simp [insert, duplicate, kindOf?] at hduplicates ⊢ <;>
    simp [hduplicates, eq_comm (a := kind)]

/-- A family that is declared once at most has the kind that was declared for it. -/
theorem kindOf?_insertAll {families : Families K} {declarations : List (K × Family K)}
    {family : Family K} {kind : K} (hsingle : IsSingle family)
    (hduplicates : (families.insertAll declarations).2 = []) :
    (families.insertAll declarations).1.kindOf? family = some kind ↔
      families.kindOf? family = some kind ∨ (kind, family) ∈ declarations := by
  induction declarations generalizing families with
  | nil => simp [insertAll]
  | cons declaration rest ih =>
    obtain ⟨first, added⟩ := declaration
    obtain ⟨hfirst, hrest⟩ := List.append_eq_nil_iff.1 hduplicates
    have hsorted : ((families.insert first added).1.insertAll rest).1.kindOf? family = some kind ↔
        _ := ih hrest
    rw [kindOf?_insert hsingle hfirst, or_assoc] at hsorted
    rw [List.mem_cons]
    exact hsorted

/-- A family that is declared once at most has a kind exactly when it was declared with it. -/
theorem kindOf?_ofList {declarations : List (K × Family K)} {family : Family K} {kind : K}
    (hsingle : IsSingle family) (hduplicates : (ofList declarations).2 = []) :
    (ofList declarations).1.kindOf? family = some kind ↔ (kind, family) ∈ declarations := by
  rw [ofList, kindOf?_insertAll hsingle hduplicates]
  cases hsingle <;> simp [kindOf?]

/-- What the checks ask of the families of a lexer, and what is therefore known
    of those from which a lexer was built. -/
structure IsSound (families : Families K) (options : LexerOptions) : Prop where
  nodup_delimiters : ((families.strings ++ families.chars).map fun entry => entry.2.1).Nodup
  delimiters : ∀ entry ∈ families.strings ++ families.chars, Text.isAlphanumeric entry.2.1 = false
  nodup_sugars : (families.sugars.map Prod.snd).Nodup
  sugars : ∀ entry ∈ families.sugars, ∃ c rest, entry.2.toList = c :: rest ∧
    Text.isAlphanumeric c = false ∧
    c ∉ (families.strings ++ families.chars).map fun entry => entry.2.1
  comments : ∀ entry ∈ families.comments, ∃ c rest, entry.2.1.toList = c :: rest ∧
    Text.isAlphanumeric c = false
  keywords : ∀ entry ∈ families.keywords, options.identifier.accepts entry.2.toList = true

theorem exists_of_not_lacksSymbol {text : String} (hsymbol : lacksSymbol text = false) :
    ∃ c rest, text.toList = c :: rest ∧ Text.isAlphanumeric c = false := by
  rw [lacksSymbol] at hsymbol
  cases htext : text.toList with
  | nil => simp [htext] at hsymbol
  | cons c rest => exact ⟨c, rest, rfl, by simpa [htext] using hsymbol⟩

/-- What the check of delimiters asks of literals. -/
theorem of_delimiterProblems {before literals : List (K × Char × Char)}
    (hnone : delimiterProblems before literals = []) :
    (literals.map fun entry => entry.2.1).Nodup ∧
      (∀ entry ∈ literals, entry.2.1 ∉ before.map fun entry => entry.2.1) ∧
      ∀ entry ∈ literals, Text.isAlphanumeric entry.2.1 = false := by
  induction literals generalizing before with
  | nil => simp
  | cons literal rest ih =>
    obtain ⟨kind, delimiter, escape⟩ := literal
    simp only [delimiterProblems, List.append_eq_nil_iff, Option.toList_eq_nil_iff,
      Option.map_eq_none_iff] at hnone
    obtain ⟨⟨howner, hletter⟩, hrest⟩ := hnone
    obtain ⟨hnodup, hfresh, hletters⟩ := ih hrest
    have hbefore : delimiter ∉ before.map fun entry => entry.2.1 := by
      intro hmem
      obtain ⟨⟨first, other, rest⟩, hentry, rfl⟩ := List.mem_map.1 hmem
      rw [ownerOf?, Option.map_eq_none_iff, List.find?_eq_none] at howner
      exact howner _ (List.mem_reverse.2 hentry) (by simp)
    refine ⟨List.nodup_cons.2 ⟨?_, hnodup⟩, ?_, ?_⟩
    · intro hmem
      obtain ⟨entry, hentry, heq⟩ := List.mem_map.1 hmem
      exact hfresh entry hentry (by simp [heq])
    · intro entry hentry
      rcases List.mem_cons.1 hentry with rfl | hentry
      · exact hbefore
      · exact fun hmem => hfresh entry hentry (by
          rw [List.map_append]
          exact List.mem_append_left _ hmem)
    · intro entry hentry
      rcases List.mem_cons.1 hentry with rfl | hentry
      · simpa using hletter
      · exact hletters entry hentry

/-- What the check of sugars asks of their texts. -/
theorem of_sugarProblems {delimiters : List Char} {before : List String}
    {sugars : List (K × String)} (hnone : sugarProblems delimiters before sugars = []) :
    (sugars.map Prod.snd).Nodup ∧ (∀ entry ∈ sugars, entry.2 ∉ before) ∧
      ∀ entry ∈ sugars, ∃ c rest, entry.2.toList = c :: rest ∧ Text.isAlphanumeric c = false ∧
        c ∉ delimiters := by
  induction sugars generalizing before with
  | nil => simp
  | cons sugar rest ih =>
    obtain ⟨kind, text⟩ := sugar
    simp only [sugarProblems, List.append_eq_nil_iff] at hnone
    obtain ⟨⟨⟨hletter, hdelimiter⟩, hduplicate⟩, hrest⟩ := hnone
    obtain ⟨hnodup, hfresh, hall⟩ := ih hrest
    refine ⟨List.nodup_cons.2 ⟨?_, hnodup⟩, ?_, ?_⟩
    · intro hmem
      obtain ⟨entry, hentry, heq⟩ := List.mem_map.1 hmem
      exact hfresh entry hentry (by simp [heq])
    · intro entry hentry
      rcases List.mem_cons.1 hentry with rfl | hentry
      · simpa using hduplicate
      · exact fun hmem => hfresh entry hentry (List.mem_append_left _ hmem)
    · intro entry hentry
      rcases List.mem_cons.1 hentry with rfl | hentry
      · have hsymbol : lacksSymbol text = false := by simpa using hletter
        obtain ⟨c, rest, htext, hc⟩ := exists_of_not_lacksSymbol hsymbol
        exact ⟨c, rest, htext, hc, by simpa [htext] using hdelimiter⟩
      · exact hall entry hentry

/-- Families without problems are what the checks ask for. -/
theorem isSound_of_problems {families : Families K} {options : LexerOptions}
    (hnone : families.problems options = []) :
    families.IsSound options := by
  simp only [problems, List.append_eq_nil_iff] at hnone
  obtain ⟨⟨⟨hdelimiters, hsugars⟩, hcomments⟩, hkeywords⟩ := hnone
  obtain ⟨hnodup, -, hletters⟩ := of_delimiterProblems hdelimiters
  obtain ⟨hdistinct, -, hsymbols⟩ := of_sugarProblems hsugars
  refine ⟨hnodup, hletters, hdistinct, hsymbols, fun entry hentry => ?_, fun entry hentry => ?_⟩
  · have hmarker := List.filterMap_eq_nil_iff.1 hcomments entry hentry
    exact exists_of_not_lacksSymbol (by simpa using hmarker)
  · have hword := List.filterMap_eq_nil_iff.1 hkeywords entry hentry
    simpa using hword

end Families

/-- Any problem keeps a lexer from being built. -/
theorem any_isBlocking_diagnostics [DecidableEq K] [TokenKind K] (problems : List (Problem K)) :
    (problems.map Problem.diagnostic).any Diagnostic.isBlocking = !problems.isEmpty := by
  cases problems with
  | nil => rfl
  | cons problem rest =>
    rw [List.map_cons, List.any_cons]
    exact Bool.true_or _

namespace FamilyLexer

variable [DecidableEq K] [TokenKind K]

/-- The steps by which a lexer was built, none of which found a problem. -/
theorem exists_steps_of_build {declarations : List (K × Family K)} {options : LexerOptions}
    {lexer : FamilyLexer K} (hbuild : (build declarations options).value = some lexer) :
    (Families.ofList declarations).2 = [] ∧ (Families.ofList declarations).1.IsSound options ∧
      ∃ assembled extended built : Builder K,
        ({ Builder.new with blanks := options.blanks } : Builder K).applyAll
          ((Families.ofList declarations).1.edges options) = (assembled, none) ∧
        addExtensions assembled (Families.ofList declarations).1.extensions = (extended, []) ∧
        addComments extended [] (Families.ofList declarations).1.comments =
          (built, lexer.comments, []) ∧
        lexer.automaton = built.build := by
  unfold build at hbuild
  generalize Families.ofList declarations = sorted at hbuild ⊢
  obtain ⟨families, duplicates⟩ := sorted
  dsimp only at hbuild ⊢
  split at hbuild
  · cases hbuild
  · next hearly =>
    generalize ({ Builder.new with blanks := options.blanks } : Builder K).applyAll
      (families.edges options) = assembly at hbuild ⊢
    obtain ⟨assembled, error⟩ := assembly
    generalize hextended : addExtensions assembled families.extensions = extension at hbuild
    obtain ⟨extended, extensionProblems⟩ := extension
    generalize hcomments : addComments extended [] families.comments = commented at hbuild
    obtain ⟨built, comments, commentProblems⟩ := commented
    simp only [BuildResult.of, any_isBlocking_diagnostics] at hbuild
    split at hbuild
    · cases hbuild
    · next hproblems =>
      obtain rfl := Option.some.inj hbuild
      simp only [Bool.not_eq_true', Bool.not_eq_false, List.isEmpty_iff, List.append_eq_nil_iff,
        List.map_eq_nil_iff, Option.toList_eq_nil_iff, Option.map_eq_none_iff] at hearly hproblems
      obtain ⟨⟨rfl, rfl⟩, rfl⟩ := hproblems
      exact ⟨hearly.1, Families.isSound_of_problems hearly.2, assembled, extended, built, rfl,
        hextended, hcomments, rfl⟩

end FamilyLexer

end GrammarKit.Lexer
