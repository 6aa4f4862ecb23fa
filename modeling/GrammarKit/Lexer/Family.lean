import GrammarKit.Automaton.Builder

namespace GrammarKit.Lexer

/-- What a caller does to the builder of a lexer for the kind of token that is
    declared. It may look at the builder, carry operations out on it, ignore
    that they fail, put a new builder in its place, and report a mark as
    unknown. -/
structure Extension (K : Type) where
  extend : K → Automaton.Builder K → Automaton.Builder K × Option Automaton.UnknownMark
  stemsFrom : ∀ (kind : K) (builder : Automaton.Builder K),
    builder.StemsFrom (extend kind builder).1

/-- Carries instructions out up to the first that fails, and reports it. -/
def Extension.ofInstructions {K : Type} (instructions : K → List (Automaton.Instruction K)) :
    Extension K where
  extend kind builder := builder.applyAll (instructions kind)
  stemsFrom kind builder := by
    obtain ⟨done, -, heq⟩ := builder.exists_steps_of_applyAll (instructions kind)
    rw [heq]
    exact .kept done

/-- The families of tokens from which a lexer is put together. -/
inductive Family (K : Type) where
  | identifier
  | int
  | double
  | keyword (word : String)
  | sugar (text : String)
  | string (delimiter escape : Char)
  | char (delimiter escape : Char)
  /-- A comment up to the end of its line, one up to an end marker, or both. -/
  | comment (single : Option String) (multi : Option (String × String))
  /-- Edges of the caller's own, built for the declared kind from the start node on. -/
  | extension (extension : Extension K)

def Family.inspect {K : Type} : Family K → String
  | identifier => "Identifier"
  | int => "Int"
  | double => "Double"
  | keyword word => s!"KeyWord({Text.quoteString word})"
  | sugar text => s!"SugarToken({Text.quoteString text})"
  | string delimiter escape => s!"String({Text.quoteChar delimiter}, {Text.quoteChar escape})"
  | char delimiter escape => s!"Char({Text.quoteChar delimiter}, {Text.quoteChar escape})"
  | comment single multi =>
    let shownSingle := Text.showOption (single.map Text.quoteString)
    let shownMulti := Text.showOption
      (multi.map fun (first, last) => Text.showTuple [Text.quoteString first,
        Text.quoteString last])
    s!"Comment({shownSingle}, {shownMulti})"
  | extension _ => "Extension"

/-- Where a comment ends. -/
inductive CommentEnd where
  | endOfLine
  | marker (text : String)
  deriving DecidableEq, Repr

/-- A family that may be declared once and was declared for two kinds. -/
structure DuplicateFamily (K : Type) where
  first : K
  second : K
  family : String

/-- Declarations sorted by family, each in the order of declaration. -/
structure Families (K : Type) where
  identifier : Option K := none
  int : Option K := none
  double : Option K := none
  keywords : List (K × String) := []
  sugars : List (K × String) := []
  strings : List (K × Char × Char) := []
  chars : List (K × Char × Char) := []
  comments : List (K × String × CommentEnd) := []
  extensions : List (K × Extension K) := []

namespace Families

variable {K : Type}

/-- The comments of one declaration, the one that ends with its line first. -/
def commentsOf (kind : K) (single : Option String) (multi : Option (String × String)) :
    List (K × String × CommentEnd) :=
  (single.map fun start => (kind, start, .endOfLine)).toList ++
    (multi.map fun (start, last) => (kind, start, .marker last)).toList

def duplicate (existing : Option K) (kind : K) (family : String) : List (DuplicateFamily K) :=
  (existing.map fun first => ⟨first, kind, family⟩).toList

/-- Adds one declaration. The first kind declared for a family that is declared
    once keeps it. -/
def insert (families : Families K) (kind : K) : Family K → Families K × List (DuplicateFamily K)
  | .identifier =>
    ({ families with identifier := families.identifier.or (some kind) },
      duplicate families.identifier kind "identifier")
  | .int => ({ families with int := families.int.or (some kind) },
      duplicate families.int kind "int")
  | .double =>
    ({ families with double := families.double.or (some kind) },
      duplicate families.double kind "double")
  | .keyword word => ({ families with keywords := families.keywords ++ [(kind, word)] }, [])
  | .sugar text => ({ families with sugars := families.sugars ++ [(kind, text)] }, [])
  | .string delimiter escape =>
    ({ families with strings := families.strings ++ [(kind, delimiter, escape)] }, [])
  | .char delimiter escape =>
    ({ families with chars := families.chars ++ [(kind, delimiter, escape)] }, [])
  | .comment single multi =>
    ({ families with comments := families.comments ++ commentsOf kind single multi }, [])
  | .extension extension =>
    ({ families with extensions := families.extensions ++ [(kind, extension)] }, [])

/-- Adds all declarations in order. -/
def insertAll (families : Families K) : List (K × Family K) → Families K × List (DuplicateFamily K)
  | [] => (families, [])
  | (kind, family) :: rest =>
    let (inserted, found) := families.insert kind family
    let (sorted, later) := inserted.insertAll rest
    (sorted, found ++ later)

def ofList (declarations : List (K × Family K)) : Families K × List (DuplicateFamily K) :=
  insertAll {} declarations

end Families

end GrammarKit.Lexer
