import GrammarKit.Lexer.Validation
import GrammarKit.Literal
import GrammarKit.Text.Lowercase

namespace GrammarKit.Lexer

open Automaton

variable {K : Type}

namespace Families

def fromStart (instructions : List (Instruction K)) : List (Instruction K) :=
  .gotoNode startNode :: instructions

/-- How a word is compared with keywords. -/
def foldCase (options : LexerOptions) (word : String) : String :=
  if options.keywordIgnoreCase then Text.toLowercase word else word

/-- The kind of the keyword that a word spells; of several, the one declared last. -/
def keywordKind? (families : Families K) (options : LexerOptions) (word : String) : Option K :=
  (families.keywords.reverse.find? fun entry => foldCase options entry.2 == foldCase options
    word).map Prod.fst

/-- Words that are no keywords are identifiers, or no tokens when identifiers
    are not declared. -/
def wordKind (families : Families K) (options : LexerOptions) : Callback K := fun token =>
  .ok <| ((families.keywordKind? options token.span).or families.identifier).map fun kind =>
    { token with kind := some kind }

def identifierMark : String := "in_identifier"

def identifierEdges (families : Families K) (options : LexerOptions) : List (Instruction K) :=
  match families.identifier.or (families.keywords.head?.map Prod.fst) with
  | none => []
  | some kind => fromStart
    [.move (.oneOf options.identifier.startRanges) none, .mark identifierMark, .accept kind,
     .callback (families.wordKind options),
     .moveTo (.oneOf options.identifier.restRanges) identifierMark]

def intMark : String := "in_int"

def doubleMark : String := "in_double"

def digit : CharClass := .range '0' '9'

/-- Without a kind of their own, whole numbers are doubles. -/
def numberEdges (families : Families K) (options : LexerOptions) : List (Instruction K) :=
  let whole := match families.int.or families.double with
    | none => []
    | some kind => fromStart [.move digit none, .mark intMark, .accept kind, .moveTo digit intMark]
  let fraction := match families.double with
    | none => []
    | some kind =>
      [.goto intMark, .move (.single options.decimalSeparator) none, .move digit none,
        .mark doubleMark, .accept kind, .moveTo digit doubleMark]
  whole ++ fraction

def sugarEdges (kind : K) (text : String) : List (Instruction K) :=
  fromStart (text.toList.map .follow ++ [.accept kind])

/-- Replaces the value of a literal by its unescaped text. -/
def unescaping (delimiter escape : Char) : Callback K := fun token =>
  (Literal.unescape delimiter escape token.span.toList).map fun unescaped =>
    some { token with value := String.ofList unescaped }

/-- Nothing but the value of a literal changes. -/
theorem unescaping_eq_ok_iff {delimiter escape : Char} {token : Token K}
    {changed : Option (Token K)} :
    unescaping delimiter escape token = .ok changed ↔
      ∃ text, Literal.unescape delimiter escape token.span.toList = .ok text ∧
        some { token with value := String.ofList text } = changed := by
  rw [unescaping]
  cases Literal.unescape delimiter escape token.span.toList with
  | error cause => simp [Except.map]
  | ok text => simp [Except.map]

/-- When the delimiter escapes itself, a delimiter right after the closing one
    opens the string again. -/
def stringEdges (kind : K) (delimiter escape : Char) : List (Instruction K) :=
  let inside := s!"in_string_{delimiter}"
  let close : List (Instruction K) :=
    [.goto inside, .move (.single delimiter) none, .accept kind,
      .callback (unescaping delimiter escape)]
  fromStart ([.move (.single delimiter) none, .mark inside] ++
    if escape = delimiter then
      [.moveTo (.except [delimiter]) inside] ++ close ++ [.moveTo (.single delimiter) inside]
    else
      [.moveTo (.except [delimiter, escape]) inside, .goto inside, .move (.single escape) none,
       .moveTo .any inside] ++ close)

def charEdges (kind : K) (delimiter escape : Char) : List (Instruction K) :=
  let opened := s!"char_open_{delimiter}"
  let body := s!"char_body_{delimiter}"
  fromStart
    [.move (.single delimiter) none, .mark opened, .move (.except [delimiter, escape]) none,
      .mark body, .move (.single delimiter) none, .accept kind,
        .callback (unescaping delimiter escape),
     .goto opened, .move (.single escape) none, .moveTo .any body]

/-- The edges of all families but comments and extensions. Words share a loop
    and are told apart afterwards, numbers share their digits, and sugars share
    their beginnings. -/
def edges (families : Families K) (options : LexerOptions) : List (Instruction K) :=
  families.identifierEdges options ++ families.numberEdges options ++
    families.sugars.flatMap (fun (kind, text) => sugarEdges kind text) ++
    families.strings.flatMap (fun (kind, delimiter, escape) => stringEdges kind delimiter escape) ++
    families.chars.flatMap (fun (kind, delimiter, escape) => charEdges kind delimiter escape)

end Families

/-- Hands a builder to the extensions of the caller, each time at the start node. -/
def addExtensions (builder : Builder K) : List (K × Extension K) → Builder K × List (Problem K)
  | [] => (builder, [])
  | (kind, extension) :: rest =>
    let (extended, error) := extension.extend kind (builder.gotoNode startNode)
    let (built, problems) := addExtensions extended rest
    (built, (error.map (Problem.extension kind)).toList ++ problems)

/-- The comments of a lexer by the node in which their start markers end. -/
abbrev CommentTable := List (Nat × CommentEnd)

def CommentTable.ending? (comments : CommentTable) (node : Nat) : Option CommentEnd :=
  (comments.find? fun entry => entry.1 == node).map Prod.snd

/-- Adds the start markers of comments. A marker that ends where a token ends
    already is refused. -/
def addComments (builder : Builder K) (table : CommentTable) :
    List (K × String × CommentEnd) → Builder K × CommentTable × List (Problem K)
  | [] => (builder, table, [])
  | (kind, marker, ending) :: rest =>
    let reached := (builder.gotoNode startNode).followAll marker.toList
    let node := reached.current
    if (reached.node? node).any Node.isEnd || (table.ending? node).isSome then
      let (built, table, problems) := addComments reached table rest
      (built, table, .commentTaken marker kind :: problems)
    else addComments (reached.accept kind) (table ++ [(node, ending)]) rest

/-- A lexer put together from families: their common automaton and the ends of its comments. -/
structure FamilyLexer (K : Type) where
  automaton : Automaton K
  comments : CommentTable

namespace FamilyLexer

variable [DecidableEq K] [TokenKind K]

/-- Puts a lexer together. Nothing is built when the declarations do not fit together. -/
def build (declarations : List (K × Family K)) (options : LexerOptions) :
    BuildResult (FamilyLexer K) :=
  let (families, duplicates) := Families.ofList declarations
  let early := duplicates.map (fun found =>
    .duplicateFamily found.first found.second found.family) ++ families.problems options
  if !early.isEmpty then .failed (early.map Problem.diagnostic)
  else
    let empty : Builder K := { Builder.new with blanks := options.blanks }
    let (assembled, error) := empty.applyAll (families.edges options)
    let (extended, extensionProblems) := addExtensions assembled families.extensions
    let (built, comments, commentProblems) := addComments extended [] families.comments
    let problems := (error.map Problem.assembly).toList ++ extensionProblems ++ commentProblems
    .of (some ⟨built.build, comments⟩) (problems.map Problem.diagnostic)

end FamilyLexer

end GrammarKit.Lexer
