import GrammarKit.Proofs.RuleText.Tokens
import GrammarKit.RuleText.Syntax

namespace GrammarKit.RuleText

/-- The word of a kind whose tokens are all alike. -/
def sign (kind : RuleToken) : Word := (kind, kind.text?.getD "")

/-- The word of a name. -/
def nameWord (name : String) : Word := (.identifier, name)

@[simp] theorem fst_sign (kind : RuleToken) : (sign kind).1 = kind := rfl

@[simp] theorem fst_nameWord (name : String) : (nameWord name).1 = .identifier := rfl

/-- The kind of the token that a modifier is written as. -/
def Modifier.kind : Modifier → RuleToken
  | .optional => .optional
  | .zeroOrMore => .zeroOrMore
  | .oneOrMore => .oneOrMore

/-- The mark for discarding, if there is one. -/
def discards (discarded : Bool) : List Word := if discarded then [sign .discard] else []

/-- The words behind a name, a group or a choice. -/
def marks (modifier : Option Modifier) (discarded : Bool) : List Word :=
  (modifier.map fun modifier => sign modifier.kind).toList ++ discards discarded

/-- The words of names with bars between them. -/
def alternatives : List String → List Word
  | [] => []
  | first :: rest => nameWord first :: rest.flatMap fun name => [sign .or, nameWord name]

mutual

/-- The words of a clause. What is inside a group or a choice stands between brackets. -/
def ClauseText.words : ClauseText → List Word
  | .name text modifier discarded => nameWord text :: marks modifier discarded
  | .group clauses modifier discarded =>
    sign .openParen :: (wordsOfAll clauses ++ sign .closeParen :: marks modifier discarded)
  | .choice names modifier discarded =>
    sign .openBracket :: (alternatives names ++ sign .closeBracket :: marks modifier discarded)

def wordsOfAll : List ClauseText → List Word
  | [] => []
  | clause :: rest => clause.words ++ wordsOfAll rest

end

/-- The words of a rule: its name, a colon, and its clauses. -/
def RuleSyntax.words (rule : RuleSyntax) : List Word :=
  nameWord rule.name :: sign .colon :: wordsOfAll rule.clauses

mutual

/-- Whether groups have members and choices have names, at any depth. -/
def ClauseText.IsProper : ClauseText → Prop
  | .name .. => True
  | .group clauses _ _ => clauses ≠ [] ∧ AreProper clauses
  | .choice names _ _ => names ≠ []

def AreProper : List ClauseText → Prop
  | [] => True
  | clause :: rest => clause.IsProper ∧ AreProper rest

end

def RuleSyntax.IsProper (rule : RuleSyntax) : Prop := AreProper rule.clauses

/-- Whether a token begins a clause. -/
def RuleToken.isOpening : RuleToken → Bool
  | identifier | openParen | openBracket => true
  | _ => false

/-- Whether a token belongs to the clause in front of it. -/
def RuleToken.isMark : RuleToken → Bool
  | zeroOrMore | oneOrMore | optional | discard => true
  | _ => false

section Unique

/-- Whether no word in front belongs to the clause before it. -/
def IsUnmarked (words : List Word) : Prop := ∀ word ∈ words.head?, word.1.isMark = false

/-- Whether the words in front neither belong to the clause before them nor
    begin another one. -/
def IsOver (words : List Word) :
    Prop := ∀ word ∈ words.head?, word.1.isMark = false ∧ word.1.isOpening = false

/-- Words that are over belong to no clause in front. -/
theorem IsOver.isUnmarked {words : List Word} (hover : IsOver words) : IsUnmarked words :=
  fun word hword => (hover word hword).1

/-- A clause begins with a word that opens clauses. -/
theorem ClauseText.exists_words (clause : ClauseText) :
    ∃ word rest, clause.words = word :: rest ∧ word.1.isOpening = true := by
  cases clause <;> exact ⟨_, _, rfl, rfl⟩

/-- Clauses in front of words that are none begin with no mark. -/
theorem IsOver.isUnmarked_append {words : List Word} (hover : IsOver words)
    (clauses : List ClauseText) :
    IsUnmarked (wordsOfAll clauses ++ words) := by
  cases clauses with
  | nil => exact hover.isUnmarked
  | cons clause rest =>
    obtain ⟨word, later, hwords, hopening⟩ := clause.exists_words
    rw [wordsOfAll, hwords]
    rintro _ ⟨⟩
    cases hkind : word.1 <;> simp_all [RuleToken.isOpening, RuleToken.isMark]

/-- Words that begin no clause are not those of one. -/
theorem IsOver.ne_wordsOfAll_append {words later : List Word} (hover : IsOver words)
    (clause : ClauseText) (rest : List ClauseText) :
    words ≠ wordsOfAll (clause :: rest) ++ later := by
  rintro rfl
  obtain ⟨word, behind, hwords, hopening⟩ := clause.exists_words
  rw [wordsOfAll, hwords] at hover
  exact Bool.false_ne_true ((hover word rfl).2.symm.trans hopening)

variable {words later : List Word}

theorem Modifier.isMark_kind (modifier : Modifier) :
    modifier.kind.isMark = true := by cases modifier <;> rfl

theorem Modifier.kind_ne_discard (modifier : Modifier) :
    modifier.kind ≠ .discard := by cases modifier <;> nofun

/-- Different modifiers are written differently. -/
theorem Modifier.kind_injective {modifier other : Modifier} (hkind : modifier.kind = other.kind) :
    modifier = other := by
  cases modifier <;> cases other <;> first | rfl | cases hkind

theorem not_isUnmarked_cons {word : Word} (hmark : word.1.isMark = true) :
    ¬ IsUnmarked (word :: words) :=
  fun hwords => Bool.false_ne_true ((hwords word rfl).symm.trans hmark)

/-- Words behind which none belongs to the clause tell whether it is discarded. -/
theorem discards_append_inj {discarded hidden : Bool} (hwords : IsUnmarked words)
    (hlater : IsUnmarked later) (heq : discards discarded ++ words = discards hidden ++ later) :
    discarded = hidden ∧ words = later := by
  cases discarded <;> cases hidden
  case false.false => exact ⟨rfl, heq⟩
  case true.true => exact ⟨rfl, (List.cons.inj heq).2⟩
  case false.true =>
    obtain rfl : words = sign .discard :: later := heq
    exact absurd hwords (not_isUnmarked_cons rfl)
  case true.false =>
    obtain rfl : sign .discard :: words = later := heq
    exact absurd hlater (not_isUnmarked_cons rfl)

/-- A modifier is no mark for discarding, and is none of the words behind the clause. -/
theorem discards_append_ne {discarded : Bool} (hwords : IsUnmarked words) (modifier : Modifier) :
    discards discarded ++ words ≠ sign modifier.kind :: later := by
  intro heq
  cases discarded with
  | false =>
    obtain rfl : words = sign modifier.kind :: later := heq
    exact not_isUnmarked_cons modifier.isMark_kind hwords
  | true => exact modifier.kind_ne_discard (Prod.mk.inj (List.cons.inj heq).1).1.symm

/-- Words behind which none belongs to the clause tell apart what does. -/
theorem marks_append_inj {modifier other : Option Modifier} {discarded hidden : Bool}
    (hwords : IsUnmarked words) (hlater : IsUnmarked later)
    (heq : marks modifier discarded ++ words = marks other hidden ++ later) :
    modifier = other ∧ discarded = hidden ∧ words = later := by
  cases modifier <;> cases other
  case none.none => exact ⟨rfl, discards_append_inj hwords hlater heq⟩
  case none.some => exact absurd heq (discards_append_ne hwords _)
  case some.none => exact absurd heq.symm (discards_append_ne hlater _)
  case some.some modifier other =>
    obtain ⟨hkind, hrest⟩ := List.cons.inj heq
    exact ⟨congrArg some (Modifier.kind_injective (Prod.mk.inj hkind).1),
      discards_append_inj hwords hlater hrest⟩

/-- The names of a choice are told by the bracket behind them. -/
theorem alternatives_append_inj {names others : List String} (hnames : names ≠ [])
    (hothers : others ≠ [])
    (heq : alternatives names ++ sign .closeBracket :: words = alternatives others ++
      sign .closeBracket :: later) :
    names = others ∧ words = later := by
  have hrest : ∀ {rest others : List String},
      rest.flatMap (fun name => [sign .or, nameWord name]) ++ sign .closeBracket :: words =
        others.flatMap (fun name => [sign .or, nameWord name]) ++ sign .closeBracket :: later →
      rest = others ∧ words = later := by
    intro rest
    induction rest with
    | nil =>
      intro others heq
      cases others with
      | nil => exact ⟨rfl, (List.cons.inj heq).2⟩
      | cons other others => simp [sign] at heq
    | cons name rest ih =>
      intro others heq
      cases others with
      | nil => simp [sign] at heq
      | cons other others =>
        simp only [List.flatMap_cons, List.cons_append, List.nil_append, List.cons.injEq, true_and]
          at heq
        obtain ⟨hname, heq⟩ := heq
        obtain ⟨rfl, hwords⟩ := ih heq
        exact ⟨by rw [(Prod.mk.inj hname).2], hwords⟩
  obtain ⟨first, rest, rfl⟩ := List.exists_cons_of_ne_nil hnames
  obtain ⟨other, more, rfl⟩ := List.exists_cons_of_ne_nil hothers
  obtain ⟨hname, heq⟩ := List.cons.inj heq
  obtain ⟨rfl, hwords⟩ := hrest heq
  exact ⟨by rw [(Prod.mk.inj hname).2], hwords⟩

/-- The bracket behind a group is no clause. -/
theorem isOver_closeParen : IsOver (sign .closeParen :: words) := by
  rintro _ ⟨⟩
  exact ⟨rfl, rfl⟩

mutual

/-- A clause ends where its words do. -/
theorem ClauseText.words_append_inj :
    ∀ {clause other : ClauseText} {words later : List Word}, clause.IsProper →
    other.IsProper → IsUnmarked words → IsUnmarked later →
      clause.words ++ words = other.words ++ later →
      clause = other ∧ words = later
  | .name text modifier discarded, .name _ _ _, _, _, _, _, hwords, hlater, heq => by
    obtain ⟨hname, hmarks⟩ := List.cons.inj heq
    obtain ⟨rfl, rfl, rfl⟩ := marks_append_inj hwords hlater hmarks
    exact ⟨by rw [(Prod.mk.inj hname).2], rfl⟩
  | .group clauses modifier discarded, .group others _ _, _, _, hproper, hother, hwords,
      hlater, heq => by
    simp only [ClauseText.words, List.cons_append, List.append_assoc, List.cons.injEq, true_and]
      at heq
    obtain ⟨rfl, hclose⟩ := wordsOfAll_append_inj hproper.2 hother.2 isOver_closeParen
      isOver_closeParen heq
    obtain ⟨rfl, rfl, rfl⟩ := marks_append_inj hwords hlater (List.cons.inj hclose).2
    exact ⟨rfl, rfl⟩
  | .choice names modifier discarded, .choice others _ _, _, _, hproper, hother, hwords,
      hlater, heq => by
    simp only [ClauseText.words, List.cons_append, List.append_assoc, List.cons.injEq, true_and]
      at heq
    obtain ⟨rfl, hmarks⟩ := alternatives_append_inj hproper hother heq
    obtain ⟨rfl, rfl, rfl⟩ := marks_append_inj hwords hlater hmarks
    exact ⟨rfl, rfl⟩
  | .name .., .group .., _, _, _, _, _, _, heq | .name .., .choice .., _, _, _, _, _, _, heq
  | .group .., .name .., _, _, _, _, _, _, heq | .group .., .choice .., _, _, _, _, _, _, heq
  | .choice .., .name .., _, _, _, _, _, _, heq | .choice .., .group .., _, _, _, _, _, _, heq => by
    simp [ClauseText.words, nameWord, sign] at heq

/-- Clauses in a row end where no word begins another one. -/
theorem wordsOfAll_append_inj :
    ∀ {clauses others : List ClauseText} {words later : List Word}, AreProper clauses →
    AreProper others → IsOver words → IsOver later →
      wordsOfAll clauses ++ words = wordsOfAll others ++ later →
      clauses = others ∧ words = later
  | [], [], _, _, _, _, _, _, heq => ⟨rfl, heq⟩
  | clause :: rest, other :: others, _, _, hproper, hother, hwords, hlater, heq => by
    rw [wordsOfAll, wordsOfAll, List.append_assoc, List.append_assoc] at heq
    obtain ⟨rfl, hrest⟩ := ClauseText.words_append_inj hproper.1 hother.1
      (hwords.isUnmarked_append rest) (hlater.isUnmarked_append others) heq
    obtain ⟨rfl, rfl⟩ := wordsOfAll_append_inj hproper.2 hother.2 hwords hlater hrest
    exact ⟨rfl, rfl⟩
  | [], other :: others, _, _, _, _, hwords, _,
      heq => absurd heq (hwords.ne_wordsOfAll_append other others)
  | clause :: rest, [], _, _, _, _, _, hlater,
      heq => absurd heq.symm (hlater.ne_wordsOfAll_append clause rest)

end

end Unique

/-- No two rules are written as the same words: the next word tells whether a
    clause has a modifier or a mark, and whether there is one more clause. -/
theorem RuleSyntax.eq_of_words_eq {rule other : RuleSyntax} (hproper : rule.IsProper)
    (hother : other.IsProper) (hwords : rule.words = other.words) : rule = other := by
  obtain ⟨name, clauses⟩ := rule
  obtain ⟨_, others⟩ := other
  obtain ⟨hname, hclauses⟩ := List.cons.inj hwords
  have hover : IsOver [] := nofun
  obtain ⟨heq, -⟩ := wordsOfAll_append_inj hproper hother hover hover
    (by simpa using (List.cons.inj hclauses).2)
  exact congrArg₂ RuleSyntax.mk (Prod.mk.inj hname).2 heq

end GrammarKit.RuleText
