import GrammarKit.Proofs.RuleText.Acceptance

namespace GrammarKit

/-- The mark for discarding is shown behind a clause. -/
theorem Clause.describe_discard {K : Type} [DecidableEq K] [TokenKind K] {clause : Clause K}
    (hshown : clause.isDiscarded = false) : clause.discard.describe = clause.describe ++ "[d]" := by
  cases clause
  all_goals
    obtain rfl := hshown
    rfl

namespace RuleText

section Characters

/-- The characters of some words without anything between them. -/
def charsOf (words : List Word) : List Char := words.flatMap fun word => word.2.toList

/-- The characters that names are shown with in a choice. -/
def charsOfNames : List String → List Char
  | [] => []
  | first :: rest => first.toList ++ rest.flatMap fun name => ' ' :: '|' :: ' ' :: name.toList

mutual

/-- The characters that a clause is shown with. -/
def ClauseText.chars : ClauseText → List Char
  | .name text modifier discarded => text.toList ++ charsOf (marks modifier discarded)
  | .group clauses modifier discarded =>
    '(' :: (charsOfAll clauses ++ ' ' :: ')' :: charsOf (marks modifier discarded))
  | .choice names modifier discarded =>
    '[' :: ' ' :: (charsOfNames names ++ ' ' :: ']' :: charsOf (marks modifier discarded))

/-- The characters that clauses in a row are shown with, each behind a blank. -/
def charsOfAll : List ClauseText → List Char
  | [] => []
  | clause :: rest => ' ' :: (clause.chars ++ charsOfAll rest)

end

/-- Alternatives are shown with bars between them. -/
theorem toList_intercalate_bar (names : List String) :
    (" | ".intercalate names).toList = charsOfNames names := by
  cases names with
  | nil => rfl
  | cons first rest =>
    induction rest generalizing first with
    | nil => simp [charsOfNames]
    | cons second rest ih =>
      rw [String.intercalate_cons_cons, String.toList_append, String.toList_append, ih]
      simp [charsOfNames]

variable {K : Type} [DecidableEq K] [TokenKind K]

/-- A modifier and a mark are shown right behind the clause. -/
theorem describe_finish {clause : Clause K} (hshown : clause.isDiscarded = false)
    (modifier : Option Modifier) (discarded : Bool) :
    (finish modifier discarded clause).describe.toList = clause.describe.toList ++ charsOf
      (marks modifier discarded) := by
  have hdiscard {repeated : Clause K} (hrepeated : repeated.isDiscarded = false) :
      (if discarded then repeated.discard else repeated).describe.toList =
        repeated.describe.toList ++ charsOf (discards discarded) := by
    cases discarded with
    | false => simp [discards, charsOf]
    | true => simp [Clause.describe_discard hrepeated, discards, charsOf, sign, RuleToken.text?]
  cases modifier with
  | none => exact hdiscard hshown
  | some modifier =>
    have hmarks : charsOf (marks (some modifier) discarded) =
        (sign modifier.kind).2.toList ++ charsOf (discards discarded) := by simp [charsOf, marks]
    rw [hmarks, ← List.append_assoc, ← String.toList_append]
    cases modifier <;> exact hdiscard rfl

theorem describe_namedClause (name : String) : (namedClause name : Clause K).describe = name := by
  unfold namedClause
  split
  · next kind hkind => exact TokenKind.name_of_ofName? hkind
  · rfl

mutual

/-- Whether a name is a kind or a non-terminal does not show. -/
theorem describe_toClause :
    ∀ clause : ClauseText, (clause.toClause : Clause K).describe.toList = clause.chars
  | .name text modifier discarded => by
    have hshown : (namedClause text : Clause K).isDiscarded = false := by
      unfold namedClause
      split <;> rfl
    rw [ClauseText.toClause, describe_finish hshown, describe_namedClause, ClauseText.chars]
  | .group clauses modifier discarded => by
    have hgroup : (Clause.group (toClauses clauses) false : Clause K).describe.toList =
        '(' :: (charsOfAll clauses ++ [' ', ')']) := by
      show ("(" ++ String.join ((Clause.describeEach (toClauses clauses)).map (" " ++ ·)) ++
        " )").toList = _
      rw [String.toList_append, String.toList_append, toList_join_describeEach clauses]
      rfl
    rw [ClauseText.toClause, describe_finish rfl, hgroup, ClauseText.chars]
    simp
  | .choice names modifier discarded => by
    have hnames : Clause.describeEach (names.map (namedClause (K := K))) = names := by
      induction names with
      | nil => rfl
      | cons name rest ih => rw [List.map_cons, Clause.describeEach, describe_namedClause, ih]
    have hchoice : (Clause.choice (names.map namedClause) false : Clause K).describe.toList =
        '[' :: ' ' :: (charsOfNames names ++ [' ', ']']) := by
      show ("[ " ++ " | ".intercalate (Clause.describeEach (names.map (namedClause (K := K)))) ++
        " ]").toList = _
      rw [hnames, String.toList_append, String.toList_append, toList_intercalate_bar]
      rfl
    rw [ClauseText.toClause, describe_finish rfl, hchoice, ClauseText.chars]
    simp

theorem toList_join_describeEach : ∀ clauses : List ClauseText,
    (String.join ((Clause.describeEach (toClauses (K := K) clauses)).map (" " ++ ·))).toList =
      charsOfAll clauses
  | [] => rfl
  | clause :: rest => by
    have hrest := toList_join_describeEach rest
    rw [String.toList_join] at hrest ⊢
    rw [toClauses, Clause.describeEach, List.map_cons, List.flatMap_cons, hrest,
      String.toList_append, describe_toClause clause]
    rfl

end

/-- A rule is shown by its name, a colon and its clauses. -/
theorem toList_describe {R : Type} {rule : Rule K R} {clauses : List ClauseText}
    (hclauses : rule.clauses = toClauses clauses) (name : String) :
    (rule.describe name).toList = name.toList ++ ' ' :: ':' :: charsOfAll clauses := by
  have heach (clauses : List (Clause K)) :
      clauses.map (fun clause => " " ++ clause.describe) = (Clause.describeEach clauses).map
      (" " ++ ·) := by
    induction clauses with
    | nil => rfl
    | cons clause rest ih => rw [List.map_cons, ih, Clause.describeEach, List.map_cons]
  rw [Rule.describe, hclauses, heach, String.toList_append, String.toList_append,
    toList_join_describeEach]
  simp

end Characters

section Longest

variable {rest : List Char} {words : List Word}

/-- Whether no identifier goes on into a text. -/
def Separates (rest : List Char) : Prop := ∀ c ∈ rest.head?, isLetterOrDigit c = false

/-- No identifier goes on into a text that begins with another character. -/
theorem separates_cons {c : Char} (hc : isLetterOrDigit c = false) : Separates (c :: rest) := by
  rintro _ ⟨⟩
  exact hc

/-- A token of a single character is the longest one, unless it is a bracket
    that begins a mark. -/
theorem RuleToken.isLongest_single {kind : RuleToken} {c : Char} (hsymbol : symbol? c = some kind)
    (hrest : c = '[' → ∀ d ∈ rest.head?, d ≠ 'd') : kind.IsLongest [c] rest := by
  obtain ⟨hletter, hmatch⟩ := matches_of_symbol? hsymbol
  refine ⟨hmatch, fun other longer hlonger hbegins => ?_⟩
  obtain ⟨first, word, rfl⟩ := hlonger.exists_cons
  obtain ⟨rfl, hinside⟩ := List.cons_prefix_cons.1 hbegins
  rcases hlonger.of_not_isLetter hletter with ⟨-, rfl, rfl⟩ | ⟨rfl, -⟩
  · obtain ⟨later, rfl⟩ := hinside
    exact absurd rfl (hrest rfl 'd' rfl)
  · exact Nat.le_refl _

/-- The mark for discarding is the longest token at its place. -/
theorem RuleToken.isLongest_discard (rest : List Char) :
    discard.IsLongest ['[', 'd', ']'] rest := by
  refine ⟨rfl, fun other longer hlonger hbegins => ?_⟩
  obtain ⟨first, word, rfl⟩ := hlonger.exists_cons
  obtain ⟨rfl, -⟩ := List.cons_prefix_cons.1 hbegins
  rcases hlonger.of_not_isLetter (by decide) with ⟨-, -, rfl⟩ | ⟨rfl, -⟩
  · exact Nat.le_refl _
  · simp

/-- An identifier is the longest one in front of a text into which it does not go on. -/
theorem RuleToken.isLongest_identifier {word : List Char} (hmatch : identifier.Matches word)
    (hrest : Separates rest) :
    identifier.IsLongest word rest := by
  refine ⟨hmatch, fun other longer hlonger hbegins => Nat.le_of_not_lt fun hlt => ?_⟩
  obtain ⟨more, rfl⟩ := List.prefix_of_prefix_length_le (List.prefix_append word rest)
    hbegins hlt.le
  obtain ⟨c, tail, rfl, hletter, -⟩ := hmatch
  obtain ⟨d, later, rfl⟩ := List.exists_cons_of_ne_nil
    (fun hnil : more = [] => by simp [hnil] at hlt)
  obtain ⟨last, rfl⟩ := (List.prefix_append_right_inj _).1 hbegins
  have hdigit := (hlonger.of_isLetter hletter).2 d (by simp)
  rw [hrest d rfl] at hdigit
  cases hdigit

/-- A single character is a word of its own. -/
theorem Tokenizes.sign {kind : RuleToken} {c : Char} (hsymbol : symbol? c = some kind)
    (hrest : c = '[' → ∀ d ∈ rest.head?, d ≠ 'd') (hwords : Tokenizes rest words) :
    Tokenizes (c :: rest) (RuleText.sign kind :: words) := by
  have hword : (kind, String.ofList [c]) = RuleText.sign kind := by
    unfold symbol? at hsymbol
    split at hsymbol
    all_goals cases hsymbol
    all_goals rfl
  exact hword ▸ .word (RuleToken.isLongest_single hsymbol hrest) hwords

/-- The blank behind a bracket keeps a first name `d` from being taken for a part of a mark. -/
theorem Tokenizes.openBracket (hwords : Tokenizes rest words) :
    Tokenizes ('[' :: ' ' :: rest) (RuleText.sign .openBracket :: words) := by
  refine .sign rfl ?_ (.blank rfl hwords)
  rintro - _ ⟨⟩
  decide

/-- An identifier is a word of its own in front of a text into which it does not go on. -/
theorem Tokenizes.name {name : String} (hmatch : RuleToken.identifier.Matches name.toList)
    (hrest : Separates rest) (hwords : Tokenizes rest words) :
    Tokenizes (name.toList ++ rest) (nameWord name :: words) := by
  have hword := Tokenizes.word (RuleToken.isLongest_identifier hmatch hrest) hwords
  rwa [String.ofList_toList] at hword

end Longest

section Shown

variable {rest : List Char} {words : List Word}

/-- Whether every word is a token of its kind. -/
def AreTokens (words : List Word) : Prop := ∀ word ∈ words, word.1.Matches word.2.toList

/-- Every word of a text is a token of its kind. -/
theorem Tokenizes.areTokens {chars : List Char} (htext : Tokenizes chars words) :
    AreTokens words := by
  induction htext with
  | nil => exact nofun
  | blank _ _ ih => exact ih
  | word hlongest _ ih => exact List.forall_mem_cons.2 ⟨by simpa using hlongest.isMatch, ih⟩

theorem areTokens_append {first later : List Word} :
    AreTokens (first ++ later) ↔ AreTokens first ∧ AreTokens later :=
  List.forall_mem_append

/-- The mark for discarding is shown as its word. -/
theorem tokenizes_discards (discarded : Bool) (hwords : Tokenizes rest words) :
    Tokenizes (charsOf (discards discarded) ++ rest) (discards discarded ++ words) := by
  cases discarded with
  | false => exact hwords
  | true => exact .word (RuleToken.isLongest_discard rest) hwords

/-- The marks behind a clause are shown as their words. -/
theorem tokenizes_marks (modifier : Option Modifier) (discarded : Bool)
    (hwords : Tokenizes rest words) :
    Tokenizes (charsOf (marks modifier discarded) ++ rest) (marks modifier discarded ++ words) := by
  have hdiscards := tokenizes_discards discarded hwords
  cases modifier with
  | none => exact hdiscards
  | some modifier =>
    cases modifier
    all_goals exact .sign rfl nofun hdiscards

/-- Marks keep an identifier from going on. -/
theorem separates_marks (modifier : Option Modifier) (discarded : Bool) (hrest : Separates rest) :
    Separates (charsOf (marks modifier discarded) ++ rest) := by
  cases modifier with
  | none =>
    cases discarded with
    | false => exact hrest
    | true => exact separates_cons rfl
  | some modifier =>
    cases modifier
    all_goals exact separates_cons rfl

/-- A clause is separated from the one in front of it. -/
theorem separates_charsOfAll (clauses : List ClauseText) (hrest : Separates rest) :
    Separates (charsOfAll clauses ++ rest) := by
  cases clauses with
  | nil => exact hrest
  | cons => exact separates_cons rfl

/-- Alternatives are shown as their words. -/
theorem tokenizes_alternatives {names : List String}
    (hnames : AreTokens (names.flatMap fun name => [sign .or, nameWord name]))
    (hrest : Separates rest) (hwords : Tokenizes rest words) :
    Separates ((names.flatMap fun name => ' ' :: '|' :: ' ' :: name.toList) ++ rest) ∧
      Tokenizes ((names.flatMap fun name => ' ' :: '|' :: ' ' :: name.toList) ++ rest)
        ((names.flatMap fun name => [sign .or, nameWord name]) ++ words) := by
  induction names with
  | nil => exact ⟨hrest, hwords⟩
  | cons name names ih =>
    obtain ⟨hfirst, hlater⟩ := areTokens_append.1 hnames
    obtain ⟨hseparates, hbehind⟩ := ih hlater
    have hmatch : RuleToken.identifier.Matches name.toList := hfirst (nameWord name) (by simp)
    have hname : Tokenizes (' ' :: '|' :: ' ' :: (name.toList ++ _))
        (sign .or :: nameWord name :: _) :=
      .blank rfl (.sign rfl nofun (.blank rfl (hbehind.name hmatch hseparates)))
    exact ⟨separates_cons rfl, by simpa using hname⟩

/-- The names of a choice are shown as their words. -/
theorem tokenizes_charsOfNames {names : List String} (hne : names ≠ [])
    (hnames : AreTokens (alternatives names)) (hrest : Separates rest)
    (hwords : Tokenizes rest words) :
    Tokenizes (charsOfNames names ++ rest) (alternatives names ++ words) := by
  obtain ⟨first, later, rfl⟩ := List.exists_cons_of_ne_nil hne
  obtain ⟨hfirst, hlater⟩ := List.forall_mem_cons.1 hnames
  obtain ⟨hseparates, hbehind⟩ := tokenizes_alternatives hlater hrest hwords
  have hmatch : RuleToken.identifier.Matches first.toList := hfirst
  simpa [charsOfNames, alternatives] using hbehind.name hmatch hseparates

mutual

/-- A clause is shown as its words, whatever stands behind it. -/
theorem ClauseText.tokenizes_chars :
    ∀ {clause : ClauseText} {rest : List Char} {words : List Word}, clause.IsProper →
    AreTokens clause.words → Separates rest → Tokenizes rest words →
      Tokenizes (clause.chars ++ rest) (clause.words ++ words)
  | .name text modifier discarded, rest, words, _, htokens, hrest, hwords => by
    have hmarks := tokenizes_marks modifier discarded hwords
    have hmatch : RuleToken.identifier.Matches text.toList := htokens _ List.mem_cons_self
    simpa [ClauseText.chars, ClauseText.words]
      using hmarks.name hmatch (separates_marks modifier discarded hrest)
  | .group clauses modifier discarded, rest, words, hproper, htokens, _, hwords => by
    have hmembers := (areTokens_append.1 (List.forall_mem_cons.1 htokens).2).1
    have hclosing : Tokenizes (' ' :: ')' :: (charsOf (marks modifier discarded) ++ rest))
        (sign .closeParen :: (marks modifier discarded ++ words)) :=
      .blank rfl (.sign rfl nofun (tokenizes_marks modifier discarded hwords))
    have hinside := tokenizes_charsOfAll hproper.2 hmembers (separates_cons rfl) hclosing
    have hopening : symbol? '(' = some .openParen := rfl
    simpa [ClauseText.chars, ClauseText.words] using hinside.sign hopening nofun
  | .choice names modifier discarded, rest, words, hproper, htokens, _, hwords => by
    have hnames := (areTokens_append.1 (List.forall_mem_cons.1 htokens).2).1
    have hclosing : Tokenizes (' ' :: ']' :: (charsOf (marks modifier discarded) ++ rest))
        (sign .closeBracket :: (marks modifier discarded ++ words)) :=
      .blank rfl (.sign rfl nofun (tokenizes_marks modifier discarded hwords))
    have hinside := tokenizes_charsOfNames hproper hnames (separates_cons rfl) hclosing
    simpa [ClauseText.chars, ClauseText.words] using hinside.openBracket

theorem tokenizes_charsOfAll :
    ∀ {clauses : List ClauseText} {rest : List Char} {words : List Word}, AreProper clauses →
    AreTokens (wordsOfAll clauses) → Separates rest → Tokenizes rest words →
      Tokenizes (charsOfAll clauses ++ rest) (wordsOfAll clauses ++ words)
  | [], _, _, _, _, _, hwords => hwords
  | clause :: later, rest, words, hproper, htokens, hrest, hwords => by
    obtain ⟨hclause, hlater⟩ := areTokens_append.1 htokens
    have hbehind := tokenizes_charsOfAll hproper.2 hlater hrest hwords
    have hchars := ClauseText.tokenizes_chars hproper.1 hclause
      (separates_charsOfAll later hrest) hbehind
    simpa [charsOfAll, wordsOfAll] using Tokenizes.blank rfl hchars

end

/-- A rule is shown as its words. -/
theorem RuleSyntax.tokenizes_chars {rule : RuleSyntax} (hproper : rule.IsProper)
    (htokens : AreTokens rule.words) :
    Tokenizes (rule.name.toList ++ ' ' :: ':' :: charsOfAll rule.clauses) rule.words := by
  obtain ⟨hname, hbehind⟩ := List.forall_mem_cons.1 htokens
  obtain ⟨-, hclauses⟩ := List.forall_mem_cons.1 hbehind
  have hseparates : Separates [] := nofun
  have hall := tokenizes_charsOfAll hproper hclauses hseparates .nil
  rw [List.append_nil, List.append_nil] at hall
  have hcolon : Tokenizes (' ' :: ':' :: charsOfAll rule.clauses)
      (sign .colon :: wordsOfAll rule.clauses) :=
    .blank rfl (.sign rfl nofun hall)
  exact hcolon.name hname (separates_cons rfl)

end Shown

/-- What is read is what the words stand for. -/
theorem read_ebnf_eq_ok_iff {K : Type} [DecidableEq K] [TokenKind K] {text name : String}
    {clauses : List (Clause K)} :
    read text .ebnf = .ok (name, clauses) ↔
      ∃ written, readSyntax text = .ok written ∧ written.name = name ∧
        toClauses written.clauses = clauses := by
  rw [read]
  cases readSyntax text <;> simp

/-- The text that shows a rule which was read is read as the same rule: with the
    same name, and with clauses of the same structure, with the same kinds and
    non-terminals, modifiers and marks. -/
theorem read_describe {K R : Type} [DecidableEq K] [TokenKind K] {text name : String}
    {clauses : List (Clause K)} (hread : read text .ebnf = .ok (name, clauses)) {rule : Rule K R}
    (hclauses : rule.clauses = clauses) :
    read (rule.describe name) .ebnf = .ok (name, clauses) := by
  obtain ⟨written, hwritten, rfl, rfl⟩ := read_ebnf_eq_ok_iff.1 hread
  obtain ⟨hproper, htext⟩ := readSyntax_eq_ok_iff_tokenizes.1 hwritten
  refine read_ebnf_eq_ok_iff.2 ⟨written, readSyntax_eq_ok_iff_tokenizes.2 ⟨hproper, ?_⟩, rfl, rfl⟩
  rw [toList_describe hclauses]
  exact written.tokenizes_chars hproper htext.areTokens

namespace Sample

open Matching.Sample

/-- Words and names `d` with marks, in a choice and in a group. -/
def line : Rule (Kind signs) Unit where
  clauses :=
    [.oneOrMore (.group [.terminal blank true,
      .option (.choice [.ofName "d", .ofKind word] false) true] false) false,
      .nonTerminal "d" .rule true]

theorem readDirectly?_line :
    readDirectly? "line:(BLANK[d] [ d|WORD]?[d])+ d[d]" = some ("line", line.clauses) := by
  decide +kernel

end Sample

theorem read_describe_line :
    read "line:(BLANK[d] [ d|WORD]?[d])+ d[d]" .ebnf = .ok ("line", Sample.line.clauses) ∧
      read (Sample.line.describe "line") .ebnf = .ok ("line", Sample.line.clauses) :=
  ⟨read_eq_ok Sample.readDirectly?_line, read_describe (read_eq_ok Sample.readDirectly?_line) rfl⟩

end RuleText

end GrammarKit
