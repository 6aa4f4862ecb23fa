import GrammarKit.RuleText.Token
import Mathlib.Data.List.Basic
import Mathlib.Data.List.Infix
import Mathlib.Data.List.TakeWhile

namespace GrammarKit.RuleText

/-- A token as it is written. -/
abbrev Word := RuleToken × String

namespace RuleToken

/-- The text of the tokens of a kind that are all alike. -/
def text? : RuleToken → Option String
  | identifier => none
  | colon => some ":"
  | zeroOrMore => some "*"
  | oneOrMore => some "+"
  | optional => some "?"
  | discard => some "[d]"
  | openParen => some "("
  | closeParen => some ")"
  | openBracket => some "["
  | closeBracket => some "]"
  | or => some "|"

/-- Whether a word is a token of the kind: the text of the kind, or a letter
    with letters and digits behind it. -/
def Matches (kind : RuleToken) (word : List Char) : Prop :=
  match kind.text? with
  | some text => word = text.toList
  | none => ∃ first rest, word = first :: rest ∧ isLetter first = true ∧
      ∀ c ∈ rest, isLetterOrDigit c = true

/-- Whether a word is a token in front of the rest of a text, and no longer word
    is one there. -/
structure IsLongest (kind : RuleToken) (word rest : List Char) : Prop where
  isMatch : kind.Matches word
  length_le : ∀ (other : RuleToken) (longer : List Char), other.Matches longer →
    longer <+: word ++ rest →
    longer.length ≤ word.length

end RuleToken

/-- The words of a text, as the patterns of the tokens say what they are: the
    text is cut where the longest word at a place ends that any pattern has, and
    blanks and line ends are left out. -/
inductive Tokenizes : List Char → List Word → Prop
  | nil : Tokenizes [] []
  | blank {c : Char} {rest : List Char} {words : List Word} :
      isSpace c = true → Tokenizes rest words → Tokenizes (c :: rest) words
  | word {kind : RuleToken} {word rest : List Char} {words : List Word} :
      kind.IsLongest word rest → Tokenizes rest words →
        Tokenizes (word ++ rest) ((kind, String.ofList word) :: words)

/-- The words that tokens are written as; the end of the stream is none. -/
def wordsOf (tokens : List (Token RuleToken)) : List Word :=
  tokens.filterMap fun token => token.kind.map fun kind => (kind, token.value)

namespace RuleToken

variable {kind other : RuleToken} {c : Char} {word rest : List Char}

/-- No word is empty. -/
theorem Matches.exists_cons (hmatch : kind.Matches word) : ∃ first rest, word = first :: rest := by
  cases kind with
  | identifier =>
    obtain ⟨first, rest, rfl, -⟩ := hmatch
    exact ⟨first, rest, rfl⟩
  | _ => exact ⟨_, _, hmatch⟩

/-- A word with a letter in front is an identifier. -/
theorem Matches.of_isLetter (hmatch : kind.Matches (c :: word)) (hletter : isLetter c = true) :
    kind = identifier ∧ ∀ d ∈ word, isLetterOrDigit d = true := by
  cases kind with
  | identifier =>
    obtain ⟨_, _, heq, -, hrest⟩ := hmatch
    obtain ⟨-, rfl⟩ := List.cons.inj heq
    exact ⟨rfl, hrest⟩
  | _ =>
    obtain ⟨rfl, -⟩ := List.cons.inj hmatch
    exact absurd hletter (by decide)

/-- Any other word is the mark for discarding or a single character. -/
theorem Matches.of_not_isLetter (hmatch : kind.Matches (c :: word)) (hletter : isLetter c = false) :
    kind = discard ∧ c = '[' ∧ word = ['d', ']'] ∨ word = [] ∧ symbol? c = some kind := by
  cases kind with
  | identifier =>
    obtain ⟨_, _, heq, hfirst, -⟩ := hmatch
    obtain ⟨rfl, -⟩ := List.cons.inj heq
    rw [hletter] at hfirst
    cases hfirst
  | discard =>
    obtain ⟨rfl, rfl⟩ := List.cons.inj hmatch
    exact Or.inl ⟨rfl, rfl, rfl⟩
  | _ =>
    obtain ⟨rfl, rfl⟩ := List.cons.inj hmatch
    exact Or.inr ⟨rfl, rfl⟩

/-- Words do not begin with what is skipped. -/
theorem Matches.not_isSpace (hmatch : kind.Matches (c :: word)) : isSpace c = false := by
  cases kind with
  | identifier =>
    obtain ⟨_, _, heq, hfirst, -⟩ := hmatch
    obtain ⟨rfl, -⟩ := List.cons.inj heq
    refine Bool.eq_false_iff.2 fun hspace => ?_
    simp only [isSpace, Bool.or_eq_true, decide_eq_true_eq] at hspace
    rcases hspace with ((rfl | rfl) | rfl) | rfl <;> exact absurd hfirst (by decide)
  | _ =>
    obtain ⟨rfl, -⟩ := List.cons.inj hmatch
    rfl

/-- No word is a token of two kinds. -/
theorem Matches.kind_eq (hmatch : kind.Matches word) (hother : other.Matches word) :
    kind = other := by
  obtain ⟨first, rest, rfl⟩ := hmatch.exists_cons
  cases hletter : isLetter first with
  | true => rw [(hmatch.of_isLetter hletter).1, (hother.of_isLetter hletter).1]
  | false =>
    rcases hmatch.of_not_isLetter hletter with ⟨rfl, rfl, rfl⟩ | ⟨rfl, hkind⟩
    · rcases hother.of_not_isLetter hletter with ⟨rfl, -⟩ | ⟨hnil, -⟩
      · rfl
      · cases hnil
    · rcases hother.of_not_isLetter hletter with ⟨-, -, hcons⟩ | ⟨-, hsame⟩
      · cases hcons
      · exact Option.some.inj (hkind.symm.trans hsame)

/-- A character that is a token by itself is one. -/
theorem matches_of_symbol? (hsymbol : symbol? c = some kind) :
    isLetter c = false ∧ kind.Matches [c] := by
  unfold symbol? at hsymbol
  split at hsymbol
  all_goals cases hsymbol
  all_goals exact ⟨by decide, rfl⟩

/-- At a place there is one longest word. -/
theorem IsLongest.unique {otherWord otherRest : List Char} (hlongest : kind.IsLongest word rest)
    (hother : other.IsLongest otherWord otherRest) (htext : word ++ rest = otherWord ++ otherRest) :
    kind = other ∧ word = otherWord ∧ rest = otherRest := by
  have hle := hlongest.length_le _ _ hother.isMatch (htext ▸ List.prefix_append _ _)
  have hge := hother.length_le _ _ hlongest.isMatch (htext ▸ List.prefix_append _ _)
  obtain ⟨rfl, hrest⟩ := List.append_inj htext (Nat.le_antisymm hge hle)
  exact ⟨hlongest.isMatch.kind_eq hother.isMatch, rfl, hrest⟩

end RuleToken

section Scan

variable {c : Char} {rest : List Char} {kind : RuleToken} {length : Nat}

theorem length_le_takeWhile {α : Type} {holds : α → Bool} {items all : List α}
    (hbegins : items <+: all) (hitems : ∀ item ∈ items, holds item = true) :
    items.length ≤ (all.takeWhile holds).length := by
  obtain ⟨later, rfl⟩ := hbegins
  rw [List.takeWhile_append_of_pos hitems, List.length_append]
  exact Nat.le_add_right _ _

/-- What is scanned is part of the text. -/
theorem length_le_of_scan? (hscan : scan? c rest = some (kind, length)) : length ≤ rest.length := by
  unfold scan? at hscan
  split at hscan
  · obtain ⟨-, rfl⟩ := Prod.mk.inj (Option.some.inj hscan)
    exact (List.takeWhile_prefix _).length_le
  · split at hscan
    · next hmark =>
      obtain ⟨-, rfl⟩ := Prod.mk.inj (Option.some.inj hscan)
      rw [Bool.and_eq_true] at hmark
      exact (List.isPrefixOf_iff_prefix.1 hmark.2).length_le
    · obtain ⟨_, -, heq⟩ := Option.map_eq_some_iff.1 hscan
      obtain ⟨-, rfl⟩ := Prod.mk.inj heq
      exact Nat.zero_le _

/-- What is scanned is the longest word. -/
theorem isLongest_of_scan? (hscan : scan? c rest = some (kind, length)) :
    kind.IsLongest (c :: rest.take length) (rest.drop length) := by
  have hword {other : RuleToken} {longer : List Char} (hmatch : other.Matches longer)
      (hbegins : longer <+: c :: rest.take length ++ rest.drop length) :
      ∃ word, longer = c :: word ∧ word <+: rest ∧ other.Matches (c :: word) := by
    rw [List.cons_append, List.take_append_drop] at hbegins
    obtain ⟨first, word, rfl⟩ := hmatch.exists_cons
    obtain ⟨rfl, hword⟩ := List.cons_prefix_cons.1 hbegins
    exact ⟨word, rfl, hword, hmatch⟩
  have hsize := length_le_of_scan? hscan
  unfold scan? at hscan
  split at hscan
  · next hletter =>
    obtain ⟨rfl, rfl⟩ := Prod.mk.inj (Option.some.inj hscan)
    refine ⟨⟨c, _, rfl, hletter, fun d hd => ?_⟩, fun other longer hmatch hbegins => ?_⟩
    · rw [← List.prefix_iff_eq_take.1 (List.takeWhile_prefix _)] at hd
      exact List.mem_takeWhile_imp hd
    · obtain ⟨word, rfl, hinside, hword⟩ := hword hmatch hbegins
      have hle := length_le_takeWhile hinside (hword.of_isLetter hletter).2
      rw [List.length_cons, List.length_cons, List.length_take]
      omega
  · next hletter =>
    replace hletter := Bool.eq_false_iff.2 hletter
    split at hscan
    · next hmark =>
      obtain ⟨rfl, rfl⟩ := Prod.mk.inj (Option.some.inj hscan)
      simp only [Bool.and_eq_true, decide_eq_true_eq] at hmark
      obtain ⟨rfl, hmark⟩ := hmark
      obtain ⟨later, rfl⟩ := List.isPrefixOf_iff_prefix.1 hmark
      refine ⟨rfl, fun other longer hmatch hbegins => ?_⟩
      obtain ⟨word, rfl, -, hword⟩ := hword hmatch hbegins
      rcases hword.of_not_isLetter hletter with ⟨-, -, rfl⟩ | ⟨rfl, -⟩
      · exact Nat.le_refl _
      · simp
    · next hmark =>
      obtain ⟨found, hsymbol, heq⟩ := Option.map_eq_some_iff.1 hscan
      obtain ⟨rfl, rfl⟩ := Prod.mk.inj heq
      refine ⟨(RuleToken.matches_of_symbol? hsymbol).2, fun other longer hmatch hbegins => ?_⟩
      obtain ⟨word, rfl, hinside, hword⟩ := hword hmatch hbegins
      rcases hword.of_not_isLetter hletter with ⟨-, rfl, rfl⟩ | ⟨rfl, -⟩
      · exact absurd (List.isPrefixOf_iff_prefix.2 hinside) (by simpa using hmark)
      · simp

/-- The longest word is scanned. -/
theorem RuleToken.IsLongest.scan?_eq {word : List Char}
    (hlongest : kind.IsLongest (c :: word) rest) :
    scan? c (word ++ rest) = some (kind, word.length) := by
  have hsome : ∃ found, scan? c (word ++ rest) = some found := by
    unfold scan?
    cases hletter : isLetter c with
    | true => exact ⟨_, rfl⟩
    | false =>
      rcases hlongest.isMatch.of_not_isLetter hletter with ⟨-, rfl, rfl⟩ | ⟨-, hsymbol⟩
      · exact ⟨_, rfl⟩
      · rw [hsymbol]
        split
        · exact ⟨_, rfl⟩
        · split <;> exact ⟨_, rfl⟩
  obtain ⟨⟨other, length⟩, hscan⟩ := hsome
  have hsize := length_le_of_scan? hscan
  obtain ⟨rfl, hword, -⟩ := hlongest.unique (isLongest_of_scan? hscan) (by simp)
  have hlength := congrArg List.length (List.cons.inj hword).2
  rw [List.length_take, Nat.min_eq_left hsize] at hlength
  rw [hscan, hlength]

end Scan

section Texts

variable {text : List Char} {words : List Word}

/-- Tokens that are read are the words of the text. None of them is a comment,
    and none ends the stream. -/
theorem tokenizes_of_tokensFrom {position : Position} {tokens : List (Token RuleToken)}
    (htokens : tokensFrom position text = .ok tokens) :
    Tokenizes text (wordsOf tokens) ∧ ∀ token ∈ tokens, token.isComment = false ∧
    token.kind.isSome = true := by
  fun_induction tokensFrom position text generalizing tokens with
  | case1 position =>
    obtain rfl := Except.ok.inj htokens
    exact ⟨.nil, nofun⟩
  | case2 position c rest hspace ih => exact (ih htokens).imp_left (.blank hspace)
  | case3 => cases htokens
  | case4 position c rest hspace kind length hscan word =>
    rename_i ih
    cases hrest : tokensFrom (position.advanceOver word) (rest.drop length) with
    | error failure =>
      rw [hrest] at htokens
      cases htokens
    | ok later =>
      rw [hrest] at htokens
      obtain rfl := Except.ok.inj htokens
      obtain ⟨hlater, hplain⟩ := ih hrest
      refine ⟨?_, List.forall_mem_cons.2 ⟨⟨rfl, rfl⟩, hplain⟩⟩
      have htext := Tokenizes.word (isLongest_of_scan? hscan) hlater
      rwa [List.cons_append, List.take_append_drop] at htext

/-- A text that consists of words is read. -/
theorem Tokenizes.exists_tokensFrom (htext : Tokenizes text words) (position : Position) :
    ∃ tokens, tokensFrom position text = .ok tokens ∧ wordsOf tokens = words := by
  induction htext generalizing position with
  | nil => exact ⟨[], by rw [tokensFrom], rfl⟩
  | @blank c rest words hspace _ ih =>
    obtain ⟨tokens, htokens, hwords⟩ := ih (position.advance c)
    exact ⟨tokens, by rw [tokensFrom, if_pos hspace, htokens], hwords⟩
  | @word kind word rest words hlongest _ ih =>
    obtain ⟨c, tail, rfl⟩ := hlongest.isMatch.exists_cons
    obtain ⟨tokens, htokens, rfl⟩ := ih (position.advanceOver (c :: tail))
    refine ⟨.ofSpan kind (String.ofList (c :: tail)) position :: tokens, ?_, rfl⟩
    rw [List.cons_append, tokensFrom, if_neg (by simp [hlongest.isMatch.not_isSpace]),
      hlongest.scan?_eq]
    simp only [List.take_left, List.drop_left, htokens]
    rfl

end Texts

end GrammarKit.RuleText
