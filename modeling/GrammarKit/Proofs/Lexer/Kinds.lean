import GrammarKit.Lexer.Declaration
import GrammarKit.Proofs.Lexer.Covering
import GrammarKit.Proofs.Lexer.EndPosition

namespace GrammarKit

/-- Whether a callback leaves every token that has a kind with one. -/
def Callback.KeepsKinds {K : Type} (change : Callback K) : Prop :=
  ∀ token changed, change token = .ok (some changed) → token.kind.isSome = true →
    changed.kind.isSome = true

namespace Lexer

open Automaton

variable {K : Type}

/-- Whether the callbacks that extensions set leave every token that has a kind with one. -/
def LeavesKinds (declarations : List (K × Family K)) (options : LexerOptions) : Prop :=
  Extend (Builder.SetsOnly Callback.KeepsKinds) declarations options

/-- Telling words apart leaves each token with a kind. -/
theorem keepsKinds_wordKind (families : Families K) (options : LexerOptions) :
    Callback.KeepsKinds (families.wordKind options) := by
  intro token changed hchange _
  obtain ⟨kind, -, rfl⟩ := Option.map_eq_some_iff.1 (Except.ok.inj hchange)
  rfl

/-- Unescaping leaves each token with a kind. -/
theorem keepsKinds_unescaping (delimiter escape : Char) :
    Callback.KeepsKinds (Families.unescaping delimiter escape : Callback K) := by
  intro token changed hchange hkind
  obtain ⟨text, -, hchanged⟩ := Families.unescaping_eq_ok_iff.1 hchange
  obtain rfl := Option.some.inj hchanged
  exact hkind

namespace FamilyLexer

variable {lexer : FamilyLexer K}

/-- The automaton accepts a text as a token of a kind, and callbacks change the
    kind but do not take it away. -/
theorem isSome_kind_of_run
    (hkeeps : ∀ node ∈ lexer.automaton.nodes, ∀ change, node.callback = some change →
      Callback.KeepsKinds change)
    {place after next : Place} {token finished : Token K} {node : Nat} {matched : List Char}
    (hrun : lexer.automaton.run place = (.success token node matched, after))
    (hfinish : finishToken lexer.comments token node matched after = (finished, next)) :
    finished.kind.isSome = true := by
  obtain ⟨skipped, hread⟩ := exists_hasRead hrun
  have htoken : token.kind.isSome = true := by
    obtain ⟨kind, rfl | ⟨node, hnode, change, hcallback, hchange⟩⟩ :=
      exists_ofSpan_of_accept hread.accept
    · rfl
    · exact hkeeps node hnode change hcallback _ token hchange rfl
  rcases finishToken_cases hfinish with ⟨-, rfl, -⟩ | ⟨ending, body, -, hcomment⟩
  · exact htoken
  · rwa [hcomment.kind]

variable [DecidableEq K] [TokenKind K] {declarations : List (K × Family K)} {options : LexerOptions}

/-- The callbacks of a lexer leave each token with a kind if those of its extensions do. -/
theorem keepsKinds_of_build (hbuild : (build declarations options).value = some lexer)
    (hleaves : LeavesKinds declarations options) :
    ∀ node ∈ lexer.automaton.nodes, ∀ change, node.callback = some change →
      Callback.KeepsKinds change :=
  forall_callback_of_build hbuild (keepsKinds_wordKind _ options) keepsKinds_unescaping hleaves

end FamilyLexer

theorem mapError_eq_ok {ε δ α : Type} {f : ε → δ} {result : Except ε α} {value : α}
    (hok : result.mapError f = .ok value) : result = .ok value := by
  cases result with
  | error error => cases hok
  | ok found => exact congrArg _ (Except.ok.inj hok)

/-- The tokens of a lexer with expressions all have a kind. -/
theorem PatternLexer.isSome_kind_of_tokensFrom {lexer : PatternLexer K} {position : Position}
    {text : List Char} {tokens : List (Token K)}
    (hok : lexer.tokensFrom position text = .ok tokens) :
    ∀ token ∈ tokens, token.kind.isSome = true := by
  obtain ⟨rounds, -, rfl⟩ := tokensFrom_eq_ok_iff.1 hok
  intro token htoken
  obtain ⟨round, -, rfl⟩ := List.mem_map.1 htoken
  rfl

variable [DecidableEq K] [TokenKind K] {declarations : List (K × Declaration K)}
    {options : LexerOptions} {lexer : Lexer K}

/-- A lexer that is built is one of families or one of expressions. -/
theorem build_cases (hbuild : (build declarations options).value = some lexer) :
    (∃ families, (FamilyLexer.build (declarations.filterMap Declaration.family?) options).value =
      some families ∧
        lexer = ⟨families.tokenize⟩) ∨
      ∃ patterns,
        (PatternLexer.build Pattern.compile? (declarations.filterMap Declaration.pattern?)).value =
          some patterns ∧
          lexer = ⟨fun source => (patterns.tokenize source).mapError .lexical⟩ := by
  unfold build at hbuild
  dsimp only at hbuild
  split at hbuild
  · cases hbuild
  · split at hbuild
    · obtain ⟨families, hfamilies, rfl⟩ := Option.map_eq_some_iff.1 hbuild
      exact Or.inl ⟨families, hfamilies, rfl⟩
    · split at hbuild
      · obtain ⟨patterns, hpatterns, rfl⟩ := Option.map_eq_some_iff.1 hbuild
        exact Or.inr ⟨patterns, hpatterns, rfl⟩
      · cases hbuild

/-- The last token that a lexer gives marks the end of the stream, and no other one does. -/
theorem exists_kinded_of_tokenize (hbuild : (build declarations options).value = some lexer)
    (hleaves : LeavesKinds (declarations.filterMap Declaration.family?) options) {source : String}
    {tokens : List (Token K)} (hok : lexer.tokenize source = .ok tokens) :
    ∃ found, tokens = withEndOfStream found ∧ ∀ token ∈ found, token.kind.isSome = true := by
  rcases build_cases hbuild with ⟨families, hfamilies, rfl⟩ | ⟨patterns, -, rfl⟩
  · obtain ⟨found, hfound, rfl⟩ := exists_of_map_eq_ok hok
    have hkeeps := FamilyLexer.keepsKinds_of_build hfamilies hleaves
    exact ⟨found, rfl, FamilyLexer.forall_mem_of_tokensFrom (FamilyLexer.isSome_kind_of_run hkeeps)
      hfound⟩
  · obtain ⟨found, hfound, rfl⟩ := exists_of_map_eq_ok (mapError_eq_ok hok)
    exact ⟨found, rfl, PatternLexer.isSome_kind_of_tokensFrom hfound⟩

end Lexer

end GrammarKit
