import GrammarKit.Proofs.Automaton.Apart
import GrammarKit.Proofs.Lexer.Assembled
import GrammarKit.Proofs.Lexer.Read
import GrammarKit.Proofs.Lexer.Scan

namespace GrammarKit

/-- The size of a text does not depend on the order of its characters. -/
theorem byteSize_reverse (text : List Char) : byteSize text.reverse = byteSize text := by
  induction text with
  | nil => rfl
  | cons c text ih =>
    rw [List.reverse_cons, byteSize_append, ih, byteSize_cons, byteSize_cons, byteSize_nil]
    omega

/-- Where a literal can be cut, the body lies between two texts that take up as
    many bytes as a delimiter. -/
theorem Literal.exists_of_body?_eq_some {delimiter : Char} {literal body : List Char}
    (hbody : body? delimiter literal = some body) :
    ∃ opening closing, literal = opening ++ body ++ closing ∧
      byteSize opening = delimiter.utf8Size ∧
      byteSize closing = delimiter.utf8Size := by
  obtain ⟨opened, hopened, hbody⟩ := Option.bind_eq_some_iff.1 hbody
  obtain ⟨closed, hclosed, hbody⟩ := Option.bind_eq_some_iff.1 hbody
  obtain rfl := Option.some.inj hbody
  obtain ⟨opening, rfl, hopening⟩ := dropBytes_eq_some_iff.1 hopened
  obtain ⟨closing, hreverse, hclosing⟩ := dropBytes_eq_some_iff.1 hclosed
  refine ⟨opening, closing.reverse, ?_, hopening, (byteSize_reverse closing).trans hclosing⟩
  rw [List.append_assoc, ← List.reverse_append, ← hreverse, List.reverse_reverse]

namespace Automaton

variable {K : Type} {automaton : Automaton K}

/-- A scan comes to no text that it cannot cut when the walk stands on no node that cannot. -/
theorem NeverMiscuts.run_ne (hnever : automaton.NeverMiscuts) {place after : Place}
    {cause : Miscut} :
    automaton.run place ≠ (.miscut cause, after) := by
  intro hrun
  obtain ⟨skipped, matched, id, later, hread⟩ := exists_hasRead_of_miscut hrun
  obtain ⟨node, kind, hnode, -, hfinish⟩ := exists_of_accept_eq_error hread.accept
  rw [List.reverse_reverse] at hfinish
  exact hnever matched id node _ cause (standsOn_iff.2 hread.reach) hnode rfl hfinish

end Automaton

namespace Lexer

open Automaton

variable {K : Type} {families : Families K} {options : LexerOptions}

/-- The nodes of a literal are entered by its delimiter at the start of a text
    and by nothing else, as long as the words that are followed begin with no
    delimiter. -/
theorem Layout.exists_form_of_read? {content : Content K} {drawing : Drawing Spot K}
    (hlayout : Layout families options content drawing)
    (hdelimiters : ∀ form ∈ content.literals, form.delimiter ∈ families.delimiters)
    (hwords : ∀ word ∈ content.words, ¬StartsIn families.delimiters word) {text : List Char}
    {delimiter : Char} {phase : Phase}
    (hread : drawing.read? .start text = some (.literal delimiter phase)) :
    ∃ form ∈ content.literals, ∃ rest, text = form.delimiter :: rest ∧ form.delimiter = delimiter ∧
      form.run .opened rest = some phase := by
  cases text with
  | nil => cases hread
  | cons c rest =>
    have hopening := hread
    rw [Drawing.read?, hlayout.next?_start] at hopening
    split at hopening
    · next hbegins =>
      rw [Option.bind_some, hlayout.read?_word hbegins.1] at hopening
      split at hopening <;> cases hopening
    · split at hopening
      · rcases hlayout.read?_whole_cases hopening with ⟨heq, -⟩ | heq | ⟨heq, -⟩ <;> cases heq
      · next hbegins hdigit =>
        obtain ⟨target, hfollow, hrest⟩ := Option.bind_eq_some_iff.1 hopening
        by_cases hc : c ∈ content.literals.map LiteralForm.delimiter
        · obtain ⟨form, hform, rfl⟩ := List.mem_map.1 hc
          obtain rfl := Option.some.inj (hfollow.symm.trans (hlayout.opened form hform))
          have hheads : ∀ word ∈ content.words,
              word.head? ≠ some form.delimiter := fun word hword hhead =>
            hwords word hword ⟨form.delimiter, hhead, hdelimiters form hform⟩
          rw [hlayout.read?_literal hform hheads] at hrest
          obtain ⟨found, hrun, heq⟩ := Option.map_eq_some_iff.1 hrest
          obtain ⟨rfl, rfl⟩ := Spot.literal.inj heq
          exact ⟨form, hform, rest, rfl, rfl, hrun⟩
        · -- Without a delimiter in front the text runs along a word, and its nodes are no
          -- nodes of literals.
          obtain ⟨word, hword, hhead⟩ :=
            (hlayout.heads c target (Drawing.mem_of_follow? hfollow)).resolve_left hc
          have hclean : c ∉ families.delimiters := fun hmem => hwords word hword ⟨c, hhead, hmem⟩
          have hnext : drawing.next? .start c = drawing.follow? .start c := by
            rw [hlayout.next?_start, if_neg hbegins, if_neg hdigit]
          rw [hlayout.read?_start hclean hnext] at hread
          cases hlayout.branches.eq_path_of_trace? (startsIn_cons.not.2 hclean) hread

namespace Families

/-- A callback of literals that comes to an end has cut its literal, or found it too short. -/
theorem isSome_body? {delimiter escape : Char} {token : Token K}
    (hlong : 2 * delimiter.utf8Size ≤ byteSize token.span.toList)
    (hfinish : ∀ cause, unescaping delimiter escape token ≠ .error cause) :
    (Literal.body? delimiter token.span.toList).isSome = true := by
  refine Option.isSome_iff_ne_none.2 fun hnone => hfinish ⟨String.ofList token.span.toList⟩ ?_
  rw [unescaping, Literal.unescape, if_neg (Nat.not_lt_of_le hlong), hnone]
  rfl

/-- The callbacks of literals are handed whole literals, between whose
    delimiters they cut, and those of words cut nothing. -/
theorem IsSound.neverMiscuts (hsound : families.IsSound options) :
    (families.assembled options).build.NeverMiscuts := by
  obtain ⟨assembled, drawing, hassembled, hshows, hlayout⟩ := Layout.exists_assembled hsound
  have hwords :
      ∀ word ∈ Content.words ({ sugars := families.sugars, literals := families.literals } :
        Content K), ¬StartsIn families.delimiters word := by
    intro word hword
    rw [Content.words, List.map_nil, List.append_nil] at hword
    obtain ⟨entry, hentry, rfl⟩ := List.mem_map.1 hword
    exact hsound.not_startsIn entry hentry
  rw [Families.assembled, hassembled]
  intro text id node token cause hstands hnode hspan hfinish
  obtain ⟨spot, hread, hid⟩ := (hshows.exists_reach?_iff hlayout.first).1 (standsOn_iff.1 hstands)
  obtain ⟨found, hfound, -, -, hcallback⟩ := hshows.nodes id spot hid
  obtain rfl : found = node := Option.some.inj (hfound.symm.trans hnode)
  cases hchange : drawing.callback? spot with
  | none =>
    exact Node.neverMiscuts_of_callback_eq_none (hcallback.trans hchange) token cause hfinish
  | some change =>
    rw [Node.finish, hcallback.trans hchange] at hfinish
    cases (hlayout.callback spot change).1 hchange with
    | word => cases hfinish
    | @literal form hform =>
      obtain ⟨opened, -, rest, rfl, hdelimiter, hrun⟩ :=
        hlayout.exists_form_of_read? (fun form hform => List.mem_map_of_mem hform) hwords hread
      obtain ⟨body, -, rfl⟩ := LiteralForm.run_eq_closed_iff.1 hrun
      have hquoted : token.span.toList = form.delimiter :: body ++ [form.delimiter] := by
        rw [hspan, String.toList_ofList, hdelimiter, List.cons_append]
      cases (unescaping_quoted form.escape hquoted).symm.trans hfinish

end Families

/-- Without extensions there is nothing that they could do. -/
theorem extend_of_not_hasExtensions {R : Builder K → Builder K → Prop}
    {declarations : List (K × Family K)} (hnone : ¬HasExtensions declarations) :
    Extend R declarations options := by
  rw [Extend, extensions_eq_nil hnone]
  trivial

/-- Whether extensions keep apart from the nodes of literals, or replace all
    that was built by nodes that make something of every token. -/
def LeavesLiterals (declarations : List (K × Family K)) (options : LexerOptions) : Prop :=
  Extend (fun handed extended => handed.build.KeepsApart extended.build ∨
    extended.build.IsTame startNode) declarations options

namespace FamilyLexer

variable [DecidableEq K] [TokenKind K] {declarations : List (K × Family K)} {lexer : FamilyLexer K}

/-- The callbacks of a lexer cut no text where it cannot be cut, if its
    extensions leave literals alone. -/
theorem neverMiscuts_of_build (hbuild : (build declarations options).value = some lexer)
    (hleaves : LeavesLiterals declarations options) : lexer.automaton.NeverMiscuts := by
  have hstems : Extend (fun handed extended => handed.IsWellFormed → extended.IsWellFormed)
      declarations options :=
    .isWellFormed _ _
  have hextensions : Extend (fun handed extended =>
      handed.IsWellFormed ∧ handed.build.NeverMiscuts → extended.IsWellFormed ∧
        extended.build.NeverMiscuts)
      declarations options := by
    refine (hleaves.and hstems).imp fun handed extended ⟨hkept, hwell⟩ ⟨hhanded, hnever⟩ =>
      ⟨hwell hhanded, ?_⟩
    rcases hkept with hapart | htame
    · exact hapart.neverMiscuts hhanded.length_eq hnever
    · exact htame.neverMiscuts
  obtain ⟨built, hautomaton, -, hnever⟩ := exists_upheld_of_assembled hbuild
    (fun id => Builder.upholds_neverMiscuts fun builder _ _ happly =>
      Except.ok.inj happly ▸ builder.keepsApart_gotoNode id)
    (fun c => Builder.upholds_neverMiscuts fun builder _ hwell happly =>
      Except.ok.inj happly ▸ hwell.keepsApart_follow c)
    (fun kind => Builder.upholds_neverMiscuts fun builder _ _ happly =>
      Except.ok.inj happly ▸ builder.keepsApart_accept kind)
    hextensions ⟨Families.isWellFormed_assembled _ options,
      (exists_steps_of_build hbuild).2.1.neverMiscuts⟩
  rw [hautomaton]
  exact hnever

omit [DecidableEq K] [TokenKind K] in
/-- A lexer whose callbacks cut no text where it cannot be cut finds tokens or
    fails as a lexer does. -/
theorem tokenize_ne_miscut (hnever : lexer.automaton.NeverMiscuts) (source : String)
    (cause : Miscut) :
    lexer.tokenize source ≠ .error (.miscut cause) := by
  suffices hplace : ∀ place, lexer.tokensFrom place ≠ .error (.miscut cause) by
    intro hsource
    rw [tokenize] at hsource
    generalize htokens : lexer.tokensFrom (.atStart source.toList) = tokens at hsource
    cases tokens with
    | error error =>
      obtain rfl := Except.error.inj hsource
      exact hplace _ htokens
    | ok tokens => cases hsource
  intro place
  induction place using scan_induction lexer with
  | hstop place position after hrun =>
    rw [tokensFrom_endOfStream hrun]
    nofun
  | hfail place character position after hrun =>
    rw [tokensFrom_failure hrun]
    nofun
  | hmiscut place cause after hrun => exact absurd hrun hnever.run_ne
  | hscan place token node matched after finished later hrun hfinish ih =>
    rw [tokensFrom_success hrun hfinish]
    cases htokens : lexer.tokensFrom later with
    | error error =>
      rintro ⟨⟩
      exact ih htokens
    | ok tokens => nofun

end FamilyLexer

end Lexer

end GrammarKit
