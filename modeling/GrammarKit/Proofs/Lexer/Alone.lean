import GrammarKit.Proofs.Lexer.Munch
import GrammarKit.Proofs.Lexer.Scan

namespace GrammarKit.Lexer

open Automaton

variable {K : Type}

/-- The table of comments finds the markers that end in a node. -/
theorem Lists.ending?_eq_some_iff {names : List Spot} {table : CommentTable}
    {markers : List (Marker K)} (hlists : Lists names table markers) (hnames : names.Nodup)
    (hspots : (markers.map Marker.spot).Nodup) {id : Nat} {spot : Spot}
    (hid : names[id]? = some spot) {ending : CommentEnd} :
    table.ending? id = some ending ↔ ∃ marker ∈ markers, marker.spot = spot ∧
    marker.ending = ending := by
  induction hlists with
  | nil => simp [CommentTable.ending?]
  | @cons entry marker table markers hentry _ ih =>
    obtain ⟨node, last⟩ := entry
    obtain ⟨hnode, rfl⟩ := hentry
    obtain ⟨hfresh, hrest⟩ := List.nodup_cons.1 hspots
    rw [CommentTable.ending?, List.find?_cons]
    by_cases hsame : node = id
    · obtain rfl : marker.spot = spot := by
        rw [hsame, hid] at hnode
        exact (Option.some.inj hnode).symm
      have hother : ∀ other ∈ markers, other.spot ≠ marker.spot :=
        fun other hother heq => hfresh (heq ▸ List.mem_map_of_mem hother)
      rw [beq_iff_eq.2 hsame]
      constructor
      · intro heq
        exact ⟨marker, List.mem_cons_self, rfl, Option.some.inj heq⟩
      · rintro ⟨found, hfound, hspot, rfl⟩
        rcases List.mem_cons.1 hfound with rfl | hfound
        · rfl
        · exact absurd hspot (hother found hfound)
    · have hspot : marker.spot ≠ spot := by
        rintro rfl
        obtain ⟨hlt, -⟩ := List.getElem?_eq_some_iff.1 hnode
        exact hsame ((List.getElem?_inj hlt hnames).1 (hnode.trans hid.symm))
      rw [beq_eq_false_iff_ne.2 hsame]
      refine (ih hrest).trans ⟨fun ⟨found, hfound, heq⟩ =>
        ⟨found, List.mem_cons_of_mem _ hfound, heq⟩, ?_⟩
      rintro ⟨found, hfound, heq⟩
      rcases List.mem_cons.1 hfound with rfl | hfound
      · exact absurd heq.1 hspot
      · exact ⟨found, hfound, heq⟩

/-- A text is visible when its first character is not ignored. -/
theorem isVisible_of_head? {options : LexerOptions} {text : String} {c : Char}
    (hhead : text.toList.head? = some c) (hc : options.blanks.ignores c = false) :
    IsVisible options text := by
  intro d hd
  rw [hhead] at hd
  cases hd
  exact hc

namespace FamilyLexer

/-- Whether a text on its own is one token of this kind: nothing else stands in the source. -/
def IsToken (lexer : FamilyLexer K) (text : String) (kind : K) (comment : Option CommentKind) :
    Prop :=
  ∃ token position, lexer.tokenize text = .ok [token, .endOfStream position] ∧
    token.kind = some kind ∧
    token.span = text ∧ token.comment = comment

/-- How a token came about: its text was read to an end node, or it is a comment
    and begins with a start marker that was read to its node. -/
inductive IsFound (options : LexerOptions) (drawing : Drawing Spot K) (markers : List (Marker K))
    (token : Token K) : Prop
  | plain {c : Char} {tail : List Char} {spot : Spot} {found : K}
      (hspan : token.span.toList = c :: tail) (hvisible : options.blanks.ignores c = false)
      (hread : drawing.read? .start (c :: tail) = some spot)
      (hkind : drawing.kind? spot = some found) (hspot : ∀ marker ∈ markers, marker.spot ≠ spot)
      (hcomment : token.comment = none)
      (hfinish : drawing.finish spot (.ofSpan found token.span token.position) = .ok (some token))
  | comment {c : Char} {tail rest : List Char} {marker : Marker K}
      (hspan : token.span.toList = c :: tail ++ rest) (hvisible : options.blanks.ignores c = false)
      (hmarker : marker ∈ markers) (hread : drawing.read? .start (c :: tail) = some marker.spot)
      (hcomment : token.comment = some marker.ending.kind)

namespace IsLaidOut

variable {declarations : List (K × Family K)} {options : LexerOptions} {lexer : FamilyLexer K}
  {drawing : Drawing Spot K} {markers : List (Marker K)} {spot : Spot}

section

variable (hlaid : IsLaidOut declarations options lexer drawing markers)

include hlaid

/-- The table of comments has the end of a comment for the node in which its
    start marker ends, and for no other. -/
theorem ending?_eq_some_iff {id : Nat} (hid : drawing.names[id]? = some spot)
    {ending : CommentEnd} :
    lexer.comments.ending? id = some ending ↔ ∃ marker ∈ markers, marker.spot = spot ∧
    marker.ending = ending := by
  obtain ⟨built, -, hshows⟩ := hlaid.shows
  exact hlaid.lists.ending?_eq_some_iff hshows.nodup hlaid.apart.nodup hid

/-- Nodes in which no start marker ends are not in the table of comments. -/
theorem ending?_eq_none {id : Nat} (hid : drawing.names[id]? = some spot)
    (hspot : ∀ marker ∈ markers, marker.spot ≠ spot) :
    lexer.comments.ending? id = none := by
  refine Option.eq_none_iff_forall_ne_some.2 fun ending hending => ?_
  obtain ⟨marker, hmarker, heq, -⟩ := (hlaid.ending?_eq_some_iff hid).1 hending
  exact hspot marker hmarker heq

/-- A scan stops after a text that leads to an end node, when nothing leads on from there. -/
theorem run_of_read? {text skipped rest : List Char} {found : K} {token : Token K}
    {position : Position} (hread : drawing.read? .start text = some spot)
    (hkind : drawing.kind? spot = some found)
    (hstop : ∀ c ∈ rest.head?, drawing.next? spot c = none)
    (hskipped : ∀ c ∈ skipped, options.blanks.ignores c = true) (hne : text ≠ [])
    (hhead : ∀ c ∈ text.head?, options.blanks.ignores c = false)
    (hfinish : drawing.finish spot (.ofSpan found (String.ofList text)
      (position.advanceOver skipped)) = .ok (some token)) :
    ∃ node, drawing.names[node]? = some spot ∧
      lexer.automaton.run ⟨position, skipped ++ (text ++ rest)⟩ =
      (.success token node text, ⟨(position.advanceOver skipped).advanceOver text, rest⟩) := by
  obtain ⟨built, hautomaton, hshows⟩ := hlaid.shows
  have hvisible : ∀ c ∈ (text ++ rest).head?, lexer.automaton.blanks.ignores c = false := by
    rw [hlaid.blanks_eq, List.head?_append_of_ne_nil _ hne]
    exact hhead
  have hstart := skipIgnored_append (hlaid.blanks_eq ▸ hskipped) hvisible position
  have hstops : ∀ other, (∃ node, lexer.automaton.StopsAt other node) ↔ other ≠ [] ∧ ∃ name,
      drawing.read? .start other = some name ∧ (drawing.kind? name).isSome = true :=
    fun other => hautomaton ▸ hshows.exists_stopsAt_iff hlaid.layout.first
  have hlongest : IsLongest (fun text => ∃ node, lexer.automaton.StopsAt text node)
      (text ++ rest) text := by
    refine ⟨(hstops text).2 ⟨hne, spot, hread, Option.isSome_of_eq_some hkind⟩, ⟨rest, rfl⟩,
      fun other hother hpre => ?_⟩
    by_contra hlonger
    obtain ⟨more, rfl⟩ := List.prefix_of_prefix_length_le ⟨rest, rfl⟩ hpre
      (Nat.le_of_not_le hlonger)
    rw [List.prefix_append_right_inj] at hpre
    obtain ⟨-, name, hname, -⟩ := (hstops _).1 hother
    cases more with
    | nil => simp at hlonger
    | cons c more =>
      obtain ⟨tail, rfl⟩ := hpre
      rw [Drawing.read?_append, hread, Option.bind_some, Drawing.read?, hstop c rfl] at hname
      cases hname
  obtain ⟨node, hnode, hrun⟩ := hlaid.exists_run_of_read? hstart hlongest hread hkind
  refine ⟨node, hnode, ?_⟩
  rw [hrun, hfinish, List.drop_left]

/-- A text that is read to an end node is one token, or one comment when it is a
    start marker. -/
theorem tokenize_of_read? {text : List Char} {found : K} {token : Token K}
    (hread : drawing.read? .start text = some spot) (hkind : drawing.kind? spot = some found)
    (hne : text ≠ []) (hhead : ∀ c ∈ text.head?, options.blanks.ignores c = false)
    (hfinish : drawing.finish spot (.ofSpan found (String.ofList text) .start) = .ok (some token)) :
    ∃ node, drawing.names[node]? = some spot ∧ ∃ position, lexer.tokenize (String.ofList text) =
      .ok [(finishToken lexer.comments token node text ⟨Position.start.advanceOver text, []⟩).1,
        .endOfStream position] := by
  obtain ⟨node, hnode, hrun⟩ := hlaid.run_of_read? hread hkind
    (fun c (hc : c ∈ [].head?) => nomatch hc) (fun c (hc : c ∈ []) => nomatch hc) hne hhead
    (show drawing.finish spot (.ofSpan found (String.ofList text)
      (Position.start.advanceOver [])) = .ok (some token) from hfinish)
  have hplace : Place.atStart (String.ofList text).toList = ⟨.start, [] ++ (text ++ [])⟩ := by
    rw [String.toList_ofList, List.append_nil]
    rfl
  rw [Position.advanceOver_nil] at hrun
  refine ⟨node, hnode, ?_⟩
  have hrest := finishToken_length_le lexer.comments token node text
    ⟨Position.start.advanceOver text, []⟩
  generalize hfinished : finishToken lexer.comments token node text
    ⟨Position.start.advanceOver text, []⟩ = result at hrest ⊢
  obtain ⟨finished, next⟩ := result
  have hnil : next.rest = [] := List.eq_nil_of_length_eq_zero (Nat.le_zero.1 hrest)
  have hok := tokensFrom_single hrun hfinished (by simp [hnil])
  refine ⟨endPosition [finished], ?_⟩
  rw [tokenize, hplace, hok]
  rfl

/-- A token that a scan comes to was found, and so is the comment that is made of it. -/
theorem isFound_of_run {place after next : Place} {scanned token : Token K} {node : Nat}
    {matched : List Char}
    (hrun : lexer.automaton.run place = (.success scanned node matched, after))
    (hfinish : finishToken lexer.comments scanned node matched after = (token, next)) :
    IsFound options drawing markers token := by
  obtain ⟨skipped, hscan⟩ := exists_hasRead hrun
  obtain ⟨built, hautomaton, hshows⟩ := hlaid.shows
  have hreach := hscan.reach
  have haccept := hscan.accept
  rw [hautomaton] at hreach haccept
  obtain ⟨spot, hread, hspot⟩ := (hshows.exists_reach?_iff hlaid.layout.first).1 hreach
  obtain ⟨kind, hkind, hmade⟩ := hshows.exists_finish_of_accept hspot haccept
  obtain ⟨_, _, rfl, -⟩ := hlaid.finish_eq hmade
  obtain ⟨c, tail, rfl, hc⟩ := hscan.head
  rw [hlaid.blanks_eq] at hc
  rw [List.reverse_reverse] at hfinish hmade
  rcases finishToken_cases hfinish with ⟨hending, rfl, -⟩ | ⟨ending, body, hending, hcomment⟩
  · refine .plain String.toList_ofList hc hread hkind (fun marker hmarker heq => ?_) rfl hmade
    have hsome := (hlaid.ending?_eq_some_iff hspot).2 ⟨marker, hmarker, heq, rfl⟩
    rw [hending] at hsome
    cases hsome
  · obtain ⟨marker, hmarker, rfl, rfl⟩ := (hlaid.ending?_eq_some_iff hspot).1 hending
    exact .comment hcomment.span hc hmarker hread hcomment.comment

/-- All tokens in front of the end of the stream were found. -/
theorem isFound_of_tokensFrom {place : Place} {tokens : List (Token K)}
    (hok : lexer.tokensFrom place = .ok tokens) :
    ∀ token ∈ tokens, IsFound options drawing markers token :=
  forall_mem_of_tokensFrom hlaid.isFound_of_run hok

/-- Each token in front of the end of the stream was found. -/
theorem exists_found_of_tokenize {source : String} {tokens : List (Token K)}
    (hok : lexer.tokenize source = .ok tokens) :
    ∃ found position, tokens = found ++ [.endOfStream position] ∧
      ∀ token ∈ found, IsFound options drawing markers token := by
  obtain ⟨found, hfound, rfl⟩ := exists_of_map_eq_ok hok
  exact ⟨found, _, rfl, hlaid.isFound_of_tokensFrom hfound⟩

/-- Each token other than the end of the stream was found. -/
theorem isFound_of_mem {source : String} {tokens : List (Token K)}
    (hok : lexer.tokenize source = .ok tokens) {token : Token K} (hmem : token ∈ tokens)
    (hspan : token.span.toList ≠ []) : IsFound options drawing markers token := by
  obtain ⟨found, position, rfl, hall⟩ := hlaid.exists_found_of_tokenize hok
  rcases List.mem_append.1 hmem with hfound | hend
  · exact hall token hfound
  · rw [List.mem_singleton.1 hend] at hspan
    exact absurd rfl hspan

/-- A token that is followed by the end of the stream alone was found. -/
theorem isFound_of_tokenize {source : String} {token last : Token K}
    (hok : lexer.tokenize source = .ok [token, last]) :
    IsFound options drawing markers token := by
  obtain ⟨found, position, htokens, hall⟩ := hlaid.exists_found_of_tokenize hok
  have happend : [token] ++ [last] = found ++ [.endOfStream position] := htokens
  obtain ⟨rfl, -⟩ := List.append_inj' happend rfl
  exact hall token (List.mem_singleton_self _)

/-- A text that is read to an end node is a token of its own. -/
theorem isToken_of_read? {text : String} {found kind : K}
    (hread : drawing.read? .start text.toList = some spot) (hkind : drawing.kind? spot = some found)
    (hne : text.toList ≠ []) (hhead : ∀ c ∈ text.toList.head?, options.blanks.ignores c = false)
    (hfinish : ∃ token, drawing.finish spot (.ofSpan found text .start) = .ok (some token) ∧
      token.kind = some kind)
    (hplain : ∀ marker ∈ markers, marker.spot ≠ spot) : IsToken lexer text kind none := by
  obtain ⟨token, hfinish, htoken⟩ := hfinish
  obtain ⟨_, value, rfl, -⟩ := hlaid.finish_eq hfinish
  rw [← String.ofList_toList (s := text)] at hfinish
  obtain ⟨node, hnode, position, hok⟩ := hlaid.tokenize_of_read? hread hkind hne hhead hfinish
  rw [finishToken, hlaid.ending?_eq_none hnode hplain, String.ofList_toList] at hok
  exact ⟨_, position, hok, htoken, rfl, rfl⟩

/-- A start marker that is read to an end node is a comment of its own. -/
theorem isToken_of_marker {marker : Marker K} (hmarker : marker ∈ markers)
    (hread : drawing.read? .start marker.text = some marker.spot) (hne : marker.text ≠ [])
    (hhead : ∀ c ∈ marker.text.head?, options.blanks.ignores c = false)
    (hplain : marker.spot.IsPlain) :
    IsToken lexer (String.ofList marker.text) marker.kind (some marker.ending.kind) := by
  have hkind := (hlaid.layout.kind _ _).2 (.marker hmarker)
  obtain ⟨node, hnode, position, hok⟩ := hlaid.tokenize_of_read? hread hkind hne hhead
    (hlaid.finish_plain hplain _)
  rw [finishToken, (hlaid.ending?_eq_some_iff hnode).2 ⟨marker, hmarker, rfl, rfl⟩] at hok
  refine ⟨_, position, hok, rfl, ?_, rfl⟩
  have hbody : marker.ending.body [] = [] := by cases marker.ending <;> rfl
  simp only [extendComment, hbody, List.append_nil]

/-- A text that makes a word is a token of the kind of this word. -/
theorem isToken_of_wordKind {text : String} {kind : K}
    (haccepts : options.identifier.accepts text.toList = true)
    (hkind : WordKind declarations options text (some kind)) (hvisible : IsVisible options text) :
    IsToken lexer text kind none := by
  have hwords : (Families.ofList declarations).1.wordPlaceholder?.isSome := by
    refine (isSome_wordPlaceholder?_iff hlaid.duplicates).2 ?_
    cases hkind with
    | keyword hdeclared =>
      exact ⟨_, _, hdeclared ▸ List.mem_append_right _ List.mem_cons_self, .keyword _⟩
    | identifier hdeclared => exact ⟨_, _, hdeclared, .identifier⟩
  obtain ⟨found, hfound⟩ := Option.isSome_iff_exists.1 hwords
  refine hlaid.isToken_of_read? (hlaid.read?_word hwords haccepts)
    ((hlaid.layout.kind _ _).2 (.word hfound)) ?_ hvisible ?_ ?_
  · intro hnil
    rw [hnil] at haccepts
    cases haccepts
  · rw [hlaid.finish_word hwords, Families.wordKind, Token.ofSpan,
      (wordKind_iff hlaid.duplicates).1 hkind]
    exact ⟨_, rfl, rfl⟩
  · intro marker hmarker heq
    have hopen := hlaid.isOpen_spot hmarker
    rw [heq] at hopen
    cases hopen

/-- A token begins with a character that is not ignored. -/
theorem isVisible_of_isToken {text : String} {kind : K} {comment : Option CommentKind}
    (htoken : IsToken lexer text kind comment) : IsVisible options text := by
  obtain ⟨token, position, hok, -, rfl, -⟩ := htoken
  cases hlaid.isFound_of_tokenize hok with
  | plain htext hvisible => exact isVisible_of_head? (by rw [htext, List.head?_cons]) hvisible
  | comment htext hvisible =>
    exact isVisible_of_head? (by rw [htext, List.cons_append, List.head?_cons]) hvisible

/-- What begins like a word and is read is a word. -/
theorem read?_of_beginsLikeWord {text : String} (hword : BeginsLikeWord declarations options text)
    {c : Char} {tail rest : List Char} (htext : text.toList = c :: tail ++ rest)
    (hread : drawing.read? .start (c :: tail) = some spot) :
    spot = .word ∧ options.identifier.accepts (c :: tail) = true := by
  obtain ⟨hwords, hstart⟩ := (beginsLikeWord_iff hlaid.duplicates htext).1 hword
  rw [hlaid.read?_of_inRanges hwords hstart] at hread
  split at hread
  · next hrest =>
    refine ⟨(Option.some.inj hread).symm, ?_⟩
    rw [IdentifierShape.accepts, hstart, Bool.true_and]
    exact hrest
  · cases hread

/-- What begins like a word and is a token is a word. -/
theorem wordKind_of_isToken {text : String} {kind : K} (htoken : IsToken lexer text kind none)
    (hword : BeginsLikeWord declarations options text) :
    options.identifier.accepts text.toList = true ∧
    WordKind declarations options text (some kind) := by
  obtain ⟨token, position, hok, hkind, rfl, hcomment⟩ := htoken
  cases hlaid.isFound_of_tokenize hok with
  | plain htext _ hread _ _ _ hfinish =>
    obtain ⟨rfl, haccepts⟩ := hlaid.read?_of_beginsLikeWord hword
      (htext.trans (List.append_nil _).symm) hread
    rw [hlaid.finish_word ((isSome_wordPlaceholder?_iff hlaid.duplicates).2 hword.1)] at hfinish
    obtain ⟨found, hfound, htoken⟩ := Option.map_eq_some_iff.1 (Except.ok.inj hfinish)
    obtain rfl : found = kind := Option.some.inj ((congrArg Token.kind htoken).trans hkind)
    exact ⟨htext ▸ haccepts, (wordKind_iff hlaid.duplicates).2 hfound⟩
  | comment _ _ _ _ hsome =>
    rw [hcomment] at hsome
    cases hsome

/-- Words are no comments. -/
theorem not_beginsLikeWord_of_isToken {text : String} {kind : K} {comment : CommentKind}
    (htoken : IsToken lexer text kind (some comment)) :
    ¬BeginsLikeWord declarations options text := by
  intro hword
  obtain ⟨token, position, hok, -, rfl, hcomment⟩ := htoken
  cases hlaid.isFound_of_tokenize hok with
  | plain _ _ _ _ _ hnone =>
    rw [hcomment] at hnone
    cases hnone
  | comment htext _ hmarker hread =>
    obtain ⟨hspot, -⟩ := hlaid.read?_of_beginsLikeWord hword htext hread
    have hopen := hlaid.isOpen_spot hmarker
    rw [hspot] at hopen
    cases hopen

/-- A sugar is a token of its own, unless what is ignored or what begins a word comes first. -/
theorem isToken_of_sugar {kind : K} {text : String} (hsugar : (kind, .sugar text) ∈ declarations)
    (hvisible : IsVisible options text) (hword : ¬BeginsLikeWord declarations options text) :
    IsToken lexer text kind none := by
  have hmem := mem_sugars_iff.2 hsugar
  obtain ⟨c, rest, htext, -⟩ := hlaid.exists_sugar_eq_cons hsugar
  refine hlaid.isToken_of_read? (hlaid.read?_sugar hsugar hword)
    ((hlaid.layout.kind _ _).2 (.sugar hmem)) (by simp [htext]) hvisible
    ⟨_, hlaid.finish_plain (.path _) _, rfl⟩ fun marker hmarker heq => ?_
  refine hlaid.apart.others marker hmarker kind ?_
  rw [heq]
  exact .sugar hmem

/-- A start marker is a comment of its own, unless what is ignored, a word or a
    literal comes first. -/
theorem isToken_of_opens {kind : K} {family : Family K} {marker : String} {ending : CommentEnd}
    (hdeclared : (kind, family) ∈ declarations) (hopens : family.Opens marker ending)
    (hvisible : IsVisible options marker) (hword : ¬BeginsLikeWord declarations options marker)
    (hliteral : ¬BeginsLikeLiteral declarations marker) :
    IsToken lexer marker kind (some ending.kind) := by
  obtain ⟨found, hfound, rfl, rfl, rfl⟩ := hlaid.exists_marker hdeclared hopens
  obtain ⟨c, rest, hcons, -⟩ := hlaid.exists_marker_eq_cons hfound
  rw [IsVisible, String.toList_ofList] at hvisible
  have hplain : found.spot.IsPlain := hlaid.spot_eq_path hfound hliteral ▸ .path _
  exact hlaid.isToken_of_marker hfound (hlaid.read?_marker hfound hliteral hword) (by simp [hcons])
    hvisible hplain

end

end IsLaidOut

variable [DecidableEq K] [TokenKind K] {declarations : List (K × Family K)} {options : LexerOptions}
  {lexer : FamilyLexer K}

/-- Which of the declared texts are tokens of their kind on their own. What is
    ignored in front of tokens comes first, then words, and then sugars and
    comment markers. -/
theorem isToken_declared (hbuild : (build declarations options).value = some lexer)
    (hextensions : ¬HasExtensions declarations) :
    (∀ before kind word after, declarations = before ++ (kind, .keyword word) :: after →
      (∀ later other, (later, Family.keyword other) ∈ after →
        Families.foldCase options other ≠ Families.foldCase options word) →
      (IsToken lexer word kind none ↔ IsVisible options word)) ∧
    (∀ kind text, (kind, .sugar text) ∈ declarations →
      (IsToken lexer text kind none ↔ IsVisible options text ∧
        (BeginsLikeWord declarations options text →
          options.identifier.accepts text.toList = true ∧
          WordKind declarations options text (some kind)))) ∧
    ∀ kind family marker ending, (kind, family) ∈ declarations → family.Opens marker ending →
      ¬BeginsLikeLiteral declarations marker →
      (IsToken lexer marker kind (some ending.kind) ↔
        IsVisible options marker ∧ ¬BeginsLikeWord declarations options marker) := by
  obtain ⟨drawing, markers, hlaid⟩ := exists_isLaidOut hbuild (extensions_eq_nil hextensions)
  refine ⟨fun before kind word after hdeclared hlast =>
    ⟨hlaid.isVisible_of_isToken, fun hvisible => ?_⟩, fun kind text hsugar =>
      ⟨fun htoken => ?_, fun ⟨hvisible, hword⟩ => ?_⟩,
      fun kind family marker ending hdeclared hopens hliteral =>
        ⟨fun htoken => ?_, fun ⟨hvisible, hword⟩ => ?_⟩⟩
  · have hmem : (kind, word) ∈ (Families.ofList declarations).1.keywords := by
      rw [mem_keywords_iff, hdeclared]
      exact List.mem_append_right _ List.mem_cons_self
    exact hlaid.isToken_of_wordKind (hlaid.sound.keywords (kind, word) hmem)
      (.keyword hdeclared rfl hlast) hvisible
  · exact ⟨hlaid.isVisible_of_isToken htoken, hlaid.wordKind_of_isToken htoken⟩
  · by_cases hbegins : BeginsLikeWord declarations options text
    · obtain ⟨haccepts, hkind⟩ := hword hbegins
      exact hlaid.isToken_of_wordKind haccepts hkind hvisible
    · exact hlaid.isToken_of_sugar hsugar hvisible hbegins
  · exact ⟨hlaid.isVisible_of_isToken htoken, hlaid.not_beginsLikeWord_of_isToken htoken⟩
  · exact hlaid.isToken_of_opens hdeclared hopens hvisible hword hliteral

end FamilyLexer

namespace Sample

/-- Names, and line feeds as tokens, although line feeds are ignored. -/
def lines : List (Kind sums × Family (Kind sums)) :=
  [(name, .identifier), (plus, .sugar "\n")]

theorem isSome_build_lines : (FamilyLexer.build lines {}).value.isSome = true := by decide

def lineLexer : FamilyLexer (Kind sums) :=
  (FamilyLexer.build lines {}).value.get isSome_build_lines

theorem build_lines_eq : (FamilyLexer.build lines {}).value = some lineLexer :=
  (Option.some_get isSome_build_lines).symm

theorem tokenize_lineFeed : lineLexer.tokenize "\n" = .ok [.endOfStream .start] := by
  have hend : lineLexer.automaton.run (.atStart "\n".toList) =
      (.endOfStream ⟨1, 1, 0⟩, ⟨⟨1, 1, 0⟩, []⟩) := rfl
  rw [FamilyLexer.tokenize, FamilyLexer.tokensFrom_endOfStream hend]
  rfl

end Sample

theorem isToken_declared_sums :
    (FamilyLexer.build Sample.declarations {}).value = some Sample.lexer ∧
      ¬HasExtensions Sample.declarations ∧
      FamilyLexer.IsToken Sample.lexer "let" Sample.letWord none ∧
      FamilyLexer.IsToken Sample.lexer "++" Sample.increment none ∧
      FamilyLexer.IsToken Sample.lexer "/*" Sample.note (some .multi) := by
  obtain ⟨hkeywords, hsugars, hmarkers⟩ :=
    FamilyLexer.isToken_declared Sample.build_eq Sample.not_hasExtensions
  have hplain : ∀ c : Char, inRanges ({} : LexerOptions).identifier.startRanges c = false →
      ∀ text : String, text.toList.head? = some c →
        ¬BeginsLikeWord Sample.declarations {} text := by
    rintro c hc text htext ⟨-, d, hd, hstart⟩
    obtain rfl : c = d := Option.some.inj (htext.symm.trans hd)
    rw [hc] at hstart
    cases hstart
  refine ⟨Sample.build_eq, Sample.not_hasExtensions, ?_, ?_, ?_⟩
  · refine (hkeywords [(Sample.name, .identifier)] Sample.letWord "let" _ rfl
      fun later other hmem => ?_).2 (isVisible_of_head? rfl rfl)
    simp at hmem
  · refine (hsugars Sample.increment "++" (by simp [Sample.declarations])).2
      ⟨isVisible_of_head? rfl rfl, fun hword => ?_⟩
    exact absurd hword (hplain '+' rfl _ rfl)
  · refine (hmarkers Sample.note _ "/*" (.marker "*/") (by simp [Sample.declarations]; rfl)
      (.multi _ _ _) ?_).2 ⟨isVisible_of_head? rfl rfl, hplain '/' rfl _ rfl⟩
    rintro ⟨kind, family, delimiter, hmem, hdelimits, -⟩
    cases hdelimits <;> simp [Sample.declarations] at hmem

/-- A sugar can be declared that is never read, since its first character is ignored. -/
theorem not_forall_isToken_declared :
    ¬∀ (declarations : List (Kind Sample.sums × Family (Kind Sample.sums))) options lexer,
      (FamilyLexer.build declarations options).value = some lexer → ¬HasExtensions declarations →
        (∀ kind word, (kind, .keyword word) ∈ declarations →
          FamilyLexer.IsToken lexer word kind none) ∧
        (∀ kind text, (kind, .sugar text) ∈ declarations →
          FamilyLexer.IsToken lexer text kind none) ∧
        ∀ kind family marker ending, (kind, family) ∈ declarations → family.Opens marker ending →
          ∃ token position, lexer.tokenize marker = .ok [token, .endOfStream position] ∧
            token.kind = some kind ∧
            token.isComment = true := by
  intro hall
  have hextensions : ¬HasExtensions Sample.lines := by
    rintro ⟨kind, extension, hmem⟩
    simp [Sample.lines] at hmem
  obtain ⟨-, hsugars, -⟩ := hall _ _ _ Sample.build_lines_eq hextensions
  obtain ⟨token, position, hok, -⟩ := hsugars Sample.plus "\n" (by simp [Sample.lines])
  rw [Sample.tokenize_lineFeed] at hok
  simp at hok

end GrammarKit.Lexer
