import GrammarKit.Proofs.Grammar.Acyclic
import GrammarKit.Proofs.Grammar.Rewriting

namespace GrammarKit.Grammar

variable {K R : Type} [DecidableEq K] [TokenKind K] {grammar : Grammar K R}

section Nullable

mutual

/-- A clause that counts as nullable yields nothing if that holds of the names that count so. -/
theorem yields_of_isNullable {nullable : String → Bool}
    (hnullable : ∀ name, nullable name = true → grammar.Yields [.ofName name] []) :
    ∀ clause : Clause K, clause.isNullable nullable = true → grammar.Yields [clause] []
  | .terminal .., hclause => by simp [Clause.isNullable] at hclause
  | .nonTerminal name _ _, hclause => yields_nonTerminal_iff.2
      (yields_nonTerminal_iff.1 (hnullable name hclause))
  | .group members _, hclause => .group (yields_of_allNullable hnullable members hclause) .nil
  | .choice members _, hclause => by
    obtain ⟨member, hmember, hyields⟩ := yields_of_anyNullable hnullable members hclause
    exact .choice hmember hyields .nil
  | .option .., _ => .absent .nil
  | .zeroOrMore .., _ => @Yields.zeroOrMore _ _ _ _ grammar _ _ [] [] [] (by simp) .nil
  | .oneOrMore inner _, hclause => by
    have hinner := yields_of_isNullable hnullable inner hclause
    simpa using @Yields.oneOrMore _ _ _ _ grammar inner _ [] [[]] [] (by simp)
      (by simpa using hinner) .nil

theorem yields_of_allNullable {nullable : String → Bool}
    (hnullable : ∀ name, nullable name = true → grammar.Yields [.ofName name] []) :
    ∀ clauses : List (Clause K), Clause.allNullable nullable clauses = true →
      grammar.Yields clauses []
  | [], _ => .nil
  | clause :: rest, hclauses => by
    simp only [Clause.allNullable, Bool.and_eq_true] at hclauses
    exact (yields_of_isNullable hnullable clause hclauses.1).append
      (yields_of_allNullable hnullable rest hclauses.2)

theorem yields_of_anyNullable {nullable : String → Bool}
    (hnullable : ∀ name, nullable name = true → grammar.Yields [.ofName name] []) :
    ∀ members : List (Clause K), Clause.anyNullable nullable members = true →
      ∃ member ∈ members, grammar.Yields [member] []
  | [], hmembers => by simp [Clause.anyNullable] at hmembers
  | member :: rest, hmembers => by
    simp only [Clause.anyNullable, Bool.or_eq_true] at hmembers
    rcases hmembers with hmember | hrest
    · exact ⟨member, List.mem_cons_self, yields_of_isNullable hnullable member hmember⟩
    · obtain ⟨other, hother, hyields⟩ := yields_of_anyNullable hnullable rest hrest
      exact ⟨other, List.mem_cons_of_mem _ hother, hyields⟩

end

/-- Whether all these names yield nothing. -/
def AreNullable (grammar : Grammar K R) (known : List String) : Prop :=
  ∀ name, known.contains name = true → grammar.Yields [.ofName name] []

/-- A name is noted only if it yields nothing. -/
theorem AreNullable.note {known : List String} (hknown : grammar.AreNullable known)
    {nonTerminal : NonTerminal K R} (hmem : nonTerminal ∈ grammar.nonTerminals) :
    grammar.AreNullable (nonTerminal.noteNullable known) := by
  intro name hname
  rcases noteNullable_cases known nonTerminal with ⟨heq, -⟩ | ⟨heq, -, hnullable⟩
  · rw [heq] at hname
    exact hknown name hname
  · rw [heq, List.contains_iff_mem] at hname
    rcases List.mem_cons.1 hname with rfl | hname
    · obtain ⟨rule, hrule, hclauses⟩ := NonTerminal.isNullable_iff.1 hnullable
      exact yields_nonTerminal_iff.2 ⟨rule, mem_rules_of_mem hmem hrule,
        yields_of_allNullable hknown _ hclauses⟩
    · exact hknown name (List.contains_iff_mem.2 hname)

/-- A non-terminal that counts as nullable yields nothing. -/
theorem yields_of_contains_nullable : grammar.AreNullable grammar.nullable := by
  have hnil : grammar.AreNullable [] := by simp [AreNullable]
  refine grammar.settles_nullable.keeps grammar.AreNullable (fun known hknown => ?_) hnil
  exact foldl_keeps grammar.AreNullable (fun _ hknown _ hmem => hknown.note hmem) hknown

/-- Clauses count as nullable exactly when they yield nothing. -/
theorem allNullable_iff {clauses : List (Clause K)} :
    Clause.allNullable grammar.nullable.contains clauses = true ↔ grammar.Yields clauses [] :=
  ⟨yields_of_allNullable yields_of_contains_nullable clauses, Yields.allNullable⟩

/-- A clause counts as nullable exactly when it yields nothing. -/
theorem isNullable_iff {clause : Clause K} :
    clause.isNullable grammar.nullable.contains = true ↔ grammar.Yields [clause] [] := by
  simpa [Clause.allNullable] using @allNullable_iff _ _ _ _ grammar [clause]

end Nullable

section Leading

mutual

/-- A clause begins with what is found for it if that holds of names. -/
theorem begins_of_mem_first {leading : String → KindSet K}
    (hleading : ∀ name, ∀ kind ∈ leading name, grammar.Begins [.ofName name] kind) :
    ∀ (clause : Clause K) (kind : K), kind ∈ clause.first grammar.nullable.contains leading →
      grammar.Begins [clause] kind
  | .terminal .., kind, hkind => by
    obtain rfl := KindSet.mem_singleton.1 hkind
    exact .terminal
  | .nonTerminal name _ _, kind, hkind => begins_nonTerminal_iff.2
      (begins_nonTerminal_iff.1 (hleading name kind hkind))
  | .group members _, kind, hkind => .group (begins_of_mem_firstOfAll hleading members kind hkind)
  | .choice members _, kind, hkind => by
    obtain ⟨member, hmember, hbegins⟩ := begins_of_mem_firstOfAny hleading members kind hkind
    exact .choice hmember hbegins
  | .option inner _, kind, hkind => .option (begins_of_mem_first hleading inner kind hkind)
  | .zeroOrMore inner _, kind, hkind => .zeroOrMore (begins_of_mem_first hleading inner kind hkind)
  | .oneOrMore inner _, kind, hkind => .oneOrMore (begins_of_mem_first hleading inner kind hkind)

theorem begins_of_mem_firstOfAll {leading : String → KindSet K}
    (hleading : ∀ name, ∀ kind ∈ leading name, grammar.Begins [.ofName name] kind) :
    ∀ (clauses : List (Clause K)) (kind : K),
      kind ∈ Clause.firstOfAll grammar.nullable.contains leading clauses →
      grammar.Begins clauses kind
  | [], kind, hkind => absurd hkind (KindSet.not_mem_empty kind)
  | clause :: rest, kind, hkind => by
    have hhead (hfirst : kind ∈ clause.first grammar.nullable.contains leading) :
        grammar.Begins (clause :: rest) kind :=
      (begins_of_mem_first hleading clause kind hfirst).append
    simp only [Clause.firstOfAll] at hkind
    split at hkind
    · next hnullable =>
      rcases KindSet.mem_union.1 hkind with hfirst | hrest
      · exact hhead hfirst
      · exact .skip (isNullable_iff.1 hnullable) (begins_of_mem_firstOfAll hleading rest kind hrest)
    · exact hhead hkind

theorem begins_of_mem_firstOfAny {leading : String → KindSet K}
    (hleading : ∀ name, ∀ kind ∈ leading name, grammar.Begins [.ofName name] kind) :
    ∀ (members : List (Clause K)) (kind : K),
      kind ∈ Clause.firstOfAny grammar.nullable.contains leading members →
      ∃ member ∈ members, grammar.Begins [member] kind
  | [], kind, hkind => absurd hkind (KindSet.not_mem_empty kind)
  | member :: rest, kind, hkind => by
    rcases KindSet.mem_union.1 hkind with hfirst | hrest
    · exact ⟨member, List.mem_cons_self, begins_of_mem_first hleading member kind hfirst⟩
    · obtain ⟨other, hother, hbegins⟩ := begins_of_mem_firstOfAny hleading rest kind hrest
      exact ⟨other, List.mem_cons_of_mem _ hother, hbegins⟩

end

/-- Whether names begin with the kinds that a table has for them. -/
def AreLeading (grammar : Grammar K R) (table : LeadingTable K) : Prop :=
  ∀ name, ∀ kind ∈ table.get name, grammar.Begins [.ofName name] kind

/-- A kind is noted only if the name begins with it. -/
theorem AreLeading.note {table : LeadingTable K} (htable : grammar.AreLeading table)
    {nonTerminal : NonTerminal K R} (hmem : nonTerminal ∈ grammar.nonTerminals) :
    grammar.AreLeading (nonTerminal.noteLeading grammar.nullable.contains table) := by
  intro name kind hkind
  rcases LeadingTable.mem_get_set hkind with ⟨rfl, hfirst⟩ | hbefore
  · obtain ⟨rule, hrule, hclauses⟩ := NonTerminal.mem_first.1 hfirst
    exact begins_nonTerminal_iff.2 ⟨rule, mem_rules_of_mem hmem hrule,
      begins_of_mem_firstOfAll htable _ _ hclauses⟩
  · exact htable name kind hbefore

/-- Nothing is found for a non-terminal that it does not begin with. -/
theorem begins_of_mem_leadingTable : grammar.AreLeading grammar.leadingTable := by
  have hblank : grammar.AreLeading grammar.blankTable := by simp [AreLeading, get_blankTable]
  refine grammar.settles_leadingTable.keeps grammar.AreLeading (fun table htable => ?_) hblank
  exact foldl_keeps grammar.AreLeading (fun _ htable _ hmem => htable.note hmem) htable

/-- A non-terminal can begin with just the kinds that are found for it. -/
theorem mem_leadingTable_iff_begins {name : String} {kind : K} :
    kind ∈ grammar.leadingTable.get name ↔ grammar.Begins [.ofName name] kind := by
  refine ⟨begins_of_mem_leadingTable name kind, fun hbegins => ?_⟩
  obtain ⟨rule, hrule, hclauses⟩ := begins_nonTerminal_iff.1 hbegins
  exact mem_leadingTable_iff.2 ⟨rule, hrule, hclauses.mem_firstOfAll⟩

end Leading

section Exactness

/-- A rule is marked as possibly empty exactly when its clauses can be rewritten to nothing. -/
theorem isNullable_iff_rewritesTo {rule : Rule K R} :
    rule.isNullable grammar.nullable.contains = true ↔ grammar.RewritesTo rule.clauses [] :=
  allNullable_iff.trans rewritesTo_nil_iff.symm

/-- A rule has the kinds that its clauses begin with. -/
theorem mem_first_iff_begins {rule : Rule K R} {kind : K} :
    kind ∈ rule.first grammar.nullable.contains grammar.leadingTable.get ↔
    grammar.Begins rule.clauses kind :=
  ⟨begins_of_mem_firstOfAll begins_of_mem_leadingTable rule.clauses kind, Begins.mem_firstOfAll⟩

/-- Both loops of the analysis come to an end. Then a rule is marked as possibly
    empty exactly when its clauses can be rewritten to nothing, it has the kinds
    that stand first in something that they can be rewritten to, and a
    non-terminal has the kinds of its rules. -/
theorem analyse_exact (grammar : Grammar K R) :
    Settles grammar.nullablePass [] grammar.nullable ∧
      Settles (grammar.leadingPass grammar.nullable.contains) grammar.blankTable
        grammar.leadingTable ∧
      grammar.analyse.names = grammar.names ∧
      (∀ name index rule, grammar.rule? name index = some rule →
        ∃ leading mayBeEmpty,
          grammar.analyse.rule? name index = some { rule with leading, mayBeEmpty } ∧
          (mayBeEmpty = true ↔ grammar.RewritesTo rule.clauses []) ∧
          ∀ kind, kind ∈ leading ↔
            ∃ discarded rest, grammar.RewritesTo rule.clauses (.terminal kind discarded :: rest)) ∧
      ∀ nonTerminal ∈ grammar.analyse.nonTerminals, ∀ kind,
        kind ∈ nonTerminal.leading ↔ ∃ rule ∈ nonTerminal.rules, kind ∈ rule.leading := by
  refine ⟨grammar.settles_nullable, grammar.settles_leadingTable, grammar.names_analyse, ?_, ?_⟩
  · intro name index rule hrule
    refine ⟨rule.first grammar.nullable.contains grammar.leadingTable.get,
      rule.isNullable grammar.nullable.contains, ?_, isNullable_iff_rewritesTo, fun kind => ?_⟩
    · rw [rule?_analyse, hrule]
      rfl
    · rw [mem_first_iff_begins, ← heads_iff, Heads]
  · intro nonTerminal hmem kind
    rw [nonTerminals_analyse] at hmem
    obtain ⟨before, hbefore, rfl⟩ := List.mem_map.1 hmem
    have hleading : kind ∈ grammar.leadingTable.get before.name ↔ ∃ rule ∈ before.rules,
        kind ∈ rule.first grammar.nullable.contains grammar.leadingTable.get := by
      rw [get_leadingTable hbefore, NonTerminal.mem_first]
    simpa [NonTerminal.analysed, Rule.analysed] using hleading

end Exactness

section Productive

variable {clauses : List (Clause K)}

/-- A clause that does not count as nullable begins with something if that holds
    of the names that it can begin with. -/
theorem exists_begins_of_isNullable : ∀ {clause : Clause K}, clause.isFlat = true →
    clause.isNullable grammar.nullable.contains = false →
      (∀ name ∈ clause.leftmost grammar.nullable.contains, name ∈ clause.references →
        grammar.nullable.contains name = false → ∃ kind, grammar.Begins [.ofName name] kind) →
          ∃ kind, grammar.Begins [clause] kind
  | .terminal kind _, _, _, _ => ⟨kind, .terminal⟩
  | .nonTerminal name _ _, _, hclause, hnames => by
    obtain ⟨kind, hbegins⟩ := hnames name (by simp [Clause.leftmost])
      (by simp [Clause.references]) hclause
    exact ⟨kind, begins_nonTerminal_iff.2 (begins_nonTerminal_iff.1 hbegins)⟩
  | .oneOrMore inner _, hflat, hclause, hnames => by
    obtain ⟨kind, hbegins⟩ := @exists_begins_of_isNullable inner hflat hclause hnames
    exact ⟨kind, .oneOrMore hbegins⟩
  | .group .., hflat, _, _ | .choice .., hflat, _, _ => by simp [Clause.isFlat] at hflat
  | .option .., _, hclause, _ | .zeroOrMore .., _, hclause, _ => by
    simp [Clause.isNullable] at hclause

/-- Clauses that do not count as nullable begin with something if that holds of
    the names that they can begin with. -/
theorem exists_begins_of_allNullable (hflat : ∀ clause ∈ clauses, clause.isFlat = true)
    (hclauses : Clause.allNullable grammar.nullable.contains clauses = false)
    (hnames : ∀ name ∈ Clause.leftmostOfAll grammar.nullable.contains clauses,
      name ∈ Clause.referencesIn clauses → grammar.nullable.contains name = false →
      ∃ kind, grammar.Begins [.ofName name] kind) :
    ∃ kind, grammar.Begins clauses kind := by
  induction clauses with
  | nil => simp [Clause.allNullable] at hclauses
  | cons first rest ih =>
    simp only [Clause.leftmostOfAll, Clause.referencesIn] at hnames
    cases hfirst : first.isNullable grammar.nullable.contains with
    | false =>
      rw [hfirst] at hnames
      obtain ⟨kind, hbegins⟩ := exists_begins_of_isNullable (hflat first List.mem_cons_self) hfirst
        fun name hname href => hnames name hname (List.mem_append_left _ href)
      exact ⟨kind, hbegins.append⟩
    | true =>
      rw [hfirst, if_pos rfl] at hnames
      rw [Clause.allNullable, hfirst, Bool.true_and] at hclauses
      obtain ⟨kind, hbegins⟩ :=
        ih (fun clause hclause => hflat clause (List.mem_cons_of_mem _ hclause)) hclauses
        fun name hname href => hnames name (List.mem_append_right _ hname)
        (List.mem_append_right _ href)
      exact ⟨kind, .skip (isNullable_iff.1 hfirst) hbegins⟩

/-- Without left recursion, a name that has rules and does not count as nullable
    begins with something: names that it can begin with have a lower rank. -/
theorem exists_begins (hflat : grammar.IsFlat) (hacyclic : grammar.leftRecursions = [])
    (hclosed : grammar.IsClosed) {name : String} (hdeclared : grammar.rulesOf name ≠ [])
    (hname : grammar.nullable.contains name = false) :
    ∃ kind, grammar.Begins [.ofName name] kind := by
  obtain ⟨ranking⟩ := nonempty_ranking hacyclic
  induction hrank : ranking.rank name using Nat.strongRecOn generalizing name with
  | _ rank ih =>
    obtain ⟨rule, hmem⟩ := List.exists_mem_of_ne_nil _ hdeclared
    have hrule := mem_rules_iff_mem_rulesOf.2 hmem
    have hclauses : Clause.allNullable grammar.nullable.contains rule.clauses = false := by
      refine Bool.eq_false_iff.2 fun hnullable => ?_
      rw [contains_nullable_iff.2 ⟨rule, hrule, hnullable⟩] at hname
      cases hname
    obtain ⟨kind, hbegins⟩ := exists_begins_of_allNullable (hflat _ hrule) hclauses
      fun other hother href hnot => by
      have hlt := ranking.rank_lt name other (enters_of_mem_rules hrule hother)
      exact ih _ (hrank ▸ hlt) (hclosed _ hrule other href) hnot rfl
    exact ⟨kind, begins_nonTerminal_iff.2 ⟨rule, hrule, hbegins⟩⟩

end Productive

section Analysed

variable (hanalysed : grammar.IsAnalysed) {name : String} {nonTerminal : NonTerminal K R}
  (hfind : grammar.find? name = some nonTerminal)

include hanalysed hfind

/-- The kinds noted for a non-terminal of an analysed grammar are those that it begins with. -/
theorem IsAnalysed.mem_leading_iff {kind : K} :
    kind ∈ nonTerminal.leading ↔ grammar.Begins [.ofName name] kind := by
  rw [← mem_leadingTable_iff_begins]
  rw [← show grammar.analyse = grammar from hanalysed, find?_analyse] at hfind
  obtain ⟨before, hbefore, rfl⟩ := Option.map_eq_some_iff.1 hfind
  obtain ⟨-, rfl⟩ := find?_eq_some_iff.1 hbefore
  rfl

/-- Where none of the rules of a non-terminal can start, there is something that
    they could start with. -/
theorem IsAnalysed.exists_mem_leading (hflat : grammar.IsFlat)
    (hacyclic : grammar.leftRecursions = []) (hclosed : grammar.IsClosed)
    (hdeclared : grammar.rulesOf name ≠ []) (next : Option K)
    (hnone : ∀ rule, (name, rule) ∈ grammar.rules → rule.canStartWith next = false) :
    ∃ kind, kind ∈ nonTerminal.leading := by
  have hname : grammar.nullable.contains name = false := by
    refine Bool.eq_false_iff.2 fun hnullable => ?_
    obtain ⟨rule, hrule, hclauses⟩ := contains_nullable_iff.1 hnullable
    have hempty : rule.mayBeEmpty = true := (hanalysed.mayBeEmpty_eq hrule).trans hclauses
    have hstart := hnone rule hrule
    simp [Rule.canStartWith, hempty] at hstart
  obtain ⟨kind, hbegins⟩ := exists_begins hflat hacyclic hclosed hdeclared hname
  exact ⟨kind, (hanalysed.mem_leading_iff hfind).2 hbegins⟩

end Analysed

end GrammarKit.Grammar
