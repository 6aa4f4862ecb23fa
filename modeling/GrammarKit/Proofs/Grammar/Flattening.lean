import GrammarKit.Proofs.Grammar.Lookup
import GrammarKit.Proofs.Grammar.Names

namespace GrammarKit

variable {K R : Type} [DecidableEq K] [TokenKind K]

namespace Rule

/-- Whether the rule is all there is of a group with these clauses. -/
def IsGroupOf (rule : Rule K R) (clauses : List (Clause K)) : Prop :=
  rule.clauses = clauses ∧ rule.isSubrule = true ∧ rule.isBypass = false ∧ rule.affix = none

/-- Whether the rule is an alternative of a choice. -/
def IsAlternativeOf (rule : Rule K R) (clause : Clause K) : Prop :=
  rule.clauses = [clause] ∧ rule.isBypass = true ∧ rule.isSubrule = false ∧ rule.affix = none

end Rule

namespace Grammar

/-- Clauses and the flat clauses that stand for them. What the name of a group
    or of a choice leads to is the group or the choice itself. This is so for
    what is made of a grammar, unless a name that is made up was there
    before. -/
inductive Stands (grammar : Grammar K R) : List (Clause K) → List (Clause K) → Prop
  | nil : Stands grammar [] []
  | terminal {kind : K} {discarded : Bool} {rest flats : List (Clause K)} :
      Stands grammar rest flats → Stands grammar (.terminal kind discarded :: rest)
      (.terminal kind discarded :: flats)
  | nonTerminal {name : String} {role : Role} {discarded : Bool} {rest flats : List (Clause K)} :
      Stands grammar rest flats →
        Stands grammar (.nonTerminal name role discarded :: rest)
          (.nonTerminal name role discarded :: flats)
  | group {name : String} {members inner : List (Clause K)} {discarded : Bool}
      {rest flats : List (Clause K)} :
      (∀ rule, (name, rule) ∈ grammar.rules → rule.IsGroupOf inner) → Stands grammar members inner →
      Stands grammar rest flats →
        Stands grammar (.group members discarded :: rest)
          (.nonTerminal name .group discarded :: flats)
  | choice {name : String} {members inner : List (Clause K)} {discarded : Bool}
      {rest flats : List (Clause K)} :
      (members ≠ [] → ∀ rule, (name, rule) ∈ grammar.rules →
        ∃ flat ∈ inner, rule.IsAlternativeOf flat) →
      (∀ flat ∈ inner, ∃ rule, (name, rule) ∈ grammar.rules ∧ rule.IsAlternativeOf flat) →
      Stands grammar members inner → Stands grammar rest flats →
        Stands grammar (.choice members discarded :: rest)
          (.nonTerminal name (Flat.choiceRole members) discarded :: flats)
  | option {inner flat : Clause K} {discarded : Bool} {rest flats : List (Clause K)} :
      Stands grammar [inner] [flat] → Stands grammar rest flats →
        Stands grammar (.option inner discarded :: rest) (.option flat discarded :: flats)
  | zeroOrMore {inner flat : Clause K} {discarded : Bool} {rest flats : List (Clause K)} :
      Stands grammar [inner] [flat] → Stands grammar rest flats →
        Stands grammar (.zeroOrMore inner discarded :: rest) (.zeroOrMore flat discarded :: flats)
  | oneOrMore {inner flat : Clause K} {discarded : Bool} {rest flats : List (Clause K)} :
      Stands grammar [inner] [flat] → Stands grammar rest flats →
        Stands grammar (.oneOrMore inner discarded :: rest) (.oneOrMore flat discarded :: flats)

namespace Stands

variable {grammar : Grammar K R} {clauses flats : List (Clause K)}

/-- Flat clauses stand for a row one by one. -/
theorem cons {clause flat : Clause K} (hfirst : grammar.Stands [clause] [flat])
    (hrest : grammar.Stands clauses flats) :
    grammar.Stands (clause :: clauses) (flat :: flats) := by
  cases hfirst with
  | terminal => exact .terminal hrest
  | nonTerminal => exact .nonTerminal hrest
  | group hname hmembers => exact .group hname hmembers hrest
  | choice hname hall hmembers => exact .choice hname hall hmembers hrest
  | option hinner => exact .option hinner hrest
  | zeroOrMore hinner => exact .zeroOrMore hinner hrest
  | oneOrMore hinner => exact .oneOrMore hinner hrest

/-- The first flat clause stands for the first clause, and the others for the others. -/
theorem uncons {clause flat : Clause K}
    (hstands : grammar.Stands (clause :: clauses) (flat :: flats)) :
    grammar.Stands [clause] [flat] ∧ grammar.Stands clauses flats := by
  cases hstands with
  | terminal hrest => exact ⟨.terminal .nil, hrest⟩
  | nonTerminal hrest => exact ⟨.nonTerminal .nil, hrest⟩
  | group hname hmembers hrest => exact ⟨.group hname hmembers .nil, hrest⟩
  | choice hname hall hmembers hrest => exact ⟨.choice hname hall hmembers .nil, hrest⟩
  | option hinner hrest => exact ⟨.option hinner .nil, hrest⟩
  | zeroOrMore hinner hrest => exact ⟨.zeroOrMore hinner .nil, hrest⟩
  | oneOrMore hinner hrest => exact ⟨.oneOrMore hinner .nil, hrest⟩

theorem eq_terminal {kind : K} {discarded : Bool}
    (hstands : grammar.Stands [.terminal kind discarded] flats) :
    flats = [.terminal kind discarded] := by
  cases hstands with
  | terminal hnil =>
    cases hnil
    rfl

theorem eq_ofName {name : String} (hstands : grammar.Stands [.ofName name] flats) :
    flats = [.ofName name] := by
  cases hstands with
  | nonTerminal hnil =>
    cases hnil
    rfl

/-- Each of the flat clauses stands for one of the clauses. -/
theorem exists_of_mem (hstands : grammar.Stands clauses flats) {flat : Clause K}
    (hflat : flat ∈ flats) :
    ∃ clause ∈ clauses, grammar.Stands [clause] [flat] := by
  induction flats generalizing clauses with
  | nil => cases hflat
  | cons first rest ih =>
    cases clauses with
    | nil => cases hstands
    | cons clause clauses =>
      obtain ⟨hfirst, hrest⟩ := hstands.uncons
      rcases List.mem_cons.1 hflat with rfl | hflat
      · exact ⟨clause, List.mem_cons_self, hfirst⟩
      · obtain ⟨other, hother, hstands⟩ := ih hrest hflat
        exact ⟨other, List.mem_cons_of_mem _ hother, hstands⟩

/-- For each of the clauses stands one of the flat clauses. -/
theorem exists_flat_of_mem (hstands : grammar.Stands clauses flats) {clause : Clause K}
    (hclause : clause ∈ clauses) :
    ∃ flat ∈ flats, grammar.Stands [clause] [flat] := by
  induction clauses generalizing flats with
  | nil => cases hclause
  | cons first rest ih =>
    cases flats with
    | nil => cases hstands
    | cons flat flats =>
      obtain ⟨hfirst, hrest⟩ := hstands.uncons
      rcases List.mem_cons.1 hclause with rfl | hclause
      · exact ⟨flat, List.mem_cons_self, hfirst⟩
      · obtain ⟨other, hother, hstands⟩ := ih hrest hclause
        exact ⟨other, List.mem_cons_of_mem _ hother, hstands⟩

end Stands

/-- Whether the rules of the names that occur in `entries` are exactly these. -/
def Owns (grammar : Grammar K R) (entries : List (String × Rule K R)) : Prop :=
  ∀ entry : String × Rule K R, entry.1 ∈ entries.map Prod.fst →
    (entry ∈ grammar.rules ↔ entry ∈ entries)

end Grammar

namespace Flat

/-- Whether all names are those of parts of `parent` with numbers from `low` on
    and below `high`. -/
def Numbered (parent : String) (low high : Nat) (entries : List (String × Rule K R)) : Prop :=
  ∀ entry ∈ entries, ∃ number, low ≤ number ∧ number < high ∧ IsPartName parent number entry.1

namespace Numbered

variable {parent : String} {low middle high : Nat} {entries others : List (String × Rule K R)}

/-- Numbers that follow on each other make up one range. -/
theorem append (hentries : Numbered parent low middle entries)
    (hothers : Numbered parent middle high others) (hlow : low ≤ middle) (hhigh : middle ≤ high) :
    Numbered parent low high (entries ++ others) := by
  intro entry hmem
  rcases List.mem_append.1 hmem with hmem | hmem
  · obtain ⟨number, hle, hlt, hname⟩ := hentries entry hmem
    exact ⟨number, hle, by omega, hname⟩
  · obtain ⟨number, hle, hlt, hname⟩ := hothers entry hmem
    exact ⟨number, by omega, hlt, hname⟩

/-- A part with a number outside of the range has another name. -/
theorem ne_of_isPartName (hentries : Numbered parent low high entries) {entry : String × Rule K R}
    (hentry : entry ∈ entries) {number : Nat} {name : String}
    (hname : IsPartName parent number name) (hnumber : number < low ∨ high ≤ number) :
    entry.1 ≠ name := by
  rintro rfl
  obtain ⟨count, hle, hlt, hcount⟩ := hentries entry hentry
  obtain ⟨-, rfl⟩ := hname.inj hcount
  omega

/-- Parts from different ranges have different names. -/
theorem ne_of_mem (hentries : Numbered parent low middle entries)
    (hothers : Numbered parent middle high others) {entry other : String × Rule K R}
    (hentry : entry ∈ entries) (hother : other ∈ others) : entry.1 ≠ other.1 := by
  obtain ⟨number, hle, -, hname⟩ := hothers other hother
  exact hentries.ne_of_isPartName hentry hname (Or.inr hle)

end Numbered

/-- The alternatives of a choice are flattened like clauses in a row. -/
theorem next_alternatives (parent name : String) (next : Nat) (members : List (Clause K)) :
    (Flat.alternatives (R := R) parent name next members).next =
      (Flat.clauses (R := R) parent next members).next := by
  induction members generalizing next with
  | nil => rfl
  | cons first rest ih => exact ih _

/-- The rules of a choice are those of its parts and one for each alternative. -/
theorem mem_rules_alternatives {parent name : String} {next : Nat} {members : List (Clause K)}
    {entry : String × Rule K R} :
    entry ∈ (Flat.alternatives parent name next members).rules ↔
      entry ∈ (Flat.clauses parent next members).rules ∨
        ∃ flat ∈ (Flat.clauses (R := R) parent next members).value,
          entry = (name, { clauses := [flat], isBypass := true }) := by
  induction members generalizing next with
  | nil => simp [Flat.alternatives, Flat.clauses]
  | cons first rest ih =>
    simp only [Flat.alternatives, Flat.clauses, List.mem_append, List.mem_cons, ih,
      exists_eq_or_imp]
    grind

theorem length_value_clauses (parent : String) (next : Nat) (clauses : List (Clause K)) :
    (Flat.clauses (R := R) parent next clauses).value.length = clauses.length := by
  induction clauses generalizing next with
  | nil => rfl
  | cons first rest ih => simp [Flat.clauses, ih]

mutual

/-- The parts of a clause have the numbers that it takes. -/
theorem clause_numbered (parent : String) : ∀ (clause : Clause K) (next : Nat),
    next ≤ (Flat.clause (R := R) parent next clause).next ∧
      Numbered parent next (Flat.clause (R := R) parent next clause).next
        (Flat.clause (R := R) parent next clause).rules
  | .terminal .., next => ⟨Nat.le_refl next, fun _ hentry => nomatch hentry⟩
  | .nonTerminal .., next => ⟨Nat.le_refl next, fun _ hentry => nomatch hentry⟩
  | .group members _, next => by
    obtain ⟨hle, hmembers⟩ := clauses_numbered parent members (next + 1)
    refine ⟨by simp only [Flat.clause]; omega, fun entry hentry => ?_⟩
    simp only [Flat.clause, List.mem_append, List.mem_singleton] at hentry
    rcases hentry with hentry | rfl
    · obtain ⟨number, hnext, hlt, hname⟩ := hmembers entry hentry
      exact ⟨number, by omega, hlt, hname⟩
    · exact ⟨next, Nat.le_refl _, hle, Or.inl rfl⟩
  | .choice members _, next => by
    obtain ⟨hle, hmembers⟩ := clauses_numbered parent members (next + 1)
    simp only [Flat.clause, next_alternatives]
    refine ⟨by omega, fun entry hentry => ?_⟩
    rcases mem_rules_alternatives.1 hentry with hentry | ⟨flat, -, rfl⟩
    · obtain ⟨number, hnext, hlt, hname⟩ := hmembers entry hentry
      exact ⟨number, by omega, hlt, hname⟩
    · exact ⟨next, Nat.le_refl _, hle, Or.inr rfl⟩
  | .option inner _, next => clause_numbered parent inner next
  | .zeroOrMore inner _, next => clause_numbered parent inner next
  | .oneOrMore inner _, next => clause_numbered parent inner next

theorem clauses_numbered (parent : String) : ∀ (clauses : List (Clause K)) (next : Nat),
    next ≤ (Flat.clauses (R := R) parent next clauses).next ∧
      Numbered parent next (Flat.clauses (R := R) parent next clauses).next
        (Flat.clauses (R := R) parent next clauses).rules
  | [], next => ⟨Nat.le_refl next, fun _ hentry => nomatch hentry⟩
  | first :: rest, next => by
    obtain ⟨hfirst, hfirstRules⟩ := clause_numbered parent first next
    obtain ⟨hrest, hrestRules⟩ := clauses_numbered parent rest
      (Flat.clause (R := R) parent next first).next
    exact ⟨Nat.le_trans hfirst hrest, hfirstRules.append hrestRules hfirst hrest⟩

end

/-- The parts of all rules of a non-terminal have the numbers that it takes. -/
theorem rules_numbered (parent : String) (rules : List (Rule K R)) (next : Nat) :
    next ≤ (Flat.rules parent next rules).next ∧
      Numbered parent next (Flat.rules parent next rules).next
        (Flat.rules parent next rules).rules := by
  induction rules generalizing next with
  | nil => exact ⟨Nat.le_refl next, fun _ hentry => nomatch hentry⟩
  | cons first rest ih =>
    obtain ⟨hfirst, hfirstRules⟩ := clauses_numbered (R := R) parent first.clauses next
    obtain ⟨hrest, hrestRules⟩ := ih (Flat.clauses (R := R) parent next first.clauses).next
    exact ⟨Nat.le_trans hfirst hrest, hfirstRules.append hrestRules hfirst hrest⟩

end Flat

namespace Grammar

variable {grammar : Grammar K R}

/-- Names that others do not share have their rules among the first entries. -/
theorem Owns.left {entries others : List (String × Rule K R)}
    (howns : grammar.Owns (entries ++ others))
    (hne : ∀ entry ∈ entries, ∀ other ∈ others, entry.1 ≠ other.1) : grammar.Owns entries := by
  intro entry hname
  rw [howns entry (by simpa using Or.inl hname), List.mem_append]
  refine or_iff_left fun hother => ?_
  obtain ⟨same, hsame, heq⟩ := List.mem_map.1 hname
  exact hne same hsame entry hother heq

theorem Owns.right {entries others : List (String × Rule K R)}
    (howns : grammar.Owns (entries ++ others))
    (hne : ∀ entry ∈ entries, ∀ other ∈ others, entry.1 ≠ other.1) : grammar.Owns others := by
  intro entry hname
  rw [howns entry (by simpa using Or.inr hname), List.mem_append]
  refine or_iff_right fun hother => ?_
  obtain ⟨same, hsame, heq⟩ := List.mem_map.1 hname
  exact hne entry hother same hsame heq.symm

end Grammar

namespace Flat

variable {grammar : Grammar K R}

/-- The parts of the members are not called like what the members belong to. -/
theorem ne_of_mem_members {parent name : String} {number : Nat}
    (hname : IsPartName parent number name) {members : List (Clause K)} :
    ∀ entry ∈ (Flat.clauses (R := R) parent (number + 1) members).rules, entry.1 ≠ name := by
  intro entry hentry
  obtain ⟨-, hnumbered⟩ := clauses_numbered (R := R) parent members (number + 1)
  exact hnumbered.ne_of_isPartName hentry hname (Or.inl (Nat.lt_succ_self number))

/-- The names of a group's members have no rules but their own, if that is so
    for the whole group. -/
theorem owns_members_of_group {parent : String} {members : List (Clause K)} {discarded : Bool}
    {next : Nat} (howns : grammar.Owns (Flat.clause parent next (.group members discarded)).rules) :
    grammar.Owns (Flat.clauses parent (next + 1) members).rules := by
  refine howns.left fun entry hentry other hother => ?_
  rw [List.mem_singleton.1 hother]
  exact ne_of_mem_members (Or.inl rfl) entry hentry

/-- The names of a choice's alternatives have no rules but their own, if that is
    so for the whole choice. -/
theorem owns_members_of_choice {parent : String} {members : List (Clause K)} {discarded : Bool}
    {next : Nat}
    (howns : grammar.Owns (Flat.clause parent next (.choice members discarded)).rules) :
    grammar.Owns (Flat.clauses parent (next + 1) members).rules := by
  intro entry hname
  obtain ⟨same, hsame, heq⟩ := List.mem_map.1 hname
  rw [howns entry (List.mem_map.2 ⟨same, mem_rules_alternatives.2 (Or.inl hsame), heq⟩)]
  refine mem_rules_alternatives.trans (or_iff_left ?_)
  rintro ⟨flat, -, rfl⟩
  exact ne_of_mem_members (Or.inr rfl) same hsame heq

/-- Names have no rules but their own in a row if that is so for the whole row. -/
theorem owns_of_cons {parent : String} {first : Clause K} {rest : List (Clause K)} {next : Nat}
    (howns : grammar.Owns (Flat.clauses parent next (first :: rest)).rules) :
    grammar.Owns (Flat.clause parent next first).rules ∧
      grammar.Owns (Flat.clauses parent (Flat.clause (R := R) parent next first).next
        rest).rules := by
  obtain ⟨-, hfirst⟩ := clause_numbered (R := R) parent first next
  obtain ⟨-, hrest⟩ := clauses_numbered (R := R) parent rest
    (Flat.clause (R := R) parent next first).next
  have hne : ∀ entry ∈ (Flat.clause parent next first).rules,
      ∀ other ∈
        (Flat.clauses (R := R) parent (Flat.clause (R := R) parent next first).next rest).rules,
        entry.1 ≠ other.1 := fun entry hentry other hother => hfirst.ne_of_mem hrest hentry hother
  exact ⟨howns.left hne, howns.right hne⟩

/-- Names have no rules but their own in each rule if that is so for all rules. -/
theorem owns_of_rules_cons {parent : String} {first : Rule K R} {rest : List (Rule K R)}
    {next : Nat} (howns : grammar.Owns (Flat.rules parent next (first :: rest)).rules) :
    grammar.Owns (Flat.clauses parent next first.clauses).rules ∧
      grammar.Owns
        (Flat.rules parent (Flat.clauses (R := R) parent next first.clauses).next rest).rules := by
  obtain ⟨-, hfirst⟩ := clauses_numbered (R := R) parent first.clauses next
  obtain ⟨-, hrest⟩ := rules_numbered parent rest
    (Flat.clauses (R := R) parent next first.clauses).next
  have hne : ∀ entry ∈ (Flat.clauses parent next first.clauses).rules,
      ∀ other ∈
        (Flat.rules parent (Flat.clauses (R := R) parent next first.clauses).next rest).rules,
        entry.1 ≠ other.1 := fun entry hentry other hother => hfirst.ne_of_mem hrest hentry hother
  exact ⟨howns.left hne, howns.right hne⟩

mutual

/-- A flat clause stands for the clause it comes from, where the names that were
    made have no other rules. -/
theorem clause_stands (parent : String) : ∀ (clause : Clause K) (next : Nat),
    grammar.Owns (Flat.clause parent next clause).rules →
      grammar.Stands [clause] [(Flat.clause (R := R) parent next clause).value]
  | .terminal .., _, _ => .terminal .nil
  | .nonTerminal .., _, _ => .nonTerminal .nil
  | .group members _, next, howns => by
    refine .group (fun rule hrule => ?_) (clauses_stands parent members (next + 1)
      (owns_members_of_group howns)) .nil
    have hmem := (howns (_, rule) (by simp [Flat.clause])).1 hrule
    rcases List.mem_append.1 hmem with hmem | hmem
    · exact absurd rfl (ne_of_mem_members (Or.inl rfl) _ hmem)
    · obtain rfl := (Prod.mk.inj (List.mem_singleton.1 hmem)).2
      exact ⟨rfl, rfl, rfl, rfl⟩
  | .choice members discarded, next, howns => by
    have hinner := clauses_stands parent members (next + 1) (owns_members_of_choice howns)
    have hname {flat : Clause K} (hflat : flat ∈
        (Flat.clauses (R := R) parent (next + 1) members).value) :
        choiceName parent next ∈ (Flat.clause (R := R) parent next
          (.choice members discarded)).rules.map Prod.fst :=
      List.mem_map.2 ⟨_, mem_rules_alternatives.2 (Or.inr ⟨flat, hflat, rfl⟩), rfl⟩
    refine .choice (fun hmembers rule hrule => ?_) (fun flat hflat => ?_) hinner .nil
    · obtain ⟨flat, hflat⟩ := List.exists_mem_of_ne_nil _
        (List.ne_nil_of_length_pos (by
          rw [length_value_clauses (R := R) parent (next + 1) members]
          exact List.length_pos_iff.2 hmembers))
      have hmem := (howns (_, rule) (hname hflat)).1 hrule
      rcases mem_rules_alternatives.1 hmem with hmem | ⟨other, hother, heq⟩
      · exact absurd rfl (ne_of_mem_members (Or.inr rfl) _ hmem)
      · obtain rfl := (Prod.mk.inj heq).2
        exact ⟨other, hother, rfl, rfl, rfl, rfl⟩
    · refine ⟨{ clauses := [flat], isBypass := true }, (howns _ (hname hflat)).2 ?_, rfl,
        rfl, rfl, rfl⟩
      exact mem_rules_alternatives.2 (Or.inr ⟨flat, hflat, rfl⟩)
  | .option inner _, next, howns => .option (clause_stands parent inner next howns) .nil
  | .zeroOrMore inner _, next, howns => .zeroOrMore (clause_stands parent inner next howns) .nil
  | .oneOrMore inner _, next, howns => .oneOrMore (clause_stands parent inner next howns) .nil

theorem clauses_stands (parent : String) : ∀ (clauses : List (Clause K)) (next : Nat),
    grammar.Owns (Flat.clauses parent next clauses).rules →
      grammar.Stands clauses (Flat.clauses (R := R) parent next clauses).value
  | [], _, _ => .nil
  | first :: rest, next, howns => by
    obtain ⟨hfirst, hrest⟩ := owns_of_cons howns
    exact (clause_stands parent first next hfirst).cons (clauses_stands parent rest _ hrest)

end

mutual

/-- What is made of a clause are groups and alternatives. -/
theorem clause_parts (parent : String) : ∀ (clause : Clause K) (next : Nat),
    ∀ entry ∈ (Flat.clause (R := R) parent next clause).rules,
      (∃ members, entry.2.IsGroupOf members) ∨ ∃ flat, entry.2.IsAlternativeOf flat
  | .terminal .., _, _, hentry => nomatch hentry
  | .nonTerminal .., _, _, hentry => nomatch hentry
  | .group members _, next, entry, hentry => by
    rcases List.mem_append.1 hentry with hentry | hentry
    · exact clauses_parts parent members (next + 1) entry hentry
    · obtain rfl := List.mem_singleton.1 hentry
      exact Or.inl ⟨_, rfl, rfl, rfl, rfl⟩
  | .choice members _, next, entry, hentry => by
    rcases mem_rules_alternatives.1 hentry with hentry | ⟨flat, -, rfl⟩
    · exact clauses_parts parent members (next + 1) entry hentry
    · exact Or.inr ⟨flat, rfl, rfl, rfl, rfl⟩
  | .option inner _, next, entry, hentry => clause_parts parent inner next entry hentry
  | .zeroOrMore inner _, next, entry, hentry => clause_parts parent inner next entry hentry
  | .oneOrMore inner _, next, entry, hentry => clause_parts parent inner next entry hentry

theorem clauses_parts (parent : String) : ∀ (clauses : List (Clause K)) (next : Nat),
    ∀ entry ∈ (Flat.clauses (R := R) parent next clauses).rules,
      (∃ members, entry.2.IsGroupOf members) ∨ ∃ flat, entry.2.IsAlternativeOf flat
  | [], _, _, hentry => nomatch hentry
  | first :: rest, next, entry, hentry => by
    rcases List.mem_append.1 hentry with hentry | hentry
    · exact clause_parts parent first next entry hentry
    · exact clauses_parts parent rest _ entry hentry

end

/-- What is made of rules are groups and alternatives. -/
theorem rules_parts (parent : String) (rules : List (Rule K R)) (next : Nat) :
    ∀ entry ∈ (Flat.rules parent next rules).rules,
      (∃ members, entry.2.IsGroupOf members) ∨ ∃ flat, entry.2.IsAlternativeOf flat := by
  induction rules generalizing next with
  | nil => exact fun _ hentry => nomatch hentry
  | cons first rest ih =>
    intro entry hentry
    rcases List.mem_append.1 hentry with hentry | hentry
    · exact clauses_parts parent first.clauses next entry hentry
    · exact ih _ entry hentry

/-- A flat rule stands in the place of the rule it comes from, with clauses that
    stand for its clauses. -/
theorem rules_stands (parent : String) {rules : List (Rule K R)} {next : Nat}
    (howns : grammar.Owns (Flat.rules parent next rules).rules) {index : Nat} {rule : Rule K R}
    (hrule : rules[index]? = some rule) :
    ∃ flats, (Flat.rules parent next rules).value[index]? = some { rule with clauses := flats } ∧
      grammar.Stands rule.clauses flats := by
  induction rules generalizing next index with
  | nil => cases hrule
  | cons first rest ih =>
    obtain ⟨hfirst, hrest⟩ := owns_of_rules_cons howns
    cases index with
    | zero =>
      obtain rfl := Option.some.inj hrule
      exact ⟨_, rfl, clauses_stands parent _ next hfirst⟩
    | succ index => exact ih hrest hrule

/-- A flat rule differs from the original one in its clauses only, of which
    there are as many. -/
theorem exists_of_mem_value_rules (parent : String) {rules : List (Rule K R)} {next : Nat}
    {flat : Rule K R} (hflat : flat ∈ (Flat.rules parent next rules).value) :
    ∃ (index : Nat) (rule : Rule K R), rules[index]? = some rule ∧
      (Flat.rules parent next rules).value[index]? = some flat ∧
      flat = { rule with clauses := flat.clauses } ∧ flat.clauses.length = rule.clauses.length := by
  induction rules generalizing next with
  | nil => cases hflat
  | cons first rest ih =>
    rcases List.mem_cons.1 hflat with rfl | hflat
    · exact ⟨0, first, rfl, rfl, rfl, length_value_clauses parent next first.clauses⟩
    · obtain ⟨index, rule, hrule, hvalue, heq, hlength⟩ := ih hflat
      exact ⟨index + 1, rule, hrule, hvalue, heq, hlength⟩

theorem length_value_rules (parent : String) (rules : List (Rule K R)) (next : Nat) :
    (Flat.rules parent next rules).value.length = rules.length := by
  induction rules generalizing next with
  | nil => rfl
  | cons first rest ih => simp [Flat.rules, ih]

end Flat

namespace Grammar

/-- The rules that groups and choices become. -/
def partRules (grammar : Grammar K R) : List (String × Rule K R) :=
  grammar.nonTerminals.flatMap fun nonTerminal => (Flat.nonTerminal nonTerminal).rules

/-- The names that are made up for the groups and choices of a grammar. -/
def partNames (grammar : Grammar K R) : List String := grammar.partRules.map Prod.fst

variable {grammar : Grammar K R}

/-- The rules of parts are made of the rules of a name, taken together. -/
theorem mem_partRules {entry : String × Rule K R} :
    entry ∈ grammar.partRules ↔ ∃ parent, entry ∈
      (Flat.rules parent 0 (grammar.rulesOf parent)).rules := by
  simp only [partRules, List.mem_flatMap, Flat.nonTerminal]
  constructor
  · rintro ⟨nonTerminal, hmem, hentry⟩
    exact ⟨nonTerminal.name, by rwa [rulesOf_name hmem]⟩
  · rintro ⟨parent, hentry⟩
    cases hfind : grammar.find? parent with
    | none => simp [rulesOf, hfind, Flat.rules] at hentry
    | some nonTerminal =>
      obtain ⟨hmem, rfl⟩ := find?_eq_some_iff.1 hfind
      exact ⟨nonTerminal, hmem, by rwa [← rulesOf_name hmem]⟩

/-- Under a name stand the flat rules of its own, and behind them those of parts
    that are called like it. -/
theorem rulesOf_flatten (grammar : Grammar K R) (name : String) :
    grammar.flatten.rulesOf name = (Flat.rules name 0 (grammar.rulesOf name)).value ++
      (grammar.partRules.filter fun entry => entry.1 = name).map Prod.snd := by
  rw [flatten, rulesOf_addAll, rulesOf_map]
  congr 1
  rw [rulesOf]
  cases hfind : grammar.find? name with
  | none => rfl
  | some nonTerminal =>
    obtain ⟨-, rfl⟩ := find?_eq_some_iff.1 hfind
    rfl

/-- A flat grammar consists of the flat rules and of the parts. -/
theorem mem_rules_flatten {name : String} {rule : Rule K R} :
    (name, rule) ∈ grammar.flatten.rules ↔
      rule ∈ (Flat.rules name 0 (grammar.rulesOf name)).value ∨
      (name, rule) ∈ grammar.partRules := by
  simp [mem_rules_iff_mem_rulesOf, rulesOf_flatten]

/-- A rule of the flat grammar is one of the rules before, in its place and with
    flat clauses, or it is a part. -/
theorem exists_of_mem_rules_flatten {name : String} {flat : Rule K R}
    (hflat : (name, flat) ∈ grammar.flatten.rules) :
    (∃ (index : Nat) (rule : Rule K R), grammar.rule? name index = some rule ∧
        grammar.flatten.rule? name index = some flat ∧
        flat = { rule with clauses := flat.clauses } ∧
          flat.clauses.length = rule.clauses.length) ∨
      (∃ members, flat.IsGroupOf members) ∨ ∃ clause, flat.IsAlternativeOf clause := by
  rcases mem_rules_flatten.1 hflat with hvalue | hpart
  · obtain ⟨index, rule, hrule, hindex, hsame, hlength⟩ :=
      Flat.exists_of_mem_value_rules name hvalue
    refine Or.inl ⟨index, rule, (rule?_eq_getElem? ..).trans hrule, ?_, hsame, hlength⟩
    rw [rule?_eq_getElem?, rulesOf_flatten,
      List.getElem?_append_left (List.getElem?_eq_some_iff.1 hindex).1, hindex]
  · obtain ⟨parent, hentry⟩ := mem_partRules.1 hpart
    exact Or.inr (Flat.rules_parts parent _ 0 _ hentry)

/-- Whether no rule of the grammar has the name of a part of `parent`. -/
def PartsAreNew (grammar : Grammar K R) (parent : String) : Prop :=
  ∀ entry ∈ (Flat.rules parent 0 (grammar.rulesOf parent)).rules, grammar.rulesOf entry.1 = []

/-- If no rule had the names of the parts before, these have no rules but their own. -/
theorem PartsAreNew.owns {parent : String} (hnew : grammar.PartsAreNew parent) :
    grammar.flatten.Owns (Flat.rules parent 0 (grammar.rulesOf parent)).rules := by
  rintro ⟨name, rule⟩ hname
  obtain ⟨same, hsame, rfl⟩ := List.mem_map.1 hname
  refine ⟨fun hentry => ?_, fun hentry => mem_rules_flatten.2
    (Or.inr (mem_partRules.2 ⟨parent, hentry⟩))⟩
  rcases mem_rules_flatten.1 hentry with hvalue | hpart
  · rw [hnew same hsame] at hvalue
    cases hvalue
  · obtain ⟨other, hother⟩ := mem_partRules.1 hpart
    obtain ⟨number, -, -, hnumber⟩ := (Flat.rules_numbered parent (grammar.rulesOf parent) 0).2 same
      hsame
    obtain ⟨count, -, -, hcount⟩ := (Flat.rules_numbered other (grammar.rulesOf other) 0).2 _ hother
    obtain ⟨rfl, -⟩ := hnumber.inj hcount
    exact hother

/-- The rules of a non-terminal are still there, in the same places and with
    clauses that stand for the original ones. -/
theorem exists_rule?_flatten {name : String} (hnew : grammar.PartsAreNew name) {index : Nat}
    {rule : Rule K R} (hrule : grammar.rule? name index = some rule) :
    ∃ flats, grammar.flatten.rule? name index = some { rule with clauses := flats } ∧
      grammar.flatten.Stands rule.clauses flats := by
  rw [rule?_eq_getElem?] at hrule
  obtain ⟨flats, hvalue, hstands⟩ := Flat.rules_stands name hnew.owns hrule
  refine ⟨flats, ?_, hstands⟩
  rw [rule?_eq_getElem?, rulesOf_flatten, List.getElem?_append_left
    (List.getElem?_eq_some_iff.1 hvalue).1, hvalue]

/-- Each rule of a non-terminal is still there, with clauses that stand for the
    original ones. -/
theorem exists_stands_of_mem_rules {name : String} (hnew : grammar.PartsAreNew name)
    {rule : Rule K R} (hrule : (name, rule) ∈ grammar.rules) :
    ∃ flats, (name, { rule with clauses := flats }) ∈ grammar.flatten.rules ∧
      grammar.flatten.Stands rule.clauses flats := by
  obtain ⟨index, hindex⟩ := List.mem_iff_getElem?.1 (mem_rules_iff_mem_rulesOf.1 hrule)
  rw [← rule?_eq_getElem?] at hindex
  obtain ⟨flats, hflats, hstands⟩ := exists_rule?_flatten hnew hindex
  exact ⟨flats, mem_rules_of_rule? hflats, hstands⟩

/-- What is not called like a part has the rules it had, with clauses that stand
    for the original ones. -/
theorem exists_of_rule?_flatten {name : String} (hname : name ∉ grammar.partNames)
    (hnew : grammar.PartsAreNew name) {index : Nat} {flat : Rule K R}
    (hflat : grammar.flatten.rule? name index = some flat) :
    ∃ rule flats, grammar.rule? name index = some rule ∧ flat = { rule with clauses := flats } ∧
      grammar.flatten.Stands rule.clauses flats := by
  have hparts : grammar.partRules.filter (fun entry => entry.1 = name) = [] := by
    refine List.filter_eq_nil_iff.2 fun entry hentry => ?_
    simpa using fun heq => hname (List.mem_map.2 ⟨entry, hentry, heq⟩)
  have hindex := hflat
  rw [rule?_eq_getElem?, rulesOf_flatten, hparts, List.map_nil, List.append_nil] at hindex
  have hlt := (List.getElem?_eq_some_iff.1 hindex).1
  rw [Flat.length_value_rules] at hlt
  have hrule : grammar.rule? name index = some (grammar.rulesOf name)[index] := by
    rw [rule?_eq_getElem?, List.getElem?_eq_getElem hlt]
  obtain ⟨flats, hflats, hstands⟩ := exists_rule?_flatten hnew hrule
  exact ⟨_, flats, hrule, Option.some.inj (hflat.symm.trans hflats), hstands⟩

end Grammar

end GrammarKit
