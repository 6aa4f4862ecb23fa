import GrammarKit.Proofs.Automaton.Embedding
import GrammarKit.Proofs.Lexer.Assembled
import GrammarKit.Proofs.Lexer.Steps

namespace GrammarKit.Lexer

open Automaton

variable {K : Type}

section Codes

theorem append_subset_append {α : Type} {front few back more : List α} (hfront : front ⊆ few)
    (hback : back ⊆ more) :
    front ++ back ⊆ few ++ more :=
  List.append_subset.2
    ⟨List.subset_append_of_subset_left _ hfront, List.subset_append_of_subset_right _ hback⟩

theorem map_code_ite_subset {p q : Prop} [Decidable p] [Decidable q] (himp : p → q)
    (problems : List (Problem K)) :
    (if p then problems else []).map Problem.code ⊆ (if q then problems else []).map
      Problem.code := by
  split
  · next hp =>
    rw [if_pos (himp hp)]
    exact List.Subset.refl _
  · exact List.nil_subset _

/-- A delimiter has an owner if some literal has it. -/
theorem isSome_ownerOf?_iff {declared : List (K × Char × Char)} {delimiter : Char} :
    (ownerOf? declared delimiter).isSome = true ↔ delimiter ∈ declared.map fun entry =>
      entry.2.1 := by
  simp [ownerOf?, List.find?_isSome]

/-- What is wrong with literals among fewer of them is wrong among more. -/
theorem code_delimiterProblems_subset {before earlier few more : List (K × Char × Char)}
    (hbefore : (before.map fun entry => entry.2.1) ⊆ earlier.map fun entry => entry.2.1)
    (hsub : few.Sublist more) :
    (delimiterProblems before few).map Problem.code ⊆ (delimiterProblems earlier more).map
      Problem.code := by
  induction hsub generalizing before earlier with
  | slnil => exact List.nil_subset _
  | cons literal _ ih =>
    rw [delimiterProblems, List.map_append]
    refine List.subset_append_of_subset_right _ (ih ?_)
    rw [List.map_append]
    exact List.subset_append_of_subset_left _ hbefore
  | cons_cons literal _ ih =>
    simp only [delimiterProblems, List.map_append]
    refine append_subset_append (append_subset_append ?_ (List.Subset.refl _)) (ih ?_)
    · cases howner : ownerOf? before literal.2.1 with
      | none => exact List.nil_subset _
      | some first =>
        obtain ⟨other, hother⟩ := Option.isSome_iff_exists.1
          (isSome_ownerOf?_iff.2
            (hbefore (isSome_ownerOf?_iff.1 (Option.isSome_of_eq_some howner))))
        rw [hother]
        exact List.Subset.refl _
    · simp only [List.map_append]
      exact append_subset_append hbefore (List.Subset.refl _)

/-- What is wrong with sugars among fewer of them is wrong among more. -/
theorem code_sugarProblems_subset {delimiters larger : List Char}
    (hdelimiters : delimiters ⊆ larger) {before earlier : List String} (hbefore : before ⊆ earlier)
    {few more : List (K × String)} (hsub : few.Sublist more) :
    (sugarProblems delimiters before few).map Problem.code ⊆ (sugarProblems larger earlier more).map
      Problem.code := by
  induction hsub generalizing before earlier with
  | slnil => exact List.nil_subset _
  | cons sugar _ ih =>
    rw [sugarProblems, List.map_append]
    exact List.subset_append_of_subset_right _ (ih (List.subset_append_of_subset_left _ hbefore))
  | cons_cons sugar _ ih =>
    simp only [sugarProblems, List.map_append]
    refine append_subset_append (append_subset_append (append_subset_append (List.Subset.refl _) ?_)
      ?_) (ih (append_subset_append hbefore (List.Subset.refl _)))
    · refine map_code_ite_subset (fun hmarked => ?_) _
      obtain ⟨c, hc, hmem⟩ := (Option.any_eq_true _ _).1 hmarked
      exact (Option.any_eq_true _ _).2 ⟨c, hc,
        List.contains_iff_mem.2 (hdelimiters (List.contains_iff_mem.1 hmem))⟩
    · exact map_code_ite_subset (fun hknown =>
        List.contains_iff_mem.2 (hbefore (List.contains_iff_mem.1 hknown))) _

end Codes

namespace Families

/-- Whether one lexer declares, family by family, what another declares and perhaps more. -/
structure IsPartOf (few more : Families K) : Prop where
  identifier : few.identifier.isSome = true → more.identifier.isSome = true
  int : few.int.isSome = true → more.int.isSome = true
  double : few.double.isSome = true → more.double.isSome = true
  keywords : few.keywords.Sublist more.keywords
  sugars : few.sugars.Sublist more.sugars
  strings : few.strings.Sublist more.strings
  chars : few.chars.Sublist more.chars
  comments : few.comments.Sublist more.comments

namespace IsPartOf

variable {few more : Families K} (hpart : few.IsPartOf more)

include hpart

/-- What is wrong with fewer families is wrong with more. -/
theorem code_problems_subset (options : LexerOptions) :
    (few.problems options).map Problem.code ⊆ (more.problems options).map Problem.code := by
  have hliterals := hpart.strings.append hpart.chars
  have hdelimiters := (hliterals.map fun entry => entry.2.1).subset
  simp only [List.map_append] at hdelimiters
  simp only [problems, List.map_append]
  refine append_subset_append (append_subset_append (append_subset_append ?_ ?_) ?_) ?_
  · exact code_delimiterProblems_subset (List.Subset.refl _) hliterals
  · exact code_sugarProblems_subset hdelimiters (List.Subset.refl _) hpart.sugars
  · exact ((hpart.comments.filterMap _).map _).subset
  · exact ((hpart.keywords.filterMap _).map _).subset

theorem literals_subset : few.literals ⊆ more.literals :=
  ((hpart.strings.map _).append (hpart.chars.map _)).subset

/-- Words that are declared stay declared. -/
theorem isSome_wordPlaceholder? (hword : few.wordPlaceholder?.isSome = true) :
    more.wordPlaceholder?.isSome = true := by
  rw [wordPlaceholder?, Option.isSome_or, Bool.or_eq_true, Option.isSome_map, List.isSome_head?]
    at hword ⊢
  refine hword.imp hpart.identifier fun hkeywords hnone => hkeywords ?_
  have hsub := hpart.keywords
  rwa [hnone, List.sublist_nil] at hsub

/-- Numbers that are declared stay declared. -/
theorem isSome_number (hnumber : (few.int.or few.double).isSome = true) :
    (more.int.or more.double).isSome = true := by
  rw [Option.isSome_or, Bool.or_eq_true] at hnumber ⊢
  exact hnumber.imp hpart.int hpart.double

end IsPartOf

/-- Declarations are sorted one after the other. -/
theorem insertAll_append (families : Families K) (first second : List (K × Family K)) :
    families.insertAll (first ++ second) =
      (((families.insertAll first).1.insertAll second).1,
        (families.insertAll first).2 ++ ((families.insertAll first).1.insertAll second).2) := by
  induction first generalizing families with
  | nil => rfl
  | cons declaration first ih =>
    simp only [List.cons_append, insertAll, ih, List.append_assoc]

/-- A family that was declared stays declared. -/
theorem isSome_kindOf?_insertAll {families : Families K} {family : Family K}
    (hkind : (families.kindOf? family).isSome = true) (declarations : List (K × Family K)) :
    ((families.insertAll declarations).1.kindOf? family).isSome = true := by
  induction declarations generalizing families with
  | nil => exact hkind
  | cons declaration declarations ih =>
    obtain ⟨kind, added⟩ := declaration
    refine @ih (families.insert kind added).1 ?_
    cases family <;> cases added <;> simp_all [kindOf?, insert]

/-- Declarations that are added take nothing away. -/
theorem isPartOf_insertAll (families : Families K) (declarations : List (K × Family K)) :
    families.IsPartOf (families.insertAll declarations).1 := by
  obtain ⟨hkeywords, hsugars, hstrings, hchars, hcomments, -⟩ :=
    families.insertAll_lists declarations
  exact {
    identifier := fun hkind => @isSome_kindOf?_insertAll _ _ .identifier hkind declarations
    int := fun hkind => @isSome_kindOf?_insertAll _ _ .int hkind declarations
    double := fun hkind => @isSome_kindOf?_insertAll _ _ .double hkind declarations
    keywords := hkeywords ▸ List.sublist_append_left _ _
    sugars := hsugars ▸ List.sublist_append_left _ _
    strings := hstrings ▸ List.sublist_append_left _ _
    chars := hchars ▸ List.sublist_append_left _ _
    comments := hcomments ▸ List.sublist_append_left _ _ }

end Families

namespace Layout

variable {few more : Families K} {options : LexerOptions} {smaller larger : Drawing Spot K}

/-- The only step of words and numbers that a followed word could take. -/
theorem follow?_closed {families : Families K} {content : Content K} {drawing : Drawing Spot K}
    (hlayout : Layout families options content drawing) {spot : Spot} (hspot : ¬spot.IsOpen)
    (c : Char) :
    drawing.follow? spot c =
      if spot = .whole ∧ families.double.isSome ∧ c = options.decimalSeparator then some .point
      else none := by
  rw [Drawing.follow?, hlayout.arrowsFrom_closed spot hspot, Families.base, Addition.append,
    Addition.append, Families.wordAddition, Families.wholeAddition, Families.fractionAddition]
  have hstart : spot ≠ .start := fun heq => hspot (heq ▸ .path [])
  cases spot with
  | path | literal => exact absurd (by constructor) hspot
  | word | whole | point | fraction =>
    by_cases hseparator : c = options.decimalSeparator <;> cases families.wordPlaceholder? <;>
      cases families.int <;>
      cases families.double <;> simp [Spot.start, hseparator, eq_comm]

/-- The words that are followed before comments are the sugars. -/
theorem mem_words_iff {families : Families K} {word : List Char} :
    word ∈ Content.words
        ({ sugars := families.sugars, literals := families.literals } : Content K) ↔
      ∃ entry ∈ families.sugars, entry.2.toList = word := by
  simp [Content.words]

/-- Sugars do not begin with the delimiters of literals. -/
theorem head?_ne_of_mem_words {families : Families K} (hsound : families.IsSound options)
    {form : LiteralForm K} (hform : form ∈ families.literals) :
    ∀ word ∈ Content.words
        ({ sugars := families.sugars, literals := families.literals } : Content K),
      word.head? ≠ some form.delimiter := by
  intro word hword hhead
  obtain ⟨entry, hentry, rfl⟩ := mem_words_iff.1 hword
  exact hsound.not_startsIn entry hentry ⟨form.delimiter, hhead, List.mem_map_of_mem hform⟩

/-- The first part of a sugar leads to the node named after it. -/
theorem trace?_of_isPrefix {families : Families K} (hsound : families.IsSound options)
    {drawing : Drawing Spot K}
    (hlayout : Layout families options
      { sugars := families.sugars, literals := families.literals } drawing)
    {entry : K × String} (hentry : entry ∈ families.sugars) {text : List Char}
    (hpre : text <+: entry.2.toList) : drawing.trace? .start text = some (.path text) := by
  obtain ⟨rest, hrest⟩ := hpre
  have htrace := hlayout.sugars entry hentry
  have hclean := hsound.not_startsIn entry hentry
  rw [← hrest] at htrace hclean
  rw [Drawing.trace?_append] at htrace
  obtain ⟨middle, hmiddle, -⟩ := Option.bind_eq_some_iff.1 htrace
  obtain rfl : middle = .path text := by
    refine hlayout.branches.eq_path_of_trace? (fun hstarts => hclean ?_) hmiddle
    obtain ⟨c, hc, hmem⟩ := hstarts
    exact ⟨c, by rw [List.head?_append, Option.mem_def.1 hc]; rfl, hmem⟩
  exact hmiddle

/-- Words that are followed in the automaton of fewer families are followed to
    the same places in that of more. -/
theorem follow?_mono (hpart : few.IsPartOf more) (hfew : few.IsSound options)
    (hmore : more.IsSound options) {builder : Builder K} (hshows : Shows builder smaller)
    (hsmaller : Layout few options { sugars := few.sugars, literals := few.literals } smaller)
    (hlarger : Layout more options { sugars := more.sugars, literals := more.literals } larger)
    (spot : Spot) (c : Char) (target : Spot) (hfollow : smaller.follow? spot c = some target) :
    larger.follow? spot c = some target := by
  have harrow := Drawing.mem_of_follow? hfollow
  cases spot with
  | word | whole | point | fraction =>
    rw [hsmaller.follow?_closed (by nofun)] at hfollow
    rw [hlarger.follow?_closed (by nofun)]
    split at hfollow
    · next hstep =>
      rw [if_pos ⟨hstep.1, hpart.double hstep.2.1, hstep.2.2⟩]
      exact hfollow
    · cases hfollow
  | literal delimiter phase =>
    obtain ⟨form, hform, rfl⟩ := List.mem_map.1
      (hsmaller.literals delimiter phase (hshows.source_mem _ harrow))
    have hkept := hpart.literals_subset hform
    rw [Drawing.follow?, hsmaller.arrowsFrom_literal hform (head?_ne_of_mem_words hfew hform)]
      at hfollow
    rw [Drawing.follow?, hlarger.arrowsFrom_literal hkept (head?_ne_of_mem_words hmore hkept)]
    exact hfollow
  | path text =>
    by_cases hstarts : StartsIn few.delimiters (text ++ [c])
    · -- No word begins with a delimiter, so only the start node has an edge for one.
      by_cases hne : text = []
      · subst hne
        obtain ⟨form, hform, rfl⟩ := List.mem_map.1 (startsIn_cons.1 hstarts)
        rw [← hfollow]
        exact (hlarger.opened form (hpart.literals_subset hform)).trans
          (hsmaller.opened form hform).symm
      · obtain ⟨word, hword, hpre⟩ := hsmaller.paths text (hshows.source_mem _ harrow) hne
        obtain ⟨entry, hentry, rfl⟩ := mem_words_iff.1 hword
        obtain ⟨rest, hrest⟩ := hpre
        rw [startsIn_append_of_ne_nil hne] at hstarts
        refine absurd ?_ (hfew.not_startsIn entry hentry)
        rwa [← hrest, startsIn_append_of_ne_nil hne]
    · obtain rfl := hsmaller.branches.straight _ harrow text c rfl rfl hstarts
      obtain ⟨word, hword, hpre⟩ := hsmaller.paths _ (hshows.target_mem harrow) (by simp)
      obtain ⟨entry, hentry, rfl⟩ := mem_words_iff.1 hword
      have hkept := hpart.sugars.subset hentry
      have htrace := trace?_of_isPrefix hmore hlarger hkept hpre
      have hbefore := trace?_of_isPrefix hmore hlarger hkept
        ((List.prefix_append text [c]).trans hpre)
      rw [Drawing.trace?_concat, hbefore] at htrace
      exact htrace

/-- Where tokens end in the automaton of fewer families they end in that of more. -/
theorem isSome_kind?_mono (hpart : few.IsPartOf more)
    (hsmaller : Layout few options { sugars := few.sugars, literals := few.literals } smaller)
    (hlarger : Layout more options { sugars := more.sugars, literals := more.literals } larger)
    (spot : Spot) (hend : (smaller.kind? spot).isSome = true) :
    (larger.kind? spot).isSome = true := by
  obtain ⟨kind, hkind⟩ := Option.isSome_iff_exists.1 hend
  have hends {found : K}
      (hfound : Ends more { sugars := more.sugars, literals := more.literals } spot found) :
      (larger.kind? spot).isSome = true :=
    Option.isSome_of_eq_some ((hlarger.kind spot found).2 hfound)
  cases (hsmaller.kind spot kind).1 hkind with
  | word hword =>
    obtain ⟨found, hfound⟩ := Option.isSome_iff_exists.1
      (hpart.isSome_wordPlaceholder? (Option.isSome_of_eq_some hword))
    exact hends (.word hfound)
  | whole hwhole =>
    obtain ⟨found, hfound⟩ := Option.isSome_iff_exists.1
      (hpart.isSome_number (Option.isSome_of_eq_some hwhole))
    exact hends (.whole hfound)
  | fraction hdouble =>
    obtain ⟨found, hfound⟩ := Option.isSome_iff_exists.1
      (hpart.double (Option.isSome_of_eq_some hdouble))
    exact hends (.fraction hfound)
  | sugar hsugar => exact hends (.sugar (hpart.sugars.subset hsugar))
  | literal hliteral => exact hends (.literal (hpart.literals_subset hliteral))
  | marker hmarker => cases hmarker

end Layout

namespace Families

/-- The automaton of fewer families is found in that of more. -/
theorem IsPartOf.exists_embeds {few more : Families K} {options : LexerOptions}
    (hpart : few.IsPartOf more) (hfew : few.IsSound options) (hmore : more.IsSound options) :
    ∃ place, Builder.Embeds place (few.assembled options) (more.assembled options) := by
  obtain ⟨first, smaller, hfirst, hshows, hsmaller⟩ := Layout.exists_assembled hfew
  obtain ⟨second, larger, hsecond, hshown, hlarger⟩ := Layout.exists_assembled hmore
  have hwell := few.isWellFormed_assembled options
  rw [assembled, hfirst] at hwell ⊢
  rw [assembled, hsecond]
  exact hshows.exists_embeds hshown hwell hsmaller.first hlarger.first
    (Layout.follow?_mono hpart hfew hmore hshows hsmaller hlarger)
    (Layout.isSome_kind?_mono hpart hsmaller hlarger)

end Families

end GrammarKit.Lexer
