import GrammarKit.Kind

namespace GrammarKit

/-- A set of token kinds, kept as the list of its members in alphabet order. The
    order carries no information, so two sets with the same members are
    equal. -/
structure KindSet (K : Type) [DecidableEq K] [TokenKind K] where
  toList : List K
  toList_ordered : toList = TokenKind.all.filter (· ∈ toList)

namespace KindSet

variable {K : Type} [DecidableEq K] [TokenKind K]

instance : Membership K (KindSet K) where
  mem set kind := kind ∈ set.toList

instance (kind : K) (set : KindSet K) : Decidable (kind ∈ set) :=
  inferInstanceAs (Decidable (kind ∈ set.toList))

theorem eq_of_toList_eq : ∀ {a b : KindSet K}, a.toList = b.toList → a = b
  | ⟨_, _⟩, ⟨_, _⟩, rfl => rfl

instance : DecidableEq (KindSet K) := fun a b =>
  decidable_of_iff (a.toList = b.toList) ⟨eq_of_toList_eq, congrArg toList⟩

theorem mem_toList {set : KindSet K} {kind : K} : kind ∈ set.toList ↔ kind ∈ set := Iff.rfl

theorem ext {a b : KindSet K} (h : ∀ kind, kind ∈ a ↔ kind ∈ b) : a = b := by
  apply eq_of_toList_eq
  rw [a.toList_ordered, b.toList_ordered]
  exact List.filter_congr fun kind _ => decide_eq_decide.2 (h kind)

/-- The kinds that satisfy a test. -/
def ofPred (holds : K → Bool) : KindSet K where
  toList := TokenKind.all.filter holds
  toList_ordered := List.filter_congr fun kind hkind => by simp [hkind]

@[simp] theorem mem_ofPred {holds : K → Bool} {kind : K} :
    kind ∈ ofPred holds ↔ holds kind = true := by
  simp [← mem_toList, ofPred, TokenKind.mem_all]

def empty : KindSet K := ofPred fun _ => false

def singleton (kind : K) : KindSet K := ofPred (· = kind)

def union (a b : KindSet K) : KindSet K := ofPred fun kind => kind ∈ a || kind ∈ b

instance : EmptyCollection (KindSet K) := ⟨empty⟩

instance : Inhabited (KindSet K) := ⟨empty⟩

instance : Union (KindSet K) := ⟨union⟩

@[simp] theorem not_mem_empty (kind : K) : ¬ kind ∈ (∅ : KindSet K) := by
  show ¬ kind ∈ ofPred fun _ => false
  simp

@[simp] theorem mem_singleton {kind other : K} : kind ∈ singleton other ↔ kind = other := by
  simp [singleton]

@[simp] theorem mem_union {kind : K} {a b : KindSet K} : kind ∈ a ∪ b ↔ kind ∈ a ∨ kind ∈ b := by
  show kind ∈ ofPred _ ↔ _
  simp

def names (set : KindSet K) : List String :=
  set.toList.map TokenKind.name

end KindSet

end GrammarKit
