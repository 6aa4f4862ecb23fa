import GrammarKit.SyntaxTree
import Mathlib.Data.List.Basic

namespace GrammarKit.SyntaxTree

variable {K : Type}

/-- Whether a reduction comes to the part of a tree at an address, which lists
    the places among the children on the way from the root. It enters all
    children of repetitions and options, and of those of a node the ones that
    are not discarded. -/
inductive Reaches : SyntaxTree K → List Nat → SyntaxTree K → Prop
  | root (tree : SyntaxTree K) : Reaches tree [] tree
  | many {shape : Shape} {children : List (SyntaxTree K)} {discarded : Bool} {place : Nat}
      {child part : SyntaxTree K} {path : List Nat} :
      children[place]? = some child → Reaches child path part →
        Reaches (.many shape children discarded) (place :: path) part
  | present {shape : Shape} {discarded : Bool} {child part : SyntaxTree K} {path : List Nat} :
      Reaches child path part → Reaches (.present shape child discarded) (0 :: path) part
  | node {label : NodeLabel K} {children : List (SyntaxTree K)} {place : Nat}
      {child part : SyntaxTree K} {path : List Nat} : children[place]? = some child →
        child.isDiscarded = false → Reaches child path part →
        Reaches (.node label children) (place :: path) part

/-- The children that a node is reduced with. -/
def shown (children : List (SyntaxTree K)) : List (SyntaxTree K) :=
  children.filter fun child => !child.isDiscarded

/-- Whether a node is reduced by a reducer: it is no group, and it does not just
    pass a single argument on. -/
def isReduced (label : NodeLabel K) (children : List (SyntaxTree K)) : Bool :=
  !label.isGroup && !(label.isBypass && (shown children).length == 1)

/-- Whether one address comes before another in post-order, from left to right. -/
inductive Precedes : List Nat → List Nat → Prop
  | inside (place : Nat) (path : List Nat) : Precedes (place :: path) []
  | left {place other : Nat} (path way : List Nat) : place < other →
      Precedes (place :: path) (other :: way)
  | under {path way : List Nat} (place : Nat) : Precedes path way →
      Precedes (place :: path) (place :: way)

/-- No address comes before itself. -/
theorem Precedes.ne {path way : List Nat} (hprecedes : Precedes path way) : path ≠ way := by
  induction hprecedes with
  | inside => nofun
  | left _ _ hlt =>
    intro heq
    exact Nat.ne_of_lt hlt (List.cons.inj heq).1
  | under _ _ ih =>
    intro heq
    exact ih (List.cons.inj heq).2

mutual

/-- The nodes that are reduced by reducers, with their addresses, from left to
    right and those below a node before it. -/
def reduced : SyntaxTree K → List (List Nat × NodeLabel K)
  | leaf .. => []
  | node label children =>
    reducedAmong (fun child => !child.isDiscarded) 0 children ++
      if isReduced label children then [([], label)] else []
  | many _ children _ => reducedAmong (fun _ => true) 0 children
  | present _ child _ => (reduced child).map fun (path, label) => (0 :: path, label)
  | absent .. => []

/-- Those below the children that are entered, where the first of them has the given place. -/
def reducedAmong (isEntered : SyntaxTree K → Bool) (place : Nat) :
    List (SyntaxTree K) → List (List Nat × NodeLabel K)
  | [] => []
  | child :: rest =>
    (if isEntered child then (reduced child).map fun (path, label) => (place :: path, label)
      else []) ++ reducedAmong isEntered (place + 1) rest

end

/-- The nodes below children are those below each that is entered, at its place. -/
theorem mem_reducedAmong_iff {isEntered : SyntaxTree K → Bool} {children : List (SyntaxTree K)}
    {first : Nat} {path : List Nat} {label : NodeLabel K} :
    (path, label) ∈ reducedAmong isEntered first children ↔
      ∃ place child below, children[place]? = some child ∧ isEntered child = true ∧
        path = (first + place) :: below ∧
        (below, label) ∈ reduced child := by
  induction children generalizing first with
  | nil => simp [reducedAmong]
  | cons child rest ih =>
    rw [reducedAmong, List.mem_append, ih]
    constructor
    · rintro (hmem | ⟨place, other, below, hother, hentered, rfl, hmem⟩)
      · rw [List.mem_ite_nil_right, List.mem_map] at hmem
        obtain ⟨hentered, ⟨below, _⟩, hmem, heq⟩ := hmem
        obtain ⟨rfl, rfl⟩ := Prod.mk.inj heq
        exact ⟨0, child, below, rfl, hentered, rfl, hmem⟩
      · refine ⟨place + 1, other, below, hother, hentered, ?_, hmem⟩
        rw [Nat.add_assoc, Nat.add_comm 1 place]
    · rintro ⟨place, other, below, hother, hentered, rfl, hmem⟩
      cases place with
      | zero =>
        obtain rfl := Option.some.inj hother
        rw [if_pos hentered]
        exact Or.inl (List.mem_map.2 ⟨(below, label), hmem, rfl⟩)
      | succ place =>
        refine Or.inr ⟨place, other, below, hother, hentered, ?_, hmem⟩
        rw [Nat.add_assoc, Nat.add_comm 1 place]

/-- A node that a reduction comes to is listed if it is reduced by a reducer. -/
theorem Reaches.mem_reduced {tree : SyntaxTree K} {path : List Nat} {label : NodeLabel K}
    {children : List (SyntaxTree K)} (hreaches : tree.Reaches path (.node label children))
    (hreduced : isReduced label children = true) :
    (path, label) ∈ reduced tree := by
  generalize hpart : SyntaxTree.node label children = part at hreaches
  induction hreaches with
  | root =>
    subst hpart
    rw [reduced, if_pos hreduced]
    exact List.mem_append_right _ (List.mem_singleton_self _)
  | many hchild _ ih =>
    rw [reduced]
    exact mem_reducedAmong_iff.2 ⟨_, _, _, hchild, rfl, by rw [Nat.zero_add], ih hpart⟩
  | present _ ih =>
    rw [reduced]
    exact List.mem_map.2 ⟨_, ih hpart, rfl⟩
  | node hchild hshown _ ih =>
    rw [reduced]
    refine List.mem_append_left _ (mem_reducedAmong_iff.2 ⟨_, _, _, hchild,
      ?_, by rw [Nat.zero_add], ih hpart⟩)
    rw [hshown]
    rfl

mutual

/-- Only nodes that a reduction comes to are listed. -/
theorem exists_reaches_of_mem_reduced :
    ∀ {tree : SyntaxTree K} {path : List Nat} {label : NodeLabel K},
    (path, label) ∈ reduced tree → ∃ children, tree.Reaches path (.node label children) ∧
    isReduced label children = true
  | .leaf .., _, _, hmem => absurd hmem List.not_mem_nil
  | .absent .., _, _, hmem => absurd hmem List.not_mem_nil
  | .present .., path, label, hmem => by
    obtain ⟨⟨below, _⟩, hbelow, heq⟩ := List.mem_map.1 hmem
    obtain ⟨rfl, rfl⟩ := Prod.mk.inj heq
    obtain ⟨children, hreaches, hreduced⟩ := exists_reaches_of_mem_reduced hbelow
    exact ⟨children, .present hreaches, hreduced⟩
  | .many _ items _, path, label, hmem => by
    obtain ⟨place, child, below, hchild, -, rfl, hbelow⟩ := mem_reducedAmong_iff.1 hmem
    obtain ⟨children, hreaches, hreduced⟩ :=
      exists_reaches_among (List.mem_of_getElem? hchild) hbelow
    rw [Nat.zero_add]
    exact ⟨children, .many hchild hreaches, hreduced⟩
  | .node outer items, path, label, hmem => by
    rw [reduced, List.mem_append, mem_reducedAmong_iff, List.mem_ite_nil_right, List.mem_singleton]
      at hmem
    obtain ⟨place, child, below, hchild, hshown, rfl, hbelow⟩ | ⟨hreduced, heq⟩ := hmem
    · obtain ⟨children, hreaches, hreduced⟩ :=
        exists_reaches_among (List.mem_of_getElem? hchild) hbelow
      rw [Nat.zero_add]
      exact ⟨children, .node hchild (by simpa using hshown) hreaches, hreduced⟩
    · obtain ⟨rfl, rfl⟩ := Prod.mk.inj heq
      exact ⟨items, .root _, hreduced⟩

theorem exists_reaches_among : ∀ {trees : List (SyntaxTree K)} {tree : SyntaxTree K}, tree ∈ trees →
    ∀ {path : List Nat} {label : NodeLabel K}, (path, label) ∈ reduced tree →
      ∃ children, tree.Reaches path (.node label children) ∧ isReduced label children = true
  | [], _, htree, _, _, _ => absurd htree List.not_mem_nil
  | first :: rest, tree, htree, path, label, hmem => by
    rcases List.mem_cons.1 htree with heq | htree
    · rw [heq] at hmem ⊢
      exact exists_reaches_of_mem_reduced hmem
    · exact exists_reaches_among htree hmem

end

/-- The nodes reduced by reducers are those that a reduction comes to and that
    are to be reduced so. -/
theorem mem_reduced_iff {tree : SyntaxTree K} {path : List Nat} {label : NodeLabel K} :
    (path, label) ∈ reduced tree ↔ ∃ children, tree.Reaches path (.node label children) ∧
    isReduced label children = true :=
  ⟨exists_reaches_of_mem_reduced, fun ⟨_, hreaches, hreduced⟩ => hreaches.mem_reduced hreduced⟩

/-- Whether nodes are listed in post-order. -/
def InPostOrder (entries : List (List Nat × NodeLabel K)) : Prop :=
  entries.Pairwise fun first second => Precedes first.1 second.1

/-- Addresses below one place are in the order that they were in. -/
theorem InPostOrder.below {entries : List (List Nat × NodeLabel K)} (hentries : InPostOrder entries)
    (place : Nat) :
    InPostOrder (entries.map fun (path, label) => (place :: path, label)) :=
  List.pairwise_map.2 (hentries.imp fun hprecedes => .under place hprecedes)

/-- The nodes below children are in post-order if those below each child are. -/
theorem inPostOrder_reducedAmong {isEntered : SyntaxTree K → Bool} {children : List (SyntaxTree K)}
    (hchildren : ∀ child ∈ children, InPostOrder (reduced child)) (first : Nat) :
    InPostOrder (reducedAmong isEntered first children) := by
  induction children generalizing first with
  | nil => exact .nil
  | cons child rest ih =>
    have hrest := ih (fun other hother => hchildren other (List.mem_cons_of_mem _ hother))
      (first + 1)
    rw [reducedAmong]
    refine List.pairwise_append.2 ⟨?_, hrest, ?_⟩
    · split
      · exact (hchildren child List.mem_cons_self).below first
      · exact .nil
    · rintro ⟨path, label⟩ hpath ⟨way, other⟩ hway
      rw [List.mem_ite_nil_right, List.mem_map] at hpath
      obtain ⟨-, ⟨below, _⟩, -, heq⟩ := hpath
      obtain ⟨rfl, rfl⟩ := Prod.mk.inj heq
      obtain ⟨place, _, under, -, -, rfl, -⟩ := mem_reducedAmong_iff.1 hway
      exact .left below under (by omega)

mutual

/-- The nodes of a tree are listed in post-order. -/
theorem inPostOrder_reduced : ∀ tree : SyntaxTree K, InPostOrder (reduced tree)
  | .leaf .. | .absent .. => .nil
  | .present _ child _ => (inPostOrder_reduced child).below 0
  | .many _ children _ => inPostOrder_reducedAmong (inPostOrder_reduced_of_mem children) 0
  | .node label children => by
    rw [reduced]
    refine List.pairwise_append.2 ⟨inPostOrder_reducedAmong (inPostOrder_reduced_of_mem children) 0,
      ?_, ?_⟩
    · split
      · exact List.pairwise_singleton ..
      · exact .nil
    · rintro ⟨path, inner⟩ hpath ⟨way, other⟩ hway
      rw [List.mem_ite_nil_right, List.mem_singleton] at hway
      obtain ⟨-, heq⟩ := hway
      obtain ⟨rfl, rfl⟩ := Prod.mk.inj heq
      obtain ⟨place, _, below, -, -, rfl, -⟩ := mem_reducedAmong_iff.1 hpath
      exact .inside _ below

theorem inPostOrder_reduced_of_mem :
    ∀ (trees : List (SyntaxTree K)), ∀ tree ∈ trees, InPostOrder (reduced tree)
  | [], _, htree => absurd htree List.not_mem_nil
  | first :: rest, tree, htree => by
    rcases List.mem_cons.1 htree with heq | htree
    · rw [heq]
      exact inPostOrder_reduced first
    · exact inPostOrder_reduced_of_mem rest tree htree

end

/-- A reduction comes to nothing at or below a discarded child of a node. -/
theorem Reaches.isDiscarded_eq_false {tree parent child part : SyntaxTree K} {label : NodeLabel K}
    {children : List (SyntaxTree K)} {above below : List Nat} {place : Nat}
    (hparent : tree.Reaches above parent) (hnode : parent = .node label children)
    (hchild : children[place]? = some child) (hpart : tree.Reaches (above ++ place :: below) part) :
    child.isDiscarded = false := by
  induction hparent with
  | root =>
    subst hnode
    cases hpart with
    | node hsame hshown _ =>
      obtain rfl := Option.some.inj (hchild.symm.trans hsame)
      exact hshown
  | many hitem _ ih =>
    cases hpart with
    | many hsame hpart =>
      obtain rfl := Option.some.inj (hitem.symm.trans hsame)
      exact ih hnode hpart
  | present _ ih =>
    cases hpart with
    | present hpart => exact ih hnode hpart
  | node hitem _ _ ih =>
    cases hpart with
    | node hsame _ hpart =>
      obtain rfl := Option.some.inj (hitem.symm.trans hsame)
      exact ih hnode hpart

end GrammarKit.SyntaxTree
