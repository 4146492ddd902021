import Mathlib.Algebra.Order.Ring.Nat
import Mathlib.Data.List.Pairwise

/-! Binary search trees without a balancing scheme. A tree is ordered when its
in-order sequence is, so any rebalancing that keeps the sequence keeps the tree
searchable. -/

namespace ZnsBase.Library

inductive SearchTree (α : Type) where
  | leaf
  | node (left : SearchTree α) (item : α) (right : SearchTree α)
  deriving DecidableEq, Repr

namespace SearchTree
variable {α κ : Type} [LinearOrder κ] (key : α → κ)

def inorder : SearchTree α → List α
  | .leaf => []
  | .node left item right => left.inorder ++ item :: right.inorder

/-- Descend to the item with this key. -/
def find (wanted : κ) : SearchTree α → Option α
  | .leaf => none
  | .node left item right =>
    if wanted < key item then find wanted left
    else if key item < wanted then find wanted right
    else some item

/-- Descend to the empty place of a new item and hang it there. -/
def link (added : α) : SearchTree α → SearchTree α
  | .leaf => .node .leaf added .leaf
  | .node left item right =>
    if key added < key item then .node (link added left) item right
    else if key item < key added then .node left item (link added right)
    else .node left item right

/-- The same descent, giving up at an item with the same key. -/
def linkNew (added : α) : SearchTree α → Option (SearchTree α)
  | .leaf => some (.node .leaf added .leaf)
  | .node left item right =>
    if key added < key item then (linkNew added left).map fun left => .node left item right
    else if key item < key added then (linkNew added right).map fun right => .node left item right
    else none

/-- Descend to the item with this key and change it in place. -/
def change (wanted : κ) (update : α → α) : SearchTree α → SearchTree α
  | .leaf => .leaf
  | .node left item right =>
    if wanted < key item then .node (change wanted update left) item right
    else if key item < wanted then .node left item (change wanted update right)
    else .node left (update item) right

def Ordered (tree : SearchTree α) : Prop := tree.inorder.Pairwise (fun first second => key first < key second)

variable {key}

private theorem ordered_node {left right : SearchTree α} {item : α} :
    Ordered key (.node left item right) ↔ Ordered key left ∧ Ordered key right ∧
      (∀ x ∈ left.inorder, key x < key item) ∧ (∀ x ∈ right.inorder, key item < key x) := by
  simp only [Ordered, inorder, List.pairwise_append, List.pairwise_cons, List.mem_cons, forall_eq_or_imp]
  constructor
  · rintro ⟨first, ⟨above, last⟩, across⟩
    exact ⟨first, last, fun x member => (across x member).1, above⟩
  · rintro ⟨first, last, below, above⟩
    exact ⟨first, ⟨above, last⟩, fun x member =>
      ⟨below x member, fun y later => (below x member).trans (above y later)⟩⟩

theorem find_eq_some_iff {tree : SearchTree α} (ordered : Ordered key tree) (wanted : κ) (found : α) :
    find key wanted tree = some found ↔ found ∈ tree.inorder ∧ key found = wanted := by
  induction tree with
  | leaf => simp [find, inorder]
  | node left item right leftIh rightIh =>
    obtain ⟨first, last, below, above⟩ := ordered_node.mp ordered
    simp only [find, inorder, List.mem_append, List.mem_cons]
    split
    next before =>
      rw [leftIh first]
      constructor
      · rintro ⟨member, same⟩
        exact ⟨Or.inl member, same⟩
      · rintro ⟨member | rfl | member, same⟩
        · exact ⟨member, same⟩
        · exact absurd same before.ne'
        · exact absurd same ((before.trans (above _ member)).ne')
    next notBefore =>
      split
      next after =>
        rw [rightIh last]
        constructor
        · rintro ⟨member, same⟩
          exact ⟨Or.inr (Or.inr member), same⟩
        · rintro ⟨member | rfl | member, same⟩
          · exact absurd same (((below _ member).trans after).ne)
          · exact absurd same after.ne
          · exact ⟨member, same⟩
      next notAfter =>
        have here : key item = wanted := le_antisymm (not_lt.mp notBefore) (not_lt.mp notAfter)
        constructor
        · rintro ⟨⟩
          exact ⟨Or.inr (Or.inl rfl), here⟩
        · rintro ⟨member | rfl | member, same⟩
          · exact absurd (same.trans here.symm) (below _ member).ne
          · rfl
          · exact absurd (same.trans here.symm) (above _ member).ne'

theorem find_eq_none_iff {tree : SearchTree α} (ordered : Ordered key tree) (wanted : κ) :
    find key wanted tree = none ↔ ∀ x ∈ tree.inorder, key x ≠ wanted := by
  rw [Option.eq_none_iff_forall_ne_some]
  constructor
  · intro absent x member same
    exact absent x ((find_eq_some_iff ordered wanted x).mpr ⟨member, same⟩)
  · intro absent x found
    obtain ⟨member, same⟩ := (find_eq_some_iff ordered wanted x).mp found
    exact absent x member same

/-- The two descents to a new place agree, ordered or not. -/
theorem linkNew_eq (tree : SearchTree α) (added : α) :
    linkNew key added tree = if (find key (key added) tree).isNone then some (link key added tree) else none := by
  induction tree with
  | leaf => rfl
  | node left item right leftIh rightIh =>
    simp only [linkNew, find, link]
    split
    · rw [leftIh]
      split <;> rfl
    split
    · rw [rightIh]
      split <;> rfl
    · rfl

theorem mem_link {tree : SearchTree α} {added : α} (absent : ∀ x ∈ tree.inorder, key x ≠ key added) (x : α) :
    x ∈ (link key added tree).inorder ↔ x = added ∨ x ∈ tree.inorder := by
  induction tree with
  | leaf => simp [link, inorder]
  | node left item right leftIh rightIh =>
    simp only [inorder, List.mem_append, List.mem_cons] at absent
    simp only [link]
    split
    next before =>
      simp only [inorder, List.mem_append, List.mem_cons,
        leftIh (fun y member => absent y (Or.inl member)), or_assoc]
    next notBefore =>
      split
      next after =>
        simp only [inorder, List.mem_append, List.mem_cons,
          rightIh (fun y member => absent y (Or.inr (Or.inr member)))]
        grind
      next notAfter =>
        exact absurd (le_antisymm (not_lt.mp notBefore) (not_lt.mp notAfter))
          (absent item (Or.inr (Or.inl rfl)))

theorem length_link {tree : SearchTree α} {added : α} (absent : ∀ x ∈ tree.inorder, key x ≠ key added) :
    (link key added tree).inorder.length = tree.inorder.length + 1 := by
  induction tree with
  | leaf => rfl
  | node left item right leftIh rightIh =>
    simp only [inorder, List.mem_append, List.mem_cons] at absent
    simp only [link]
    split
    next before =>
      simp only [inorder, List.length_append, List.length_cons,
        leftIh (fun y member => absent y (Or.inl member))]
      omega
    next notBefore =>
      split
      next after =>
        simp only [inorder, List.length_append, List.length_cons,
          rightIh (fun y member => absent y (Or.inr (Or.inr member)))]
        omega
      next notAfter =>
        exact absurd (le_antisymm (not_lt.mp notBefore) (not_lt.mp notAfter))
          (absent item (Or.inr (Or.inl rfl)))

theorem link_ordered {tree : SearchTree α} {added : α} (ordered : Ordered key tree)
    (absent : ∀ x ∈ tree.inorder, key x ≠ key added) : Ordered key (link key added tree) := by
  induction tree with
  | leaf => simp [link, Ordered, inorder]
  | node left item right leftIh rightIh =>
    obtain ⟨first, last, below, above⟩ := ordered_node.mp ordered
    simp only [inorder, List.mem_append, List.mem_cons] at absent
    have absentLeft : ∀ y ∈ left.inorder, key y ≠ key added := fun y member => absent y (Or.inl member)
    have absentRight : ∀ y ∈ right.inorder, key y ≠ key added := fun y member => absent y (Or.inr (Or.inr member))
    simp only [link]
    split
    next before =>
      refine ordered_node.mpr ⟨leftIh first absentLeft, last, ?_, above⟩
      intro x member
      rcases (mem_link absentLeft x).mp member with rfl | member
      · exact before
      · exact below x member
    next notBefore =>
      split
      next after =>
        refine ordered_node.mpr ⟨first, rightIh last absentRight, below, ?_⟩
        intro x member
        rcases (mem_link absentRight x).mp member with rfl | member
        · exact after
        · exact above x member
      next => exact ordered

/-- On an ordered tree the change reaches exactly the items with the key. -/
theorem inorder_change {tree : SearchTree α} (ordered : Ordered key tree) (wanted : κ) (update : α → α) :
    (change key wanted update tree).inorder =
      tree.inorder.map (fun x => if key x = wanted then update x else x) := by
  have untouched (items : List α) (apart : ∀ x ∈ items, key x ≠ wanted) :
      items.map (fun x => if key x = wanted then update x else x) = items := by
    exact (List.map_congr_left (fun x member => if_neg (apart x member))).trans (List.map_id' items)
  induction tree with
  | leaf => rfl
  | node left item right leftIh rightIh =>
    obtain ⟨first, last, below, above⟩ := ordered_node.mp ordered
    simp only [change]
    split
    next before =>
      have right := untouched right.inorder (fun x member => (before.trans (above x member)).ne')
      simp only [inorder, List.map_append, List.map_cons, leftIh first, right, before.ne', ite_false]
    next notBefore =>
      split
      next after =>
        have left := untouched left.inorder (fun x member => ((below x member).trans after).ne)
        simp only [inorder, List.map_append, List.map_cons, rightIh last, left, after.ne, ite_false]
      next notAfter =>
        have here : key item = wanted := le_antisymm (not_lt.mp notBefore) (not_lt.mp notAfter)
        have left := untouched left.inorder (fun x member => here ▸ (below x member).ne)
        have right := untouched right.inorder (fun x member => here ▸ (above x member).ne')
        simp only [inorder, List.map_append, List.map_cons, left, right, here, ite_true]

end SearchTree
end ZnsBase.Library
