import Mathlib.Data.Nat.Basic
import ScoreP.Foundations.SearchTree

/-!
# The splay tree of tracked allocations

Source: `splay` in `src/utils/alloc_metric/SCOREP_AllocMetric.c`. The loop takes the tree apart from
the root down: `link left` and `link right` hang the root into the hole of the left and the right
part, and the last root joins both parts again. The two parts start at the sentinel; here they are
the lists of pieces linked so far, the latest first.

`splay_spec` is what the other functions use: the items keep their symmetric order, everything left
of the new root has a smaller address than the key and everything right of it a larger one.
-/

namespace ScoreP.AllocMetric

open BinaryTree Foundations.SearchTree

/-- `allocation_item` without its links, which are the tree, and without the data the substrates
keep there. -/
structure Item where
  address : ℕ
  size : BitVec 64
  deriving DecidableEq

/-- `left->right = root->left; right->left = root->right; …` behind the loop. -/
def assemble (left right : List (Item × BinaryTree Item)) (root : Item)
    (rootLeft rootRight : BinaryTree Item) : BinaryTree Item :=
  node root (plugRight left rootLeft) (plugLeft right rootRight)

/-- The loop of `splay`. -/
def splayLoop (key : ℕ) (left right : List (Item × BinaryTree Item)) : BinaryTree Item → BinaryTree Item
  | nil => nil
  | node root rootLeft rootRight =>
    if key < root.address then
      match rootLeft with
      | nil => assemble left right root nil rootRight
      | node a l r =>
        if key < a.address then
          -- rotate right
          match l with
          | nil => assemble left right a nil (node root r rootRight)
          | node b ll lr => splayLoop key left ((a, node root r rootRight) :: right) (node b ll lr)
        else splayLoop key left ((root, rootRight) :: right) (node a l r)
    else if key > root.address then
      match rootRight with
      | nil => assemble left right root rootLeft nil
      | node a l r =>
        if key > a.address then
          -- rotate left
          match r with
          | nil => assemble left right a (node root rootLeft l) nil
          | node b rl rr => splayLoop key ((a, node root rootLeft l) :: left) right (node b rl rr)
        else splayLoop key ((root, rootLeft) :: left) right (node a l r)
    else assemble left right root rootLeft rootRight

def splay (root : BinaryTree Item) (key : ℕ) : BinaryTree Item :=
  splayLoop key [] [] root

def SplitAt (key : ℕ) (items : List Item) (t : BinaryTree Item) : Prop :=
  ∃ root l r, t = node root l r ∧ inorder t = items ∧ (∀ x ∈ inorder l, x.address < key) ∧
    ∀ x ∈ inorder r, key < x.address

theorem assemble_splitAt {key : ℕ} {left right : List (Item × BinaryTree Item)}
    (hleft : ∀ x ∈ before left, x.address < key) (hright : ∀ x ∈ after right, key < x.address)
    (root : Item) (rootLeft rootRight : BinaryTree Item) (hl : ∀ x ∈ inorder rootLeft, x.address < key)
    (hr : ∀ x ∈ inorder rootRight, key < x.address) :
    SplitAt key (before left ++ inorder (node root rootLeft rootRight) ++ after right)
      (assemble left right root rootLeft rootRight) := by
  refine ⟨root, _, _, rfl, ?_, ?_, ?_⟩
  · simp [assemble, inorder_plugRight, inorder_plugLeft]
  · intro x hx
    rw [inorder_plugRight, List.mem_append] at hx
    exact hx.elim (hleft x) (hl x)
  · intro x hx
    rw [inorder_plugLeft, List.mem_append] at hx
    exact hx.elim (hr x) (hright x)

theorem splayLoop_splitAt (key : ℕ) (left right : List (Item × BinaryTree Item))
    (t : BinaryTree Item) (ht : t ≠ nil) (hord : Ordered Item.address t)
    (hleft : ∀ x ∈ before left, x.address < key) (hright : ∀ x ∈ after right, key < x.address) :
    SplitAt key (before left ++ inorder t ++ after right) (splayLoop key left right t) := by
  fun_induction splayLoop key left right t with
  | case1 => exact absurd rfl ht
  | case2 left right root rootRight hlt =>
    obtain ⟨-, -, -, hr⟩ := ordered_node.1 hord
    refine assemble_splitAt hleft hright root nil rootRight (by simp) ?_
    intro x hx
    exact lt_trans hlt (hr x hx)
  | case3 left right root rootRight hlt a r hlta =>
    obtain ⟨hl, -, hla, hr⟩ := ordered_node.1 hord
    obtain ⟨-, -, -, har⟩ := ordered_node.1 hl
    have hright' : ∀ x ∈ inorder (node root r rootRight), key < x.address :=
      forall_inorder_node.2 ⟨fun x hx => lt_trans hlta (har x hx), hlt, fun x hx => lt_trans hlt (hr x hx)⟩
    have h := assemble_splitAt hleft hright a nil (node root r rootRight) (by simp) hright'
    simpa using h
  | case4 left right root rootRight hlt a r hlta b ll lr ih =>
    obtain ⟨hl, -, hla, hr⟩ := ordered_node.1 hord
    obtain ⟨hll, -, -, har⟩ := ordered_node.1 hl
    have hright' : ∀ x ∈ inorder (node root r rootRight), key < x.address :=
      forall_inorder_node.2 ⟨fun x hx => lt_trans hlta (har x hx), hlt, fun x hx => lt_trans hlt (hr x hx)⟩
    have h := ih (by simp) hll hleft (forall_after_cons.2 ⟨hlta, hright', hright⟩)
    simpa [after] using h
  | case5 left right root rootRight hlt a l r hnlt ih =>
    obtain ⟨hl, -, -, hr⟩ := ordered_node.1 hord
    have hright' : ∀ x ∈ inorder rootRight, key < x.address :=
      fun x hx => lt_trans hlt (hr x hx)
    have h := ih (by simp) hl hleft (forall_after_cons.2 ⟨hlt, hright', hright⟩)
    simpa [after] using h
  | case6 left right root rootLeft hnlt hgt =>
    obtain ⟨-, -, hl, -⟩ := ordered_node.1 hord
    refine assemble_splitAt hleft hright root rootLeft nil ?_ (by simp)
    intro x hx
    exact lt_trans (hl x hx) hgt
  | case7 left right root rootLeft hnlt hgt a l hgta =>
    obtain ⟨-, hr, hl, hra⟩ := ordered_node.1 hord
    obtain ⟨-, -, hal, -⟩ := ordered_node.1 hr
    have hleft' : ∀ x ∈ inorder (node root rootLeft l), x.address < key :=
      forall_inorder_node.2 ⟨fun x hx => lt_trans (hl x hx) hgt, hgt, fun x hx => lt_trans (hal x hx) hgta⟩
    have h := assemble_splitAt hleft hright a (node root rootLeft l) nil hleft' (by simp)
    simpa using h
  | case8 left right root rootLeft hnlt hgt a l hgta b rl rr ih =>
    obtain ⟨-, hr, hl, hra⟩ := ordered_node.1 hord
    obtain ⟨-, hrr, hal, -⟩ := ordered_node.1 hr
    have hleft' : ∀ x ∈ inorder (node root rootLeft l), x.address < key :=
      forall_inorder_node.2 ⟨fun x hx => lt_trans (hl x hx) hgt, hgt, fun x hx => lt_trans (hal x hx) hgta⟩
    have h := ih (by simp) hrr (forall_before_cons.2 ⟨hleft, hleft', hgta⟩) hright
    simpa [before] using h
  | case9 left right root rootLeft hnlt hgt a l r hngt ih =>
    obtain ⟨-, hr, hl, -⟩ := ordered_node.1 hord
    have hleft' : ∀ x ∈ inorder rootLeft, x.address < key :=
      fun x hx => lt_trans (hl x hx) hgt
    have h := ih (by simp) hr (forall_before_cons.2 ⟨hleft, hleft', hgt⟩) hright
    simpa [before] using h
  | case10 left right root rootLeft rootRight hnlt hngt =>
    obtain ⟨-, -, hl, hr⟩ := ordered_node.1 hord
    have heq : root.address = key := by omega
    refine assemble_splitAt hleft hright root rootLeft rootRight ?_ ?_
    · intro x hx
      exact heq ▸ hl x hx
    · intro x hx
      exact heq ▸ hr x hx

theorem splay_splitAt (key : ℕ) (t : BinaryTree Item) (ht : t ≠ nil)
    (hord : Ordered Item.address t) : SplitAt key (inorder t) (splay t key) := by
  have h := splayLoop_splitAt key [] [] t ht hord (by simp [before]) (by simp [after])
  simpa [before, after, splay] using h

end ScoreP.AllocMetric
