import Mathlib.Data.List.Basic
import Mathlib.Data.Tree.Basic
import Mathlib.Order.Lattice

/-!
# Binary trees in symmetric order

A binary tree stands for the list of its values in symmetric order, `inorder`. Rotations, joins and
splits are judged by what they do to that list, and a search tree is a tree whose list is sorted by
a key (`Ordered`).

Top-down algorithms take a tree apart into a left part with a hole at its right end, a right part
with a hole at its left end, and the tree in between. `plugRight` and `plugLeft` fill such a hole;
the pieces are listed from the hole outwards.
-/

namespace Foundations.SearchTree

universe u v

variable {α : Type u} {κ : Type v}

open BinaryTree

def inorder : BinaryTree α → List α
  | nil => []
  | node a l r => inorder l ++ a :: inorder r

@[simp] theorem inorder_nil : inorder (nil : BinaryTree α) = [] := rfl

@[simp] theorem inorder_node (a : α) (l r : BinaryTree α) :
    inorder (node a l r) = inorder l ++ a :: inorder r := rfl

theorem inorder_eq_nil {t : BinaryTree α} : inorder t = [] ↔ t = nil := by
  cases t with
  | nil => simp
  | node a l r => simp

theorem forall_inorder_node {p : α → Prop} {a : α} {l r : BinaryTree α} :
    (∀ x ∈ inorder (node a l r), p x) ↔ (∀ x ∈ inorder l, p x) ∧ p a ∧ ∀ x ∈ inorder r, p x := by
  simp only [inorder_node, List.forall_mem_append, List.forall_mem_cons]

/-! ## Trees with a hole -/

def plugRight : List (α × BinaryTree α) → BinaryTree α → BinaryTree α
  | [], t => t
  | (a, l) :: pieces, t => plugRight pieces (node a l t)

def plugLeft : List (α × BinaryTree α) → BinaryTree α → BinaryTree α
  | [], t => t
  | (a, r) :: pieces, t => plugLeft pieces (node a t r)

def before : List (α × BinaryTree α) → List α
  | [] => []
  | (a, l) :: pieces => before pieces ++ inorder l ++ [a]

def after : List (α × BinaryTree α) → List α
  | [] => []
  | (a, r) :: pieces => a :: inorder r ++ after pieces

theorem forall_before_cons {p : α → Prop} {a : α} {l : BinaryTree α} {pieces : List (α × BinaryTree α)} :
    (∀ x ∈ before ((a, l) :: pieces), p x) ↔ (∀ x ∈ before pieces, p x) ∧ (∀ x ∈ inorder l, p x) ∧ p a := by
  simp only [before, List.forall_mem_append, List.forall_mem_singleton, and_assoc]

theorem forall_after_cons {p : α → Prop} {a : α} {r : BinaryTree α} {pieces : List (α × BinaryTree α)} :
    (∀ x ∈ after ((a, r) :: pieces), p x) ↔ p a ∧ (∀ x ∈ inorder r, p x) ∧ ∀ x ∈ after pieces, p x := by
  simp only [after, List.cons_append, List.forall_mem_append, List.forall_mem_cons]

theorem inorder_plugRight (pieces : List (α × BinaryTree α)) (t : BinaryTree α) :
    inorder (plugRight pieces t) = before pieces ++ inorder t := by
  induction pieces generalizing t with
  | nil => rfl
  | cons p pieces ih =>
    obtain ⟨a, l⟩ := p
    simp [plugRight, before, ih]

theorem inorder_plugLeft (pieces : List (α × BinaryTree α)) (t : BinaryTree α) :
    inorder (plugLeft pieces t) = inorder t ++ after pieces := by
  induction pieces generalizing t with
  | nil => simp [plugLeft, after]
  | cons p pieces ih =>
    obtain ⟨a, r⟩ := p
    simp [plugLeft, after, ih]

section Ordered

variable [LinearOrder κ]

def Ordered (key : α → κ) (t : BinaryTree α) : Prop :=
  (inorder t).Pairwise fun a b => key a < key b

variable {key : α → κ} {a : α} {l r : BinaryTree α}

theorem ordered_node : Ordered key (node a l r) ↔
    Ordered key l ∧ Ordered key r ∧ (∀ x ∈ inorder l, key x < key a) ∧ ∀ x ∈ inorder r, key a < key x := by
  simp only [Ordered, inorder_node, List.pairwise_append, List.pairwise_cons, List.mem_cons]
  constructor
  · intro h
    obtain ⟨hl, ⟨har, hr⟩, hlr⟩ := h
    exact ⟨hl, hr, fun x hx => hlr x hx a (Or.inl rfl), har⟩
  · intro h
    obtain ⟨hl, hr, hla, har⟩ := h
    refine ⟨hl, ⟨har, hr⟩, fun x hx y hy => ?_⟩
    cases hy with
    | inl hy => exact hy ▸ hla x hx
    | inr hy => exact lt_trans (hla x hx) (har y hy)

theorem Ordered.of_inorder_eq {t t' : BinaryTree α} (h : Ordered key t)
    (heq : inorder t' = inorder t) : Ordered key t' := by
  unfold Ordered
  rw [heq]
  exact h

end Ordered

end Foundations.SearchTree
