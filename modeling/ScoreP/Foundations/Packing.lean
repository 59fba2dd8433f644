import Mathlib.Algebra.GroupWithZero.Nat
import Mathlib.Algebra.Order.BigOperators.Group.Finset

/-!
# Packing

Every item has a size and some parts whose weights do not exceed it. When every item is assigned a part of
some item that is as heavy as the item is large, and no part twice, there is no slack: the weights exhaust
the sizes, and every part with a weight is assigned (`packing`).
-/

namespace Foundations

universe u v

variable {α : Type u} {β : Type v} [DecidableEq β] {items : Finset α} {parts : α → Finset β} {size : α → ℕ}
  {weight : β → ℕ} {assigned : α → β}

theorem sum_biUnion_le : ∑ p ∈ items.biUnion parts, weight p ≤ ∑ a ∈ items, ∑ p ∈ parts a, weight p := by
  classical
  induction items using Finset.induction_on with
  | empty => exact Nat.le_refl _
  | insert a items ha ih =>
    rw [Finset.biUnion_insert, Finset.sum_insert ha]
    calc ∑ p ∈ parts a ∪ items.biUnion parts, weight p
        ≤ ∑ p ∈ parts a ∪ items.biUnion parts, weight p + ∑ p ∈ parts a ∩ items.biUnion parts, weight p :=
          Nat.le_add_right _ _
      _ = ∑ p ∈ parts a, weight p + ∑ p ∈ items.biUnion parts, weight p := Finset.sum_union_inter
      _ ≤ ∑ p ∈ parts a, weight p + ∑ a ∈ items, ∑ p ∈ parts a, weight p := Nat.add_le_add_left ih _

theorem sum_toFinset_le (l : List β) : ∑ p ∈ l.toFinset, weight p ≤ (l.map weight).sum := by
  induction l with
  | nil => exact Nat.le_refl _
  | cons p l ih =>
    rw [List.toFinset_cons, List.map_cons, List.sum_cons]
    by_cases hmem : p ∈ l.toFinset
    · rw [Finset.insert_eq_of_mem hmem]
      exact le_trans ih (Nat.le_add_left _ _)
    · rw [Finset.sum_insert hmem]
      exact Nat.add_le_add_left ih _

theorem packing (hparts : ∀ a ∈ items, ∑ p ∈ parts a, weight p ≤ size a)
    (hassigned : ∀ a ∈ items, ∃ b ∈ items, assigned a ∈ parts b) (hinj : Set.InjOn assigned items)
    (hsize : ∀ a ∈ items, size a ≤ weight (assigned a)) :
    (∀ a ∈ items, ∑ p ∈ parts a, weight p = size a) ∧ (∀ a ∈ items, size a = weight (assigned a)) ∧
      ∀ a ∈ items, ∀ p ∈ parts a, 0 < weight p → ∃ b ∈ items, assigned b = p := by
  have hsub : items.image assigned ⊆ items.biUnion parts := by
    intro p hp
    obtain ⟨a, ha, rfl⟩ := Finset.mem_image.1 hp
    obtain ⟨b, hb, hmem⟩ := hassigned a ha
    exact Finset.mem_biUnion.2 ⟨b, hb, hmem⟩
  have himage : ∑ p ∈ items.image assigned, weight p = ∑ a ∈ items, weight (assigned a) :=
    Finset.sum_image hinj
  have hsdiff := Finset.sum_sdiff (f := weight) hsub
  have hsizes : ∑ a ∈ items, size a ≤ ∑ a ∈ items, weight (assigned a) := Finset.sum_le_sum hsize
  have hunion : ∑ p ∈ items.biUnion parts, weight p ≤ ∑ a ∈ items, ∑ p ∈ parts a, weight p := sum_biUnion_le
  have hall : ∑ a ∈ items, ∑ p ∈ parts a, weight p ≤ ∑ a ∈ items, size a := Finset.sum_le_sum hparts
  refine ⟨?_, ?_, ?_⟩
  · exact (Finset.sum_eq_sum_iff_of_le hparts).1 (by omega)
  · exact (Finset.sum_eq_sum_iff_of_le hsize).1 (by omega)
  · intro a ha p hp hpos
    have hzero : ∑ p ∈ items.biUnion parts \ items.image assigned, weight p = 0 := by omega
    by_contra hnone
    have hmem : p ∈ items.biUnion parts \ items.image assigned := by
      refine Finset.mem_sdiff.2 ⟨Finset.mem_biUnion.2 ⟨a, ha, hp⟩, fun himg => hnone ?_⟩
      exact Finset.mem_image.1 himg
    exact absurd (Finset.sum_eq_zero_iff.1 hzero p hmem) (Nat.pos_iff_ne_zero.1 hpos)

end Foundations
