import Mathlib.Algebra.BigOperators.Fin
import Mathlib.Algebra.Order.BigOperators.Group.Finset
import Mathlib.Algebra.Order.Group.Int

/-!
# Counting threads by program counter

`tally f pcs` sums the weight `f (pcs i)` over all threads `i`. With weights 0 and 1 it counts the
threads whose program counter is in a given set, and the counters of a lock or a barrier can be
compared with such counts. One step moves one thread, and `tally_update` says what that does to
every count.
-/

namespace Foundations

open Function

variable {ι α : Type} [Fintype ι]

def tally (f : α → ℤ) (pcs : ι → α) : ℤ := ∑ i, f (pcs i)

theorem tally_update [DecidableEq ι] (f : α → ℤ) (pcs : ι → α) (i : ι) (q : α) :
    tally f (update pcs i q) = tally f pcs - f (pcs i) + f q := by
  unfold tally
  have hrest : ∑ j ∈ Finset.univ.erase i, f (update pcs i q j) =
      ∑ j ∈ Finset.univ.erase i, f (pcs j) := by
    apply Finset.sum_congr rfl
    intro j hj
    rw [update_of_ne (Finset.ne_of_mem_erase hj)]
  have hnew := Finset.add_sum_erase Finset.univ (fun j => f (update pcs i q j)) (Finset.mem_univ i)
  have hold := Finset.add_sum_erase Finset.univ (fun j => f (pcs j)) (Finset.mem_univ i)
  simp only [update_self] at hnew
  rw [← hnew, ← hold, hrest]
  omega

theorem tally_nonneg {f : α → ℤ} (h : ∀ a, 0 ≤ f a) (pcs : ι → α) : 0 ≤ tally f pcs :=
  Finset.sum_nonneg fun i _ => h (pcs i)

theorem tally_le_card {f : α → ℤ} (h : ∀ a, f a ≤ 1) (pcs : ι → α) : tally f pcs ≤ Fintype.card ι := by
  have := Finset.sum_le_sum fun i (_ : i ∈ Finset.univ) => h (pcs i)
  simpa [tally] using this

theorem tally_add (f g : α → ℤ) (pcs : ι → α) : tally (fun a => f a + g a) pcs = tally f pcs + tally g pcs :=
  Finset.sum_add_distrib

theorem le_tally {f : α → ℤ} (h : ∀ a, 0 ≤ f a) (pcs : ι → α) (i : ι) : f (pcs i) ≤ tally f pcs :=
  Finset.single_le_sum (f := fun j => f (pcs j)) (fun j _ => h (pcs j)) (Finset.mem_univ i)

theorem tally_const_zero {f : α → ℤ} {pcs : ι → α} (h : ∀ i, f (pcs i) = 0) : tally f pcs = 0 :=
  Finset.sum_eq_zero fun i _ => h i

end Foundations
