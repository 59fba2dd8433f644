import Mathlib.Tactic.Ring
import ScoreP.Foundations.Words

/-!
# Fields of a word

Numbers are packed into a word by shifting each to a range of bits of its own. `Within x lo hi` says
that the set bits of a word lie in a range, and `field value shift` is the word with one number in it.
-/

namespace Foundations

variable {x y mask mask' : Word} {lo hi lo' hi' shift width value : ℕ}

/-- The set bits are from `lo` on and below `hi`. -/
def Within (x : Word) (lo hi : ℕ) : Prop :=
  ∀ j < 64, x.getLsbD j = true → lo ≤ j ∧ j < hi

theorem Within.mono (hx : Within x lo hi) (hlo : lo' ≤ lo) (hhi : hi ≤ hi') : Within x lo' hi' := by
  intro j hj hbit
  have hrange := hx j hj hbit
  omega

theorem Mask.within (h : Mask mask lo hi) : Within mask lo hi := by
  intro j hj hbit
  rw [h j hj, decide_eq_true_eq] at hbit
  exact hbit

theorem Within.and_eq_zero (hx : Within x lo hi) (hmask : Mask mask lo' hi')
    (hapart : hi ≤ lo' ∨ hi' ≤ lo) : x &&& mask = 0 := by
  refine BitVec.eq_of_getLsbD_eq fun j hj => ?_
  rw [BitVec.getLsbD_and, hmask j hj]
  by_cases hbit : x.getLsbD j = true
  · have hrange := hx j hj hbit
    have hout : ¬ (lo' ≤ j ∧ j < hi') := by omega
    simp [decide_eq_false hout]
  · simp [eq_false_of_ne_true hbit]

theorem Within.and_eq_self (hx : Within x lo hi) (hmask : Mask mask lo hi) : x &&& mask = x := by
  refine BitVec.eq_of_getLsbD_eq fun j hj => ?_
  rw [BitVec.getLsbD_and, hmask j hj]
  by_cases hbit : x.getLsbD j = true
  · simp [hbit, hx j hj hbit]
  · simp [eq_false_of_ne_true hbit]

theorem or_and_mask : (x ||| y) &&& mask = (x &&& mask) ||| (y &&& mask) := by
  refine BitVec.eq_of_getLsbD_eq fun j _ => ?_
  simp [Bool.and_or_distrib_right]

theorem mask_shifts (hwidth : 1 ≤ width) (hfits : width + shift ≤ 64) :
    Mask ((BitVec.allOnes 64 <<< (64 - width)) >>> (64 - width - shift)) shift (shift + width) := by
  intro j hj
  rw [BitVec.getLsbD_ushiftRight, BitVec.getLsbD_shiftLeft, BitVec.getLsbD_allOnes, Bool.eq_iff_iff]
  simp only [Bool.and_eq_true, Bool.not_eq_true', decide_eq_true_eq, decide_eq_false_iff_not]
  omega

/-! ## One number -/

/-- The number in the bits from `shift` on. -/
def field (value shift : ℕ) : Word :=
  BitVec.ofNat 64 value <<< shift

theorem field_within (hvalue : value < 2 ^ width) : Within (field value shift) shift (shift + width) := by
  intro j hj hbit
  rw [field, BitVec.getLsbD_shiftLeft] at hbit
  simp only [Bool.and_eq_true, Bool.not_eq_true', decide_eq_true_eq, decide_eq_false_iff_not,
    BitVec.getLsbD_ofNat] at hbit
  refine ⟨by omega, ?_⟩
  by_contra hge
  have hpow : 2 ^ width ≤ 2 ^ (j - shift) := Nat.pow_le_pow_right (by omega) (by omega)
  rw [Nat.testBit_lt_two_pow (by omega)] at hbit
  exact Bool.noConfusion hbit.2.2

theorem field_shiftRight (hvalue : value < 2 ^ width) (hfits : shift + width ≤ 64) :
    (field value shift >>> shift).toNat = value := by
  have hsmall : value * 2 ^ shift < 2 ^ 64 := by
    calc value * 2 ^ shift < 2 ^ width * 2 ^ shift :=
          Nat.mul_lt_mul_of_pos_right hvalue (Nat.two_pow_pos _)
      _ = 2 ^ (shift + width) := by ring
      _ ≤ 2 ^ 64 := Nat.pow_le_pow_right (by omega) hfits
  have hword : value < 2 ^ 64 :=
    lt_of_le_of_lt (Nat.le_mul_of_pos_right _ (Nat.two_pow_pos _)) hsmall
  rw [field, BitVec.toNat_ushiftRight, BitVec.toNat_shiftLeft, BitVec.toNat_ofNat,
    Nat.mod_eq_of_lt hword, Nat.shiftLeft_eq, Nat.mod_eq_of_lt hsmall, Nat.shiftRight_eq_div_pow,
    Nat.mul_div_cancel _ (Nat.two_pow_pos _)]

end Foundations
