import Mathlib.Algebra.Group.Nat.Defs
import Mathlib.Algebra.Order.Group.Int
import Mathlib.Data.Nat.Log

/-!
# Double-precision numbers

A double is a natural number, its 64 bits: the sign, 11 bits of exponent and 52 bits of fraction. `less` is
the comparison of IEEE 754, and `add` the addition that rounds to the nearest double, ties to even. A finite
double is a multiple of the smallest positive one (`units`); `nearest` takes a multiple back to the bits, and
does so exactly for those that are doubles (`nearest_units`).
-/

namespace Foundations.Binary64

def signPlace : ℕ :=
  2 ^ 63

def magnitude (x : ℕ) : ℕ :=
  x % signPlace

def isNegative (x : ℕ) : Bool :=
  x / signPlace % 2 = 1

def infinity : ℕ :=
  2047 * 2 ^ 52

def isNaN (x : ℕ) : Bool :=
  infinity < magnitude x

def rank (x : ℕ) : ℤ :=
  if isNegative x then -(magnitude x : ℤ) else magnitude x

def less (x y : ℕ) : Bool :=
  !isNaN x && !isNaN y && rank x < rank y

/-! ## Rounding -/

def unitsOfMagnitude (x : ℕ) : ℕ :=
  if x / 2 ^ 52 = 0 then x % 2 ^ 52 else (x % 2 ^ 52 + 2 ^ 52) * 2 ^ (x / 2 ^ 52 - 1)

def units (x : ℕ) : ℤ :=
  if isNegative x then -(unitsOfMagnitude (magnitude x) : ℤ) else unitsOfMagnitude (magnitude x)

def nearest (n : ℕ) : ℕ :=
  if n < 2 ^ 53 then n
  else
    let exponent := Nat.log 2 n - 52
    let significand := n / 2 ^ exponent
    let rest := n % 2 ^ exponent
    let rounded :=
      if 2 ^ exponent < 2 * rest ∨ 2 ^ exponent = 2 * rest ∧ significand % 2 = 1 then significand + 1
      else significand
    min (exponent * 2 ^ 52 + rounded) infinity

def ofUnits (n : ℤ) : ℕ :=
  if n < 0 then signPlace + nearest n.natAbs else nearest n.natAbs

theorem log_significand {m e : ℕ} (hm : m < 2 ^ 52) : Nat.log 2 ((m + 2 ^ 52) * 2 ^ e) = 52 + e := by
  apply Nat.log_eq_of_pow_le_of_lt_pow
  · rw [Nat.pow_add]
    exact Nat.mul_le_mul_right (2 ^ e) (Nat.le_add_left _ _)
  · have hlt : m + 2 ^ 52 < 2 ^ 53 := by omega
    calc (m + 2 ^ 52) * 2 ^ e < 2 ^ 53 * 2 ^ e := Nat.mul_lt_mul_of_pos_right hlt (Nat.two_pow_pos e)
      _ = 2 ^ (52 + e + 1) := by
        rw [← Nat.pow_add]
        congr 1
        omega

theorem nearest_units {x : ℕ} (hx : x ≤ infinity) : nearest (unitsOfMagnitude x) = x := by
  have hsplit : x / 2 ^ 52 * 2 ^ 52 + x % 2 ^ 52 = x := Nat.div_add_mod' x (2 ^ 52)
  have hm : x % 2 ^ 52 < 2 ^ 52 := Nat.mod_lt x (by decide)
  rw [unitsOfMagnitude]
  generalize x / 2 ^ 52 = e at hsplit ⊢
  generalize x % 2 ^ 52 = m at hsplit hm ⊢
  rcases e with _ | _ | e
  · rw [if_pos rfl, nearest, if_pos (by omega)]
    omega
  · rw [if_neg (by omega), Nat.add_sub_cancel, Nat.pow_zero, Nat.mul_one, nearest, if_pos (by omega)]
    omega
  · have hpos : 0 < 2 ^ (e + 1) := Nat.two_pow_pos (e + 1)
    have hlarge : ¬ (m + 2 ^ 52) * 2 ^ (e + 1) < 2 ^ 53 := by
      have htwo : 2 ^ 1 ≤ 2 ^ (e + 1) := Nat.pow_le_pow_right Nat.two_pos (Nat.le_add_left 1 e)
      rw [Nat.not_lt]
      calc 2 ^ 53 = 2 ^ 52 * 2 ^ 1 := by decide
        _ ≤ (m + 2 ^ 52) * 2 ^ (e + 1) := Nat.mul_le_mul (Nat.le_add_left _ _) htwo
    have hexponent : 52 + (e + 1) - 52 = e + 1 := by omega
    rw [if_neg (by omega), Nat.add_sub_cancel, nearest, if_neg hlarge, log_significand hm, hexponent]
    simp only [Nat.mul_div_cancel _ hpos, Nat.mul_mod_left, Nat.mul_zero, Nat.not_lt_zero, hpos.ne', false_and,
      or_self, if_false]
    have hvalue : (e + 1) * 2 ^ 52 + (m + 2 ^ 52) = x := by
      rw [← hsplit, Nat.succ_mul (e + 1), Nat.add_comm m, Nat.add_assoc]
    rw [hvalue]
    exact Nat.min_eq_left hx

/-! ## Addition -/

def nan : ℕ :=
  infinity + 2 ^ 51

def add (x y : ℕ) : ℕ :=
  if isNaN x then x
  else if isNaN y then y
  else if magnitude x = infinity then
    if magnitude y = infinity ∧ isNegative x ≠ isNegative y then nan else x
  else if magnitude y = infinity then y
  else if units x + units y = 0 then if isNegative x && isNegative y then signPlace else 0
  else ofUnits (units x + units y)

theorem add_zero {x : ℕ} (hpos : 0 < x) (hfinite : x < infinity) : add x 0 = x := by
  have hlt : x < signPlace := Nat.lt_trans hfinite (by decide)
  have hmagnitude : magnitude x = x := Nat.mod_eq_of_lt hlt
  have hsign : isNegative x = false := by
    rw [isNegative, Nat.div_eq_of_lt hlt]
    rfl
  have hnan : isNaN x = false := by
    rw [isNaN, hmagnitude]
    exact decide_eq_false (Nat.not_lt_of_le (Nat.le_of_lt hfinite))
  have hunits : units x = unitsOfMagnitude x := by
    rw [units, hsign, hmagnitude]
    rfl
  have hzero : units 0 = 0 := rfl
  have hnearest := nearest_units (Nat.le_of_lt hfinite)
  have hne : unitsOfMagnitude x ≠ 0 := by
    intro heq
    rw [heq] at hnearest
    exact hpos.ne hnearest
  rw [add, hnan, if_neg Bool.false_ne_true, if_neg (by decide), hmagnitude, if_neg hfinite.ne,
    if_neg (by decide), hzero, Int.add_zero, hunits, if_neg (by exact_mod_cast hne), ofUnits,
    if_neg (by omega), Int.natAbs_natCast, hnearest]

def one : ℕ :=
  1023 * 2 ^ 52

def two : ℕ :=
  1024 * 2 ^ 52

theorem one_add_one : add one one = two := by
  decide +kernel

end Foundations.Binary64
