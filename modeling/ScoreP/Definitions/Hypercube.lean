import Mathlib.Data.List.Range
import Mathlib.Data.Nat.Bitwise
import ScoreP.Foundations.Gathering

/-!
# The hypercube of the unification

Source: `npot`, `calculate_comm_partners` and the first phase of `unify_mpp_hierarchical` of
`scorep_unify_mpp_ipc.c`. A rank receives the definitions of its children in turn and hands the result to
its parent.
-/

namespace ScoreP.Definitions

open Foundations

/-- The smallest power of two that is not less than `v`. -/
def npot (v : ℕ) : ℕ :=
  let v := v - 1
  let v := v ||| v >>> 1
  let v := v ||| v >>> 2
  let v := v ||| v >>> 4
  let v := v ||| v >>> 8
  let v := v ||| v >>> 16
  v + 1

/-- The loop over the bits `d`: the bit at which it stops, and the parent of the rank. After bit 31 the
shifted `d` is zero. -/
def findParent (sizePot me : ℕ) : ℕ → ℕ → ℕ × ℕ
  | 0, _ => (0, me)
  | fuel + 1, bit =>
    let d := 2 ^ bit
    if d > sizePot then (bit, me)
    else if me.testBit bit then (bit, me ^^^ d)
    else findParent sizePot me fuel (bit + 1)

def calculateCommPartners (size me : ℕ) : ℕ × List ℕ :=
  let (bit, parent) := findParent (npot size) me 32 0
  (parent, (List.range bit).filterMap fun bit =>
    if me ^^^ 2 ^ bit < size then some (me ^^^ 2 ^ bit) else none)

def tree (size : ℕ) : ℕ → ℕ → Gathering ℕ
  | 0, me => .own me
  | depth + 1, me =>
    (Gathering.own me).receiveAll ((calculateCommPartners size me).2.map (tree size depth))

/-! ## Bits -/

theorem le_npot (v : ℕ) : v ≤ npot v := by
  have h : v - 1 ≤ npot v - 1 := by
    simp only [npot, Nat.add_sub_cancel]
    exact le_trans Nat.left_le_or (le_trans Nat.left_le_or (le_trans Nat.left_le_or
      (le_trans Nat.left_le_or Nat.left_le_or)))
  have hpos : 0 < npot v := Nat.succ_pos _
  omega

theorem npot_le {v k : ℕ} (hk : 0 < v) (h : v ≤ 2 ^ k) : npot v ≤ 2 ^ k := by
  have hstep : ∀ w i : ℕ, w < 2 ^ k → w ||| w >>> i < 2 ^ k := by
    intro w i hw
    apply Nat.or_lt_two_pow hw
    exact lt_of_le_of_lt (Nat.shiftRight_le w i) hw
  have hlt : v - 1 < 2 ^ k := by omega
  exact hstep _ 16 (hstep _ 8 (hstep _ 4 (hstep _ 2 (hstep _ 1 hlt))))

theorem testBit_of_dvd {me bit : ℕ} (h : 2 ^ (bit + 1) ∣ me) : me.testBit bit = false := by
  rcases h with ⟨a, rfl⟩
  simp [Nat.testBit_two_pow_mul]

theorem xor_two_pow {me bit : ℕ} (h : 2 ^ (bit + 1) ∣ me) : me ^^^ 2 ^ bit = me + 2 ^ bit := by
  have hbit := testBit_of_dvd h
  have hor : me + 2 ^ bit = me ||| 2 ^ bit := by
    rcases h with ⟨a, rfl⟩
    exact Nat.two_pow_add_eq_or_of_lt (Nat.pow_lt_pow_right (by omega) (by omega)) a
  rw [hor]
  apply Nat.eq_of_testBit_eq
  intro i
  rw [Nat.testBit_xor, Nat.testBit_or, Nat.testBit_two_pow]
  by_cases hi : bit = i
  · subst hi
    simp [hbit]
  · simp [hi]

theorem dvd_succ {me bit : ℕ} (h : 2 ^ bit ∣ me) (hbit : me.testBit bit = false) : 2 ^ (bit + 1) ∣ me := by
  rcases h with ⟨a, rfl⟩
  have heven : a.testBit 0 = false := by simpa [Nat.testBit_two_pow_mul] using hbit
  have hmod : 2 ∣ a := by
    rw [Nat.testBit_zero] at heven
    have := of_decide_eq_false heven
    omega
  rw [pow_succ]
  exact Nat.mul_dvd_mul_left _ hmod

/-! ## Levels -/

/-- A rank at a level has the ranks of that many bits below it. -/
structure AtLevel (size me bits : ℕ) : Prop where
  rank_lt : me < size
  dvd : 2 ^ bits ∣ me
  stops : me = 0 ∧ size ≤ 2 ^ bits ∨ me.testBit bits = true

theorem findParent_atLevel {size me : ℕ} (hsize : size ≤ 2 ^ 30) (hme : me < size) (fuel bit : ℕ)
    (hfuel : fuel + bit = 32) (hdvd : 2 ^ bit ∣ me) (hfull : bit = 0 ∨ 2 ^ (bit - 1) ≤ npot size) :
    AtLevel size me (findParent (npot size) me fuel bit).1 := by
  induction fuel generalizing bit with
  | zero =>
    have hnpot := npot_le (by omega) hsize
    have hbit : bit = 32 := by omega
    subst hbit
    exact absurd hfull (by omega)
  | succ fuel ih =>
    rw [findParent]
    split_ifs with hd hset
    · have hlt : me < 2 ^ bit := by
        have := le_npot size
        omega
      have hzero : me = 0 := Nat.eq_zero_of_dvd_of_lt hdvd hlt
      exact ⟨hme, hdvd, .inl ⟨hzero, le_trans (le_npot size) (le_of_lt hd)⟩⟩
    · exact ⟨hme, hdvd, .inr hset⟩
    · apply ih (bit + 1) (by omega)
      · exact dvd_succ hdvd (by simpa using hset)
      · exact .inr (by simpa using hd)

theorem findParent_le (sizePot me fuel bit : ℕ) : (findParent sizePot me fuel bit).1 ≤ fuel + bit := by
  induction fuel generalizing bit with
  | zero => exact Nat.zero_le _
  | succ fuel ih =>
    rw [findParent]
    have hrest := ih (bit + 1)
    split_ifs
    · exact Nat.le_add_left _ _
    · exact Nat.le_add_left _ _
    · omega

def levelOf (size me : ℕ) : ℕ :=
  (findParent (npot size) me 32 0).1

theorem atLevel_levelOf {size me : ℕ} (hsize : size ≤ 2 ^ 30) (hme : me < size) :
    AtLevel size me (levelOf size me) :=
  findParent_atLevel hsize hme 32 0 rfl (by simp) (.inl rfl)

theorem AtLevel.eq_levelOf {size me bits : ℕ} (h : AtLevel size me bits) (hsize : size ≤ 2 ^ 30)
    (hset : me.testBit bits = true) : levelOf size me = bits := by
  have hlevel := atLevel_levelOf hsize h.rank_lt
  have hpos : me ≠ 0 := by
    rintro rfl
    simp at hset
  have hset' := hlevel.stops.resolve_left fun hroot => hpos hroot.1
  rcases lt_trichotomy (levelOf size me) bits with hlt | heq | hgt
  · have hclear := testBit_of_dvd ((pow_dvd_pow 2 hlt).trans h.dvd)
    simp [hclear] at hset'
  · exact heq
  · have hclear := testBit_of_dvd ((pow_dvd_pow 2 hgt).trans hlevel.dvd)
    simp [hclear] at hset

theorem AtLevel.child {size me bits bit : ℕ} (h : AtLevel size me bits) (hbit : bit < bits)
    (hlt : me + 2 ^ bit < size) : AtLevel size (me + 2 ^ bit) bit ∧ (me + 2 ^ bit).testBit bit = true := by
  have hdvd : 2 ^ (bit + 1) ∣ me := (pow_dvd_pow 2 hbit).trans h.dvd
  have hset : (me + 2 ^ bit).testBit bit = true := by
    rw [← xor_two_pow hdvd, Nat.testBit_xor, testBit_of_dvd hdvd, Nat.testBit_two_pow_self]
    rfl
  exact ⟨⟨hlt, Nat.dvd_add ((pow_dvd_pow 2 (Nat.le_succ bit)).trans hdvd) (dvd_refl _), .inr hset⟩, hset⟩

def hypercube (size : ℕ) : Gathering ℕ :=
  tree size 32 0

end ScoreP.Definitions
