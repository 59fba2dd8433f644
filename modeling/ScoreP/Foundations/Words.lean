import Mathlib.Data.Nat.Find
import Mathlib.Logic.Function.Basic

/-!
# Bits in words

A map from numbers to 64-bit words holds a bit for every number, `bit words pos`. A mask is described
by the range of its bits, `Mask mask lo hi`, and a change of the words by the range of bits that
become `b`, `Assigns b words words' lo hi`. `Assigns.trans` joins neighbouring ranges.

`Word.Lowest v word k` says that `k` is the lowest bit of the word that is `v`;
`getLsbD_xor_sub_one` shows how `x ^ ( x - 1 )` isolates the lowest set bit.
-/

namespace Foundations

open Function

abbrev Word := BitVec 64

def bit (words : ℕ → Word) (pos : ℕ) : Bool :=
  (words (pos / 64)).getLsbD (pos % 64)

variable {words words' words'' : ℕ → Word} {mask word : Word} {lo mid hi pos i k : ℕ} {b v : Bool}

theorem bit_add {j : ℕ} (hj : j < 64) : bit words (64 * i + j) = (words i).getLsbD j := by
  have hdiv : (64 * i + j) / 64 = i := by omega
  have hmod : (64 * i + j) % 64 = j := by omega
  rw [bit, hdiv, hmod]

theorem bit_update : bit (update words i word) pos =
    if pos / 64 = i then word.getLsbD (pos % 64) else bit words pos := by
  unfold bit
  rw [update_apply]
  by_cases hi : pos / 64 = i
  · rw [if_pos hi, if_pos hi]
  · rw [if_neg hi, if_neg hi]

/-! ## Masks -/

/-- The bits from `lo` on and below `hi`. -/
def Mask (mask : Word) (lo hi : ℕ) : Prop :=
  ∀ j < 64, mask.getLsbD j = decide (lo ≤ j ∧ j < hi)

theorem getLsbD_one_shiftLeft {n j : ℕ} (hj : j < 64) : ((1 : Word) <<< n).getLsbD j = decide (j = n) := by
  rw [Bool.eq_iff_iff]
  simp only [BitVec.getLsbD_shiftLeft, BitVec.ofNat_eq_ofNat, BitVec.getLsbD_one, Bool.and_eq_true,
    Bool.not_eq_true', decide_eq_true_eq, decide_eq_false_iff_not]
  omega

theorem getLsbD_neg_one_shiftLeft {n j : ℕ} (hj : j < 64) :
    (-((1 : Word) <<< n)).getLsbD j = decide (n ≤ j) := by
  have hbelow : (∃ i < j, ((1 : Word) <<< n).getLsbD i = true) ↔ n < j := by
    constructor
    · intro h
      obtain ⟨i, hi, hbit⟩ := h
      rw [getLsbD_one_shiftLeft (by omega), decide_eq_true_eq] at hbit
      omega
    · intro h
      exact ⟨n, h, by rw [getLsbD_one_shiftLeft (by omega), decide_eq_true_eq]⟩
  rw [BitVec.getLsbD_neg, getLsbD_one_shiftLeft hj, Bool.eq_iff_iff]
  simp only [hbelow, hj, decide_true, Bool.true_and, bne_iff_ne, ne_eq, decide_eq_decide, decide_eq_true_eq]
  omega

theorem mask_neg {n : ℕ} : Mask (-((1 : Word) <<< n)) n 64 := by
  intro j hj
  rw [getLsbD_neg_one_shiftLeft hj]
  simp [hj]

theorem mask_sub_one {n : ℕ} : Mask (((1 : Word) <<< n) - 1) 0 n := by
  intro j hj
  rw [show ((1 : Word) <<< n) - 1 = ~~~(-((1 : Word) <<< n)) from (BitVec.not_neg _).symm,
    BitVec.getLsbD_not, getLsbD_neg_one_shiftLeft hj, Bool.eq_iff_iff]
  simp only [hj, decide_true, Bool.true_and, Bool.not_eq_true', decide_eq_false_iff_not, decide_eq_true_eq]
  omega

theorem Mask.and {mask' : Word} {lo' hi' : ℕ} (h : Mask mask lo hi) (h' : Mask mask' lo' hi') :
    Mask (mask &&& mask') (max lo lo') (min hi hi') := by
  intro j hj
  rw [BitVec.getLsbD_and, h j hj, h' j hj, Bool.eq_iff_iff]
  simp only [Bool.and_eq_true, decide_eq_true_eq]
  omega

theorem mask_allOnes : Mask (~~~(0 : Word)) 0 64 := by
  intro j hj
  rw [BitVec.getLsbD_not, show (0 : Word).getLsbD j = false from BitVec.getLsbD_zero]
  simp [hj]

/-! ## Ranges of bits -/

/-- The bits from `lo` on and below `hi` become `b`. -/
def Assigns (b : Bool) (words words' : ℕ → Word) (lo hi : ℕ) : Prop :=
  ∀ pos, bit words' pos = if lo ≤ pos ∧ pos < hi then b else bit words pos

/-- The bits from `lo` on and below `hi` are `b`. -/
def AllBits (b : Bool) (words : ℕ → Word) (lo hi : ℕ) : Prop :=
  ∀ pos, lo ≤ pos → pos < hi → bit words pos = b

theorem Assigns.refl (h : hi ≤ lo) : Assigns b words words lo hi := by
  intro pos
  rw [if_neg (by omega)]

theorem Assigns.trans (h : Assigns b words words' lo mid) (h' : Assigns b words' words'' mid hi)
    (hlo : lo ≤ mid) (hhi : mid ≤ hi) : Assigns b words words'' lo hi := by
  intro pos
  rw [h' pos, h pos]
  by_cases hmid : mid ≤ pos ∧ pos < hi
  · rw [if_pos hmid, if_pos (by omega)]
  · rw [if_neg hmid]
    by_cases hin : lo ≤ pos ∧ pos < mid
    · rw [if_pos hin, if_pos (by omega)]
    · rw [if_neg hin, if_neg (by omega)]

theorem Assigns.allBits_above {c : Bool} (h : Assigns b words words' lo mid) {top : ℕ}
    (hbits : AllBits c words mid top) : AllBits c words' mid top := by
  intro pos hpos htop
  rw [h pos, if_neg (by omega), hbits pos hpos htop]

theorem AllBits.mono {c : Bool} {lo' hi' : ℕ} (h : AllBits c words lo hi) (hlo : lo ≤ lo')
    (hhi : hi' ≤ hi) : AllBits c words lo' hi' :=
  fun pos hpos htop => h pos (by omega) (by omega)

theorem assigns_update (hhi : hi ≤ 64)
    (hword : ∀ j < 64, word.getLsbD j = if lo ≤ j ∧ j < hi then b else (words i).getLsbD j) :
    Assigns b words (update words i word) (64 * i + lo) (64 * i + hi) := by
  intro pos
  rw [bit_update]
  by_cases hpos : pos / 64 = i
  · rw [if_pos hpos, hword (pos % 64) (by omega)]
    by_cases hin : lo ≤ pos % 64 ∧ pos % 64 < hi
    · rw [if_pos hin, if_pos (by omega)]
    · rw [if_neg hin, if_neg (by omega), bit, hpos]
  · rw [if_neg hpos, if_neg (by omega)]

theorem assigns_or (hmask : Mask mask lo hi) (hhi : hi ≤ 64) :
    Assigns true words (update words i (words i ||| mask)) (64 * i + lo) (64 * i + hi) := by
  refine assigns_update hhi fun j hj => ?_
  rw [BitVec.getLsbD_or, hmask j hj]
  by_cases hin : lo ≤ j ∧ j < hi
  · simp [hin]
  · rw [decide_eq_false hin, if_neg hin, Bool.or_false]

theorem assigns_and_not (hmask : Mask mask lo hi) (hhi : hi ≤ 64) :
    Assigns false words (update words i (words i &&& ~~~mask)) (64 * i + lo) (64 * i + hi) := by
  refine assigns_update hhi fun j hj => ?_
  rw [BitVec.getLsbD_and, BitVec.getLsbD_not, hmask j hj]
  by_cases hin : lo ≤ j ∧ j < hi
  · simp [hin]
  · rw [decide_eq_false hin, if_neg hin]
    simp [hj]

theorem and_mask (hmask : Mask mask lo hi) (hbits : AllBits v words (64 * i + lo) (64 * i + hi)) :
    words i &&& mask = if v then mask else 0 := by
  refine BitVec.eq_of_getLsbD_eq fun j hj => ?_
  rw [BitVec.getLsbD_and, hmask j hj]
  by_cases hin : lo ≤ j ∧ j < hi
  · have hbit := hbits (64 * i + j) (by omega) (by omega)
    rw [bit_add hj] at hbit
    cases v <;> simp [hbit, hmask j hj]
  · cases v <;> simp [decide_eq_false hin, hmask j hj]

/-! ## The lowest bit -/

/-- `k` is the lowest bit of the word that is `v`. -/
def Lowest (v : Bool) (word : Word) (k : ℕ) : Prop :=
  k < 64 ∧ word.getLsbD k = v ∧ ∀ j < k, word.getLsbD j ≠ v

theorem exists_lowest (h : ∃ j < 64, word.getLsbD j = v) : ∃ k, Lowest v word k := by
  have hfind : ∃ j, j < 64 ∧ word.getLsbD j = v := h
  refine ⟨Nat.find hfind, (Nat.find_spec hfind).1, (Nat.find_spec hfind).2, ?_⟩
  intro j hj hv
  exact Nat.find_min hfind hj ⟨Nat.lt_trans hj (Nat.find_spec hfind).1, hv⟩

theorem Lowest.not (h : Lowest v word k) : Lowest (!v) (~~~word) k := by
  obtain ⟨hk, hbit, hbelow⟩ := h
  refine ⟨hk, ?_, fun j hj hv => ?_⟩
  · rw [BitVec.getLsbD_not, hbit, decide_eq_true hk, Bool.true_and]
  · rw [BitVec.getLsbD_not, decide_eq_true (Nat.lt_trans hj hk), Bool.true_and] at hv
    exact hbelow j hj (Bool.not_inj hv)

theorem ne_zero_iff : word ≠ 0 ↔ ∃ j < 64, word.getLsbD j = true := by
  constructor
  · intro h
    by_contra hnone
    refine h (BitVec.eq_of_getLsbD_eq fun j hj => ?_)
    have hbit : word.getLsbD j ≠ true := fun hj' => hnone ⟨j, hj, hj'⟩
    simpa using hbit
  · intro h heq
    obtain ⟨j, -, hbit⟩ := h
    simp [heq] at hbit

theorem getLsbD_xor_sub_one (h : Lowest true word k) : Mask (word ^^^ (word - 1)) 0 (k + 1) := by
  intro j hj
  obtain ⟨hk, hbit, hbelow⟩ := h
  have hexists : (∃ i < j, word.getLsbD i = true) ↔ k < j := by
    constructor
    · intro h
      obtain ⟨i, hi, hset⟩ := h
      by_contra hkj
      exact hbelow i (by omega) hset
    · intro hkj
      exact ⟨k, hkj, hbit⟩
  rw [show word - 1 = ~~~(-word) from (BitVec.not_neg _).symm, BitVec.getLsbD_xor,
    BitVec.getLsbD_not, BitVec.getLsbD_neg, Bool.eq_iff_iff]
  simp only [hexists]
  by_cases hkj : k < j
  · have hnot : ¬j < k + 1 := by omega
    simp [hj, hkj, hnot]
  · have hin : j < k + 1 := by omega
    simp [hj, hkj, hin]

end Foundations
