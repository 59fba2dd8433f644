import ScoreP.Foundations.Regions

/-!
# Reductions over the words of several memories

`word w m j` is the little-endian word number `j` of a memory whose words have `w` bytes. `reduce f size x`
combines the values of `size` parties from the first to the last, and `reducedMemory` is the memory whose
words are the words of the parties combined. A map that commutes with the combination commutes with the
reduction (`reduce_map`), which is how the bytes of a word are followed through a reduction of words.
-/

namespace Foundations.Reduction

open Region

universe u v

/-! ## Words -/

def littleEndian : List (BitVec 8) → ℕ
  | [] => 0
  | byte :: bytes => byte.toNat + 256 * littleEndian bytes

theorem byte_littleEndian {bytes : List (BitVec 8)} {i : ℕ} (hi : i < bytes.length) :
    BitVec.ofNat 8 (littleEndian bytes / 256 ^ i) = bytes[i] := by
  induction bytes generalizing i with
  | nil => exact absurd hi (Nat.not_lt_zero i)
  | cons byte bytes ih =>
    have hbyte : byte.toNat < 256 := byte.isLt
    cases i with
    | zero =>
      apply BitVec.eq_of_toNat_eq
      rw [BitVec.toNat_ofNat, littleEndian, Nat.pow_zero, Nat.div_one, List.getElem_cons_zero]
      omega
    | succ i =>
      have hdiv : (byte.toNat + 256 * littleEndian bytes) / 256 = littleEndian bytes := by omega
      rw [littleEndian, Nat.pow_succ', ← Nat.div_div_eq_div_mul, hdiv, List.getElem_cons_succ]
      exact ih (Nat.lt_of_succ_lt_succ hi)

/-- The word number `j`. -/
def word (w : ℕ) (m : ℕ → BitVec 8) (j : ℕ) : ℕ :=
  littleEndian (read m (j * w) w)

theorem word_one (m : ℕ → BitVec 8) (j : ℕ) : word 1 m j = (m j).toNat := by
  rw [word, Nat.mul_one]
  exact Nat.add_zero _

theorem byte_word {w : ℕ} (hw : 0 < w) (m : ℕ → BitVec 8) (k : ℕ) :
    BitVec.ofNat 8 (word w m (k / w) / 256 ^ (k % w)) = m k := by
  have hlt : k % w < w := Nat.mod_lt k hw
  have hlength : k % w < (read m (k / w * w) w).length := by rwa [length_read]
  have hget : (read m (k / w * w) w)[k % w]? = some (m (k / w * w + k % w)) := getElem?_read hlt
  rw [word, byte_littleEndian hlength]
  rw [List.getElem?_eq_getElem hlength, Nat.div_add_mod'] at hget
  exact Option.some.inj hget

theorem word_congr {w j : ℕ} {m m' : ℕ → BitVec 8} (h : read m (j * w) w = read m' (j * w) w) :
    word w m j = word w m' j := by
  rw [word, word, h]

/-! ## Reductions -/

variable {β : Type u} {γ : Type v} {f : β → β → β} {x y : ℕ → β} {size : ℕ}

/-- The values of the parties `0` to `size - 1`, combined in this order. -/
def reduce (f : β → β → β) (size : ℕ) (x : ℕ → β) : β :=
  (List.range (size - 1)).foldl (fun reduced i => f reduced (x (i + 1))) (x 0)

theorem reduce_of_le_one (hsize : size ≤ 1) : reduce f size x = x 0 := by
  rw [reduce, Nat.sub_eq_zero_of_le hsize]
  rfl

theorem reduce_succ (n : ℕ) : reduce f (n + 2) x = f (reduce f (n + 1) x) (x (n + 1)) := by
  rw [reduce, reduce, Nat.add_sub_cancel, Nat.add_succ_sub_one, List.range_succ, List.foldl_append]
  rfl

theorem reduce_congr (hpos : 0 < size) (h : ∀ i < size, x i = y i) : reduce f size x = reduce f size y := by
  obtain ⟨n, rfl⟩ := Nat.exists_eq_add_of_lt hpos
  rw [Nat.zero_add] at h ⊢
  clear hpos
  induction n with
  | zero => exact h 0 Nat.one_pos
  | succ n ih =>
    rw [reduce_succ, reduce_succ, ih (fun i hi => h i (Nat.lt_succ_of_lt hi)), h (n + 1) (Nat.lt_succ_self _)]

theorem reduce_map {f' : γ → γ → γ} (g : β → γ) (hg : ∀ a b, g (f a b) = f' (g a) (g b)) (size : ℕ)
    (x : ℕ → β) : g (reduce f size x) = reduce f' size fun i => g (x i) := by
  rcases Nat.lt_or_ge 1 size with hsize | hsize
  · obtain ⟨n, rfl⟩ := Nat.exists_eq_add_of_lt hsize
    have heq : 1 + n + 1 = n + 2 := by omega
    rw [heq]
    clear hsize heq
    induction n with
    | zero => exact hg (x 0) (x 1)
    | succ n ih => rw [reduce_succ (n + 1), hg, ih, reduce_succ (n + 1)]
  · rw [reduce_of_le_one hsize, reduce_of_le_one hsize]

theorem reduce_first_two (hsize : 1 < size)
    (h : ∀ i, 2 ≤ i → f (f (x 0) (x 1)) (x i) = f (x 0) (x 1)) : reduce f size x = f (x 0) (x 1) := by
  obtain ⟨n, rfl⟩ := Nat.exists_eq_add_of_lt hsize
  have heq : 1 + n + 1 = n + 2 := by omega
  rw [heq]
  clear hsize heq
  induction n with
  | zero => rfl
  | succ n ih => rw [reduce_succ, ih, h (n + 2) (Nat.le_add_left 2 n)]

/-! ## Memories -/

variable {w : ℕ} {c : ℕ → ℕ → ℕ} {m m' : ℕ → ℕ → BitVec 8} {k : ℕ}

def reducedMemory (c : ℕ → ℕ → ℕ) (w size : ℕ) (m : ℕ → ℕ → BitVec 8) : ℕ → BitVec 8 := fun k =>
  BitVec.ofNat 8 (reduce c size (fun i => word w (m i) (k / w)) / 256 ^ (k % w))

theorem reducedMemory_of_le_one (hw : 0 < w) (hsize : size ≤ 1) : reducedMemory c w size m k = m 0 k := by
  rw [reducedMemory, reduce_of_le_one hsize]
  exact byte_word hw (m 0) k

theorem reducedMemory_one :
    reducedMemory c 1 size m k = BitVec.ofNat 8 (reduce c size fun i => (m i k).toNat) := by
  rw [reducedMemory, Nat.mod_one, Nat.pow_zero, Nat.div_one, Nat.div_one]
  simp only [word_one]

theorem reducedMemory_byte {c' : ℕ → ℕ → ℕ} (hw : 0 < w)
    (hc : ∀ a b, c a b / 256 ^ (k % w) % 256 = c' (a / 256 ^ (k % w) % 256) (b / 256 ^ (k % w) % 256)) :
    reducedMemory c w size m k = reducedMemory c' 1 size m k := by
  have hbyte : ∀ i, word w (m i) (k / w) / 256 ^ (k % w) % 256 = (m i k).toNat := by
    intro i
    have hcell := congrArg BitVec.toNat (byte_word hw (m i) k)
    rwa [BitVec.toNat_ofNat] at hcell
  have hmap := reduce_map (fun a => a / 256 ^ (k % w) % 256) hc size fun i => word w (m i) (k / w)
  simp only [hbyte] at hmap
  rw [reducedMemory_one, ← hmap, reducedMemory]
  apply BitVec.eq_of_toNat_eq
  rw [BitVec.toNat_ofNat, BitVec.toNat_ofNat]
  exact (Nat.mod_mod _ _).symm

theorem and_byte (a b i : ℕ) : (a &&& b) / 256 ^ i % 256 = (a / 256 ^ i % 256) &&& (b / 256 ^ i % 256) := by
  have hpow : 256 ^ i = 2 ^ (8 * i) := by rw [Nat.pow_mul]
  have hbyte : 256 = 2 ^ 8 := rfl
  rw [hpow, hbyte, Nat.and_div_two_pow, Nat.and_mod_two_pow]

theorem or_byte (a b i : ℕ) : (a ||| b) / 256 ^ i % 256 = (a / 256 ^ i % 256) ||| (b / 256 ^ i % 256) := by
  have hpow : 256 ^ i = 2 ^ (8 * i) := by rw [Nat.pow_mul]
  have hbyte : 256 = 2 ^ 8 := rfl
  rw [hpow, hbyte, Nat.or_div_two_pow, Nat.or_mod_two_pow]

theorem reducedMemory_congr (hpos : 0 < size)
    (h : ∀ i < size, read (m i) (k / w * w) w = read (m' i) (k / w * w) w) :
    reducedMemory c w size m k = reducedMemory c w size m' k := by
  rw [reducedMemory, reducedMemory, reduce_congr hpos fun i hi => word_congr (h i hi)]

end Foundations.Reduction
