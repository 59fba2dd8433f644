import ScoreP.Config.RoundTrip

/-!
# The hint for the total memory

Source: `get_user_readable_byte_no` and `printGroups` in `SCOREP_Score_Estimator.cpp`. The text of the hint is
given to `parse_size` of the configuration. Between 4097 and `2 ^ 32 - 1` bytes it denotes at least the bytes
and at most one unit more; the text for fewer bytes ends in ` bytes`, which is no suffix of a size
(`hint_iff`).
-/

namespace ScoreP.Score

open ScoreP.Config

/-- The loop of `get_user_readable_byte_no`. -/
def scaleBytes (bytes : UInt64) (exp : ℕ) : UInt64 × ℕ :=
  if 4 * 1024 < bytes then scaleBytes (bytes / 1024) (exp + 1) else (bytes, exp)
termination_by bytes.toNat
decreasing_by
  rename_i h
  rw [UInt64.lt_iff_toNat_lt] at h
  rw [UInt64.toNat_div]
  exact Nat.div_lt_self (by omega) (by decide)

/-- The cases of the `switch`, which has no default. -/
def byteUnit (exp : ℕ) : Text :=
  ([" bytes", "kB", "MB", "GB", "TB", "PB", "EB", "ZB", "YB"][exp]?.getD "").toList

def getUserReadableByteNo (bytes : UInt64) : Text :=
  decimal ((scaleBytes bytes 0).1 + 1) ++ byteUnit (scaleBytes bytes 0).2

/-- `memory_req` of `printGroups`. -/
def memoryReq (maxBuf maxNumberOfLocationsPerProcess : UInt64) : UInt64 :=
  let value : UInt64 := 2 * 1024 * 1024
  (if value > maxBuf then value else maxBuf) + value * maxNumberOfLocationsPerProcess

def HintHolds (memoryReq : UInt64) : Prop :=
  ∀ old, ∃ v, parseSize (getUserReadableByteNo memoryReq) old = (v, true) ∧
    memoryReq.toNat ≤ v.toNat ∧ v.toNat ≤ memoryReq.toNat + memoryReq.toNat / 4 ∧
    v.toNat ≤ memoryReq.toNat + 1024 ^ (scaleBytes memoryReq 0).2

variable {bytes : UInt64} {exp : ℕ}

theorem scaleBytes_of_le (h : bytes.toNat ≤ 4096) : scaleBytes bytes exp = (bytes, exp) := by
  have hnot : ¬ 4 * 1024 < bytes := by
    rw [UInt64.lt_iff_toNat_lt]
    exact not_lt.mpr h
  rw [scaleBytes, if_neg hnot]

theorem scaleBytes_of_lt (h : 4096 < bytes.toNat) :
    scaleBytes bytes exp = scaleBytes (bytes / 1024) (exp + 1) := by
  have hlt : 4 * 1024 < bytes := UInt64.lt_iff_toNat_lt.mpr h
  rw [scaleBytes, if_pos hlt]

theorem div_toNat : (bytes / 1024).toNat = bytes.toNat / 1024 :=
  UInt64.toNat_div bytes 1024

theorem parseSize_scaled {n scaleFactor : UInt64} {rest : Text} (old : UInt64) (hrest : NoDigit rest)
    (hscale : sizeScale rest = some scaleFactor) (hone : 1 ≤ scaleFactor.toNat)
    (hfits : n.toNat * scaleFactor.toNat < 2 ^ 64) :
    ∃ v, parseSize (decimal n ++ rest) old = (v, true) ∧ v.toNat = n.toNat * scaleFactor.toNat := by
  have hvalue : (n * scaleFactor).toNat = n.toNat * scaleFactor.toNat := by
    rw [UInt64.toNat_mul]
    exact Nat.mod_eq_of_lt hfits
  have hno : ¬ n * scaleFactor < n := by
    rw [UInt64.lt_iff_toNat_lt, hvalue, not_lt]
    exact Nat.le_mul_of_pos_right _ hone
  refine ⟨n * scaleFactor, ?_, hvalue⟩
  rw [parseSize, parseUint64_decimal n hrest]
  simp [hscale, hno]

theorem noDigit_byteUnit : NoDigit (byteUnit 0) ∧ NoDigit (byteUnit 1) ∧ NoDigit (byteUnit 2) := by
  refine ⟨?_, ?_, ?_⟩ <;> rintro c hc <;> cases hc <;> rfl

theorem not_hintHolds (h : bytes.toNat ≤ 4096) : ¬ HintHolds bytes := by
  intro hholds
  obtain ⟨v, hparse, -⟩ := hholds 0
  have hscale : sizeScale (byteUnit 0) = none := by decide
  rw [getUserReadableByteNo, scaleBytes_of_le h, parseSize, parseUint64_decimal _ noDigit_byteUnit.1] at hparse
  simp [hscale] at hparse

theorem hintHolds_of_lt (h : 4096 < bytes.toNat) (hlt : bytes.toNat < 2 ^ 32) : HintHolds bytes := by
  intro old
  have hdiv := @div_toNat bytes
  have hone : (1 : UInt64).toNat = 1 := rfl
  rw [getUserReadableByteNo, scaleBytes_of_lt h]
  by_cases hkilo : bytes.toNat / 1024 ≤ 4096
  · rw [scaleBytes_of_le (by rw [hdiv]; exact hkilo)]
    have hnumber : (bytes / 1024 + 1).toNat = bytes.toNat / 1024 + 1 := by
      rw [UInt64.toNat_add, hdiv, hone]
      omega
    have hunit : sizeScale (byteUnit 1) = some 1024 := by decide
    have hfactor : (1024 : UInt64).toNat = 1024 := rfl
    obtain ⟨v, hparse, hv⟩ := parseSize_scaled old noDigit_byteUnit.2.1 hunit (by decide)
      (n := bytes / 1024 + 1) (by rw [hnumber, hfactor]; omega)
    rw [hnumber, hfactor] at hv
    refine ⟨v, hparse, by omega, by omega, ?_⟩
    change _ ≤ _ + 1024 ^ 1
    omega
  · have hdiv' := @div_toNat (bytes / 1024)
    rw [scaleBytes_of_lt (by rw [hdiv]; omega), scaleBytes_of_le (by rw [hdiv', hdiv]; omega)]
    have hnumber : (bytes / 1024 / 1024 + 1).toNat = bytes.toNat / 1024 / 1024 + 1 := by
      rw [UInt64.toNat_add, hdiv', hdiv, hone]
      omega
    have hunit : sizeScale (byteUnit 2) = some (1024 * 1024) := by decide
    have hfactor : (1024 * 1024 : UInt64).toNat = 1024 * 1024 := rfl
    obtain ⟨v, hparse, hv⟩ := parseSize_scaled old noDigit_byteUnit.2.2 hunit (by decide)
      (n := bytes / 1024 / 1024 + 1) (by rw [hnumber, hfactor]; omega)
    rw [hnumber, hfactor] at hv
    refine ⟨v, hparse, by omega, by omega, ?_⟩
    change _ ≤ _ + 1024 ^ 2
    omega

theorem memoryReq_toNat (maxBuf maxNumberOfLocationsPerProcess : UInt64) :
    (memoryReq maxBuf maxNumberOfLocationsPerProcess).toNat =
      (max (2 ^ 21) maxBuf.toNat + 2 ^ 21 * maxNumberOfLocationsPerProcess.toNat) % 2 ^ 64 := by
  have hvalue : (2 * 1024 * 1024 : UInt64).toNat = 2 ^ 21 := rfl
  have hmax : (if (2 * 1024 * 1024 : UInt64) > maxBuf then 2 * 1024 * 1024 else maxBuf).toNat =
      max (2 ^ 21) maxBuf.toNat := by
    split
    next hgt =>
      rw [gt_iff_lt, UInt64.lt_iff_toNat_lt, hvalue] at hgt
      rw [hvalue, max_eq_left (by omega)]
    next hle =>
      rw [gt_iff_lt, UInt64.lt_iff_toNat_lt, hvalue] at hle
      rw [max_eq_right (by omega)]
  rw [memoryReq, UInt64.toNat_add, UInt64.toNat_mul, hmax, hvalue]
  omega

/-- The hint holds if the sum of 64 bits has not wrapped around to at most 4096 bytes; a sum that does not
wrap around is larger. -/
theorem hint_iff (maxBuf maxNumberOfLocationsPerProcess : UInt64)
    (h : (memoryReq maxBuf maxNumberOfLocationsPerProcess).toNat < 2 ^ 32) :
    (HintHolds (memoryReq maxBuf maxNumberOfLocationsPerProcess) ↔
      4096 < (max (2 ^ 21) maxBuf.toNat + 2 ^ 21 * maxNumberOfLocationsPerProcess.toNat) % 2 ^ 64) ∧
    (max (2 ^ 21) maxBuf.toNat + 2 ^ 21 * maxNumberOfLocationsPerProcess.toNat < 2 ^ 64 →
      HintHolds (memoryReq maxBuf maxNumberOfLocationsPerProcess)) := by
  rw [← memoryReq_toNat]
  refine ⟨⟨?_, fun hlt => hintHolds_of_lt hlt h⟩, ?_⟩
  · intro hholds
    by_contra hle
    exact not_hintHolds (not_lt.mp hle) hholds
  · intro hexact
    apply hintHolds_of_lt _ h
    rw [memoryReq_toNat, Nat.mod_eq_of_lt hexact]
    omega

theorem hint_iff_default : HintHolds (memoryReq 10000000 4) :=
  (hint_iff 10000000 4 (by decide)).2 (by decide)

/-- The requirements for a buffer of `2 ^ 64 - 2 ^ 21` bytes and one location wrap around to 0. -/
theorem hint_wrapped : ¬ ∀ maxBuf maxNumberOfLocationsPerProcess : UInt64,
    (memoryReq maxBuf maxNumberOfLocationsPerProcess).toNat < 2 ^ 32 →
      HintHolds (memoryReq maxBuf maxNumberOfLocationsPerProcess) := by
  intro h
  exact not_hintHolds (by decide) (h (2 ^ 64 - 2 ^ 21) 1 (by decide))

end ScoreP.Score
