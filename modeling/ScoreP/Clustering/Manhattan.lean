import Mathlib.Algebra.BigOperators.Fin
import Mathlib.Analysis.Real.Sqrt
import ScoreP.Clustering.Clusterer

/-!
# The distance of two clusters

Source: `calculate_cluster_distance` in `src/measurement/profiling/scorep_profile_cluster.c`, with the
numbers of an ordered field in place of `double`; `sqrt` is a parameter.

The difference of two averages is one of `uint64_t` numbers before it is a `double`, so it is never
negative and the branch for negative differences is never taken (`calculateClusterDistance_eq`).
`manhattan_iff` says for which clusters the distance is the normalised Manhattan distance in both
orders.
-/

namespace ScoreP.Clustering

variable {K : Type} [Field K] [LinearOrder K] {n : ℕ}

/-- `double diff = a->mets_avg.dense_metrics[ mr ] - b->mets_avg.dense_metrics[ mr ]` -/
def difference (a b : UInt64) : K :=
  ((a - b).toNat : K)

def addMetric (reference : K) (a b : UInt64) (distance : K) : K :=
  let diff : K := difference a b
  if 0 = diff then distance
  else if 0 < diff then distance + diff / reference
  else distance - diff / reference

def multiplier (countA countB : UInt32) : K :=
  4 / 10 + 5 / 100 * ((countA + countB).toNat : K)

def sizeFactor (sqrt : K → K) (countA countB : UInt32) : K :=
  let m : K := multiplier countA countB
  if 1 ≥ m then m else sqrt m

def calculateClusterDistance (sqrt : K → K) (a : Metrics n) (countA : UInt32) (b : Metrics n)
    (countB : UInt32) (reference : Fin n → K) : K :=
  (List.finRange n).foldl (fun distance mr => addMetric (reference mr) (a mr) (b mr) distance) 0 *
    sizeFactor sqrt countA countB

/-! ## What is calculated -/

variable [IsStrictOrderedRing K] {sqrt : K → K} {a b : Metrics n} {countA countB : UInt32}
  {reference : Fin n → K}

theorem addMetric_eq (r : K) (x y : UInt64) (distance : K) :
    addMetric r x y distance = distance + difference x y / r := by
  have hnonneg : (0 : K) ≤ difference x y := Nat.cast_nonneg _
  unfold addMetric
  by_cases hzero : (0 : K) = difference x y
  · rw [if_pos hzero, ← hzero, zero_div, add_zero]
  · rw [if_neg hzero, if_pos (lt_of_le_of_ne hnonneg hzero)]

theorem calculateClusterDistance_eq : calculateClusterDistance sqrt a countA b countB reference =
      (∑ mr, difference (a mr) (b mr) / reference mr) * sizeFactor sqrt countA countB := by
  have hloop : ∀ (mets : List (Fin n)) (distance : K),
      mets.foldl (fun distance mr => addMetric (reference mr) (a mr) (b mr) distance) distance =
        distance + (mets.map fun mr => difference (a mr) (b mr) / reference mr).sum := by
    intro mets
    induction mets with
    | nil => simp
    | cons mr mets ih =>
      intro distance
      rw [List.foldl_cons, ih, addMetric_eq, List.map_cons, List.sum_cons, add_assoc]
  rw [calculateClusterDistance, hloop, zero_add, Fin.sum_univ_def]

def excess (a b : UInt64) : K :=
  if a < b then 2 ^ 64 - 2 * ((b.toNat : K) - a.toNat) else 0

theorem difference_eq (x y : UInt64) : (difference x y : K) = |(x.toNat : K) - y.toNat| + excess x y := by
  have hx := x.toNat_lt
  have hy := y.toNat_lt
  unfold difference excess
  rw [UInt64.toNat_sub]
  by_cases hlt : x < y
  · have hlt' : x.toNat < y.toNat := hlt
    have hmod : (2 ^ 64 - y.toNat + x.toNat) % 2 ^ 64 = 2 ^ 64 - y.toNat + x.toNat :=
      Nat.mod_eq_of_lt (by omega)
    have hneg : (x.toNat : K) - y.toNat < 0 := sub_neg.2 (Nat.cast_lt.2 hlt')
    rw [if_pos hlt, hmod, abs_of_neg hneg, Nat.cast_add, Nat.cast_sub hy.le, Nat.cast_pow]
    push_cast
    ring
  · have hle : y.toNat ≤ x.toNat := Nat.le_of_not_lt hlt
    have hmod : (2 ^ 64 - y.toNat + x.toNat) % 2 ^ 64 = x.toNat - y.toNat := by omega
    have hnonneg : (0 : K) ≤ (x.toNat : K) - y.toNat := sub_nonneg.2 (Nat.cast_le.2 hle)
    rw [if_neg hlt, hmod, abs_of_nonneg hnonneg, Nat.cast_sub hle, add_zero]

theorem difference_eq_zero_iff {x y : UInt64} : (difference x y : K) = 0 ↔ x = y := by
  unfold difference
  rw [Nat.cast_eq_zero]
  constructor
  · intro hzero
    have hx := x.toNat_lt
    have hy := y.toNat_lt
    rw [UInt64.toNat_sub] at hzero
    exact UInt64.toNat_inj.1 (by omega)
  · intro heq
    rw [heq, UInt64.sub_self]
    rfl

theorem multiplier_pos : (0 : K) < multiplier countA countB := by
  unfold multiplier
  positivity

theorem sizeFactor_pos (hsqrt : ∀ x : K, 0 < x → 0 < sqrt x) : 0 < sizeFactor sqrt countA countB := by
  unfold sizeFactor
  dsimp only
  split
  · exact multiplier_pos
  · exact hsqrt _ multiplier_pos

omit [IsStrictOrderedRing K] in
theorem sizeFactor_comm : sizeFactor sqrt countA countB = sizeFactor sqrt countB countA := by
  unfold sizeFactor multiplier
  rw [UInt32.add_comm]

def totalExcess (a b : Metrics n) (reference : Fin n → K) : K :=
  ∑ mr, excess (a mr) (b mr) / reference mr

def manhattan (a b : Metrics n) (reference : Fin n → K) : K :=
  ∑ mr, |((a mr).toNat : K) - (b mr).toNat| / reference mr

omit [IsStrictOrderedRing K] in
theorem manhattan_comm : manhattan a b reference = manhattan b a reference := by
  unfold manhattan
  refine Finset.sum_congr rfl fun mr _ => ?_
  rw [abs_sub_comm]

theorem calculateClusterDistance_eq_manhattan : calculateClusterDistance sqrt a countA b countB reference =
      (manhattan a b reference + totalExcess a b reference) * sizeFactor sqrt countA countB := by
  rw [calculateClusterDistance_eq, manhattan, totalExcess, ← Finset.sum_add_distrib]
  congr 1
  refine Finset.sum_congr rfl fun mr _ => ?_
  rw [difference_eq, add_div]

theorem calculateClusterDistance_eq_zero_iff (hreference : ∀ mr, 0 < reference mr)
    (hsqrt : ∀ x : K, 0 < x → 0 < sqrt x) :
    calculateClusterDistance sqrt a countA b countB reference = 0 ↔ ∀ mr, a mr = b mr := by
  have hnonneg : ∀ mr ∈ Finset.univ, (0 : K) ≤ difference (a mr) (b mr) / reference mr :=
    fun mr _ => div_nonneg (Nat.cast_nonneg _) (hreference mr).le
  rw [calculateClusterDistance_eq, mul_eq_zero, or_iff_left (sizeFactor_pos hsqrt).ne',
    Finset.sum_eq_zero_iff_of_nonneg hnonneg]
  constructor
  · intro h mr
    have hzero := h mr (Finset.mem_univ mr)
    rw [div_eq_zero_iff, or_iff_left (hreference mr).ne'] at hzero
    exact difference_eq_zero_iff.1 hzero
  · intro h mr _
    rw [difference_eq_zero_iff.2 (h mr), zero_div]

/-! ## When it is the Manhattan distance -/

structure IsManhattan (sqrt : K → K) (a : Metrics n) (countA : UInt32) (b : Metrics n)
    (countB : UInt32) (reference : Fin n → K) : Prop where
  eq : calculateClusterDistance sqrt a countA b countB reference =
    manhattan a b reference * sizeFactor sqrt countA countB
  symm : calculateClusterDistance sqrt a countA b countB reference =
    calculateClusterDistance sqrt b countB a countA reference
  eq_zero_iff : calculateClusterDistance sqrt a countA b countB reference = 0 ↔ ∀ mr, a mr = b mr

theorem manhattan_iff (hreference : ∀ mr, 0 < reference mr) (hsqrt : ∀ x : K, 0 < x → 0 < sqrt x) :
    IsManhattan sqrt a countA b countB reference ↔
      totalExcess a b reference = 0 ∧ totalExcess b a reference = 0 := by
  have hfactor : sizeFactor sqrt countA countB ≠ 0 := (sizeFactor_pos hsqrt).ne'
  have hcomm : sizeFactor sqrt countB countA = sizeFactor sqrt countA countB := sizeFactor_comm
  constructor
  · intro h
    have heq := h.eq
    have hsymm := h.symm
    rw [calculateClusterDistance_eq_manhattan, mul_left_inj' hfactor, add_eq_left] at heq
    rw [calculateClusterDistance_eq_manhattan, calculateClusterDistance_eq_manhattan, heq,
      hcomm, mul_left_inj' hfactor, manhattan_comm, add_right_inj] at hsymm
    exact ⟨heq, hsymm.symm⟩
  · rintro ⟨hab, hba⟩
    refine ⟨?_, ?_, calculateClusterDistance_eq_zero_iff hreference hsqrt⟩
    · rw [calculateClusterDistance_eq_manhattan, hab, add_zero]
    · rw [calculateClusterDistance_eq_manhattan, calculateClusterDistance_eq_manhattan, hab, hba,
        sizeFactor_comm, manhattan_comm]

/-- Two clusters of one iteration each with equal averages. -/
theorem manhattan_iff_equal : IsManhattan Real.sqrt (fun _ : Fin 1 => 5) 1 (fun _ => 5) 1 (fun _ => 5) ↔
    totalExcess (fun _ : Fin 1 => 5) (fun _ => 5) (fun _ => (5 : ℝ)) = 0 ∧
      totalExcess (fun _ : Fin 1 => 5) (fun _ => 5) (fun _ => (5 : ℝ)) = 0 :=
  manhattan_iff (fun _ => by norm_num) fun _ hx => Real.sqrt_pos.2 hx

/-- The first average is smaller, and the distance is that of 2^64 − 1 instead of 1. -/
theorem not_isManhattan_smaller :
    ¬IsManhattan (id : ℚ → ℚ) (fun _ : Fin 1 => 0) 1 (fun _ => 1) 1 (fun _ => 1) := by
  intro h
  have heq := h.eq
  have hcode : calculateClusterDistance (id : ℚ → ℚ) (fun _ : Fin 1 => 0) 1 (fun _ => 1) 1
      (fun _ => 1) = (2 ^ 64 - 1) / 2 := by decide +kernel
  have hone : UInt64.toNat 1 = 1 := rfl
  have hcount : UInt32.toNat 1 = 1 := rfl
  rw [hcode] at heq
  norm_num [manhattan, sizeFactor, multiplier, hone, hcount] at heq

end ScoreP.Clustering
