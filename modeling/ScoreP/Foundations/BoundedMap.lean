import Mathlib.Data.Finset.Card

/-!
# Bounded maps

A finite map that never has more than `capacity` keys, and its representation by the first slots of an
array. `Represents.append`, `Represents.update` and `Represents.swapRemove` are the three changes of the
array: a new slot at the end, a new value in a slot, and a slot replaced by the last one.
-/

namespace Foundations

structure BoundedMap (K V : Type) (capacity : ℕ) where
  lookup : K → Option V
  keys : Finset K
  mem_keys : ∀ k, k ∈ keys ↔ (lookup k).isSome = true
  card_le : keys.card ≤ capacity

namespace BoundedMap

variable {K V : Type} {capacity : ℕ}

def empty : BoundedMap K V capacity where
  lookup _ := none
  keys := ∅
  mem_keys := by simp
  card_le := by simp

theorem lookup_eq_none {m : BoundedMap K V capacity} {k : K} : m.lookup k = none ↔ k ∉ m.keys := by
  rw [m.mem_keys]
  cases m.lookup k <;> simp

theorem mem_of_lookup {m : BoundedMap K V capacity} {k : K} {v : V} (h : m.lookup k = some v) : k ∈ m.keys := by
  rw [m.mem_keys, h]
  rfl

variable [DecidableEq K]

/-- A key that is there gets another value; a new one needs room. -/
def insert (m : BoundedMap K V capacity) (k : K) (v : V)
    (h : k ∈ m.keys ∨ m.keys.card < capacity) : BoundedMap K V capacity where
  lookup := Function.update m.lookup k (some v)
  keys := Insert.insert k m.keys
  mem_keys := by
    intro k'
    by_cases hk : k' = k
    · subst hk
      simp
    · simp [hk, m.mem_keys k']
  card_le := by
    rcases h with h | h
    · rw [Finset.insert_eq_of_mem h]
      exact m.card_le
    · exact le_trans (Finset.card_insert_le k m.keys) h

def erase (m : BoundedMap K V capacity) (k : K) : BoundedMap K V capacity where
  lookup := Function.update m.lookup k none
  keys := m.keys.erase k
  mem_keys := by
    intro k'
    by_cases hk : k' = k
    · subst hk
      simp
    · simp [hk, m.mem_keys k']
  card_le := le_trans (Finset.card_erase_le) m.card_le

section Lemmas

variable (m : BoundedMap K V capacity) (k : K) (v : V) (h : k ∈ m.keys ∨ m.keys.card < capacity)

@[simp] theorem lookup_insert : (m.insert k v h).lookup = Function.update m.lookup k (some v) := rfl

@[simp] theorem keys_insert : (m.insert k v h).keys = Insert.insert k m.keys := rfl

@[simp] theorem lookup_erase : (m.erase k).lookup = Function.update m.lookup k none := rfl

@[simp] theorem keys_erase : (m.erase k).keys = m.keys.erase k := rfl

theorem erase_insert : (m.insert k v h).erase k = m.erase k := by
  unfold erase insert
  congr 1
  · exact Function.update_idem _ _ _
  · exact Finset.erase_insert_eq_erase _ _

end Lemmas

end BoundedMap

/-! ## Slots -/

variable {K V : Type} {capacity : ℕ}

structure Represents (slots : ℕ → K × V) (n : ℕ) (m : BoundedMap K V capacity) : Prop where
  card_eq : m.keys.card = n
  lookup_iff : ∀ k v, m.lookup k = some v ↔ ∃ i < n, slots i = (k, v)
  key_inj : ∀ i < n, ∀ j < n, (slots i).1 = (slots j).1 → i = j

namespace Represents

variable {slots : ℕ → K × V} {n i : ℕ} {m : BoundedMap K V capacity} {k : K} {v : V}

theorem empty (slots : ℕ → K × V) : Represents slots 0 (BoundedMap.empty : BoundedMap K V capacity) :=
  ⟨rfl, by simp [BoundedMap.empty], by simp⟩

theorem lookup_slot (h : Represents slots n m) (hi : i < n) : m.lookup (slots i).1 = some (slots i).2 :=
  (h.lookup_iff _ _).mpr ⟨i, hi, rfl⟩

theorem lookup_of_key (h : Represents slots n m) (hi : i < n) (hk : (slots i).1 = k) :
    m.lookup k = some (slots i).2 := by
  rw [← hk]
  exact h.lookup_slot hi

theorem lookup_none (h : Represents slots n m) (hk : ∀ i < n, (slots i).1 ≠ k) : m.lookup k = none := by
  cases hl : m.lookup k with
  | none => rfl
  | some v =>
    rcases (h.lookup_iff k v).mp hl with ⟨i, hi, hslot⟩
    exact absurd (by rw [hslot]) (hk i hi)

variable [DecidableEq K]

theorem append (h : Represents slots n m) (hnew : k ∉ m.keys) (hroom : m.keys.card < capacity) :
    Represents (Function.update slots n (k, v)) (n + 1) (m.insert k v (.inr hroom)) := by
  have hnone : m.lookup k = none := BoundedMap.lookup_eq_none.mpr hnew
  have hold : ∀ i < n, (slots i).1 ≠ k := by
    intro i hi hk
    rw [h.lookup_of_key hi hk] at hnone
    cases hnone
  constructor
  · rw [BoundedMap.keys_insert, Finset.card_insert_of_notMem hnew, h.card_eq]
  · intro k' v'
    by_cases hk : k' = k
    · subst hk
      simp only [BoundedMap.lookup_insert, Function.update_self, Option.some.injEq]
      constructor
      · rintro rfl
        exact ⟨n, by omega, by rw [Function.update_self]⟩
      · rintro ⟨i, hi, hslot⟩
        by_cases hin : i = n
        · subst hin
          simpa using hslot
        · rw [Function.update_of_ne hin] at hslot
          exact absurd (by rw [hslot]) (hold i (by omega))
    · rw [BoundedMap.lookup_insert, Function.update_of_ne hk, h.lookup_iff]
      constructor
      · rintro ⟨i, hi, hslot⟩
        exact ⟨i, by omega, by rw [Function.update_of_ne (by omega), hslot]⟩
      · rintro ⟨i, hi, hslot⟩
        by_cases hin : i = n
        · subst hin
          rw [Function.update_self] at hslot
          cases hslot
          exact absurd rfl hk
        · exact ⟨i, by omega, by rwa [Function.update_of_ne hin] at hslot⟩
  · intro i hi j hj hkeys
    by_cases hin : i = n
    · by_cases hjn : j = n
      · omega
      · subst hin
        rw [Function.update_self, Function.update_of_ne hjn] at hkeys
        exact absurd hkeys.symm (hold j (by omega))
    · by_cases hjn : j = n
      · subst hjn
        rw [Function.update_self, Function.update_of_ne hin] at hkeys
        exact absurd hkeys (hold i (by omega))
      · rw [Function.update_of_ne hin, Function.update_of_ne hjn] at hkeys
        exact h.key_inj i (by omega) j (by omega) hkeys

theorem update (h : Represents slots n m) (hi : i < n) (hk : (slots i).1 = k) (hmem : k ∈ m.keys) :
    Represents (Function.update slots i (k, v)) n (m.insert k v (.inl hmem)) := by
  have hkeys : ∀ j, (Function.update slots i (k, v) j).1 = (slots j).1 := by
    intro j
    by_cases hj : j = i
    · subst hj
      rw [Function.update_self, hk]
    · rw [Function.update_of_ne hj]
  constructor
  · rw [BoundedMap.keys_insert, Finset.insert_eq_of_mem hmem, h.card_eq]
  · intro k' v'
    by_cases hk' : k' = k
    · subst hk'
      simp only [BoundedMap.lookup_insert, Function.update_self, Option.some.injEq]
      constructor
      · rintro rfl
        exact ⟨i, hi, by rw [Function.update_self]⟩
      · rintro ⟨j, hj, hslot⟩
        have hji : j = i := by
          apply h.key_inj j hj i hi
          rw [hk, ← hkeys j, hslot]
        subst hji
        simpa using hslot
    · rw [BoundedMap.lookup_insert, Function.update_of_ne hk', h.lookup_iff]
      constructor
      · rintro ⟨j, hj, hslot⟩
        refine ⟨j, hj, ?_⟩
        rw [Function.update_of_ne, hslot]
        rintro rfl
        rw [hslot] at hk
        exact hk' hk
      · rintro ⟨j, hj, hslot⟩
        refine ⟨j, hj, ?_⟩
        rwa [Function.update_of_ne] at hslot
        rintro rfl
        rw [Function.update_self] at hslot
        cases hslot
        exact hk' rfl
  · intro j hj j' hj' hsame
    rw [hkeys, hkeys] at hsame
    exact h.key_inj j hj j' hj' hsame

theorem swapRemove (h : Represents slots n m) (hi : i < n) (hk : (slots i).1 = k) :
    Represents (Function.update slots i (slots (n - 1))) (n - 1) (m.erase k) := by
  have hlookup := h.lookup_of_key hi hk
  have hmem : k ∈ m.keys := BoundedMap.mem_of_lookup hlookup
  -- every slot of the new array is a slot of the old one, and not slot `i`
  have hback : ∀ j < n - 1, ∃ j' < n, j' ≠ i ∧
      Function.update slots i (slots (n - 1)) j = slots j' ∧ (j' = j ∨ j = i ∧ j' = n - 1) := by
    intro j hj
    by_cases hji : j = i
    · subst hji
      exact ⟨n - 1, by omega, by omega, by rw [Function.update_self], .inr ⟨rfl, rfl⟩⟩
    · exact ⟨j, by omega, hji, by rw [Function.update_of_ne hji], .inl rfl⟩
  constructor
  · rw [BoundedMap.keys_erase, Finset.card_erase_of_mem hmem, h.card_eq]
  · intro k' v'
    by_cases hk' : k' = k
    · subst hk'
      simp only [BoundedMap.lookup_erase, Function.update_self, reduceCtorEq, false_iff, not_exists, not_and]
      intro j hj hslot
      rcases hback j hj with ⟨j', hj', hne, hsame, -⟩
      apply hne
      apply h.key_inj j' hj' i hi
      rw [← hsame, hslot, hk]
    · rw [BoundedMap.lookup_erase, Function.update_of_ne hk', h.lookup_iff]
      constructor
      · rintro ⟨j, hj, hslot⟩
        have hji : j ≠ i := by
          rintro rfl
          rw [hslot] at hk
          exact hk' hk
        by_cases hlast : j = n - 1
        · refine ⟨i, by omega, ?_⟩
          rw [Function.update_self, ← hlast, hslot]
        · exact ⟨j, by omega, by rw [Function.update_of_ne hji, hslot]⟩
      · rintro ⟨j, hj, hslot⟩
        rcases hback j hj with ⟨j', hj', -, hsame, -⟩
        exact ⟨j', hj', by rw [← hsame, hslot]⟩
  · intro j hj j' hj' hkeys
    rcases hback j hj with ⟨a, ha, hai, hsame, hcase⟩
    rcases hback j' hj' with ⟨b, hb, hbi, hsame', hcase'⟩
    rw [hsame, hsame'] at hkeys
    have hab := h.key_inj a ha b hb hkeys
    omega

end Represents

end Foundations
