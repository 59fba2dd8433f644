import Mathlib.Data.List.Nodup

/-!
# Disjoint holdings

Each holder `i` keeps a list of objects `held i`. The holdings are `Apart` when no object is kept twice,
neither by one holder nor by two. Objects leave at the head of a list (`Apart.pop`), are given to a holder
when nobody keeps them (`Apart.push`), pass from the head of one list to the head of another (`Apart.move`),
leave from within a list (`Apart.erase`) or are abandoned with the whole list (`Apart.drop`).

Objects that are numbered in the order of their creation are `Accounted` for when each of them is kept in one
place (`Accounted.create`, `Accounted.move`).
-/

namespace Foundations

open Function List

universe u v

variable {ι : Type u} {α : Type v} [DecidableEq ι]

structure Apart (held : ι → List α) : Prop where
  nodup : ∀ i, (held i).Nodup
  unique : ∀ {i j a}, a ∈ held i → a ∈ held j → i = j

def Unheld (held : ι → List α) (a : α) : Prop :=
  ∀ i, a ∉ held i

variable {held : ι → List α} {i j : ι} {a : α} {as : List α}

omit [DecidableEq ι] in
theorem apart_nil : Apart fun _ : ι => ([] : List α) := by
  constructor
  · intro _
    exact nodup_nil
  · intro _ _ _ hmem
    exact absurd hmem not_mem_nil

theorem Apart.pop (h : Apart held) (hi : held i = a :: as) :
    Apart (update held i as) ∧ Unheld (update held i as) a := by
  have hnodup := h.nodup i
  rw [hi] at hnodup
  have hsub : ∀ j b, b ∈ update held i as j → b ∈ held j := by
    intro j b hb
    by_cases hj : j = i
    · subst hj
      rw [update_self] at hb
      rw [hi]
      exact mem_cons_of_mem a hb
    · rwa [update_of_ne hj] at hb
  refine ⟨⟨?_, fun hb hb' => h.unique (hsub _ _ hb) (hsub _ _ hb')⟩, ?_⟩
  · intro j
    by_cases hj : j = i
    · subst hj
      rw [update_self]
      exact hnodup.of_cons
    · rw [update_of_ne hj]
      exact h.nodup j
  · intro j hmem
    have hhead : a ∈ held i := hi ▸ mem_cons_self
    cases h.unique (hsub j a hmem) hhead
    rw [update_self] at hmem
    exact hnodup.notMem hmem

theorem Apart.push (h : Apart held) (ha : Unheld held a) : Apart (update held i (a :: held i)) := by
  have hcases : ∀ j b, b ∈ update held i (a :: held i) j → j = i ∧ b = a ∨ b ∈ held j := by
    intro j b hb
    by_cases hj : j = i
    · subst hj
      rw [update_self] at hb
      rcases mem_cons.1 hb with rfl | hb
      · exact Or.inl ⟨rfl, rfl⟩
      · exact Or.inr hb
    · rw [update_of_ne hj] at hb
      exact Or.inr hb
  constructor
  · intro j
    by_cases hj : j = i
    · subst hj
      rw [update_self]
      exact nodup_cons.2 ⟨ha j, h.nodup j⟩
    · rw [update_of_ne hj]
      exact h.nodup j
  · intro j k b hj hk
    rcases hcases j b hj with ⟨hji, hba⟩ | hj
    · rcases hcases k b hk with ⟨hki, -⟩ | hk
      · exact hji.trans hki.symm
      · exact absurd (hba ▸ hk) (ha k)
    · rcases hcases k b hk with ⟨-, hba⟩ | hk
      · exact absurd (hba ▸ hj) (ha j)
      · exact h.unique hj hk

theorem Apart.move (h : Apart held) (hi : held i = a :: as) (hij : i ≠ j) :
    Apart (update (update held i as) j (a :: held j)) := by
  obtain ⟨hpop, hunheld⟩ := h.pop hi
  have hpush := hpop.push (i := j) hunheld
  rwa [update_of_ne hij.symm] at hpush

theorem Apart.drop (h : Apart held) : Apart (update held i []) := by
  have hsub : ∀ j b, b ∈ update held i [] j → b ∈ held j ∧ j ≠ i := by
    intro j b hb
    by_cases hj : j = i
    · subst hj
      rw [update_self] at hb
      exact absurd hb not_mem_nil
    · rw [update_of_ne hj] at hb
      exact ⟨hb, hj⟩
  refine ⟨?_, fun hb hb' => h.unique (hsub _ _ hb).1 (hsub _ _ hb').1⟩
  intro j
  by_cases hj : j = i
  · subst hj
    rw [update_self]
    exact nodup_nil
  · rw [update_of_ne hj]
    exact h.nodup j

theorem Apart.erase [DecidableEq α] (h : Apart held) (ha : a ∈ held i) :
    Apart (update held i ((held i).erase a)) ∧ Unheld (update held i ((held i).erase a)) a := by
  have hsub : ∀ j b, b ∈ update held i ((held i).erase a) j → b ∈ held j := by
    intro j b hb
    by_cases hj : j = i
    · subst hj
      rw [update_self] at hb
      exact mem_of_mem_erase hb
    · rwa [update_of_ne hj] at hb
  refine ⟨⟨?_, fun hb hb' => h.unique (hsub _ _ hb) (hsub _ _ hb')⟩, ?_⟩
  · intro j
    by_cases hj : j = i
    · subst hj
      rw [update_self]
      exact (h.nodup j).erase a
    · rw [update_of_ne hj]
      exact h.nodup j
  · intro j hmem
    cases h.unique (hsub j a hmem) ha
    rw [update_self] at hmem
    exact (h.nodup i).not_mem_erase hmem

omit [DecidableEq ι] in
theorem Apart.notMem (h : Apart held) (ha : a ∈ held i) (hij : i ≠ j) : a ∉ held j :=
  fun hmem => hij (h.unique ha hmem)

omit [DecidableEq ι] in
theorem unheld_of_bounded {held : ι → List ℕ} {bound : ℕ} (h : ∀ i, ∀ a ∈ held i, a < bound) :
    Unheld held bound :=
  fun i hmem => absurd (h i bound hmem) (Nat.lt_irrefl bound)

/-! ## Nothing is lost -/

/-- The objects that were created, in order, are the ones that are kept, each in one place. -/
structure Accounted (held : ι → List ℕ) (created : ℕ) : Prop where
  apart : Apart held
  kept : ∀ a, (∃ i, a ∈ held i) ↔ a < created

omit [DecidableEq ι] in
theorem accounted_nil : Accounted (fun _ : ι => []) 0 := by
  constructor
  · exact apart_nil
  · intro a
    constructor
    · intro h
      obtain ⟨_, hmem⟩ := h
      exact absurd hmem not_mem_nil
    · intro h
      exact absurd h (Nat.not_lt_zero a)

theorem Accounted.create {held : ι → List ℕ} {created : ℕ} (h : Accounted held created) :
    Accounted (update held i (created :: held i)) (created + 1) := by
  have hunheld : Unheld held created := fun j hmem => absurd ((h.kept created).1 ⟨j, hmem⟩) (Nat.lt_irrefl _)
  refine ⟨h.apart.push hunheld, fun a => ?_⟩
  constructor
  · intro hheld
    obtain ⟨j, hmem⟩ := hheld
    by_cases hj : j = i
    · subst hj
      rw [update_self] at hmem
      rcases mem_cons.1 hmem with rfl | hold
      · exact Nat.lt_succ_self _
      · exact Nat.lt_succ_of_lt ((h.kept a).1 ⟨j, hold⟩)
    · rw [update_of_ne hj] at hmem
      exact Nat.lt_succ_of_lt ((h.kept a).1 ⟨j, hmem⟩)
  · intro hlt
    rcases Nat.lt_succ_iff_lt_or_eq.1 hlt with hlt | rfl
    · obtain ⟨j, hmem⟩ := (h.kept a).2 hlt
      refine ⟨j, ?_⟩
      by_cases hj : j = i
      · subst hj
        rw [update_self]
        exact mem_cons_of_mem _ hmem
      · rwa [update_of_ne hj]
    · exact ⟨i, by rw [update_self]; exact mem_cons_self⟩

theorem Accounted.move {held : ι → List ℕ} {created a : ℕ} {as : List ℕ} (h : Accounted held created)
    (hi : held i = a :: as) (hij : i ≠ j) : Accounted (update (update held i as) j (a :: held j)) created := by
  have hheld : ∀ b, (∃ k, b ∈ update (update held i as) j (a :: held j) k) ↔
      ∃ k, b ∈ held k := by
    intro b
    constructor
    · intro hb
      obtain ⟨k, hmem⟩ := hb
      by_cases hk : k = j
      · subst hk
        rw [update_self] at hmem
        rcases mem_cons.1 hmem with rfl | hold
        · exact ⟨i, by rw [hi]; exact mem_cons_self⟩
        · exact ⟨k, hold⟩
      · rw [update_of_ne hk] at hmem
        by_cases hki : k = i
        · subst hki
          rw [update_self] at hmem
          exact ⟨k, by rw [hi]; exact mem_cons_of_mem a hmem⟩
        · rw [update_of_ne hki] at hmem
          exact ⟨k, hmem⟩
    · intro hb
      obtain ⟨k, hmem⟩ := hb
      by_cases hk : k = j
      · subst hk
        exact ⟨k, by rw [update_self]; exact mem_cons_of_mem a hmem⟩
      · by_cases hki : k = i
        · subst hki
          rw [hi] at hmem
          rcases mem_cons.1 hmem with rfl | hrest
          · exact ⟨j, by rw [update_self]; exact mem_cons_self⟩
          · exact ⟨k, by rw [update_of_ne hk, update_self]; exact hrest⟩
        · exact ⟨k, by rw [update_of_ne hk, update_of_ne hki]; exact hmem⟩
  exact ⟨h.apart.move hi hij, fun b => (hheld b).trans (h.kept b)⟩

end Foundations
