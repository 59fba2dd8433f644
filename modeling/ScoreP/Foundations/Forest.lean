import Mathlib.Data.Nat.Notation
import Mathlib.Logic.Function.Basic
import Mathlib.Logic.Relation

/-!
# Disjoint sets as a forest of parent links

Every element has at most one parent, ranks increase along the links (`Ranked`), so the links have no
cycle (`Ranked.acyclic`) and every element has exactly one root (`Ranked.exists_rootOf`,
`RootOf.unique`). Pointing one root to another moves just its own set (`rootOf_link`).
-/

namespace Foundations

open Function

variable {α : Type}

def Ranked (parent : α → Option α) (rank : α → ℕ) : Prop :=
  ∀ i p, parent i = some p → rank i < rank p

inductive RootOf (parent : α → Option α) : α → α → Prop
  | root {r : α} (h : parent r = none) : RootOf parent r r
  | step {i p r : α} (h : parent i = some p) (hp : RootOf parent p r) : RootOf parent i r

variable {parent : α → Option α} {rank rank' : α → ℕ} {i j p r s a b : α} {bound : ℕ}

theorem RootOf.isRoot (h : RootOf parent i r) : parent r = none := by
  induction h with
  | root h => exact h
  | step _ _ ih => exact ih

theorem RootOf.unique (h : RootOf parent i r) (h' : RootOf parent i s) : r = s := by
  induction h with
  | root h =>
    cases h' with
    | root _ => rfl
    | step hi _ => exact nomatch h.symm.trans hi
  | step hi _ ih =>
    cases h' with
    | root h => exact nomatch h.symm.trans hi
    | step hi' hp =>
      obtain rfl := Option.some.inj (hi.symm.trans hi')
      exact ih hp

/-! ## Ranks -/

theorem Ranked.acyclic (h : Ranked parent rank) (i : α) :
    ¬Relation.TransGen (fun i p => parent i = some p) i i := by
  have hlt : ∀ j, Relation.TransGen (fun i p => parent i = some p) i j → rank i < rank j := by
    intro j hj
    induction hj with
    | single hi => exact h _ _ hi
    | tail _ hstep ih => exact Nat.lt_trans ih (h _ _ hstep)
  exact fun hi => Nat.lt_irrefl _ (hlt i hi)

theorem Ranked.exists_rootOf (h : Ranked parent rank) (hbound : ∀ i, rank i < bound) (i : α) :
    ∃ r, RootOf parent i r := by
  induction hk : bound - rank i using Nat.strongRecOn generalizing i with
  | ind k ih =>
    cases hi : parent i with
    | none => exact ⟨i, .root hi⟩
    | some p =>
      have hrank := h i p hi
      have hp := hbound p
      obtain ⟨r, hr⟩ := ih (bound - rank p) (by omega) p rfl
      exact ⟨r, .step hi hr⟩

variable [DecidableEq α]

/-! ## Joining two sets -/

theorem ranked_link (h : Ranked parent rank) (ha : parent a = none) (hrank : rank b < rank' a)
    (hle : rank a ≤ rank' a) (hother : ∀ i, i ≠ a → rank' i = rank i) (hne : a ≠ b) :
    Ranked (update parent b (some a)) rank' := by
  intro i p hi
  by_cases hib : i = b
  · rw [hib, update_self] at hi
    obtain rfl := Option.some.inj hi
    rw [hib, hother b hne.symm]
    exact hrank
  · rw [update_of_ne hib] at hi
    have hia : i ≠ a := by
      rintro rfl
      exact nomatch ha.symm.trans hi
    have hlt := h i p hi
    rw [hother i hia]
    by_cases hpa : p = a
    · rw [hpa] at hlt ⊢
      exact Nat.lt_of_lt_of_le hlt hle
    · rw [hother p hpa]
      exact hlt

theorem rootOf_link_of (ha : parent a = none) (hb : parent b = none) (hne : a ≠ b) (hj : RootOf parent j s) :
    RootOf (update parent b (some a)) j (if s = b then a else s) := by
  induction hj with
  | @root j hj =>
    by_cases hjb : j = b
    · rw [if_pos hjb]
      refine .step (by rw [hjb, update_self]) (.root ?_)
      rw [update_of_ne hne]
      exact ha
    · rw [if_neg hjb]
      exact .root (by rw [update_of_ne hjb]; exact hj)
  | @step j p s hj hp ih =>
    have hjb : j ≠ b := by
      rintro rfl
      exact nomatch hb.symm.trans hj
    exact .step (by rw [update_of_ne hjb]; exact hj) ih

theorem rootOf_link (h : Ranked parent rank) (hbound : ∀ i, rank i < bound) (ha : parent a = none)
    (hb : parent b = none) (hne : a ≠ b) : RootOf (update parent b (some a)) j s ↔
      RootOf parent j b ∧ s = a ∨ RootOf parent j s ∧ s ≠ b := by
  constructor
  · intro hj
    obtain ⟨t, ht⟩ := h.exists_rootOf hbound j
    have hs := hj.unique (rootOf_link_of ha hb hne ht)
    by_cases htb : t = b
    · rw [if_pos htb] at hs
      exact Or.inl ⟨by rw [← htb]; exact ht, hs⟩
    · rw [if_neg htb] at hs
      rw [hs]
      exact Or.inr ⟨ht, htb⟩
  · rintro (⟨hj, rfl⟩ | ⟨hj, hs⟩)
    · have hlink := rootOf_link_of ha hb hne hj
      rwa [if_pos rfl] at hlink
    · have hlink := rootOf_link_of ha hb hne hj
      rwa [if_neg hs] at hlink

end Foundations
