import Mathlib.Data.List.Nodup
import Mathlib.Order.Basic

/-!
# Stable sorting

`StableSorted le l l'`: `l'` has the elements of `l` in ascending order, and equal ones in the order that
they have in `l`. Merging keeps this (`StableSorted.merge`), and there is only one such list
(`StableSorted.unique`), the one that `List.mergeSort` gives (`StableSorted.eq_mergeSort`).
-/

namespace Foundations

open List

universe u

variable {α : Type u}

def equivalent (le : α → α → Bool) (x y : α) : Bool :=
  le x y && le y x

structure StableSorted (le : α → α → Bool) (l l' : List α) : Prop where
  perm : l'.Perm l
  sorted : l'.Pairwise fun x y => le x y = true
  stable : ∀ x, l'.filter (equivalent le x) = l.filter (equivalent le x)

structure TotalPreorder (le : α → α → Bool) : Prop where
  total : ∀ x y, le x y = true ∨ le y x = true
  trans : ∀ x y z, le x y = true → le y z = true → le x z = true

variable {le : α → α → Bool} {l l₁ l₂ l₁' l₂' : List α} {x y : α}

theorem TotalPreorder.refl (h : TotalPreorder le) (x : α) : le x x = true :=
  (h.total x x).elim id id

theorem TotalPreorder.equivalent_self (h : TotalPreorder le) (x : α) : equivalent le x x = true := by
  rw [equivalent, h.refl]
  rfl

/-! ## Merging -/

theorem filter_merge (h : TotalPreorder le) (h₁ : l₁.Pairwise fun x y => le x y = true) (x : α) :
    (l₁.merge l₂ le).filter (equivalent le x) = l₁.filter (equivalent le x) ++ l₂.filter (equivalent le x) := by
  induction l₁ generalizing l₂ with
  | nil => rw [nil_merge, filter_nil, nil_append]
  | cons a l₁ ih₁ =>
    obtain ⟨ha, htail⟩ := pairwise_cons.1 h₁
    induction l₂ with
    | nil => rw [merge_right, filter_nil, append_nil]
    | cons b l₂ ih₂ =>
      by_cases hle : le a b = true
      · rw [cons_merge_cons_pos le l₁ l₂ hle]
        by_cases hxa : equivalent le x a = true
        · rw [filter_cons_of_pos hxa, filter_cons_of_pos hxa, ih₁ htail, cons_append]
        · rw [filter_cons_of_neg hxa, filter_cons_of_neg hxa, ih₁ htail]
      · rw [cons_merge_cons_neg le l₁ l₂ hle, filter_cons, ih₂]
        by_cases hb : equivalent le x b = true
        · -- all of the left list is above the class
          have hnone : (a :: l₁).filter (equivalent le x) = [] := by
            rw [filter_eq_nil_iff]
            intro z hz hzx
            have haz : le a z = true := by
              cases mem_cons.1 hz with
              | inl heq =>
                rw [heq]
                exact h.refl a
              | inr hmem => exact ha z hmem
            rw [equivalent, Bool.and_eq_true] at hzx hb
            exact hle (h.trans a z b haz (h.trans z x b hzx.2 hb.1))
          rw [if_pos hb, hnone, nil_append, nil_append, filter_cons, if_pos hb]
        · rw [if_neg hb, filter_cons (x := b), if_neg hb]

theorem StableSorted.merge (h : TotalPreorder le) (h₁ : StableSorted le l₁ l₁')
    (h₂ : StableSorted le l₂ l₂') : StableSorted le (l₁ ++ l₂) (l₁'.merge l₂' le) where
  perm := (merge_perm_append le).trans (h₁.perm.append h₂.perm)
  sorted := by
    refine pairwise_merge h.trans (fun x y => ?_) _ _ h₁.sorted h₂.sorted
    rw [Bool.or_eq_true]
    exact h.total x y
  stable := fun x => by
    rw [filter_merge h h₁.sorted, h₁.stable, h₂.stable, filter_append]

/-! ## Only one list -/

theorem eq_of_filter_eq (h : TotalPreorder le) (h₁ : l₁.Pairwise fun x y => le x y = true)
    (h₂ : l₂.Pairwise fun x y => le x y = true)
    (hfilter : ∀ x, l₁.filter (equivalent le x) = l₂.filter (equivalent le x)) : l₁ = l₂ := by
  have hmem : ∀ {k₁ k₂ : List α}, (∀ x, k₁.filter (equivalent le x) = k₂.filter (equivalent le x)) →
      ∀ {z}, z ∈ k₁ → z ∈ k₂ := by
    intro k₁ k₂ hk z hz
    have hin : z ∈ k₁.filter (equivalent le z) := mem_filter.2 ⟨hz, h.equivalent_self z⟩
    rw [hk] at hin
    exact (mem_filter.1 hin).1
  induction l₁ generalizing l₂ with
  | nil =>
    cases l₂ with
    | nil => rfl
    | cons b l₂ =>
      have hb := hmem (fun x => (hfilter x).symm) (mem_cons_self (a := b))
      exact absurd hb not_mem_nil
  | cons a l₁ ih =>
    cases l₂ with
    | nil => exact absurd (hmem hfilter mem_cons_self) not_mem_nil
    | cons b l₂ =>
      obtain ⟨ha, htail₁⟩ := pairwise_cons.1 h₁
      obtain ⟨hb, htail₂⟩ := pairwise_cons.1 h₂
      have hab : le a b = true := by
        cases mem_cons.1 (hmem (fun x => (hfilter x).symm) (mem_cons_self (a := b))) with
        | inl heq =>
          rw [heq]
          exact h.refl a
        | inr hin => exact ha b hin
      have hba : le b a = true := by
        cases mem_cons.1 (hmem hfilter (mem_cons_self (a := a))) with
        | inl heq =>
          rw [heq]
          exact h.refl b
        | inr hin => exact hb a hin
      -- both lists begin with their first element of the class of `a`
      have hclass := hfilter a
      have hequiv : equivalent le a b = true := by
        rw [equivalent, hab, hba]
        rfl
      rw [filter_cons_of_pos (h.equivalent_self a), filter_cons_of_pos hequiv, List.cons.injEq] at hclass
      obtain ⟨rfl, -⟩ := hclass
      rw [ih htail₁ htail₂ fun x => ?_]
      have hx := hfilter x
      by_cases hxa : equivalent le x a = true
      · rw [filter_cons_of_pos hxa, filter_cons_of_pos hxa] at hx
        exact (List.cons.inj hx).2
      · rwa [filter_cons_of_neg hxa, filter_cons_of_neg hxa] at hx

theorem StableSorted.unique (h : TotalPreorder le) (h₁ : StableSorted le l l₁)
    (h₂ : StableSorted le l l₂) : l₁ = l₂ :=
  eq_of_filter_eq h h₁.sorted h₂.sorted fun x => (h₁.stable x).trans (h₂.stable x).symm

theorem stableSorted_mergeSort (h : TotalPreorder le) (l : List α) : StableSorted le l (l.mergeSort le) where
  perm := mergeSort_perm l le
  sorted := pairwise_mergeSort h.trans (fun x y => by rw [Bool.or_eq_true]; exact h.total x y) l
  stable := fun x => by
    -- the class is a sorted sublist of `l`, so it is one of the sorted list
    have hclass : (l.filter (equivalent le x)).Pairwise fun y z => le y z = true := by
      refine List.Pairwise.imp_of_mem ?_ (pairwise_of_forall fun _ _ => trivial)
      intro y z hy hz _
      have hxy := (mem_filter.1 hy).2
      have hxz := (mem_filter.1 hz).2
      rw [equivalent, Bool.and_eq_true] at hxy hxz
      exact h.trans y x z hxy.2 hxz.1
    have hsublist : (l.filter (equivalent le x)).Sublist (l.mergeSort le) :=
      sublist_mergeSort h.trans (fun x y => by rw [Bool.or_eq_true]; exact h.total x y) hclass
        filter_sublist
    have hfilter : (l.filter (equivalent le x)).Sublist ((l.mergeSort le).filter (equivalent le x)) := by
      have hboth := hsublist.filter (equivalent le x)
      rwa [filter_filter, funext fun y => Bool.and_self (equivalent le x y)] at hboth
    exact (hfilter.eq_of_length ((mergeSort_perm l le).filter _).length_eq.symm).symm

theorem StableSorted.eq_mergeSort (h : TotalPreorder le) (hsorted : StableSorted le l l₁) :
    l₁ = l.mergeSort le :=
  hsorted.unique h (stableSorted_mergeSort h l)

theorem stableSorted_self (h : l.Pairwise fun x y => le x y = true) : StableSorted le l l where
  perm := .refl l
  sorted := h
  stable := fun _ => rfl

end Foundations
