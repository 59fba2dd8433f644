import Mathlib.Data.List.Perm.Basic

/-!
# Lists split into buckets

A table that files each element of a list `l` under `index a` keeps, in bucket `i`, the sublist
`l.filter (index · = i)`. These are the facts about such sublists a hash table needs: searching and
erasing in one bucket is searching and erasing in the whole list, provided whatever the search
predicate accepts is filed in that bucket, and all buckets together are the list again.
-/

namespace Foundations.Buckets

open List

universe u

variable {α : Type u}

theorem find?_filter_of_imp {p q : α → Bool} (h : ∀ a, q a → p a) (l : List α) :
    (l.filter p).find? q = l.find? q := by
  rw [find?_filter]
  congr 1
  funext a
  cases hq : q a
  · simp
  · simp [h a hq]

theorem eraseP_filter_of_imp {p q : α → Bool} (h : ∀ a, q a → p a) (l : List α) :
    (l.filter p).eraseP q = (l.eraseP q).filter p := by
  induction l with
  | nil => rfl
  | cons a l ih =>
    cases hq : q a
    · cases hp : p a
      · simp [hp, hq, ih]
      · simp [hp, hq, ih]
    · simp [h a hq, hq]

theorem filter_eraseP_of_not {p q : α → Bool} (h : ∀ a, q a → p a = false) (l : List α) :
    (l.eraseP q).filter p = l.filter p := by
  induction l with
  | nil => rfl
  | cons a l ih =>
    cases hq : q a
    · simp [hq, filter_cons, ih]
    · simp [hq, h a hq]

theorem flatMap_filter_perm_filter_lt (index : α → ℕ) (l : List α) (n : ℕ) :
    ((List.range n).flatMap fun i => l.filter (index · = i)).Perm (l.filter (index · < n)) := by
  induction n with
  | zero => simp
  | succ n ih =>
    have hlt : (l.filter (index · < n + 1)).filter (index · < n) = l.filter (index · < n) := by
      rw [filter_filter]
      apply filter_congr
      intro a _
      simp only [← Bool.decide_and, decide_eq_decide]
      omega
    have heq : (l.filter (index · < n + 1)).filter (fun a => !decide (index a < n)) =
        l.filter (index · = n) := by
      rw [filter_filter]
      apply filter_congr
      intro a _
      simp only [← decide_not, ← Bool.decide_and, decide_eq_decide]
      omega
    have hsplit := filter_append_perm (fun a => decide (index a < n)) (l.filter (index · < n + 1))
    rw [hlt, heq] at hsplit
    rw [range_succ, flatMap_append, flatMap_singleton]
    exact (ih.append_right _).trans hsplit

theorem flatMap_filter_perm {index : α → ℕ} {l : List α} {n : ℕ} (h : ∀ a ∈ l, index a < n) :
    ((List.range n).flatMap fun i => l.filter (index · = i)).Perm l := by
  have hall : l.filter (index · < n) = l :=
    filter_eq_self.mpr fun a ha => by simpa using h a ha
  have := flatMap_filter_perm_filter_lt index l n
  rwa [hall] at this

theorem eq_of_nodup_flatMap {ι α : Type} {f : ι → List α} {l : List ι} (h : (l.flatMap f).Nodup)
    {a b : ι} {x : α} (ha : a ∈ l) (hb : b ∈ l) (hxa : x ∈ f a) (hxb : x ∈ f b) : a = b := by
  induction l with
  | nil => exact absurd ha not_mem_nil
  | cons c cs ih =>
    rw [flatMap_cons] at h
    obtain ⟨-, hcs, hdisjoint⟩ := nodup_append.1 h
    obtain hac | ha' := mem_cons.1 ha
    · obtain hbc | hb' := mem_cons.1 hb
      · rw [hac, hbc]
      · rw [hac] at hxa
        exact absurd rfl (hdisjoint x hxa x (mem_flatMap.2 ⟨b, hb', hxb⟩))
    · obtain hbc | hb' := mem_cons.1 hb
      · rw [hbc] at hxb
        exact absurd rfl (hdisjoint x hxb x (mem_flatMap.2 ⟨a, ha', hxa⟩))
      · exact ih hcs ha' hb'

end Foundations.Buckets
