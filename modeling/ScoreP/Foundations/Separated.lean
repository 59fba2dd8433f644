import Mathlib.Data.List.Infix

/-!
# Words that are separated by one element

A list is its first word followed by words that each have a separator in front (`tail`). `exists_words`
takes a list apart, `splitOn_words` says that the words are what `List.splitOn` gives.
-/

namespace Foundations.Separated

open List

variable {α : Type} [DecidableEq α] {sep a : α} {x y as bs : List α} {xs ys : List (List α)}

def tail (sep : α) (words : List (List α)) : List α :=
  words.flatMap fun word => sep :: word

omit [DecidableEq α] in
@[simp] theorem tail_nil : tail sep [] = [] :=
  rfl

omit [DecidableEq α] in
@[simp] theorem tail_cons : tail sep (x :: xs) = sep :: (x ++ tail sep xs) :=
  rfl

omit [DecidableEq α] in
@[simp] theorem tail_append : tail sep (xs ++ ys) = tail sep xs ++ tail sep ys :=
  flatMap_append

omit [DecidableEq α] in
theorem mem_tail : a ∈ tail sep xs ↔ xs ≠ [] ∧ a = sep ∨ ∃ word ∈ xs, a ∈ word := by
  induction xs with
  | nil => simp
  | cons x xs ih =>
    rw [tail_cons, mem_cons, mem_append, ih]
    grind

theorem splitOn_words (hx : sep ∉ x) (hxs : ∀ word ∈ xs, sep ∉ word) :
    (x ++ tail sep xs).splitOn sep = x :: xs := by
  induction xs generalizing x with
  | nil => rw [tail_nil, append_nil, splitOn_eq_singleton hx]
  | cons y xs ih =>
    obtain ⟨hy, hrest⟩ := forall_mem_cons.1 hxs
    rw [tail_cons, splitOn_append_cons_self_of_not_mem hx, ih hy hrest]

theorem exists_words (sep : α) (as : List α) : ∃ x xs, as = x ++ tail sep xs ∧ sep ∉ x ∧
    ∀ word ∈ xs, sep ∉ word := by
  induction as with
  | nil => exact ⟨[], [], rfl, not_mem_nil, fun word hword => (not_mem_nil hword).elim⟩
  | cons a as ih =>
    obtain ⟨x, xs, rfl, hx, hxs⟩ := ih
    by_cases ha : a = sep
    · refine ⟨[], x :: xs, by rw [ha]; rfl, not_mem_nil, ?_⟩
      exact forall_mem_cons.2 ⟨hx, hxs⟩
    · refine ⟨a :: x, xs, rfl, ?_, hxs⟩
      rw [mem_cons, not_or]
      exact ⟨fun h => ha h.symm, hx⟩

theorem mem_middle_of_enclosed (hword : sep ∉ y) (h : sep :: (y ++ [sep]) <:+: as) :
    y ∈ (as.splitOn sep).tail.dropLast := by
  obtain ⟨pre, post, rfl⟩ := h
  have hsplit : (pre ++ sep :: (y ++ [sep]) ++ post).splitOn sep =
      pre.splitOn sep ++ y :: post.splitOn sep := by
    rw [append_assoc, cons_append, append_assoc, splitOn_append_cons_self,
      singleton_append, splitOn_append_cons_self_of_not_mem hword]
  rw [hsplit]
  obtain ⟨p, ps, hpre⟩ := exists_cons_of_ne_nil (splitOn_ne_nil sep pre)
  rw [hpre, List.cons_append, List.tail_cons, List.dropLast_append_of_ne_nil (List.cons_ne_nil _ _)]
  refine mem_append_right _ ?_
  obtain ⟨q, qs, hpost⟩ := exists_cons_of_ne_nil (splitOn_ne_nil sep post)
  rw [hpost]
  exact mem_cons_self

end Foundations.Separated
