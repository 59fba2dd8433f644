import Mathlib.Data.List.Induction

/-!
# The last match in a list

In a list of rules the last one that matches decides (`LastMatch`): a loop in which every matching rule
replaces the state ends with the state of the last match (`override_eq_true`).
-/

namespace Foundations

open List

universe u

variable {α : Type u} {p : α → Prop}

/-- `x` matches, and nothing behind it does. -/
def LastMatch (p : α → Prop) (l : List α) (x : α) : Prop :=
  ∃ pre post, l = pre ++ x :: post ∧ p x ∧ ∀ y ∈ post, ¬p y

namespace LastMatch

theorem of_concat {l : List α} {last : α} (h : p last) : LastMatch p (l ++ [last]) last := by
  refine ⟨l, [], rfl, h, fun y hy => ?_⟩
  cases hy

theorem concat_iff_of_not {l : List α} {last x : α} (h : ¬p last) :
    LastMatch p (l ++ [last]) x ↔ LastMatch p l x := by
  constructor
  · rintro ⟨pre, post, hsplit, hx, hpost⟩
    cases eq_nil_or_concat post with
    | inl hnil =>
      rw [hnil] at hsplit
      have hlast := (append_inj' hsplit rfl).2
      rw [singleton_inj.1 hlast] at h
      exact absurd hx h
    | inr hconcat =>
      obtain ⟨post', other, rfl⟩ := hconcat
      rw [concat_eq_append, ← cons_append, ← append_assoc] at hsplit
      have hinit := (append_inj' hsplit rfl).1
      refine ⟨pre, post', hinit, hx, fun y hy => hpost y ?_⟩
      rw [concat_eq_append]
      exact mem_append_left _ hy
  · rintro ⟨pre, post, rfl, hx, hpost⟩
    refine ⟨pre, post ++ [last], by rw [append_assoc, cons_append], hx, fun y hy => ?_⟩
    rcases mem_append.1 hy with hold | hlast
    · exact hpost y hold
    · rw [mem_singleton.1 hlast]
      exact h

theorem mem {l : List α} {x : α} (h : LastMatch p l x) : x ∈ l := by
  obtain ⟨pre, post, rfl, -⟩ := h
  exact mem_append_right pre mem_cons_self

theorem concat_eq {l : List α} {last x : α} (h : p last) (hx : LastMatch p (l ++ [last]) x) : x = last := by
  obtain ⟨pre, post, hsplit, -, hpost⟩ := hx
  cases eq_nil_or_concat post with
  | inl hnil =>
    rw [hnil] at hsplit
    exact (singleton_inj.1 (append_inj' hsplit rfl).2).symm
  | inr hconcat =>
    obtain ⟨post', other, rfl⟩ := hconcat
    rw [concat_eq_append, ← cons_append, ← append_assoc] at hsplit
    have hlast := singleton_inj.1 (append_inj' hsplit rfl).2
    have hmem : other ∈ post'.concat other := by
      rw [concat_eq_append]
      exact mem_append_right _ mem_cons_self
    rw [hlast] at h
    exact absurd h (hpost other hmem)

end LastMatch

/-! ## Loops that the last match decides -/

variable [DecidablePred p]

def override (p : α → Prop) [DecidablePred p] (value : α → Bool) (state : Bool) (x : α) : Bool :=
  if p x then value x else state

theorem override_eq_true {value : α → Bool} {l : List α} :
    l.foldl (override p value) false = true ↔ ∃ x, LastMatch p l x ∧ value x = true := by
  induction l using List.reverseRecOn with
  | nil =>
    constructor
    · intro h
      cases h
    · rintro ⟨x, hx, -⟩
      exact absurd hx.mem not_mem_nil
  | append_singleton l last ih =>
    rw [foldl_append, foldl_cons, foldl_nil]
    unfold override
    by_cases hlast : p last
    · rw [if_pos hlast]
      constructor
      · intro h
        exact ⟨last, LastMatch.of_concat hlast, h⟩
      · rintro ⟨x, hx, hvalue⟩
        rwa [← LastMatch.concat_eq hlast hx]
    · rw [if_neg hlast]
      refine ih.trans ⟨?_, ?_⟩
      · rintro ⟨x, hx, hvalue⟩
        exact ⟨x, (LastMatch.concat_iff_of_not hlast).2 hx, hvalue⟩
      · rintro ⟨x, hx, hvalue⟩
        exact ⟨x, (LastMatch.concat_iff_of_not hlast).1 hx, hvalue⟩

end Foundations
