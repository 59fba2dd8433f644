import Mathlib.Data.List.Infix

/-!
# Replacing a pattern from the right

A text is read from its right end. Wherever the pattern stands in front of what has been read it is
replaced, also when the replacement has brought it there (`Settles`). `exists_scans` says when the reading
comes to an end.
-/

namespace Foundations.Replacing

open List

variable {α : Type} {p r s t u : List α} {a : α}

/-- The pattern `p` is replaced by `r` at the begin of the text until it does not stand there. -/
inductive Settles (p r : List α) : List α → List α → Prop
  | done {s : List α} (h : ¬p <+: s) : Settles p r s s
  | replaced {s t : List α} (h : Settles p r (r ++ s) t) : Settles p r (p ++ s) t

inductive Scans (p r : List α) : List α → List α → Prop
  | nil {t : List α} (h : Settles p r [] t) : Scans p r [] t
  | cons {a : α} {s t u : List α} (hs : Scans p r s t) (h : Settles p r (a :: t) u) : Scans p r (a :: s) u

theorem exists_settles (hr : ¬p <+: r) (s : List α) : ∃ t, Settles p r s t := by
  induction hn : s.length using Nat.strong_induction_on generalizing s with
  | _ n ih =>
    by_cases hp : p <+: s
    · obtain ⟨rest, rfl⟩ := hp
      by_cases hle : p.length ≤ r.length
      · have hnot : ¬p <+: r ++ rest := fun h => hr (prefix_of_prefix_length_le h (prefix_append r rest) hle)
        exact ⟨_, .replaced (.done hnot)⟩
      · -- the text has become shorter
        have hlt : (r ++ rest).length < n := by
          rw [length_append] at hn ⊢
          omega
        obtain ⟨t, ht⟩ := ih _ hlt _ rfl
        exact ⟨t, .replaced ht⟩
    · exact ⟨s, .done hp⟩

theorem scans_self (h : ¬p <:+: s) : Scans p r s s := by
  induction s with
  | nil => exact .nil (.done fun hp => h hp.isInfix)
  | cons a s ih =>
    rw [infix_cons_iff, not_or] at h
    exact .cons (ih h.2) (.done h.1)

theorem exists_scans (h : p <+: r → ¬p <:+: s) : ∃ t, Scans p r s t := by
  by_cases hr : p <+: r
  · exact ⟨s, scans_self (h hr)⟩
  · clear h
    induction s with
    | nil =>
      obtain ⟨t, ht⟩ := exists_settles hr []
      exact ⟨t, .nil ht⟩
    | cons a s ih =>
      obtain ⟨t, ht⟩ := ih
      obtain ⟨u, hu⟩ := exists_settles hr (a :: t)
      exact ⟨u, .cons ht hu⟩

end Foundations.Replacing
