import Mathlib.Data.List.Basic
import Mathlib.Order.Lattice

/-!
# Overlapping ranges

The ranges are closed intervals `[lower, upper]` of a linear order. Every item of a list has a range,
`pairs` counts the pairs of items whose ranges meet. A hull is widened by one range after another and covers
all of them (`covers_hullOf`).
-/

namespace Foundations

universe u v

structure Span (α : Type u) where
  lower : α
  upper : α
  deriving DecidableEq

variable {α : Type u} [LinearOrder α]

namespace Span

def Contains (s : Span α) (a : α) : Prop :=
  s.lower ≤ a ∧ a ≤ s.upper

instance (s : Span α) (a : α) : Decidable (s.Contains a) :=
  inferInstanceAs (Decidable (_ ∧ _))

def Meets (s t : Span α) : Prop :=
  s.lower ≤ t.upper ∧ t.lower ≤ s.upper

instance (s t : Span α) : Decidable (s.Meets t) :=
  inferInstanceAs (Decidable (_ ∧ _))

def Covers (hull s : Span α) : Prop :=
  hull.lower ≤ s.lower ∧ s.upper ≤ hull.upper

def widen (hull s : Span α) : Span α where
  lower := if s.lower < hull.lower then s.lower else hull.lower
  upper := if hull.upper < s.upper then s.upper else hull.upper

variable {hull s t : Span α} {a : α}

theorem meets_comm : s.Meets t ↔ t.Meets s :=
  and_comm

theorem Covers.contains (h : hull.Covers s) (hs : s.Contains a) : hull.Contains a :=
  ⟨le_trans h.1 hs.1, le_trans hs.2 h.2⟩

theorem covers_widen : (hull.widen s).Covers s := by
  rw [Covers, widen]
  constructor
  · dsimp only
    split
    · exact le_refl _
    · next h => exact not_lt.1 h
  · dsimp only
    split
    · exact le_refl _
    · next h => exact not_lt.1 h

theorem Covers.widen (h : hull.Covers t) : (hull.widen s).Covers t := by
  rw [Covers, Span.widen]
  constructor
  · dsimp only
    split
    · next hlt => exact le_of_lt (lt_of_lt_of_le hlt h.1)
    · exact h.1
  · dsimp only
    split
    · next hlt => exact le_of_lt (lt_of_le_of_lt h.2 hlt)
    · exact h.2

end Span

variable {ι : Type v} (range : ι → Span α)

def containing (items : List ι) (a : α) : List ι :=
  items.filter fun i => (range i).Contains a

def meeting (items : List ι) (s : Span α) : ℕ :=
  items.countP fun i => (range i).Meets s

def pairs : List ι → ℕ
  | [] => 0
  | i :: items => pairs items + meeting range items (range i)

def hullOf (hull : Span α) (items : List ι) : Span α :=
  items.foldl (fun hull i => hull.widen (range i)) hull

variable {range} {items items' : List ι} {hull s : Span α} {a : α} {i : ι}

theorem meeting_append : meeting range (items ++ [i]) s =
    meeting range items s + if (range i).Meets s then 1 else 0 := by
  rw [meeting, List.countP_append, List.countP_singleton, meeting]
  simp

theorem pairs_append : pairs range (items ++ [i]) = pairs range items + meeting range items (range i) := by
  induction items with
  | nil => rfl
  | cons j items ih =>
    have hmeeting : meeting range (j :: items) (range i) =
        meeting range items (range i) + if (range i).Meets (range j) then 1 else 0 := by
      rw [meeting, List.countP_cons, meeting]
      simp [Span.meets_comm]
    rw [List.cons_append, pairs, ih, meeting_append, pairs, hmeeting]
    omega

theorem Span.Covers.hullOf (h : hull.Covers s) : (hullOf range hull items).Covers s := by
  induction items generalizing hull with
  | nil => exact h
  | cons i items ih => exact ih h.widen

theorem covers_hullOf (hi : i ∈ items) : (hullOf range hull items).Covers (range i) := by
  induction items generalizing hull with
  | nil => exact absurd hi List.not_mem_nil
  | cons j items ih =>
    rcases List.mem_cons.1 hi with rfl | hi
    · exact Span.covers_widen.hullOf
    · exact ih hi

end Foundations
