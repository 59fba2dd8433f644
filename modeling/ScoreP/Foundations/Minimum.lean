import Mathlib.Order.WithBot

/-!
# A minimum with the place it was found at

`scanMinimum` is the loop that goes through a list and notes each value that is below the minimum so far.
`LeastAt` says that a noted value is the minimum of the list and, unless it is the greatest value, that
the noted place attains it. `LeastAt.scan` is the loop, `LeastAt.lower` the case of one value that sank.
-/

namespace Foundations

open List

variable {β V : Type} [LinearOrder V] [OrderTop V] (value : β → V) (name : β → ℕ)

structure LeastAt (l : List β) (least : V × Option ℕ) : Prop where
  le : ∀ x ∈ l, least.1 ≤ value x
  attained : least.1 ≠ ⊤ → ∃ x ∈ l, least.2 = some (name x) ∧ value x = least.1

def scanMinimum : List β → V × Option ℕ → V × Option ℕ
  | [], least => least
  | x :: l, least => scanMinimum l (if value x < least.1 then (value x, some (name x)) else least)

variable {value name} {l l' : List β} {least : V × Option ℕ} {value' : β → V} {pos : Option ℕ}

theorem leastAt_nil : LeastAt value name [] (⊤, pos) :=
  ⟨fun _ hx => absurd hx not_mem_nil, fun h => absurd rfl h⟩

theorem LeastAt.congr (h : LeastAt value name l least) (hmem : ∀ x, x ∈ l' ↔ x ∈ l)
    (hvalue : ∀ x ∈ l, value' x = value x) : LeastAt value' name l' least where
  le := fun x hx => by
    rw [hvalue x ((hmem x).1 hx)]
    exact h.le x ((hmem x).1 hx)
  attained := fun hne => by
    obtain ⟨x, hx, hname, heq⟩ := h.attained hne
    exact ⟨x, (hmem x).2 hx, hname, by rw [hvalue x hx, heq]⟩

theorem LeastAt.transfer {γ : Type} {f : γ → V} {g : γ → ℕ} {k : List γ} (h : LeastAt value name l least)
    (hto : ∀ x ∈ l, ∃ y ∈ k, g y = name x ∧ f y = value x)
    (hfrom : ∀ y ∈ k, (∃ x ∈ l, f y = value x) ∨ f y = ⊤) : LeastAt f g k least where
  le := fun y hy => by
    obtain ⟨x, hx, heq⟩ | htop := hfrom y hy
    · rw [heq]
      exact h.le x hx
    · rw [htop]
      exact le_top
  attained := fun hne => by
    obtain ⟨x, hx, hname, hvalue⟩ := h.attained hne
    obtain ⟨y, hy, hyname, hyvalue⟩ := hto x hx
    exact ⟨y, hy, by rw [hname, hyname], by rw [hyvalue, hvalue]⟩

theorem LeastAt.map {γ : Type} {g : γ → β} {l : List γ}
    (h : LeastAt (fun x => value (g x)) (fun x => name (g x)) l least) :
    LeastAt value name (l.map g) least where
  le := fun y hy => by
    obtain ⟨x, hx, rfl⟩ := mem_map.1 hy
    exact h.le x hx
  attained := fun hne => by
    obtain ⟨x, hx, hplace⟩ := h.attained hne
    exact ⟨g x, mem_map_of_mem hx, hplace⟩

theorem LeastAt.append_one {x : β} (h : LeastAt value name l least) : LeastAt value name (l ++ [x])
    (if value x < least.1 then (value x, some (name x)) else least) := by
  by_cases hx : value x < least.1
  · rw [if_pos hx]
    refine ⟨fun y hy => ?_, fun _ => ⟨x, by simp, rfl, rfl⟩⟩
    obtain hy | hy := mem_append.1 hy
    · exact le_trans (le_of_lt hx) (h.le y hy)
    · rw [mem_singleton.1 hy]
  · rw [if_neg hx]
    refine ⟨fun y hy => ?_, fun hne => ?_⟩
    · obtain hy | hy := mem_append.1 hy
      · exact h.le y hy
      · rw [mem_singleton.1 hy]
        exact not_lt.1 hx
    · obtain ⟨y, hy, hplace⟩ := h.attained hne
      exact ⟨y, mem_append_left _ hy, hplace⟩

theorem LeastAt.scan (h : LeastAt value name l least) :
    LeastAt value name (l ++ l') (scanMinimum value name l' least) := by
  induction l' generalizing l least with
  | nil =>
    rw [append_nil]
    exact h
  | cons x l' ih =>
    rw [append_cons]
    exact ih h.append_one

theorem leastAt_scan : LeastAt value name l (scanMinimum value name l (⊤, pos)) :=
  leastAt_nil.scan

theorem LeastAt.lower {x : β} (h : LeastAt value name l least) (hx : x ∈ l)
    (hle : value' x ≤ value x) (hvalue : ∀ y ∈ l, y ≠ x → value' y = value y) :
    LeastAt value' name l (if value' x < least.1 then (value' x, some (name x)) else least) := by
  by_cases hlt : value' x < least.1
  · rw [if_pos hlt]
    refine ⟨fun y hy => ?_, fun _ => ⟨x, hx, rfl, rfl⟩⟩
    by_cases hyx : y = x
    · rw [hyx]
    · rw [hvalue y hy hyx]
      exact le_trans (le_of_lt hlt) (h.le y hy)
  · rw [if_neg hlt]
    refine ⟨fun y hy => ?_, fun hne => ?_⟩
    · by_cases hyx : y = x
      · rw [hyx]
        exact not_lt.1 hlt
      · rw [hvalue y hy hyx]
        exact h.le y hy
    · obtain ⟨y, hy, hname, heq⟩ := h.attained hne
      refine ⟨y, hy, hname, ?_⟩
      by_cases hyx : y = x
      · rw [hyx] at heq ⊢
        exact le_antisymm (by rw [← heq]; exact hle) (not_lt.1 hlt)
      · rw [hvalue y hy hyx, heq]

theorem LeastAt.drop {x : β} (h : LeastAt value name (l ++ x :: l') least)
    (hne : least.1 ≠ ⊤ → least.2 = some (name x) → value x = least.1 → False) :
    LeastAt value name (l ++ l') least where
  le := fun y hy => h.le y (by
    obtain hy | hy := mem_append.1 hy
    · exact mem_append_left _ hy
    · exact mem_append_right _ (mem_cons_of_mem x hy))
  attained := fun htop => by
    obtain ⟨y, hy, hname, hvalue⟩ := h.attained htop
    refine ⟨y, ?_, hname, hvalue⟩
    obtain hy | hy := mem_append.1 hy
    · exact mem_append_left _ hy
    · obtain rfl | hy := mem_cons.1 hy
      · exact (hne htop hname hvalue).elim
      · exact mem_append_right _ hy

end Foundations
