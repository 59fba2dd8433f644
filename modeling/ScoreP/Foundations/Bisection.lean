import Mathlib.Data.List.Perm.Basic
import Mathlib.Order.Lattice

/-!
# Bisection of a range

`bisect` halves a range of positions with a test that says whether to go on to the right. When the test
holds on an initial part of the range, the position that is found ends this part (`bisect_spec`); two
tests that agree on the positions that are looked at find the same position (`bisect_congr`). Inserting
at the position keeps a list sorted (`sorted_insertAt`).
-/

namespace Foundations

open List

def bisect (right : ℕ → Bool) : ℕ → ℕ → ℕ → ℕ
  | 0, left, _ => left
  | fuel + 1, left, size =>
    if 0 < size then
      let half := size / 2
      if right (left + half) then bisect right fuel (left + (half + 1)) (size - (half + 1))
      else bisect right fuel left half
    else left

/-- The tests agree on the positions that the first one looks at. -/
def AgreeOnPath (right right' : ℕ → Bool) : ℕ → ℕ → ℕ → Prop
  | 0, _, _ => True
  | fuel + 1, left, size =>
    0 < size → right (left + size / 2) = right' (left + size / 2) ∧
        if right (left + size / 2) then
          AgreeOnPath right right' fuel (left + (size / 2 + 1)) (size - (size / 2 + 1))
        else AgreeOnPath right right' fuel left (size / 2)

variable {right right' : ℕ → Bool} {fuel left size : ℕ}

theorem bisect_congr (h : AgreeOnPath right right' fuel left size) :
    bisect right fuel left size = bisect right' fuel left size := by
  induction fuel generalizing left size with
  | zero => rfl
  | succ fuel ih =>
    rw [bisect, bisect]
    by_cases hsize : 0 < size
    · obtain ⟨hmiddle, hrest⟩ := h hsize
      rw [if_pos hsize, if_pos hsize]
      dsimp only
      rw [← hmiddle]
      by_cases hright : right (left + size / 2) = true
      · rw [if_pos hright, if_pos hright]
        rw [if_pos hright] at hrest
        exact ih hrest
      · rw [if_neg hright, if_neg hright]
        rw [if_neg hright] at hrest
        exact ih hrest
    · rw [if_neg hsize, if_neg hsize]

theorem bisect_spec (hmono : ∀ i j, i ≤ j → right j = true → right i = true) (hfuel : size ≤ fuel) :
    left ≤ bisect right fuel left size ∧ bisect right fuel left size ≤ left + size ∧
      (∀ i, left ≤ i → i < bisect right fuel left size → right i = true) ∧
        ∀ i, bisect right fuel left size ≤ i → i < left + size → right i = false := by
  induction fuel generalizing left size with
  | zero =>
    obtain rfl : size = 0 := by omega
    exact ⟨Nat.le_refl _, Nat.le_refl _, fun i h h' => absurd h' (Nat.not_lt.2 h),
      fun i h h' => absurd h' (Nat.not_lt.2 h)⟩
  | succ fuel ih =>
    rw [bisect]
    by_cases hsize : 0 < size
    · rw [if_pos hsize]
      dsimp only
      by_cases hright : right (left + size / 2) = true
      · rw [if_pos hright]
        obtain ⟨hlow, hhigh, hbefore, hafter⟩ := @ih (left + (size / 2 + 1))
          (size - (size / 2 + 1)) (by omega)
        refine ⟨by omega, by omega, fun i hi hlt => ?_, fun i hi hlt => hafter i hi (by omega)⟩
        by_cases hi' : left + (size / 2 + 1) ≤ i
        · exact hbefore i hi' hlt
        · exact hmono i _ (by omega) hright
      · rw [if_neg hright]
        obtain ⟨hlow, hhigh, hbefore, hafter⟩ := @ih left (size / 2) (by omega)
        refine ⟨hlow, by omega, hbefore, fun i hi hlt => ?_⟩
        by_cases hi' : i < left + size / 2
        · exact hafter i hi hi'
        · have hmiddle : right i ≠ true := fun h => hright (hmono _ i (by omega) h)
          exact Bool.eq_false_iff.2 hmiddle
    · rw [if_neg hsize]
      exact ⟨Nat.le_refl _, by omega, fun i h h' => absurd h' (Nat.not_lt.2 h), fun i h h' => by omega⟩

/-! ## Insertion into a list -/

universe u

variable {α : Type u} {items : List α} {x : α}

def insertAt (items : List α) (index : ℕ) (x : α) : List α :=
  items.take index ++ x :: items.drop index

theorem insertAt_perm (index : ℕ) : (insertAt items index x).Perm (x :: items) := by
  have hmiddle : (items.take index ++ x :: items.drop index).Perm (x :: (items.take index ++ items.drop index)) :=
    perm_middle
  rw [take_append_drop] at hmiddle
  exact hmiddle

variable {β : Type u} [LinearOrder β] {key : α → β}

def smaller (key : α → β) (items : List α) (x : α) (i : ℕ) : Bool :=
  (items[i]?).any fun a => decide (key a < key x)

theorem smaller_iff {i : ℕ} (hi : i < items.length) : smaller key items x i = true ↔ key items[i] < key x := by
  rw [smaller, getElem?_eq_getElem hi, Option.any_some, decide_eq_true_iff]

theorem smaller_mono (hsorted : items.Pairwise fun a b => key a ≤ key b) {i j : ℕ} (hij : i ≤ j)
    (hj : smaller key items x j = true) : smaller key items x i = true := by
  have hlength : j < items.length := by
    by_contra hge
    rw [smaller, getElem?_eq_none (Nat.not_lt.1 hge)] at hj
    exact absurd hj Bool.false_ne_true
  rw [smaller_iff hlength] at hj
  rw [smaller_iff (Nat.lt_of_le_of_lt hij hlength)]
  rcases Nat.lt_or_eq_of_le hij with hlt | heq
  · exact lt_of_le_of_lt (pairwise_iff_getElem.1 hsorted i j _ hlength hlt) hj
  · subst heq
    exact hj

theorem sorted_insertAt (hsorted : items.Pairwise fun a b => key a ≤ key b)
    (hagree : AgreeOnPath right (smaller key items x) items.length 0 items.length) :
    (insertAt items (bisect right items.length 0 items.length) x).Pairwise fun a b => key a ≤ key b := by
  rw [bisect_congr hagree]
  obtain ⟨-, hhigh, hbefore, hafter⟩ := @bisect_spec _ items.length 0 items.length
    (fun i j hij => smaller_mono (x := x) hsorted hij) (Nat.le_refl items.length)
  generalize bisect (smaller key items x) items.length 0 items.length = index at hhigh hbefore hafter ⊢
  have hleft : ∀ a ∈ items.take index, key a < key x := by
    intro a ha
    obtain ⟨i, hi, rfl⟩ := getElem_of_mem ha
    rw [length_take] at hi
    rw [getElem_take]
    exact (smaller_iff (by omega)).1 (hbefore i (Nat.zero_le i) (by omega))
  have hright : ∀ a ∈ items.drop index, key x ≤ key a := by
    intro a ha
    obtain ⟨i, hi, rfl⟩ := getElem_of_mem ha
    rw [length_drop] at hi
    rw [getElem_drop]
    have hnot := hafter (index + i) (Nat.le_add_right _ _) (by omega)
    exact not_lt.1 fun hlt => absurd ((smaller_iff (by omega)).2 hlt) (by rw [hnot]; exact Bool.false_ne_true)
  rw [insertAt, pairwise_append]
  refine ⟨hsorted.sublist (take_sublist _ _), ?_, ?_⟩
  · exact pairwise_cons.2 ⟨hright, hsorted.sublist (drop_sublist _ _)⟩
  · intro a ha b hb
    rcases mem_cons.1 hb with rfl | hb
    · exact le_of_lt (hleft a ha)
    · exact le_trans (le_of_lt (hleft a ha)) (hright b hb)

end Foundations
