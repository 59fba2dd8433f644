import Mathlib.Data.List.Induction
import Mathlib.Data.List.Perm.Basic

/-!
# Removing from an array by moving its last element

`refill l p` is the array after its last element was put in the place of the one at position `p`. A
sweep goes through the array once and removes elements in this way on the fly: what was moved is
looked at next (`Swept.keep`, `Swept.remove`). It looks at each element once and keeps those that it
should. Whether its last step was a removal can be told from the array it started with: it was, iff
the element at the position of the first removed place is to be removed (`Swept.keep_end`,
`Swept.remove_end`).
-/

namespace Foundations

open List

variable {α : Type} {l : List α} {p : ℕ} {a : α}

def refill (l : List α) (p : ℕ) : List α :=
  match l.getLast? with
  | none => []
  | some last => (l.set p last).dropLast

@[simp] theorem length_refill : (refill l p).length = l.length - 1 := by
  unfold refill
  cases hlast : l.getLast? with
  | none => simp [getLast?_eq_none_iff.1 hlast]
  | some last => simp

theorem refill_perm (hp : l[p]? = some a) : l.Perm (a :: refill l p) := by
  obtain ⟨hlt, rfl⟩ := List.getElem?_eq_some_iff.1 hp
  cases l using List.reverseRecOn with
  | nil => simp at hlt
  | append_singleton init last _ =>
    simp only [refill, getLast?_append_cons, getLast?_singleton]
    by_cases hlast : p = init.length
    · subst hlast
      simp [set_append_right]
    · have hlt' : p < init.length := by
        rw [length_append, length_singleton] at hlt
        omega
      rw [set_append_left _ _ hlt', dropLast_concat, getElem_append_left hlt']
      refine List.Perm.trans ?_ ((set_perm_cons_eraseIdx hlt' last).symm.cons _)
      refine (perm_append_comm).trans ?_
      refine ((getElem_cons_eraseIdx_perm hlt').symm.cons last).trans ?_
      exact List.Perm.swap _ _ _

theorem getElem?_refill {i : ℕ} (hi : i < l.length - 1) :
    (refill l p)[i]? = if p = i then l[l.length - 1]? else l[i]? := by
  have hlast : l.getLast? = some l[l.length - 1] := by
    rw [getLast?_eq_getElem?]
    exact getElem?_eq_getElem (by omega)
  unfold refill
  rw [hlast]
  show ((l.set p l[l.length - 1]).dropLast)[i]? = _
  rw [getElem?_dropLast, length_set, if_pos hi]
  by_cases heq : p = i
  · subst heq
    rw [if_pos rfl, getElem?_set_self (by omega)]
    exact (getElem?_eq_getElem (by omega)).symm
  · rw [if_neg heq, getElem?_set_ne heq]

theorem take_refill (hp : p ≤ l.length - 1) : (refill l p).take p = l.take p := by
  refine ext_getElem? fun i => ?_
  by_cases hi : i < p
  · rw [getElem?_take_of_lt hi, getElem?_take_of_lt hi, getElem?_refill (by omega), if_neg (by omega)]
  · rw [getElem?_take_eq_none (by omega), getElem?_take_eq_none (by omega)]

/-! ## Sweeps -/

/-- A sweep over `start` reached position `i`: `l` is what the array holds now, `seen` are the
elements it looked at and `gone` those it removed. -/
structure Swept (drop : α → Bool) (start : List α) (i : ℕ) (l seen gone : List α) : Prop where
  le : i ≤ l.length
  kept : ∀ a ∈ l.take i, drop a = false
  dropped : ∀ a ∈ gone, drop a = true
  perm : start.Perm (l ++ gone)
  seen_perm : seen.Perm (l.take i ++ gone)
  rest : ∀ p, i < p → p < l.length → l[p]? = start[p]?
  here : i < l.length → l[i]? = start[i]? ∨ ∃ a, start[i]? = some a ∧ drop a = true
  /-- What stood at the first removed place was moved here, or is kept. -/
  moved : i < l.length → ∀ a, start[l.length]? = some a → l[i]? = some a ∨ drop a = false

variable {drop : α → Bool} {start seen gone : List α} {i : ℕ}

theorem swept_zero (drop : α → Bool) (start : List α) : Swept drop start 0 start [] [] where
  le := Nat.zero_le _
  kept := by simp
  dropped := by simp
  perm := by simp
  seen_perm := by simp
  rest := fun _ _ _ => rfl
  here := fun _ => Or.inl rfl
  moved := by
    intro _ a ha
    simp at ha

theorem Swept.start_here (h : Swept drop start i l seen gone) (hi : l[i]? = some a)
    (ha : drop a = true) : ∃ a, start[i]? = some a ∧ drop a = true := by
  cases h.here (List.getElem?_eq_some_iff.1 hi).1 with
  | inl heq => exact ⟨a, heq ▸ hi, ha⟩
  | inr hex => exact hex

theorem Swept.start_moved (h : Swept drop start i l seen gone) (hi : l[i]? = some a)
    (ha : drop a = false) {a' : α} (ha' : start[l.length]? = some a') : drop a' = false := by
  cases h.moved (List.getElem?_eq_some_iff.1 hi).1 a' ha' with
  | inl heq =>
    rw [hi, Option.some.injEq] at heq
    exact heq ▸ ha
  | inr hkept => exact hkept

theorem Swept.keep (h : Swept drop start i l seen gone) (hi : l[i]? = some a)
    (ha : drop a = false) : Swept drop start (i + 1) l (seen ++ [a]) gone := by
  have hlt := (List.getElem?_eq_some_iff.1 hi).1
  have htake : l.take (i + 1) = l.take i ++ [a] := by
    rw [take_add_one, hi]
    rfl
  refine ⟨hlt, ?_, h.dropped, h.perm, ?_, ?_, ?_, ?_⟩
  · intro x hx
    rw [htake, mem_append, mem_singleton] at hx
    cases hx with
    | inl hmem => exact h.kept x hmem
    | inr heq => exact heq ▸ ha
  · rw [htake]
    have hcomm : (l.take i ++ [a] ++ gone).Perm (l.take i ++ gone ++ [a]) := by
      rw [append_assoc, append_assoc]
      exact perm_append_comm.append_left _
    exact (h.seen_perm.append_right [a]).trans hcomm.symm
  · intro p hp
    exact h.rest p (by omega)
  · intro hlt'
    exact Or.inl (h.rest (i + 1) (by omega) hlt')
  · intro _ a' ha'
    exact Or.inr (h.start_moved hi ha ha')

theorem Swept.remove (h : Swept drop start i l seen gone) (hi : l[i]? = some a)
    (ha : drop a = true) : Swept drop start i (refill l i) (seen ++ [a]) (gone ++ [a]) := by
  have hlt := (List.getElem?_eq_some_iff.1 hi).1
  have htake : (refill l i).take i = l.take i := take_refill (by omega)
  refine ⟨?_, ?_, ?_, ?_, ?_, ?_, ?_, ?_⟩
  · rw [length_refill]
    omega
  · rw [htake]
    exact h.kept
  · intro x hx
    rw [mem_append, mem_singleton] at hx
    cases hx with
    | inl hmem => exact h.dropped x hmem
    | inr heq => exact heq ▸ ha
  · have hmove : (a :: refill l i ++ gone).Perm (refill l i ++ (gone ++ [a])) := by
      rw [← append_assoc]
      exact (perm_append_singleton a (refill l i ++ gone)).symm
    exact (h.perm.trans ((refill_perm hi).append_right gone)).trans hmove
  · rw [htake, ← append_assoc]
    exact h.seen_perm.append_right [a]
  · intro p hp hlen
    rw [length_refill] at hlen
    rw [getElem?_refill hlen, if_neg (by omega)]
    exact h.rest p hp (by omega)
  · intro _
    exact Or.inr (h.start_here hi ha)
  · intro hlen a' ha'
    rw [length_refill] at hlen ha'
    rw [getElem?_refill hlen, if_pos rfl, h.rest _ (by omega) (by omega)]
    exact Or.inl ha'

section Ends

theorem Swept.keep_end (h : Swept drop start i l seen gone) (hi : l[i]? = some a)
    (ha : drop a = false) : ¬ ∃ a, start[l.length]? = some a ∧ drop a = true := by
  rintro ⟨a', ha', hdrop⟩
  rw [h.start_moved hi ha ha'] at hdrop
  exact Bool.noConfusion hdrop

theorem Swept.remove_end (h : Swept drop start i l seen gone) (hi : l[i]? = some a)
    (ha : drop a = true) (hend : i = (refill l i).length) :
    ∃ a, start[(refill l i).length]? = some a ∧ drop a = true := by
  rw [← hend]
  exact h.start_here hi ha

variable (h : Swept drop start l.length l seen gone)
include h

theorem Swept.left_perm : l.Perm (start.filter fun a => !drop a) := by
  have hperm := h.perm.filter fun a => !drop a
  have hl : l.filter (fun a => !drop a) = l := by
    refine filter_eq_self.2 fun x hx => ?_
    have hkept := h.kept x (by rwa [take_length])
    simp [hkept]
  have hgone : gone.filter (fun a => !drop a) = [] := by
    refine filter_eq_nil_iff.2 fun x hx => ?_
    simp [h.dropped x hx]
  rw [filter_append, hl, hgone, append_nil] at hperm
  exact hperm.symm

theorem Swept.gone_perm : gone.Perm (start.filter drop) := by
  have hperm := h.perm.filter drop
  have hl : l.filter drop = [] := by
    refine filter_eq_nil_iff.2 fun x hx => ?_
    have hkept := h.kept x (by rwa [take_length])
    simp [hkept]
  have hgone : gone.filter drop = gone := filter_eq_self.2 h.dropped
  rw [filter_append, hl, hgone, nil_append] at hperm
  exact hperm.symm

theorem Swept.all_seen : seen.Perm start := by
  have hseen := h.seen_perm
  rw [take_length] at hseen
  exact hseen.trans h.perm.symm

end Ends

end Foundations
