import Mathlib.Data.List.Pairwise
import Mathlib.Data.List.Perm.Basic

/-!
# Lists as finite maps

A list whose elements carry distinct keys is a finite map from the keys to the elements. `lookup`,
`put` and `without` are the operations of the map; up to the order of the list they are determined
by membership (`lookup_eq_some`) and a present element can be split off (`perm_cons_without`).
-/

namespace Foundations.Keyed

universe u v

variable {α : Type u} {κ : Type v} {key : α → κ}

def Distinct (key : α → κ) (l : List α) : Prop :=
  l.Pairwise fun x y => key x ≠ key y

variable {k : κ} {x y : α} {l m : List α}

theorem Distinct.eq_of_mem (h : Distinct key l) (hx : x ∈ l) (hy : y ∈ l) (hxy : key x = key y) : x = y := by
  have hsymm : Std.Symm fun x y => key x ≠ key y := ⟨fun _ _ hne => hne.symm⟩
  by_contra hne
  exact h.forall hx hy hne hxy

theorem Distinct.perm (h : Distinct key l) (hp : l.Perm m) : Distinct key m :=
  hp.pairwise h fun hxy => hxy.symm

section Operations

variable [DecidableEq κ]

def lookup (key : α → κ) (k : κ) (l : List α) : Option α :=
  l.find? fun x => decide (key x = k)

def without (key : α → κ) (k : κ) (l : List α) : List α :=
  l.filter fun x => decide (key x ≠ k)

def put (key : α → κ) (x : α) (l : List α) : List α :=
  x :: without key (key x) l

@[simp] theorem mem_without : x ∈ without key k l ↔ x ∈ l ∧ key x ≠ k := by
  simp [without]

@[simp] theorem mem_put : y ∈ put key x l ↔ y = x ∨ y ∈ l ∧ key y ≠ key x := by
  simp [put]

theorem lookup_eq_some (h : Distinct key l) : lookup key k l = some x ↔ x ∈ l ∧ key x = k := by
  constructor
  · intro hx
    exact ⟨List.mem_of_find?_eq_some hx, by simpa using List.find?_some hx⟩
  · intro hx
    obtain ⟨hmem, hkey⟩ := hx
    cases hy : lookup key k l with
    | none => simpa [hkey] using List.find?_eq_none.1 hy x hmem
    | some y =>
      have hykey : key y = k := by simpa using List.find?_some hy
      rw [h.eq_of_mem (List.mem_of_find?_eq_some hy) hmem (hykey.trans hkey.symm)]

theorem lookup_eq_none : lookup key k l = none ↔ ∀ x ∈ l, key x ≠ k := by
  simp [lookup]

theorem without_eq_self (h : ∀ x ∈ l, key x ≠ k) : without key k l = l := by
  simpa [without] using h

theorem perm_cons_without (h : Distinct key l) (hx : x ∈ l) : l.Perm (x :: without key (key x) l) := by
  induction l with
  | nil => simp at hx
  | cons y l ih =>
    obtain ⟨hy, hl⟩ := List.pairwise_cons.1 h
    cases List.mem_cons.1 hx with
    | inl heq =>
      subst heq
      have hself : without key (key x) l = l := without_eq_self fun z hz => (hy z hz).symm
      have hcons : without key (key x) (x :: l) = without key (key x) l := by
        simp [without]
      rw [hcons, hself]
    | inr hmem =>
      have hne : key y ≠ key x := hy x hmem
      have hcons : without key (key x) (y :: l) = y :: without key (key x) l := by
        simp [without, hne]
      rw [hcons]
      exact ((ih hl hmem).cons y).trans (List.Perm.swap x y _)

end Operations

end Foundations.Keyed
