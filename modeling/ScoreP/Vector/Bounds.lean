import Mathlib.Data.Int.Notation
import ScoreP.Foundations.Bisection

/-!
# Sorted vectors

Source: `src/utils/vector/SCOREP_Vector.c`. The items in use are a list, and there is room for `capacity` of them. A
failing `UTILS_ASSERT`, a read at or behind the size and a write behind the capacity are answered with
`none`; `realloc` says for which capacities memory is there.

Both searches are the bisection of the library (`boundLoop_eq`), with the items to the left of the bound as the
first part.
-/

namespace ScoreP.Vector

open Foundations List Option

/-- `SCOREP_Vector` -/
structure ItemVector (α : Type) where
  items : List α
  capacity : ℕ
  le : items.length ≤ capacity

def defaultCapacity : ℕ := 16

variable {α : Type}

def reserve (realloc : ℕ → Bool) (instance_ : ItemVector α) (capacity : ℕ) : Bool × ItemVector α :=
  if h : capacity < instance_.capacity then (true, instance_)
  else if realloc capacity then
    (true, ⟨instance_.items, capacity, Nat.le_trans instance_.le (Nat.not_lt.1 h)⟩)
  else (false, instance_)

/-- The part of `SCOREP_Vector_Insert` that makes room. -/
def grow (realloc : ℕ → Bool) (instance_ : ItemVector α) : Bool × ItemVector α :=
  if instance_.items.length = instance_.capacity then
    reserve realloc instance_ (if instance_.capacity = 0 then defaultCapacity else instance_.capacity * 2)
  else (true, instance_)

def insert (realloc : ℕ → Bool) (instance_ : ItemVector α) (index : ℕ) (item : α) :
    Option (Bool × ItemVector α) :=
  if index ≤ instance_.items.length then
    match grow realloc instance_ with
    | (false, instance_) => some (false, instance_)
    | (true, instance_) =>
      if h : instance_.items.length < instance_.capacity then
        some (true, ⟨insertAt instance_.items index item, instance_.capacity,
          (insertAt_perm index).length_eq ▸ h⟩)
      else none
  else none

def erase (instance_ : ItemVector α) (index : ℕ) : Option (ItemVector α) :=
  if index < instance_.items.length then
    some ⟨instance_.items.eraseIdx index, instance_.capacity, Nat.le_trans (length_eraseIdx_le _ _) instance_.le⟩
  else none

/-- The loop of both searches, `right` tells that the bound is behind an item. -/
def boundLoop (right : α → Bool) (items : List α) : ℕ → ℕ → ℕ → Option ℕ
  | 0, _, _ => none
  | fuel + 1, left, size =>
    if 0 < size then do
      let half := size / 2
      let item ← items[left + half]?
      if right item then boundLoop right items fuel (left + (half + 1)) (size - (half + 1))
      else boundLoop right items fuel left half
    else some left

/-- `SCOREP_Vector_LowerBound`: the index and the answer. -/
def lowerBound (instance_ : ItemVector α) (value : α) (compareFunc : α → α → ℤ) : Option (ℕ × Bool) := do
  let size := instance_.items.length
  let left ← boundLoop (fun item => compareFunc value item > 0) instance_.items (size + 1) 0 size
  if left < size then
    let item ← instance_.items[left]?
    some (left, compareFunc value item = 0)
  else some (left, false)

/-- `SCOREP_Vector_UpperBound` -/
def upperBound (instance_ : ItemVector α) (value : α) (compareFunc : α → α → ℤ) : Option (ℕ × Bool) := do
  let size := instance_.items.length
  let left ← boundLoop (fun item => !decide (compareFunc value item < 0)) instance_.items (size + 1) 0 size
  if left > 0 then
    let item ← instance_.items[left - 1]?
    some (left, compareFunc value item = 0)
  else some (left, false)

/-! ## The searches -/

variable {right : α → Bool} {items : List α} {fuel left size n : ℕ}

theorem boundLoop_eq (hsize : left + size ≤ items.length) (hfuel : size ≤ fuel) :
    boundLoop right items (fuel + 1) left size =
      some (bisect (fun i => (items[i]?).any right) fuel left size) := by
  induction fuel generalizing left size with
  | zero =>
    obtain rfl : size = 0 := by omega
    rfl
  | succ fuel ih =>
    rw [boundLoop, bisect]
    by_cases hpos : 0 < size
    · have hlt : left + size / 2 < items.length := by omega
      rw [if_pos hpos, if_pos hpos]
      simp only [getElem?_eq_getElem hlt, bind_eq_bind, bind_some, any_some]
      split
      · exact ih (by omega) (by omega)
      · exact ih (by omega) (by omega)
    · rw [if_neg hpos, if_neg hpos]

theorem boundLoop_spec (hsorted : items.Pairwise fun a b => right b = true → right a = true) :
    ∃ n ≤ items.length, boundLoop right items (items.length + 1) 0 items.length = some n ∧
      (∀ a ∈ items.take n, right a = true) ∧ ∀ a ∈ items.drop n, right a = false := by
  have hmono : ∀ i j : ℕ, i ≤ j → (items[j]?).any right = true → (items[i]?).any right = true := by
    intro i j hij hj
    have hlt : j < items.length := by
      by_contra hge
      rw [getElem?_eq_none (by omega)] at hj
      cases hj
    rw [getElem?_eq_getElem hlt, any_some] at hj
    rw [getElem?_eq_getElem (by omega), any_some]
    rcases Nat.lt_or_eq_of_le hij with hij | rfl
    · exact pairwise_iff_getElem.1 hsorted i j _ hlt hij hj
    · exact hj
  obtain ⟨-, hle, hbefore, hafter⟩ := @bisect_spec _ items.length 0 items.length hmono (Nat.le_refl _)
  rw [Nat.zero_add] at hle hafter
  refine ⟨_, hle, boundLoop_eq (by omega) (Nat.le_refl _), ?_, ?_⟩
  · intro a ha
    obtain ⟨i, hi, rfl⟩ := getElem_of_mem ha
    rw [length_take] at hi
    have hright := hbefore i (Nat.zero_le i) (by omega)
    rw [getElem?_eq_getElem (by omega), any_some] at hright
    rwa [getElem_take]
  · intro a ha
    obtain ⟨i, hi, rfl⟩ := getElem_of_mem ha
    rw [length_drop] at hi
    have hright := hafter _ (Nat.le_add_right _ i) (by omega)
    rw [getElem?_eq_getElem (by omega), any_some] at hright
    rwa [getElem_drop]

theorem countP_eq (hn : n ≤ items.length) (hleft : ∀ a ∈ items.take n, right a = true)
    (hright : ∀ a ∈ items.drop n, right a = false) : items.countP right = n := by
  rw [← take_append_drop n items, countP_append, countP_eq_length.2 hleft, length_take, Nat.min_eq_left hn,
    countP_eq_zero.2 fun a ha => by rw [hright a ha]; exact Bool.false_ne_true]
  rfl

/-! ## The bounds of a value -/

structure IsPreorder (compareFunc : α → α → ℤ) : Prop where
  swap : ∀ a b, compareFunc a b < 0 ↔ 0 < compareFunc b a
  trans : ∀ a b c, compareFunc a b ≤ 0 → compareFunc b c ≤ 0 → compareFunc a c ≤ 0

def Sorted (compareFunc : α → α → ℤ) (items : List α) : Prop :=
  items.Pairwise fun a b => compareFunc a b ≤ 0

variable {compareFunc : α → α → ℤ} {value : α} {v : ItemVector α} {index : ℕ} {realloc : ℕ → Bool}

structure Bounds (compareFunc : α → α → ℤ) (value : α) (items : List α) (index : ℕ) : Prop where
  le : index ≤ items.length
  left : ∀ a ∈ items.take index, compareFunc a value ≤ 0
  right : ∀ a ∈ items.drop index, compareFunc value a ≤ 0

theorem IsPreorder.lowerBound (h : IsPreorder compareFunc) (hsorted : Sorted compareFunc v.items) (value : α) :
    ∃ found, lowerBound v value compareFunc = some (v.items.countP fun a => compareFunc value a > 0, found) ∧
      Bounds compareFunc value v.items (v.items.countP fun a => compareFunc value a > 0) ∧
      (found = true ↔ ∃ a ∈ v.items, compareFunc value a = 0) ∧
      (found = true → ∃ a, v.items[v.items.countP fun a => compareFunc value a > 0]? = some a ∧
        compareFunc value a = 0) := by
  have hpairwise : v.items.Pairwise fun a b =>
      decide (compareFunc value b > 0) = true → decide (compareFunc value a > 0) = true := by
    apply hsorted.imp
    intro a b hab hb
    rw [decide_eq_true_iff] at hb ⊢
    have htrans := h.trans b a value
    have hswap := h.swap b value
    have hswap' := h.swap a value
    have hba := h.swap b a
    have hchain := h.trans value a b
    omega
  obtain ⟨n, hn, hloop, hleft, hright⟩ := boundLoop_spec hpairwise
  have hcount := countP_eq hn hleft hright
  simp only [decide_eq_true_eq, decide_eq_false_iff_not] at hleft hright
  rw [hcount]
  have hbounds : Bounds compareFunc value v.items n := by
    refine ⟨hn, fun a ha => ?_, fun a ha => by have hno := hright a ha; omega⟩
    have hgt := (h.swap a value).2 (hleft a ha)
    omega
  have hequal : (∃ a ∈ v.items, compareFunc value a = 0) → ∃ a, v.items[n]? = some a ∧ compareFunc value a = 0 := by
    rintro ⟨a, ha, heq⟩
    rw [← take_append_drop n v.items, mem_append] at ha
    have hdrop : a ∈ v.items.drop n := ha.resolve_left fun hmem => by
      have hgt := hleft a hmem
      omega
    obtain ⟨b, rest, hb⟩ := exists_cons_of_ne_nil (ne_nil_of_mem hdrop)
    have hget : v.items[n]? = some b := by rw [← Nat.add_zero n, ← getElem?_drop, hb]; rfl
    refine ⟨b, hget, ?_⟩
    have hnot := hright b (by rw [hb]; exact mem_cons_self)
    obtain rfl | hmem := mem_cons.1 (hb ▸ hdrop)
    · exact heq
    · have hba := rel_of_pairwise_cons (hb ▸ hsorted.sublist (drop_sublist n _)) hmem
      have hswap := h.swap value b
      have hswap' := h.swap value a
      have htrans := h.trans b a value hba
      omega
  unfold Vector.lowerBound
  simp only [hloop, bind_eq_bind, bind_some]
  by_cases hlt : n < v.items.length
  · rw [if_pos hlt, getElem?_eq_getElem hlt, bind_some]
    refine ⟨_, rfl, hbounds, ?_, fun hfound => ⟨_, rfl, of_decide_eq_true hfound⟩⟩
    rw [decide_eq_true_iff]
    refine ⟨fun heq => ⟨_, getElem_mem hlt, heq⟩, fun hex => ?_⟩
    obtain ⟨a, ha, heq⟩ := hequal hex
    rw [getElem?_eq_getElem hlt] at ha
    rwa [some.inj ha]
  · rw [if_neg hlt]
    refine ⟨_, rfl, hbounds, iff_of_false Bool.false_ne_true fun hex => ?_, nofun⟩
    obtain ⟨a, ha, -⟩ := hequal hex
    rw [getElem?_eq_none (by omega)] at ha
    cases ha

theorem IsPreorder.upperBound (h : IsPreorder compareFunc) (hsorted : Sorted compareFunc v.items) (value : α) :
    ∃ found, upperBound v value compareFunc =
        some (v.items.countP fun a => !decide (compareFunc value a < 0), found) ∧
      Bounds compareFunc value v.items (v.items.countP fun a => !decide (compareFunc value a < 0)) ∧
      (found = true ↔ ∃ a ∈ v.items, compareFunc value a = 0) ∧
      (found = true → ∃ a, v.items[(v.items.countP fun a => !decide (compareFunc value a < 0)) - 1]? = some a ∧
        compareFunc value a = 0) := by
  have hpairwise : v.items.Pairwise fun a b =>
      (!decide (compareFunc value b < 0)) = true → (!decide (compareFunc value a < 0)) = true := by
    apply hsorted.imp
    intro a b hab hb
    rw [Bool.not_eq_true', decide_eq_false_iff_not] at hb ⊢
    have htrans := h.trans a b value hab
    have hswap := h.swap value b
    have hswap' := h.swap value a
    omega
  obtain ⟨n, hn, hloop, hleft, hright⟩ := boundLoop_spec hpairwise
  have hcount := countP_eq hn hleft hright
  simp only [Bool.not_eq_true', Bool.not_eq_false', decide_eq_true_eq, decide_eq_false_iff_not] at hleft hright
  rw [hcount]
  have hbounds : Bounds compareFunc value v.items n := by
    refine ⟨hn, fun a ha => ?_, fun a ha => by have hlt := hright a ha; omega⟩
    have hnot := hleft a ha
    have hswap := h.swap value a
    omega
  have hequal : (∃ a ∈ v.items, compareFunc value a = 0) →
      0 < n ∧ ∃ a, v.items[n - 1]? = some a ∧ compareFunc value a = 0 := by
    rintro ⟨a, ha, heq⟩
    rw [← take_append_drop n v.items, mem_append] at ha
    have htake : a ∈ v.items.take n := ha.resolve_right fun hmem => by
      have hlt := hright a hmem
      omega
    have hpos := length_pos_of_mem htake
    rw [length_take] at hpos
    obtain ⟨i, hi, rfl⟩ := getElem_of_mem htake
    rw [length_take] at hi
    rw [getElem_take] at heq
    have hlast : n - 1 < v.items.length := by omega
    refine ⟨by omega, _, getElem?_eq_getElem hlast, ?_⟩
    have hle : i ≤ n - 1 := by omega
    have hnot := hleft v.items[n - 1] (mem_take_iff_getElem.2 ⟨n - 1, by omega, rfl⟩)
    rcases Nat.lt_or_eq_of_le hle with hlt | rfl
    · -- the value is not larger than an equal item in front
      have hab := pairwise_iff_getElem.1 hsorted i (n - 1) (by omega) hlast hlt
      have htrans := h.trans value _ _ (by omega) hab
      omega
    · exact heq
  unfold Vector.upperBound
  simp only [hloop, bind_eq_bind, bind_some]
  by_cases hpos : n > 0
  · have hlt : n - 1 < v.items.length := by omega
    rw [if_pos hpos, getElem?_eq_getElem hlt, bind_some]
    refine ⟨_, rfl, hbounds, ?_, fun hfound => ⟨_, rfl, of_decide_eq_true hfound⟩⟩
    rw [decide_eq_true_iff]
    refine ⟨fun heq => ⟨_, getElem_mem hlt, heq⟩, fun hex => ?_⟩
    obtain ⟨-, a, ha, heq⟩ := hequal hex
    rw [getElem?_eq_getElem hlt] at ha
    rwa [some.inj ha]
  · rw [if_neg hpos]
    exact ⟨_, rfl, hbounds, iff_of_false Bool.false_ne_true fun hex => hpos (hequal hex).1, nofun⟩

/-! ## Changes at a bound -/

theorem grow_cases : (grow realloc v).1 = false ∧ (grow realloc v).2 = v ∧ (∃ n, realloc n = false) ∨
    (grow realloc v).1 = true ∧ (grow realloc v).2.items = v.items ∧
      v.items.length < (grow realloc v).2.capacity := by
  have hle := v.le
  unfold grow
  by_cases hfull : v.items.length = v.capacity
  · rw [if_pos hfull, reserve]
    have hnot : ¬(if v.capacity = 0 then defaultCapacity else v.capacity * 2) < v.capacity := by
      split <;> omega
    rw [dif_neg hnot]
    by_cases hmemory : realloc (if v.capacity = 0 then defaultCapacity else v.capacity * 2) = true
    · rw [if_pos hmemory]
      refine .inr ⟨rfl, rfl, ?_⟩
      dsimp only
      rw [hfull]
      split
      · next hzero => rw [hzero]; decide
      · omega
    · rw [if_neg hmemory]
      exact .inl ⟨rfl, rfl, _, Bool.eq_false_iff.2 hmemory⟩
  · rw [if_neg hfull]
    exact .inr ⟨rfl, rfl, by dsimp only; omega⟩

theorem Bounds.sorted (h : Bounds compareFunc value items index) (hsorted : Sorted compareFunc items) :
    Sorted compareFunc (insertAt items index value) := by
  rw [insertAt, Sorted, pairwise_append]
  refine ⟨hsorted.sublist (take_sublist _ _), ?_, ?_⟩
  · exact pairwise_cons.2 ⟨h.right, hsorted.sublist (drop_sublist _ _)⟩
  · intro a ha b hb
    rcases mem_cons.1 hb with rfl | hb
    · exact h.left a ha
    · rw [← take_append_drop index items, Sorted, pairwise_append] at hsorted
      exact hsorted.2.2 a ha b hb

def Inserts (realloc : ℕ → Bool) (compareFunc : α → α → ℤ) (v : ItemVector α) (index : ℕ) (value : α) : Prop :=
  ∃ ok v', insert realloc v index value = some (ok, v') ∧ (ok = false → v' = v ∧ ∃ n, realloc n = false) ∧
    (ok = true → v'.items = v.items.take index ++ value :: v.items.drop index ∧ Sorted compareFunc v'.items)

def Erases (compareFunc : α → α → ℤ) (v : ItemVector α) (index : ℕ) (value : α) : Prop :=
  ∃ a v', erase v index = some v' ∧ compareFunc value a = 0 ∧ v'.items = v.items.take index ++ v.items.drop (index + 1) ∧
    v.items = v.items.take index ++ a :: v.items.drop (index + 1)

theorem Bounds.inserts (h : Bounds compareFunc value v.items index) (hsorted : Sorted compareFunc v.items) :
    Inserts realloc compareFunc v index value := by
  unfold Inserts insert
  rw [if_pos h.le]
  have hgrow := @grow_cases _ v realloc
  generalize grow realloc v = grown at hgrow
  obtain ⟨ok, v'⟩ := grown
  obtain ⟨rfl, rfl, hmemory⟩ | ⟨rfl, hitems, hroom⟩ := hgrow
  · exact ⟨_, _, rfl, fun _ => ⟨rfl, hmemory⟩, nofun⟩
  · dsimp only at hitems hroom ⊢
    rw [← hitems] at hroom
    rw [dif_pos hroom]
    refine ⟨_, _, rfl, nofun, fun _ => ⟨by rw [← hitems]; rfl, ?_⟩⟩
    dsimp only
    rw [hitems]
    exact h.sorted hsorted

theorem erases {a : α} (ha : v.items[index]? = some a) (heq : compareFunc value a = 0) :
    Erases compareFunc v index value := by
  obtain ⟨hlt, rfl⟩ := List.getElem?_eq_some_iff.1 ha
  refine ⟨_, _, by rw [erase, if_pos hlt], heq, eraseIdx_eq_take_drop_succ _ _, ?_⟩
  rw [← drop_eq_getElem_cons hlt, take_append_drop]

theorem lowerBound_upperBound (h : IsPreorder compareFunc) (hsorted : Sorted compareFunc v.items) (value : α)
    (realloc : ℕ → Bool) : ∃ lower upper found found',
      lowerBound v value compareFunc = some (lower, found) ∧ upperBound v value compareFunc = some (upper, found') ∧
      lower = (v.items.countP fun a => compareFunc value a > 0) ∧
      upper = (v.items.countP fun a => !decide (compareFunc value a < 0)) ∧
      (found = true ↔ ∃ a ∈ v.items, compareFunc value a = 0) ∧
      (found' = true ↔ ∃ a ∈ v.items, compareFunc value a = 0) ∧
      Inserts realloc compareFunc v lower value ∧ Inserts realloc compareFunc v upper value ∧
      (found = true → Erases compareFunc v lower value) ∧
      (found' = true → Erases compareFunc v (upper - 1) value) := by
  obtain ⟨found, hlower, hbounds, hfound, herase⟩ := h.lowerBound hsorted value
  obtain ⟨found', hupper, hbounds', hfound', herase'⟩ := h.upperBound hsorted value
  refine ⟨_, _, _, _, hlower, hupper, rfl, rfl, hfound, hfound', hbounds.inserts hsorted,
    hbounds'.inserts hsorted, fun hf => ?_, fun hf => ?_⟩
  · obtain ⟨a, ha, heq⟩ := herase hf
    exact erases ha heq
  · obtain ⟨a, ha, heq⟩ := herase' hf
    exact erases ha heq

theorem lowerBound_upperBound_full : ∃ lower upper found found',
    lowerBound ⟨[1, 3, 3], 3, by decide⟩ 3 (fun a b : ℤ => a - b) = some (lower, found) ∧
      upperBound ⟨[1, 3, 3], 3, by decide⟩ 3 (fun a b : ℤ => a - b) = some (upper, found') := by
  obtain ⟨lower, upper, found, found', hlower, hupper, -⟩ :=
    @lowerBound_upperBound ℤ (fun a b => a - b) ⟨[1, 3, 3], 3, by decide⟩
      ⟨fun a b => by omega, fun a b c hab hbc => by omega⟩ (by simp [Sorted]) 3 fun _ => true
  exact ⟨lower, upper, found, found', hlower, hupper⟩

end ScoreP.Vector
