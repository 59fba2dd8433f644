import Mathlib.Algebra.GroupWithZero.Nat
import Mathlib.Data.List.Range

/-!
# Regions of a memory

A memory maps addresses to cells. `read m start n` are the `n` cells from an address on, and
`write m start xs` stores cells there and keeps the others. Writes that follow each other are one write
(`write_append`), and a loop that stores cell by cell or block by block is one too (`foldl_update`,
`foldl_write`). Blocks of different lengths start at their `displacement`.
-/

namespace Foundations.Region

open Function List

universe u

variable {β : Type u} {m : ℕ → β} {start k n : ℕ} {xs ys : List β}

def read (m : ℕ → β) (start n : ℕ) : List β :=
  (List.range n).map fun i => m (start + i)

def write (m : ℕ → β) (start : ℕ) (xs : List β) : ℕ → β := fun i =>
  if start ≤ i then xs[i - start]?.getD (m i) else m i

/-! ## Reading -/

@[simp] theorem length_read : (read m start n).length = n := by
  rw [read, length_map, length_range]

@[simp] theorem read_zero : read m start 0 = [] :=
  rfl

theorem getElem?_read (hk : k < n) : (read m start n)[k]? = some (m (start + k)) := by
  rw [read, getElem?_map, getElem?_range hk, Option.map_some]

theorem read_add : read m start (k + n) = read m start k ++ read m (start + k) n := by
  rw [read, range_add, map_append, map_map]
  congr 1
  apply map_congr_left
  intro i _
  rw [Function.comp_apply, Nat.add_assoc]

theorem take_read (hk : k ≤ n) : (read m start n).take k = read m start k := by
  obtain ⟨rest, rfl⟩ := Nat.exists_eq_add_of_le hk
  rw [read_add]
  have hlength : (read m start k).length = k := length_read
  exact take_left' hlength

theorem flatMap_read (count blocks : ℕ) :
    ((List.range blocks).flatMap fun i => read m (start + i * count) count) =
      read m start (blocks * count) := by
  induction blocks with
  | zero => rw [Nat.zero_mul, range_zero, flatMap_nil, read_zero]
  | succ blocks ih =>
    rw [range_succ, flatMap_append, ih, flatMap_singleton, Nat.succ_mul, read_add]

/-! ## Writing -/

@[simp] theorem write_nil : write m start [] = m := by
  funext i
  simp [write]

theorem write_of_lt {i : ℕ} (hi : i < start) : write m start xs i = m i :=
  if_neg (Nat.not_le_of_lt hi)

theorem write_inside (hk : k < xs.length) : write m start xs (start + k) = xs[k] := by
  rw [write, if_pos (Nat.le_add_right start k), Nat.add_sub_cancel_left, getElem?_eq_getElem hk,
    Option.getD_some]

theorem write_zero_apply : write m 0 xs k = xs[k]?.getD (m k) :=
  if_pos (Nat.zero_le k)

theorem write_append : write (write m start xs) (start + xs.length) ys = write m start (xs ++ ys) := by
  funext i
  by_cases hi : start ≤ i
  · obtain ⟨k, rfl⟩ := Nat.exists_eq_add_of_le hi
    by_cases hk : k < xs.length
    · have hlt : start + k < start + xs.length := Nat.add_lt_add_left hk start
      have hlength : k < (xs ++ ys).length := by
        rw [length_append]
        omega
      rw [write_of_lt hlt, write_inside hk, write_inside hlength, getElem_append_left hk]
    · have hle : start + xs.length ≤ start + k := by omega
      have hsub : start + k - (start + xs.length) = k - xs.length := by omega
      have hnone : xs[k]? = none := getElem?_eq_none (Nat.le_of_not_lt hk)
      simp only [write, hi, hle, if_true, hsub, Nat.add_sub_cancel_left, hnone, Option.getD_none]
      rw [getElem?_append_right (Nat.le_of_not_lt hk)]
  · have hlt : i < start := Nat.lt_of_not_le hi
    rw [write_of_lt hlt, write_of_lt (Nat.lt_of_lt_of_le hlt (Nat.le_add_right start xs.length)),
      write_of_lt hlt]

theorem write_singleton {x : β} : write m start [x] = update m start x := by
  funext i
  by_cases hi : i = start
  · subst hi
    simp [write]
  · rw [update_of_ne hi, write]
    by_cases hle : start ≤ i
    · obtain ⟨k, hk⟩ : ∃ k, i - start = k + 1 := ⟨i - start - 1, by omega⟩
      rw [if_pos hle, hk]
      rfl
    · rw [if_neg hle]

theorem read_write (hlength : k + n ≤ xs.length) :
    read (write m start xs) (start + k) n = (xs.drop k).take n := by
  apply ext_getElem?
  intro i
  by_cases hi : i < n
  · have hlt : k + i < xs.length := by omega
    rw [getElem?_read hi, Nat.add_assoc, write_inside hlt, getElem?_take_of_lt hi,
      getElem?_drop, getElem?_eq_getElem hlt]
  · have hge : n ≤ i := Nat.le_of_not_lt hi
    rw [getElem?_eq_none (by rwa [length_read]), getElem?_eq_none]
    exact Nat.le_trans (length_take_le n _) hge

theorem read_write_start (hlength : n ≤ xs.length) : read (write m start xs) start n = xs.take n := by
  have hle : 0 + n ≤ xs.length := by omega
  have h : read (write m start xs) (start + 0) n = (xs.drop 0).take n := read_write hle
  rwa [Nat.add_zero, drop_zero] at h

theorem read_write_read {m' : ℕ → β} {start' : ℕ} :
    read (write m start (read m' start' n)) start n = read m' start' n := by
  rw [read_write_start (by rw [length_read])]
  exact take_of_length_le (by rw [length_read])

theorem read_write_part {m' : ℕ → β} {k l : ℕ} (h : k + l ≤ n) :
    read (write m 0 (read m' 0 n)) k l = read m' k l := by
  have hwritten : read (write m 0 (read m' 0 n)) (0 + k) l = ((read m' 0 n).drop k).take l :=
    read_write (by rwa [length_read])
  obtain ⟨rest, rfl⟩ := Nat.exists_eq_add_of_le h
  rw [Nat.zero_add] at hwritten
  rw [hwritten, Nat.add_assoc, read_add, drop_left' length_read, Nat.zero_add,
    take_read (Nat.le_add_right l rest)]

theorem write_read : write m start (read m start n) = m := by
  funext i
  rw [write]
  by_cases hi : start ≤ i
  · obtain ⟨k, rfl⟩ := Nat.exists_eq_add_of_le hi
    rw [if_pos hi, Nat.add_sub_cancel_left]
    by_cases hk : k < n
    · rw [getElem?_read hk, Option.getD_some]
    · rw [getElem?_eq_none (by rw [length_read]; omega), Option.getD_none]
  · rw [if_neg hi]

theorem write_injective (hlength : xs.length = ys.length) (h : write m start xs = write m start ys) :
    xs = ys := by
  apply ext_getElem hlength
  intro k hk hk'
  have hcell := congrFun h (start + k)
  rwa [write_inside hk, write_inside hk'] at hcell

/-! ## Loops -/

theorem foldl_update (f : ℕ → β) (rounds : ℕ) : (List.range rounds).foldl (fun (state : (ℕ → β) × ℕ) j =>
      (update state.1 state.2 (f j), state.2 + 1)) (m, start) =
        (write m start ((List.range rounds).map f), start + rounds) := by
  induction rounds with
  | zero => simp
  | succ rounds ih =>
    rw [range_succ, foldl_append, ih, foldl_cons, foldl_nil, map_append,
      map_singleton, ← write_append, length_map, length_range, write_singleton,
      Nat.add_assoc]

theorem foldl_write (block : ℕ → List β) (rounds : ℕ) :
    (List.range rounds).foldl (fun (state : (ℕ → β) × ℕ) i =>
      (write state.1 state.2 (block i), state.2 + (block i).length)) (m, start) =
        (write m start ((List.range rounds).flatMap block),
          start + ((List.range rounds).flatMap block).length) := by
  induction rounds with
  | zero => simp
  | succ rounds ih =>
    rw [range_succ, foldl_append, ih, foldl_cons, foldl_nil, flatMap_append,
      flatMap_singleton, ← write_append, length_append, Nat.add_assoc]

/-! ## Blocks of different lengths -/

def displacement (len : ℕ → ℕ) (i : ℕ) : ℕ :=
  ((List.range i).map len).sum

@[simp] theorem displacement_zero {len : ℕ → ℕ} : displacement len 0 = 0 :=
  rfl

theorem displacement_succ (len : ℕ → ℕ) (i : ℕ) : displacement len (i + 1) = displacement len i + len i := by
  rw [displacement, range_succ, map_append, sum_append, map_singleton, sum_singleton]
  rfl

theorem displacement_const (n i : ℕ) : displacement (fun _ => n) i = i * n := by
  induction i with
  | zero => rw [displacement_zero, Nat.zero_mul]
  | succ i ih => rw [displacement_succ, ih, Nat.succ_mul]

theorem length_flatMap_range (block : ℕ → List β) (blocks : ℕ) :
    ((List.range blocks).flatMap block).length = displacement (fun i => (block i).length) blocks := by
  rw [length_flatMap, displacement]

theorem take_drop_flatMap {block : ℕ → List β} {blocks i : ℕ} (hi : i < blocks) (hn : n ≤ (block i).length) :
    (((List.range blocks).flatMap block).drop (displacement (fun j => (block j).length) i)).take n =
      (block i).take n := by
  obtain ⟨rest, rfl⟩ := Nat.exists_eq_add_of_lt hi
  rw [Nat.add_assoc, range_add, flatMap_append, ← length_flatMap_range, drop_left,
    range_succ_eq_map, map_cons, flatMap_cons, Nat.add_zero, take_append_of_le_length hn]

theorem read_block {block : ℕ → List β} {blocks i : ℕ} (hi : i < blocks) (hn : n ≤ (block i).length) :
    read (write m start ((List.range blocks).flatMap block))
      (start + displacement (fun j => (block j).length) i) n = (block i).take n := by
  rw [read_write, take_drop_flatMap hi hn]
  obtain ⟨rest, rfl⟩ := Nat.exists_eq_add_of_lt hi
  rw [length_flatMap_range, Nat.add_assoc]
  have hle : displacement (fun j => (block j).length) (i + 1) ≤
      displacement (fun j => (block j).length) (i + (rest + 1)) := by
    rw [displacement, displacement, Nat.add_comm rest 1, ← Nat.add_assoc, range_add (n := i + 1),
      map_append, sum_append]
    exact Nat.le_add_right _ _
  rw [displacement_succ] at hle
  omega

theorem foldl_displacement {σ : Type u} (body : ℕ → ℕ → σ → σ) (len : ℕ → ℕ) (s : σ) (rounds : ℕ) :
    (List.range rounds).foldl (fun (state : σ × ℕ) i => (body i state.2 state.1, state.2 + len i)) (s, 0) =
      ((List.range rounds).foldl (fun s i => body i (displacement len i) s) s, displacement len rounds) := by
  induction rounds with
  | zero => rfl
  | succ rounds ih =>
    rw [range_succ, foldl_append, ih, foldl_append, displacement_succ]
    rfl

end Foundations.Region
