import ScoreP.Foundations.Chain

/-!
# Doubly linked lists in a heap

A heap maps a node to its two neighbours, `next prev : α → Option α`, where `none` is the null
pointer. `Linked next prev p xs q` says that the links of the nodes `xs` are those of a list in this
order, with `p` before the first and `q` behind the last node.

The links of a node are read off its position (`Linked.next_eq`, `Linked.prev_eq`); on the nodes of
a list the two links are inverse to each other (`Linked.next_iff_prev`), and the nodes behind one
form a chain (`Linked.chain`). `Linked.insertAfter` and
`Linked.unlink` are the two ways a list changes.
-/

namespace Foundations

open List

universe u

variable {α : Type u}

def Linked (next prev : α → Option α) : Option α → List α → Option α → Prop
  | _, [], _ => True
  | p, x :: xs, q => prev x = p ∧ next x = xs.head?.or q ∧ Linked next prev (some x) xs q

variable {next next' prev prev' : α → Option α} {p q : Option α} {x y n : α} {xs as bs : List α}

theorem linked_append : Linked next prev p (as ++ bs) q ↔
      Linked next prev p as (bs.head?.or q) ∧ Linked next prev (as.getLast?.or p) bs q := by
  induction as generalizing p with
  | nil => simp [Linked]
  | cons a as ih =>
    have hhead : (as ++ bs).head?.or q = as.head?.or (bs.head?.or q) := by
      cases as <;> simp
    have hlast : (a :: as).getLast?.or p = as.getLast?.or (some a) := by
      cases as with
      | nil => simp
      | cons b as => simp [getLast?_eq_some_getLast]
    simp only [cons_append, Linked, ih, hhead, hlast]
    tauto

theorem Linked.congr (h : Linked next prev p xs q) (hnext : ∀ z ∈ xs, next' z = next z)
    (hprev : ∀ z ∈ xs, prev' z = prev z) : Linked next' prev' p xs q := by
  induction xs generalizing p with
  | nil => trivial
  | cons x xs ih =>
    obtain ⟨hp, hq, hxs⟩ := h
    refine ⟨?_, ?_, ?_⟩
    · rw [hprev x mem_cons_self, hp]
    · rw [hnext x mem_cons_self, hq]
    · exact ih hxs (fun z hz => hnext z (mem_cons_of_mem x hz))
        fun z hz => hprev z (mem_cons_of_mem x hz)

theorem Linked.next_eq (h : Linked next prev p (as ++ x :: bs) q) : next x = bs.head?.or q :=
  (linked_append.1 h).2.2.1

theorem Linked.prev_eq (h : Linked next prev p (as ++ x :: bs) q) : prev x = as.getLast?.or p :=
  (linked_append.1 h).2.1

/-- The two links are inverse to each other. -/
theorem Linked.next_iff_prev (h : Linked next prev none xs none) (hx : x ∈ xs) (hy : y ∈ xs) :
    next x = some y ↔ prev y = some x := by
  constructor
  · intro hxy
    obtain ⟨as, bs, rfl⟩ := append_of_mem hx
    rw [h.next_eq, Option.or_none, head?_eq_some_iff] at hxy
    obtain ⟨cs, rfl⟩ := hxy
    rw [append_cons] at h
    rw [Linked.prev_eq h]
    simp
  · intro hyx
    obtain ⟨as, bs, rfl⟩ := append_of_mem hy
    rw [h.prev_eq, Option.or_none, getLast?_eq_some_iff] at hyx
    obtain ⟨cs, rfl⟩ := hyx
    rw [append_assoc] at h
    rw [Linked.next_eq h]
    simp

theorem Linked.chain (h : Linked next prev p (x :: xs) none) : Chain next (next x) xs := by
  induction xs generalizing p x with
  | nil => exact h.2.1
  | cons y xs ih => exact chain_cons.2 ⟨h.2.1, ih h.2.2⟩

section Changes

variable [DecidableEq α]

theorem Linked.insertAfter (h : Linked next prev none (as ++ x :: bs) none)
    (hnodup : (as ++ x :: bs).Nodup) (hn : n ∉ as ++ x :: bs)
    (hnext : ∀ z, next' z = if z = x then some n else if z = n then next x else next z)
    (hprev : ∀ z, prev' z = if z = n then some x else if next x = some z then some n else prev z) :
    Linked next' prev' none (as ++ x :: n :: bs) none := by
  obtain ⟨has, hpx, hnx, hbs⟩ := linked_append.1 h
  obtain ⟨-, hxbs, hdisj⟩ := nodup_append.1 hnodup
  simp only [nodup_cons, mem_cons] at hxbs hdisj
  simp only [mem_append, mem_cons, not_or] at hn
  obtain ⟨hnas, hnx', hnbs⟩ := hn
  rw [Option.or_none] at hnx
  have hbehind : ∀ z, next x = some z → z ∈ bs := fun z hz =>
    mem_of_mem_head? (hnx ▸ hz)
  refine linked_append.2 ⟨?_, ?_, ?_, ?_, ?_, ?_⟩
  · refine has.congr ?_ ?_
    · intro z hz
      have hzx := hdisj z hz x (Or.inl rfl)
      have hzn : z ≠ n := fun e => hnas (e ▸ hz)
      rw [hnext, if_neg hzx, if_neg hzn]
    · intro z hz
      have hzn : z ≠ n := fun e => hnas (e ▸ hz)
      have hzb : next x ≠ some z := fun e => hdisj z hz z (Or.inr (hbehind z e)) rfl
      rw [hprev, if_neg hzn, if_neg hzb]
  · have hxb : next x ≠ some x := fun e => hxbs.1 (hbehind x e)
    rw [hprev, if_neg (Ne.symm hnx'), if_neg hxb, hpx]
  · rw [hnext, if_pos rfl]
    rfl
  · rw [hprev, if_pos rfl]
  · rw [hnext, if_neg hnx', if_pos rfl, hnx, Option.or_none]
  · cases bs with
    | nil => trivial
    | cons y bs =>
      obtain ⟨-, hny, hbs⟩ := hbs
      simp only [mem_cons, not_or, nodup_cons] at hxbs hnbs
      have hxy : next x = some y := hnx
      refine ⟨?_, ?_, hbs.congr ?_ ?_⟩
      · rw [hprev, if_neg (Ne.symm hnbs.1), if_pos hxy]
      · rw [hnext, if_neg (Ne.symm hxbs.1.1), if_neg (Ne.symm hnbs.1), hny]
      · intro z hz
        have hzx : z ≠ x := fun e => hxbs.1.2 (e ▸ hz)
        have hzn : z ≠ n := fun e => hnbs.2 (e ▸ hz)
        rw [hnext, if_neg hzx, if_neg hzn]
      · intro z hz
        have hzn : z ≠ n := fun e => hnbs.2 (e ▸ hz)
        have hzy : next x ≠ some z := by
          rw [hxy]
          intro e
          cases e
          exact hxbs.2.1 hz
        rw [hprev, if_neg hzn, if_neg hzy]

theorem Linked.unlink (h : Linked next prev none (as ++ x :: n :: bs) none)
    (hnodup : (as ++ x :: n :: bs).Nodup)
    (hnext : ∀ z, z ≠ n → next' z = if prev n = some z then next n else next z)
    (hprev : ∀ z, z ≠ n → prev' z = if next n = some z then prev n else prev z) :
    Linked next' prev' none (as ++ x :: bs) none := by
  obtain ⟨has, hpx, -, hpn, hnn, hbs⟩ := linked_append.1 h
  obtain ⟨-, hxbs, hdisj⟩ := nodup_append.1 hnodup
  simp only [nodup_cons, mem_cons, not_or] at hxbs hdisj
  obtain ⟨⟨hxn, hxbs'⟩, hnbs, hbsnodup⟩ := hxbs
  rw [Option.or_none] at hnn
  have hbehind : ∀ z, next n = some z → z ∈ bs := fun z hz =>
    mem_of_mem_head? (hnn ▸ hz)
  refine linked_append.2 ⟨?_, ?_, ?_, ?_⟩
  · refine has.congr ?_ ?_
    · intro z hz
      have hzx : x ≠ z := Ne.symm (hdisj z hz x (Or.inl rfl))
      have hzn := hdisj z hz n (Or.inr (Or.inl rfl))
      rw [hnext z hzn, hpn, if_neg (by simpa using hzx)]
    · intro z hz
      have hzn := hdisj z hz n (Or.inr (Or.inl rfl))
      have hzb : next n ≠ some z := fun e =>
        hdisj z hz z (Or.inr (Or.inr (hbehind z e))) rfl
      rw [hprev z hzn, if_neg hzb]
  · have hxb : next n ≠ some x := fun e => hxbs' (hbehind x e)
    rw [hprev x hxn, if_neg hxb, hpx]
  · rw [hnext x hxn, if_pos hpn, hnn, Option.or_none]
  · cases bs with
    | nil => trivial
    | cons y bs =>
      obtain ⟨-, hny, hbs⟩ := hbs
      simp only [mem_cons, not_or, nodup_cons] at hxbs' hnbs hbsnodup
      have hny' : next n = some y := hnn
      have hyn := Ne.symm hnbs.1
      refine ⟨?_, ?_, hbs.congr ?_ ?_⟩
      · rw [hprev y hyn, if_pos hny', hpn]
      · rw [hnext y hyn, hpn, if_neg (by simpa using hxbs'.1), hny]
      · intro z hz
        have hzn : z ≠ n := fun e => hnbs.2 (e ▸ hz)
        have hzx : x ≠ z := fun e => hxbs'.2 (e ▸ hz)
        rw [hnext z hzn, hpn, if_neg (by simpa using hzx)]
      · intro z hz
        have hzn : z ≠ n := fun e => hnbs.2 (e ▸ hz)
        have hzy : next n ≠ some z := by
          rw [hny']
          intro e
          cases e
          exact hbsnodup.1 hz
        rw [hprev z hzn, if_neg hzy]

end Changes

end Foundations
