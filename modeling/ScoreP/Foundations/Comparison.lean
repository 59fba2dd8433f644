import Mathlib.Data.List.Nodup
import Mathlib.Data.Prod.Lex

/-!
# Comparison functions and the blocks of a sorted list

A comparison function answers with a negative, a positive number or zero. One that tests a field after the
other is the lexicographic order of the fields (`ThreeWay.field`, `ThreeWay.flag`).

In a list sorted by such an order the elements that agree on the first fields are one block. A loop that
starts in the list and runs while the elements agree visits what is left of the block from there on
(`takeWhile_eq_filter`), which is all of it if and only if nothing of it is in front (`rest_all_iff`).
-/

namespace Foundations

open List

universe u v

section ThreeWay

variable {α : Type u} {β : Type v} [LinearOrder α] [LinearOrder β]

/-- The number `c` is what a comparison of `x` with `y` answers. -/
structure ThreeWay (c : ℤ) (x y : β) : Prop where
  neg_iff : c < 0 ↔ x < y
  pos_iff : 0 < c ↔ y < x

variable {rest : ℤ} {x y : β}

theorem ThreeWay.eq_zero_iff (h : ThreeWay rest x y) : rest = 0 ↔ x = y := by
  have hneg := h.neg_iff
  have hpos := h.pos_iff
  constructor
  · intro hzero
    exact le_antisymm (not_lt.1 fun hyx => by have := hpos.2 hyx; omega)
      (not_lt.1 fun hxy => by have := hneg.2 hxy; omega)
  · rintro rfl
    have hlow := mt hneg.1 (lt_irrefl x)
    have hhigh := mt hpos.1 (lt_irrefl x)
    omega

theorem ThreeWay.field (a b : α) (h : ThreeWay rest x y) :
    ThreeWay (if a < b then -1 else if a > b then 1 else rest) (toLex (a, x)) (toLex (b, y)) := by
  rcases lt_trichotomy a b with hab | rfl | hab
  · rw [if_pos hab]
    constructor
    · simp [Prod.Lex.toLex_lt_toLex, hab]
    · simp [Prod.Lex.toLex_lt_toLex, hab.not_gt, hab.ne']
  · rw [if_neg (lt_irrefl a), if_neg (lt_irrefl a)]
    constructor
    · simp [Prod.Lex.toLex_lt_toLex, h.neg_iff]
    · simp [Prod.Lex.toLex_lt_toLex, h.pos_iff]
  · rw [if_neg hab.not_gt, if_pos hab]
    constructor
    · simp [Prod.Lex.toLex_lt_toLex, hab.not_gt, hab.ne']
    · simp [Prod.Lex.toLex_lt_toLex, hab]

theorem ThreeWay.flag (p q : Prop) [Decidable p] [Decidable q] (h : ThreeWay rest x y) :
    ThreeWay (if p ∧ ¬q then -1 else if ¬p ∧ q then 1 else rest)
      (toLex (if p then 0 else 1, x)) (toLex ((if q then 0 else 1 : ℕ), y)) := by
  have hfield := ThreeWay.field (if p then 0 else 1 : ℕ) (if q then 0 else 1) h
  by_cases hp : p <;> by_cases hq : q <;> simpa [hp, hq] using hfield

end ThreeWay

section Blocks

variable {α : Type u} {β : Type v} [LinearOrder β] {f : α → β} {c : β} {as bs : List α}

theorem takeWhile_eq_filter (hsorted : bs.Pairwise fun x y => f x ≤ f y) (hge : ∀ b ∈ bs, c ≤ f b) :
    bs.takeWhile (fun x => f x = c) = bs.filter fun x => f x = c := by
  induction bs with
  | nil => rfl
  | cons b bs ih =>
    obtain ⟨hb, hbs⟩ := pairwise_cons.1 hsorted
    by_cases hbc : f b = c
    · simpa [hbc] using ih hbs fun x hx => hge x (mem_cons_of_mem b hx)
    · have hlt : c < f b := lt_of_le_of_ne (hge b mem_cons_self) (Ne.symm hbc)
      have hnone : bs.filter (fun x => f x = c) = [] := by
        apply filter_eq_nil_iff.2
        intro x hx
        simpa using (lt_of_lt_of_le hlt (hb x hx)).ne'
      simp [hbc, hnone]

theorem rest_all_iff [DecidableEq α] (p : α → Bool) (hnodup : (as ++ bs).Nodup) :
    (∀ n, (bs.filter p).count n = if n ∈ as ++ bs ∧ p n then 1 else 0) ↔ ∀ a ∈ as, ¬p a := by
  constructor
  · intro h a ha hpa
    have hcount := h a
    rw [if_pos ⟨mem_append_left bs ha, hpa⟩] at hcount
    have hmem := count_pos_iff.1 (show 0 < (bs.filter p).count a by omega)
    exact (nodup_append.1 hnodup).2.2 a ha a (mem_filter.1 hmem).1 rfl
  · intro h n
    have hbs : (bs.filter p).Nodup := (nodup_append.1 hnodup).2.1.filter p
    by_cases hn : n ∈ as ++ bs ∧ p n
    · rw [if_pos hn]
      have hnbs : n ∈ bs := (mem_append.1 hn.1).resolve_left fun ha => h n ha hn.2
      exact count_eq_one_of_mem hbs (mem_filter.2 ⟨hnbs, hn.2⟩)
    · rw [if_neg hn]
      apply count_eq_zero_of_not_mem
      intro hmem
      obtain ⟨hnbs, hpn⟩ := mem_filter.1 hmem
      exact hn ⟨mem_append_right as hnbs, hpn⟩

end Blocks

end Foundations
