import Mathlib.Data.Nat.Notation

/-!
# Scanning text with escapes

A character is escaped when the character before it is an escape character; the escape character may
itself be escaped and still escapes. `upToMark` keeps what stands before the first unescaped mark,
`pieces` cuts at the unescaped separators. Both carry whether the character before was an escape
character; `upToMark_append` and `pieces_append` skip a stretch without marks or separators.
`untilError` works off a list and stops at the first error.
-/

namespace Foundations

open List

variable {α : Type} (mark sep esc : α → Bool)

/-- Whether the next character is escaped after `l`. -/
def escapedAfter (e : Bool) : List α → Bool
  | [] => e
  | c :: cs => escapedAfter (esc c) cs

def upToMark (e : Bool) : List α → List α
  | [] => []
  | c :: cs => if mark c && !e then [] else c :: upToMark (esc c) cs

def pieces (e : Bool) (cur : List α) : List α → List (List α)
  | [] => [cur]
  | c :: cs => if sep c && !e then cur :: pieces (esc c) [] cs else pieces (esc c) (cur ++ [c]) cs

variable {mark sep esc} {e : Bool} {cur l r : List α} {c : α}

theorem escapedAfter_append : escapedAfter esc e (l ++ r) = escapedAfter esc (escapedAfter esc e l) r := by
  induction l generalizing e with
  | nil => rfl
  | cons c cs ih => exact ih

theorem escapedAfter_concat : escapedAfter esc e (l ++ [c]) = esc c := by
  rw [escapedAfter_append]
  rfl

theorem escapedAfter_getLast : escapedAfter esc e l = (l.getLast?.map esc).getD e := by
  obtain rfl | ⟨l, c, rfl⟩ := eq_nil_or_concat l
  · rfl
  · rw [concat_eq_append, escapedAfter_concat, getLast?_append]
    rfl

/-! ## Marks -/

theorem upToMark_of_none (h : ∀ c ∈ l, mark c = false) : upToMark mark esc e l = l := by
  induction l generalizing e with
  | nil => rfl
  | cons c cs ih =>
    rw [upToMark, h c mem_cons_self, ih fun x hx => h x (mem_cons_of_mem c hx)]
    rfl

theorem upToMark_append (h : ∀ c ∈ l, mark c = false) :
    upToMark mark esc e (l ++ r) = l ++ upToMark mark esc (escapedAfter esc e l) r := by
  induction l generalizing e with
  | nil => rfl
  | cons c cs ih =>
    rw [cons_append, upToMark, h c mem_cons_self, ih fun x hx => h x (mem_cons_of_mem c hx)]
    rfl

theorem upToMark_append_of_eq (h : upToMark mark esc e l = l) :
    upToMark mark esc e (l ++ r) = l ++ upToMark mark esc (escapedAfter esc e l) r := by
  induction l generalizing e with
  | nil => rfl
  | cons c cs ih =>
    rw [upToMark] at h
    by_cases hcut : (mark c && !e) = true
    · rw [if_pos hcut] at h
      exact nomatch h
    · rw [if_neg hcut] at h
      rw [cons_append, upToMark, if_neg hcut, ih (List.cons.inj h).2]
      rfl

theorem upToMark_append_of_ne (h : upToMark mark esc e l ≠ l) :
    upToMark mark esc e (l ++ r) = upToMark mark esc e l := by
  induction l generalizing e with
  | nil => exact absurd rfl h
  | cons c cs ih =>
    rw [upToMark] at h
    rw [cons_append, upToMark, upToMark]
    by_cases hcut : (mark c && !e) = true
    · rw [if_pos hcut, if_pos hcut]
    · rw [if_neg hcut] at h
      rw [if_neg hcut, if_neg hcut, ih fun heq => h (by rw [heq])]

theorem upToMark_isPrefix : upToMark mark esc e l <+: l := by
  induction l generalizing e with
  | nil => exact prefix_refl []
  | cons c cs ih =>
    rw [upToMark]
    by_cases hcut : (mark c && !e) = true
    · rw [if_pos hcut]
      exact nil_prefix
    · rw [if_neg hcut]
      exact (prefix_cons_inj c).2 ih

/-! ## Pieces -/

theorem pieces_append (h : ∀ c ∈ l, sep c = false) :
    pieces sep esc e cur (l ++ r) = pieces sep esc (escapedAfter esc e l) (cur ++ l) r := by
  induction l generalizing e cur with
  | nil => rw [append_nil]; rfl
  | cons c cs ih =>
    have hstep : pieces sep esc e cur (c :: (cs ++ r)) = pieces sep esc (esc c) (cur ++ [c]) (cs ++ r) := by
      rw [pieces, h c mem_cons_self]
      rfl
    rw [cons_append, hstep, ih fun x hx => h x (mem_cons_of_mem c hx), append_assoc]
    rfl

theorem pieces_ne_nil : pieces sep esc e cur l ≠ [] := by
  induction l generalizing e cur with
  | nil => exact cons_ne_nil cur []
  | cons c cs ih =>
    rw [pieces]
    by_cases hsep : (sep c && !e) = true
    · rw [if_pos hsep]
      exact cons_ne_nil _ _
    · rw [if_neg hsep]
      exact ih

theorem pieces_concat (hc : sep c = true) (he : escapedAfter esc e l = false) :
    pieces sep esc e cur (l ++ [c]) = pieces sep esc e cur l ++ [[]] := by
  induction l generalizing e cur with
  | nil =>
    have he' : e = false := he
    simp [pieces, hc, he']
  | cons d l ih =>
    have htail := fun cur' => @ih (esc d) cur' he
    rw [cons_append, pieces, pieces]
    by_cases hsep : (sep d && !e) = true
    · rw [if_pos hsep, if_pos hsep, htail, cons_append]
    · rw [if_neg hsep, if_neg hsep, htail]

theorem pieces_seps (hr : ∀ c ∈ r, sep c = true ∧ esc c = false) (he : escapedAfter esc e l = false) :
    pieces sep esc e cur (l ++ r) = pieces sep esc e cur l ++ List.replicate r.length [] := by
  induction r generalizing l with
  | nil => rw [append_nil, length_nil, replicate_zero, append_nil]
  | cons c r ih =>
    obtain ⟨hsep, hesc⟩ := hr c mem_cons_self
    rw [append_cons, ih (fun d hd => hr d (mem_cons_of_mem c hd))
      (escapedAfter_concat.trans hesc), pieces_concat hsep he, append_assoc]
    rfl

/-! ## Running until an error -/

variable {σ β ε : Type}

def untilError (f : σ → β → σ × Option ε) : List β → σ → σ × Option ε
  | [], s => (s, none)
  | x :: xs, s =>
    match f s x with
    | (s, some err) => (s, some err)
    | (s, none) => untilError f xs s

variable {f : σ → β → σ × Option ε} {s : σ} {x : β} {xs ys : List β}

theorem untilError_cons_of_none (h : (f s x).2 = none) :
    untilError f (x :: xs) s = untilError f xs (f s x).1 := by
  rw [untilError]
  cases hx : f s x with
  | mk s' err =>
    rw [hx] at h
    have herr : err = none := h
    rw [herr]

theorem untilError_cons_of_some (h : (f s x).2 ≠ none) : untilError f (x :: xs) s = f s x := by
  rw [untilError]
  cases hx : f s x with
  | mk s' err =>
    rw [hx] at h
    cases err with
    | none => exact absurd rfl h
    | some err => rfl

theorem untilError_append_of_none (h : (untilError f xs s).2 = none) :
    untilError f (xs ++ ys) s = untilError f ys (untilError f xs s).1 := by
  induction xs generalizing s with
  | nil => rfl
  | cons x xs ih =>
    by_cases hx : (f s x).2 = none
    · rw [untilError_cons_of_none hx] at h
      rw [cons_append, untilError_cons_of_none hx, untilError_cons_of_none hx, ih h]
    · rw [untilError_cons_of_some hx] at h
      exact absurd h hx

/-- What every step keeps holds at the end. -/
theorem untilError_invariant {P : σ → Prop} (hstep : ∀ s, ∀ x ∈ xs, P s → P (f s x).1) (hs : P s) :
    P (untilError f xs s).1 := by
  induction xs generalizing s with
  | nil => exact hs
  | cons x xs ih =>
    have hx := hstep s x mem_cons_self hs
    by_cases hnone : (f s x).2 = none
    · rw [untilError_cons_of_none hnone]
      exact ih (fun s y hy => hstep s y (mem_cons_of_mem x hy)) hx
    · rw [untilError_cons_of_some hnone]
      exact hx

theorem untilError_filter {p : β → Bool} (h : ∀ s x, p x = false → f s x = (s, none)) :
    untilError f (xs.filter p) s = untilError f xs s := by
  induction xs generalizing s with
  | nil => rfl
  | cons x xs ih =>
    by_cases hp : p x = true
    · rw [filter_cons_of_pos hp, untilError, untilError]
      cases f s x with
      | mk s' err => cases err <;> simp only [ih]
    · have hx := h s x (by simpa using hp)
      rw [filter_cons_of_neg hp, ih, untilError_cons_of_none (by rw [hx]), hx]

end Foundations
