import Mathlib.Data.List.Nodup
import Mathlib.Data.List.Perm.Subperm

/-!
# Singly linked lists in a heap

A heap maps a node to the node its link points to, `next : α → Option α`, where `none` is the null
pointer. `Segment next p as q` says that following the links from the pointer `p` one passes the
nodes `as` in order and arrives at the pointer `q`; a `Chain` is a segment that ends in null.

Segments compose (`segment_append`) and depend on the links of their own nodes only
(`Segment.congr`). A chain is also determined by position (`Chain.next_eq`), and is changed at its
end by `Chain.snoc` and `Chain.dropLast`; `Chain.remove` takes a node out and `Chain.moveToFront` moves it.
-/

namespace Foundations

open Function List

universe u

variable {α : Type u}

def Segment (next : α → Option α) : Option α → List α → Option α → Prop
  | p, [], q => p = q
  | p, a :: as, q => p = some a ∧ Segment next (next a) as q

def Chain (next : α → Option α) (p : Option α) (as : List α) : Prop :=
  Segment next p as none

variable {next next' : α → Option α} {p q : Option α} {a b c : α} {as bs : List α}

@[simp] theorem segment_nil : Segment next p [] q ↔ p = q :=
  Iff.rfl

@[simp] theorem segment_cons : Segment next p (a :: as) q ↔ p = some a ∧ Segment next (next a) as q :=
  Iff.rfl

@[simp] theorem chain_nil : Chain next p [] ↔ p = none :=
  Iff.rfl

theorem chain_cons : Chain next p (a :: as) ↔ p = some a ∧ Chain next (next a) as :=
  Iff.rfl

theorem segment_append : Segment next p (as ++ bs) q ↔ ∃ r, Segment next p as r ∧ Segment next r bs q := by
  induction as generalizing p with
  | nil => simp
  | cons a as ih =>
    simp only [cons_append, segment_cons, ih]
    constructor
    · intro h
      obtain ⟨hp, r, has, hbs⟩ := h
      exact ⟨r, ⟨hp, has⟩, hbs⟩
    · intro h
      obtain ⟨r, ⟨hp, has⟩, hbs⟩ := h
      exact ⟨hp, r, has, hbs⟩

theorem segment_snoc : Segment next p (as ++ [a]) q ↔ Segment next p as (some a) ∧ next a = q := by
  rw [segment_append]
  constructor
  · intro h
    obtain ⟨r, has, hr, hq⟩ := h
    exact ⟨hr ▸ has, hq⟩
  · intro h
    exact ⟨some a, h.1, rfl, h.2⟩

theorem Segment.congr (h : Segment next p as q) (heq : ∀ x ∈ as, next' x = next x) : Segment next' p as q := by
  induction as generalizing p with
  | nil => exact h
  | cons a as ih =>
    refine ⟨h.1, ?_⟩
    rw [heq a mem_cons_self]
    exact ih h.2 fun x hx => heq x (mem_cons_of_mem a hx)

theorem Chain.congr (h : Chain next p as) (heq : ∀ x ∈ as, next' x = next x) : Chain next' p as :=
  Segment.congr h heq

theorem Chain.unique (h : Chain next p as) (h' : Chain next p bs) : as = bs := by
  induction as generalizing p bs with
  | nil =>
    cases bs with
    | nil => rfl
    | cons b bs => simp [chain_cons, chain_nil.1 h] at h'
  | cons a as ih =>
    obtain ⟨rfl, has⟩ := chain_cons.1 h
    cases bs with
    | nil => simp at h'
    | cons b bs =>
      obtain ⟨hab, hbs⟩ := chain_cons.1 h'
      cases hab
      rw [ih has hbs]

theorem Chain.head_eq (h : Chain next p as) : as[0]? = p := by
  cases as with
  | nil => exact h.symm
  | cons a as => exact (chain_cons.1 h).1.symm

theorem Chain.next_eq (h : Chain next p as) {i : ℕ} (hi : as[i]? = some a) : next a = as[i + 1]? := by
  induction as generalizing p i with
  | nil => simp at hi
  | cons x as ih =>
    obtain ⟨-, has⟩ := chain_cons.1 h
    cases i with
    | zero =>
      simp only [getElem?_cons_zero, Option.some.injEq] at hi
      subst hi
      simpa using has.head_eq.symm
    | succ i => simpa using ih has (by simpa using hi)

theorem Chain.eq_nil_iff (h : Chain next p as) : as = [] ↔ p = none := by
  rw [← h.head_eq]
  cases as with
  | nil => simp
  | cons a as => simp

theorem Chain.snoc (h : Chain next p (as ++ [a])) (has : ∀ x ∈ as, next' x = next x)
    (ha : next' a = some c) (hc : next' c = none) : Chain next' p (as ++ [a] ++ [c]) := by
  refine segment_snoc.2 ⟨segment_snoc.2 ⟨?_, ha⟩, hc⟩
  exact Segment.congr (segment_snoc.1 h).1 has

theorem Chain.remove (h : Chain next p (as ++ [a] ++ c :: bs)) (has : ∀ x ∈ as, next' x = next x)
    (ha : next' a = next c) (hbs : ∀ x ∈ bs, next' x = next x) : Chain next' p (as ++ [a] ++ bs) := by
  obtain ⟨r, hbefore, hr, hbehind⟩ := segment_append.1 h
  refine segment_append.2 ⟨next c, segment_snoc.2 ⟨?_, ha⟩, hbehind.congr hbs⟩
  exact Segment.congr (segment_snoc.1 hbefore).1 has

theorem Chain.moveToFront [DecidableEq α] (h : Chain next p (as ++ [a] ++ c :: bs))
    (hnodup : (as ++ [a] ++ c :: bs).Nodup) :
    Chain (update (update next a (next c)) c p) (some c) (c :: (as ++ [a] ++ bs)) := by
  have hc : c ∉ as ++ [a] ++ bs := (nodup_middle.1 hnodup).notMem
  have hrest : (as ++ [a] ++ bs).Nodup := (nodup_middle.1 hnodup).of_cons
  rw [append_assoc, singleton_append] at hrest
  have ha : a ∉ as ++ bs := (nodup_middle.1 hrest).notMem
  have hother : ∀ x, x ≠ c → x ≠ a → update (update next a (next c)) c p x = next x := by
    intro x hxc hxa
    rw [update_of_ne hxc, update_of_ne hxa]
  have hne : ∀ x ∈ as ++ bs, x ≠ c ∧ x ≠ a := by
    intro x hx
    refine ⟨?_, fun heq => ha (heq ▸ hx)⟩
    rintro rfl
    apply hc
    rcases mem_append.1 hx with hx | hx
    · exact mem_append_left bs (mem_append_left [a] hx)
    · exact mem_append_right _ hx
  refine ⟨rfl, ?_⟩
  rw [update_self]
  apply h.remove
  · intro x hx
    obtain ⟨hxc, hxa⟩ := hne x (mem_append_left bs hx)
    exact hother x hxc hxa
  · have hac : a ≠ c := by
      rintro rfl
      exact hc (mem_append_left bs (mem_append_right as mem_cons_self))
    rw [update_of_ne hac, update_self]
  · intro x hx
    obtain ⟨hxc, hxa⟩ := hne x (mem_append_right as hx)
    exact hother x hxc hxa

theorem Chain.dropLast (h : Chain next p (as ++ [a] ++ [c])) (has : ∀ x ∈ as, next' x = next x)
    (ha : next' a = none) : Chain next' p (as ++ [a]) := by
  obtain ⟨hseg, -⟩ := segment_snoc.1 h
  refine segment_snoc.2 ⟨?_, ha⟩
  exact Segment.congr (segment_snoc.1 hseg).1 has

theorem length_le_of_bounded {xs : List ℕ} {bound : ℕ} (hnodup : xs.Nodup)
    (hbounded : ∀ n ∈ xs, n < bound) : xs.length ≤ bound := by
  have hsub : xs ⊆ List.range bound := fun n hn => mem_range.2 (hbounded n hn)
  have hle := (hnodup.subperm hsub).length_le
  rwa [length_range] at hle

def Chains (next : α → Option α) : List (Option α) → List α → Prop
  | [], as => as = []
  | p :: ps, as => ∃ bs cs, as = bs ++ cs ∧ Chain next p bs ∧ Chains next ps cs

theorem Chains.congr {ps : List (Option α)} (h : Chains next ps as) (heq : ∀ x ∈ as, next' x = next x) :
    Chains next' ps as := by
  induction ps generalizing as with
  | nil => exact h
  | cons p ps ih =>
    obtain ⟨bs, cs, rfl, hbs, hcs⟩ := h
    exact ⟨bs, cs, rfl, hbs.congr fun x hx => heq x (mem_append_left _ hx),
      ih hcs fun x hx => heq x (mem_append_right _ hx)⟩

end Foundations
