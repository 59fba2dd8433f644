import Mathlib.Algebra.BigOperators.Group.List.Basic

/-!
# Maps that keep the first entry of a key

A map is a list of entries with their keys; an entry whose key is there already is not inserted
(`insert`). What is kept and what is lost are together all the entries (`foldl_insert_perm`), so a sum
over a map misses just the lost entries (`sum_map_add_lost`). A key has the first of its entries
(`find?_build`).
-/

namespace Foundations.FirstEntry

open List

universe u v

variable {α : Type u} {κ : Type v} [DecidableEq κ] (key : α → κ)

def insert (entries : List α) (x : α) : List α :=
  if key x ∈ entries.map key then entries else entries ++ [x]

def build (entries : List α) : List α :=
  entries.foldl (insert key) []

/-- The entries that are not inserted when the keys `seen` are there already. -/
def lostAfter (seen : List κ) : List α → List α
  | [] => []
  | x :: entries =>
    if key x ∈ seen then x :: lostAfter seen entries else lostAfter (seen ++ [key x]) entries

def lost (entries : List α) : List α :=
  lostAfter key [] entries

theorem foldl_insert_perm (kept entries : List α) :
    (entries.foldl (insert key) kept ++ lostAfter key (kept.map key) entries).Perm (kept ++ entries) := by
  induction entries generalizing kept with
  | nil => rfl
  | cons x entries ih =>
    rw [foldl_cons, insert, lostAfter]
    split
    · have hmiddle : (kept ++ x :: entries).Perm (x :: (kept ++ entries)) := perm_middle
      exact perm_middle.trans (((ih kept).cons x).trans hmiddle.symm)
    · have hkept := ih (kept ++ [x])
      rw [map_append, map_singleton, append_assoc, singleton_append] at hkept
      exact hkept

section Distinct

variable {key}

theorem lostAfter_append {seen : List κ} {entries rest : List α} (hnodup : (entries.map key).Nodup)
    (hseen : ∀ x ∈ entries, key x ∉ seen) :
    lostAfter key seen (entries ++ rest) = lostAfter key (seen ++ entries.map key) rest := by
  induction entries generalizing seen with
  | nil => rw [nil_append, map_nil, append_nil]
  | cons x entries ih =>
    rw [map_cons, nodup_cons] at hnodup
    have hnew : ∀ y ∈ entries, key y ∉ seen ++ [key x] := by
      intro y hy hmem
      rcases mem_append.1 hmem with hold | hx
      · exact hseen y (mem_cons_of_mem x hy) hold
      · rw [← mem_singleton.1 hx] at hnodup
        exact hnodup.1 (mem_map_of_mem hy)
    rw [cons_append, lostAfter, if_neg (hseen x mem_cons_self), ih hnodup.2 hnew,
      append_assoc, map_cons, singleton_append]

theorem lostAfter_of_not_mem {old seen : List κ} {entries : List α} (h : ∀ x ∈ entries, key x ∉ old) :
    lostAfter key (old ++ seen) entries = lostAfter key seen entries := by
  induction entries generalizing seen with
  | nil => rfl
  | cons x entries ih =>
    have hx : key x ∈ old ++ seen ↔ key x ∈ seen := by
      rw [mem_append, or_iff_right (h x mem_cons_self)]
    have hrest : ∀ y ∈ entries, key y ∉ old := fun y hy => h y (mem_cons_of_mem x hy)
    rw [lostAfter, lostAfter]
    by_cases hseen : key x ∈ seen
    · rw [if_pos hseen, if_pos (hx.2 hseen), ih hrest]
    · rw [if_neg hseen, if_neg (fun hmem => hseen (hx.1 hmem)), append_assoc, ih hrest]

theorem lost_append {entries rest : List α} (hnodup : (entries.map key).Nodup)
    (hrest : ∀ x ∈ rest, key x ∉ entries.map key) : lost key (entries ++ rest) = lost key rest := by
  have hold : lostAfter key (entries.map key ++ []) rest = lostAfter key [] rest := lostAfter_of_not_mem hrest
  rw [append_nil] at hold
  rw [lost, lostAfter_append hnodup (fun x _ => not_mem_nil), nil_append, hold, lost]

end Distinct

theorem sum_map_add_lost {M : Type v} [AddCommMonoid M] (f : α → M) (entries : List α) :
    ((build key entries).map f).sum + ((lost key entries).map f).sum = (entries.map f).sum := by
  rw [← sum_append, ← map_append]
  exact ((foldl_insert_perm key [] entries).map f).sum_eq

variable {key}

theorem mem_of_mem_build {entries : List α} {x : α} (h : x ∈ build key entries) : x ∈ entries := by
  apply (foldl_insert_perm key [] entries).mem_iff.1
  exact mem_append_left _ h

theorem find?_foldl_insert (k : κ) (kept entries : List α) :
    (entries.foldl (insert key) kept).find? (fun x => decide (key x = k)) =
      (kept ++ entries).find? fun x => decide (key x = k) := by
  induction entries generalizing kept with
  | nil => rw [foldl_nil, append_nil]
  | cons x entries ih =>
    rw [foldl_cons, ih, insert]
    split
    case isTrue hmem =>
      rw [find?_append, find?_append, find?_cons]
      split
      case h_1 hx =>
        -- the entry that is there already is found first
        obtain ⟨y, hy, hyx⟩ := mem_map.1 hmem
        have hfound : (kept.find? fun x => decide (key x = k)).isSome := by
          rw [find?_isSome]
          exact ⟨y, hy, by rw [hyx]; exact hx⟩
        obtain ⟨z, hz⟩ := Option.isSome_iff_exists.1 hfound
        rw [hz, Option.some_or, Option.some_or]
      case h_2 => rfl
    case isFalse => rw [append_assoc, singleton_append]

theorem find?_build (k : κ) (entries : List α) :
    (build key entries).find? (fun x => decide (key x = k)) = entries.find? fun x => decide (key x = k) :=
  find?_foldl_insert k [] entries

end Foundations.FirstEntry
