import Mathlib.Algebra.Group.Nat.Defs
import ScoreP.Foundations.Replacing

/-!
# Replacing in strings and removing from lists

Source: `replace_all`, `find_string_in_list` and `remove_string_from_list` in
`src/tools/lib/scorep_tools_utils.cpp`.

The search goes on at the place of the last replacement, so it never ends where the replacement begins with
the pattern (`loop_never`). A list keeps its separators at both ends while items are removed, `wrapped`.
-/

namespace ScoreP.ToolsUtils

open List
open Foundations.Replacing

abbrev Text := List Char

/-- `a - b` of type `size_t` -/
def sizeSub (a b : ℕ) : ℕ :=
  if b ≤ a then a - b else 2 ^ 64 + a - b

/-- A `size_t` that went through an `int`, which extends the sign. -/
def throughInt (n : ℕ) : ℕ :=
  if n % 2 ^ 32 < 2 ^ 31 then n % 2 ^ 32 else n % 2 ^ 32 + (2 ^ 64 - 2 ^ 32)

def find (pattern : Text) : Text → Option ℕ
  | [] => if pattern <+: [] then some 0 else none
  | c :: s => if pattern <+: c :: s then some 0 else (find pattern s).map (· + 1)

def rfind (pattern s : Text) : ℕ → Option ℕ
  | 0 => if pattern <+: s then some 0 else none
  | pos + 1 => if pattern <+: s.drop (pos + 1) then some (pos + 1) else rfind pattern s pos

def substr (s : Text) (pos count : ℕ) : Option Text :=
  if pos ≤ s.length then some ((s.drop pos).take count) else none

/-- `original.replace( pos, pattern_length, replacement )` -/
def replaceAt (pattern replacement original : Text) (pos : ℕ) : Text :=
  original.take pos ++ (replacement ++ original.drop (pos + throughInt pattern.length))

def replaceLoop (pattern replacement : Text) : ℕ → Text → Option ℕ → Option Text
  | 0, _, _ => none
  | _ + 1, original, none => some original
  | fuel + 1, original, some pos =>
    let original := replaceAt pattern replacement original pos
    replaceLoop pattern replacement fuel original (rfind pattern original pos)

def replaceAll (fuel : ℕ) (pattern replacement original : Text) : Option Text :=
  replaceLoop pattern replacement fuel original (rfind pattern original original.length)

abbrev enclosed (separator : Char) (s : Text) : Text :=
  separator :: (s ++ [separator])

def findStringInList (haystackList needleString : Text) (separator : Char) : Option ℕ :=
  let haystack := enclosed separator haystackList
  let needle := enclosed separator needleString
  find needle haystack

def removeStringFromList (fuel : ℕ) (haystackList needleString : Text) (separator : Char) : Option Text := do
  let haystack := enclosed separator haystackList
  let needle := enclosed separator needleString
  let result ← replaceAll fuel needle [separator] haystack
  substr result 1 (sizeSub result.length 2)

/-! ## The loop -/

variable {p r s t u : Text} {k n : ℕ}

theorem throughInt_of_lt (h : n < 2 ^ 31) : throughInt n = n := by
  unfold throughInt
  split <;> omega

def rfindBefore (p s : Text) : ℕ → Option ℕ
  | 0 => none
  | k + 1 => rfind p s k

theorem rfind_eq : rfind p s k = if p <+: s.drop k then some k else rfindBefore p s k := by
  cases k with
  | zero => rfl
  | succ k => rfl

theorem replaceLoop_settles (hp : p.length < 2 ^ 31) (h : Settles p r s t) (a : Text)
    (hloop : ∃ n, replaceLoop p r n (a ++ t) (rfindBefore p (a ++ t) a.length) = some u) :
    ∃ n, replaceLoop p r n (a ++ s) (rfind p (a ++ s) a.length) = some u := by
  induction h with
  | done hnot => rwa [rfind_eq, drop_left, if_neg hnot]
  | @replaced s t _ ih =>
    obtain ⟨n, hn⟩ := ih hloop
    refine ⟨n + 1, ?_⟩
    have hat : replaceAt p r (a ++ (p ++ s)) a.length = a ++ (r ++ s) := by
      rw [replaceAt, throughInt_of_lt hp, take_left, ← append_assoc a p, ← length_append, drop_left]
    rw [rfind_eq, drop_left, if_pos (prefix_append p s), replaceLoop, hat]
    exact hn

theorem replaceLoop_scans (hp : p.length < 2 ^ 31) (h : Scans p r s t) (a : Text)
    (hloop : ∃ n, replaceLoop p r n (a ++ t) (rfindBefore p (a ++ t) a.length) = some u) :
    ∃ n, replaceLoop p r n (a ++ s) (rfind p (a ++ s) (a ++ s).length) = some u := by
  induction h generalizing a with
  | nil h =>
    have hall := replaceLoop_settles hp h a hloop
    rwa [append_nil] at hall ⊢
  | @cons c s t v _ h ih =>
    have hnext := replaceLoop_settles hp h a hloop
    rw [append_cons] at hnext ⊢
    apply ih
    rwa [length_append, length_singleton]

theorem replaceAll_of_scans (hp : p.length < 2 ^ 31) (h : Scans p r s t) : ∃ n, replaceAll n p r s = some t :=
  replaceLoop_scans hp h [] ⟨1, rfl⟩

theorem replaceLoop_never (hr : p <+: r) (hk : k ≤ s.length) : replaceLoop p r n s (some k) = none := by
  induction n generalizing s with
  | zero => rfl
  | succ n ih =>
    have hlength : (s.take k).length = k := length_take_of_le hk
    have hback : p <+: (replaceAt p r s k).drop k := by
      rw [replaceAt, drop_left' hlength]
      exact hr.trans (prefix_append _ _)
    rw [replaceLoop, rfind_eq, if_pos hback]
    apply ih
    rw [replaceAt, length_append]
    omega

theorem rfind_infix (h : p <:+: s) : ∃ k ≤ s.length, rfind p s s.length = some k := by
  obtain ⟨before, behind, rfl⟩ := h
  have hfound : ∀ k, before.length ≤ k →
      ∃ j ≤ k, rfind p (before ++ p ++ behind) k = some j := by
    intro k hk
    induction k, hk using Nat.le_induction with
    | base =>
      refine ⟨_, le_rfl, ?_⟩
      rw [rfind_eq, append_assoc, drop_left, if_pos (prefix_append p behind)]
    | succ k _ ih =>
      obtain ⟨j, hj, hrfind⟩ := ih
      rw [rfind]
      split
      · exact ⟨_, le_rfl, rfl⟩
      · exact ⟨j, by omega, hrfind⟩
  apply hfound
  rw [append_assoc, length_append]
  omega

theorem replaceAll_iff (hp : p.length < 2 ^ 31) :
    (∃ n t, replaceAll n p r s = some t ∧ Scans p r s t) ↔ (p <+: r → ¬p <:+: s) := by
  constructor
  · rintro ⟨n, t, hreplaced, -⟩ hr hs
    obtain ⟨k, hk, hrfind⟩ := rfind_infix hs
    rw [replaceAll, hrfind, replaceLoop_never hr hk] at hreplaced
    cases hreplaced
  · intro h
    obtain ⟨t, ht⟩ := exists_scans h
    obtain ⟨n, hn⟩ := replaceAll_of_scans hp ht
    exact ⟨n, t, hn, ht⟩

/-! ## Lists in a string -/

variable {sep : Char} {item needle : Text} {items : List Text}

def wrapped (sep : Char) (items : List Text) : Text :=
  items.foldr (fun item rest => sep :: (item ++ rest)) [sep]

theorem wrapped_cons : wrapped sep (item :: items) = sep :: (item ++ wrapped sep items) :=
  rfl

theorem exists_wrapped (sep : Char) (items : List Text) : ∃ rest, wrapped sep items = sep :: rest := by
  cases items with
  | nil => exact ⟨[], rfl⟩
  | cons item items => exact ⟨_, wrapped_cons⟩

theorem wrapped_eq (h : items ≠ []) : wrapped sep items = enclosed sep ([sep].intercalate items) := by
  induction items with
  | nil => exact absurd rfl h
  | cons item items ih =>
    cases items with
    | nil => simp [wrapped]
    | cons next items => rw [wrapped_cons, ih (cons_ne_nil _ _)]; simp [intercalate]

theorem prefix_item_iff (hneedle : sep ∉ needle) (hitem : sep ∉ item) :
    needle ++ [sep] <+: item ++ wrapped sep items ↔ item = needle := by
  obtain ⟨rest, hrest⟩ := exists_wrapped sep items
  rw [hrest]
  induction needle generalizing item with
  | nil => cases item with
    | nil => simp
    | cons c item => simp_all
  | cons d needle ih => cases item with
    | nil =>
      have hd : d ≠ sep := fun h => hneedle (h ▸ mem_cons_self)
      simp [hd]
    | cons c item => simp_all [eq_comm]

theorem prefix_wrapped_iff (hneedle : sep ∉ needle) (hitem : sep ∉ item) :
    enclosed sep needle <+: wrapped sep (item :: items) ↔ item = needle := by
  rw [wrapped_cons, prefix_cons_inj]
  exact prefix_item_iff hneedle hitem

theorem not_prefix_of_not_mem {c : Char} (h : c ≠ sep) : ¬enclosed sep needle <+: c :: s := by
  rw [cons_prefix_cons]
  exact fun hc => h hc.1.symm

theorem scans_item (hitem : sep ∉ item) (h : Scans (enclosed sep needle) r s t) :
    Scans (enclosed sep needle) r (item ++ s) (item ++ t) := by
  induction item with
  | nil => exact h
  | cons c item ih =>
    obtain ⟨hc, hitem⟩ := not_or.1 (mem_cons.not.1 hitem)
    exact .cons (ih hitem) (.done (not_prefix_of_not_mem (Ne.symm hc)))

theorem not_prefix_wrapped (hneedle : sep ∉ needle) (hitems : ∀ item ∈ items, sep ∉ item ∧ item ≠ needle) :
    ¬enclosed sep needle <+: wrapped sep items := by
  cases items with
  | nil => simp [wrapped]
  | cons item items =>
    obtain ⟨hitem, hne⟩ := hitems item mem_cons_self
    rwa [prefix_wrapped_iff hneedle hitem]

theorem scans_wrapped (hneedle : sep ∉ needle) (hitems : ∀ item ∈ items, sep ∉ item) :
    Scans (enclosed sep needle) [sep] (wrapped sep items) (wrapped sep (items.filter (· ≠ needle))) := by
  have hsettled : ∀ items : List Text, (∀ item ∈ items, sep ∉ item) →
      Settles (enclosed sep needle) [sep] (wrapped sep (items.filter (· ≠ needle)))
        (wrapped sep (items.filter (· ≠ needle))) := by
    intro items hitems
    apply Settles.done
    apply not_prefix_wrapped hneedle
    intro item hmem
    rw [mem_filter, decide_eq_true_eq] at hmem
    exact ⟨hitems item hmem.1, hmem.2⟩
  induction items with
  | nil => exact .cons (.nil (.done (by simp))) (hsettled [] hitems)
  | cons item items ih =>
    obtain ⟨hitem, hrest⟩ := forall_mem_cons.1 hitems
    refine .cons (scans_item hitem (ih hrest)) ?_
    by_cases hne : item = needle
    · -- its second separator is the first one of the next item
      obtain ⟨rest, hwrapped⟩ := exists_wrapped sep (items.filter (· ≠ needle))
      have hnext := hsettled items hrest
      rw [filter_cons_of_neg (by simpa using hne), hne]
      rw [hwrapped] at hnext ⊢
      rw [show sep :: (needle ++ sep :: rest) = enclosed sep needle ++ rest by simp]
      exact .replaced hnext
    · have hself := hsettled (item :: items) hitems
      rwa [filter_cons_of_pos (by simpa using hne)] at hself ⊢

theorem find_item (hitem : sep ∉ item) :
    find (enclosed sep needle) (item ++ s) = (find (enclosed sep needle) s).map (· + item.length) := by
  induction item with
  | nil => simp
  | cons c item ih =>
    obtain ⟨hc, hitem⟩ := not_or.1 (mem_cons.not.1 hitem)
    rw [cons_append, find, if_neg (not_prefix_of_not_mem (Ne.symm hc)), ih hitem, Option.map_map]
    rfl

theorem find_wrapped_cons (hneedle : sep ∉ needle) (hitem : sep ∉ item) :
    find (enclosed sep needle) (wrapped sep (item :: items)) = if item = needle then some 0
      else (find (enclosed sep needle) (wrapped sep items)).map (· + (item ++ [sep]).length) := by
  have hstarts := @prefix_wrapped_iff _ _ _ items hneedle hitem
  rw [wrapped_cons] at hstarts ⊢
  rw [find, find_item hitem, Option.map_map, length_append]
  simp only [hstarts]
  rfl

theorem find_wrapped_eq_none (hneedle : sep ∉ needle) (hitems : ∀ item ∈ items, sep ∉ item) :
    find (enclosed sep needle) (wrapped sep items) = none ↔ needle ∉ items := by
  induction items with
  | nil => simp [wrapped, find]
  | cons item items ih =>
    obtain ⟨hitem, hrest⟩ := forall_mem_cons.1 hitems
    rw [find_wrapped_cons hneedle hitem, mem_cons, not_or, ← ih hrest]
    split
    · next h => simp [h]
    · next h => simp [Ne.symm h]

theorem find_wrapped_append {before behind : List Text} (hneedle : sep ∉ needle)
    (hitems : ∀ item ∈ before, sep ∉ item) (hbefore : needle ∉ before) :
    find (enclosed sep needle) (wrapped sep (before ++ needle :: behind)) =
      some (before.flatMap (· ++ [sep])).length := by
  induction before with
  | nil => rw [nil_append, find_wrapped_cons hneedle hneedle, if_pos rfl]; rfl
  | cons item before ih =>
    obtain ⟨hitem, hrest⟩ := forall_mem_cons.1 hitems
    rw [mem_cons, not_or] at hbefore
    rw [cons_append, find_wrapped_cons hneedle hitem, if_neg (Ne.symm hbefore.1), ih hrest hbefore.2]
    rw [flatMap_cons, @length_append _ (item ++ [sep]), add_comm]
    rfl

/-! ## Both functions -/

def Replaces (pattern replacement s : Text) : Prop :=
  ∃ fuel t, replaceAll fuel pattern replacement s = some t ∧ Scans pattern replacement s t

structure Removes (sep : Char) (items : List Text) (needle : Text) : Prop where
  removed : ∃ fuel, removeStringFromList fuel ([sep].intercalate items) needle sep =
    some ([sep].intercalate (items.filter (· ≠ needle)))
  after : findStringInList ([sep].intercalate (items.filter (· ≠ needle))) needle sep = none
  npos : findStringInList ([sep].intercalate items) needle sep = none ↔ needle ∉ items
  first : ∀ before behind, items = before ++ needle :: behind → needle ∉ before →
    findStringInList ([sep].intercalate items) needle sep = some (before.flatMap (· ++ [sep])).length

theorem substr_wrapped : substr (wrapped sep items) 1 (sizeSub (wrapped sep items).length 2) =
    some ([sep].intercalate items) := by
  by_cases hitems : items = []
  · subst hitems
    rfl
  · have hsub : ∀ n, sizeSub (n + 1 + 1) 2 = n := fun n => by
      unfold sizeSub
      split <;> omega
    rw [wrapped_eq hitems, substr, length_cons, length_append, length_singleton, hsub, if_pos (by omega)]
    simp

theorem removeStringFromList_eq (hitems : items ≠ []) (hsep : ∀ item ∈ items, sep ∉ item)
    (hneedle : sep ∉ needle) (hlength : needle.length + 2 < 2 ^ 31) :
    ∃ fuel, removeStringFromList fuel ([sep].intercalate items) needle sep =
      some ([sep].intercalate (items.filter (· ≠ needle))) := by
  have hlt : (enclosed sep needle).length < 2 ^ 31 := by simpa using hlength
  obtain ⟨fuel, hreplaced⟩ := replaceAll_of_scans hlt (scans_wrapped hneedle hsep)
  refine ⟨fuel, ?_⟩
  rw [removeStringFromList, ← wrapped_eq hitems, hreplaced]
  exact substr_wrapped

theorem findStringInList_eq (hitems : items ≠ []) : findStringInList ([sep].intercalate items) needle sep =
    find (enclosed sep needle) (wrapped sep items) := by
  rw [findStringInList, wrapped_eq hitems]

theorem find_removed (hsep : ∀ item ∈ items, sep ∉ item) (hneedle : sep ∉ needle) :
    findStringInList ([sep].intercalate (items.filter (· ≠ needle))) needle sep = none ↔
      (items.filter (· ≠ needle) = [] → needle ≠ []) := by
  by_cases hleft : items.filter (· ≠ needle) = []
  · have hempty : findStringInList ([sep].intercalate []) needle sep =
        find (enclosed sep needle) (wrapped sep [[]]) := rfl
    rw [hleft, hempty, find_wrapped_eq_none hneedle (by simp)]
    simp
  · rw [findStringInList_eq hleft, find_wrapped_eq_none hneedle fun item hmem => hsep item (mem_filter.1 hmem).1]
    exact iff_of_true (by simp) fun h => absurd h hleft

theorem removes_iff (hitems : items ≠ []) (hsep : ∀ item ∈ items, sep ∉ item) (hneedle : sep ∉ needle)
    (hlength : needle.length + 2 < 2 ^ 31) :
    Removes sep items needle ↔ (needle ≠ [] ∨ ∃ item ∈ items, item ≠ []) := by
  have hcond : (items.filter (· ≠ needle) = [] → needle ≠ []) ↔ (needle ≠ [] ∨ ∃ item ∈ items, item ≠ []) := by
    by_cases hempty : needle = []
    · simp [hempty]
    · simp [hempty]
  rw [← hcond, ← find_removed hsep hneedle]
  refine ⟨Removes.after, fun hafter => ⟨removeStringFromList_eq hitems hsep hneedle hlength, hafter, ?_, ?_⟩⟩
  · rw [findStringInList_eq hitems, find_wrapped_eq_none hneedle hsep]
  · intro before behind heq hbefore
    rw [findStringInList_eq hitems, heq]
    exact find_wrapped_append hneedle (fun item hmem => hsep item (heq ▸ mem_append_left _ hmem)) hbefore

/-- A replacement that begins with the pattern is searched again, and an empty needle is still found in
what is left of empty items. -/
theorem removes_and_replaces_iff (hitems : items ≠ []) (hsep : ∀ item ∈ items, sep ∉ item)
    (hneedle : sep ∉ needle) (hlength : needle.length + 2 < 2 ^ 31) (hpattern : p.length < 2 ^ 31) :
    Removes sep items needle ∧ Replaces p r s ↔
      (needle ≠ [] ∨ ∃ item ∈ items, item ≠ []) ∧ (p <+: r → ¬p <:+: s) := by
  rw [removes_iff hitems hsep hneedle hlength, Replaces, replaceAll_iff hpattern]

theorem removes_and_replaces_two : Removes ',' [['b'], [], ['b']] ['b'] ∧ Replaces ['a', 'b'] ['b'] ['a', 'a', 'b'] := by
  apply (removes_and_replaces_iff (by decide) (by decide) (by decide) (by decide) (by decide)).2
  decide

theorem not_replaces_prefix : ¬Replaces ['a'] ['a', 'b'] ['a'] := by
  rw [Replaces, replaceAll_iff (by decide)]
  decide

end ScoreP.ToolsUtils
