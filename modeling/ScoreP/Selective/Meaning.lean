import Mathlib.Data.List.ReduceOption
import ScoreP.Filter.Agreement
import ScoreP.Selective.Parser

/-!
# What a selective recording file means

`FileDenotes` says which regions and which intervals of instances the lines of a file list. The parser
leaves for each listed region the intervals that its lines give, in the order in which they are inserted
(`parseFile_eq`, `regionIntervals_entries`); they are sorted by the first instance when the narrowed
comparisons have the right sign (`sorted_insertAll`).
-/

namespace ScoreP.Selective

open Filter (Text)
open Foundations List Option

/-! ## Denotation -/

/-- A decimal number of an instance. -/
structure IsNumber (text : Text) (n : ℕ) : Prop where
  ne_nil : text ≠ []
  digits : ∀ c ∈ text, isDigit c = true
  value : decimal text = n
  small : n < 2 ^ 31

/-- An instance or an interval of instances. -/
inductive Denotes : Text → Interval → Prop
  | number {text : Text} {n : ℕ} (h : IsNumber text n) : Denotes text ⟨n, n⟩
  | range {text text' : Text} {first last : ℕ} (h : IsNumber text first) (h' : IsNumber text' last) :
    Denotes (text ++ ':' :: text') ⟨first, last⟩

/-- The whole run: the last instance is the largest `uint64_t`. -/
def wholeRun : Interval := ⟨0, 2 ^ 64 - 1⟩

inductive LineDenotes : Text → Option SelectedRegion → Prop
  | blank {line : Text} (h : ∀ c ∈ line, c ∈ nameDelimiters) : LineDenotes line none
  | region {before name rest : Text} {intervals : List Interval} (hbefore : ∀ c ∈ before, c ∈ nameDelimiters)
    (hname : name ≠ []) (hname' : ∀ c ∈ name, c ∉ nameDelimiters)
    (hrest : ∀ c, rest.head? = some c → c ∈ nameDelimiters)
    (hitems : List.Forall₂ Denotes (fields intervalDelimiters.contains rest) intervals) :
    LineDenotes (before ++ (name ++ rest)) (some ⟨name, if intervals = [] then [wholeRun] else intervals⟩)

def FileDenotes (content : Text) (entries : List SelectedRegion) : Prop :=
  ∃ options, List.Forall₂ LineDenotes (Filter.fileLines content) options ∧ entries = options.reduceOption

def givenIntervals (entries : List SelectedRegion) (name : Text) : List Interval :=
  (entries.filter fun entry => entry.regionName = name).flatMap SelectedRegion.intervals

/-! ## Sorted intervals -/

def insertAll (intervals given : List Interval) : List Interval :=
  given.foldl (fun intervals interval => addInterval intervals interval.first interval.last) intervals

def ComparesRight : List Interval → List Interval → Prop
  | _, [] => True
  | intervals, interval :: given =>
    AgreeOnPath (fun i => (intervals[i]?).any fun item => decide (0 < compareIntervals interval.first item))
        (smaller Interval.first intervals interval) intervals.length 0 intervals.length ∧
      ComparesRight (addInterval intervals interval.first interval.last) given

def Sorted (intervals : List Interval) : Prop :=
  intervals.Pairwise fun a b => a.first ≤ b.first

variable {intervals given : List Interval}

theorem sorted_insertAll (hsorted : Sorted intervals) (h : ComparesRight intervals given) :
    Sorted (insertAll intervals given) := by
  induction given generalizing intervals with
  | nil => exact hsorted
  | cons interval given ih =>
    obtain ⟨hagree, hgiven⟩ := h
    exact ih (sorted_insertAt hsorted hagree) hgiven

theorem insertAll_perm : (insertAll intervals given).Perm (intervals ++ given) := by
  induction given generalizing intervals with
  | nil =>
    rw [append_nil]
    rfl
  | cons interval given ih =>
    rw [insertAll, foldl_cons]
    refine ih.trans ?_
    have hinsert : (addInterval intervals interval.first interval.last).Perm (interval :: intervals) :=
      insertAt_perm _
    exact (hinsert.append_right given).trans perm_middle.symm

/-! ## Regions -/

theorem strcmp_mem (a b : Text) : strcmp a b = 0 ∨ strcmp a b = 1 ∨ strcmp a b = -1 := by
  fun_induction strcmp a b with
  | case1 => exact Or.inl rfl
  | case2 => exact Or.inr (Or.inr rfl)
  | case3 => exact Or.inr (Or.inl rfl)
  | case4 _ _ _ ih => exact ih
  | case5 => exact Or.inr (Or.inr rfl)
  | case6 => exact Or.inr (Or.inl rfl)

theorem strcmp_eq_zero (a b : Text) : strcmp a b = 0 ↔ a = b := by
  fun_induction strcmp a b with
  | case1 => exact ⟨fun _ => rfl, fun _ => rfl⟩
  | case2 => exact ⟨fun h => absurd h (by decide), fun h => absurd h.symm (cons_ne_nil _ _)⟩
  | case3 => exact ⟨fun h => absurd h (by decide), fun h => absurd h (cons_ne_nil _ _)⟩
  | case4 as c bs ih => rw [ih, cons_inj_right]
  | case5 a as b bs hne _ => exact ⟨fun h => absurd h (by decide), fun h => absurd (List.cons.inj h).1 hne⟩
  | case6 a as b bs hne _ => exact ⟨fun h => absurd h (by decide), fun h => absurd (List.cons.inj h).1 hne⟩

theorem compareRegions_eq_zero (name : Text) (region : SelectedRegion) :
    compareRegions name region = 0 ↔ region.regionName = name := by
  rw [compareRegions, eq_comm (a := region.regionName), ← strcmp_eq_zero name]
  rcases strcmp_mem name region.regionName with h | h | h <;> rw [h] <;> decide

theorem findIdx?_split {α : Type} {l : List α} {p : α → Bool} {i : ℕ} (h : l.findIdx? p = some i) :
    ∃ pre x post, l = pre ++ x :: post ∧ pre.length = i ∧ p x = true ∧ ∀ y ∈ pre, p y = false := by
  induction l generalizing i with
  | nil => exact absurd h.symm (some_ne_none i)
  | cons x l ih =>
    rw [findIdx?_cons] at h
    by_cases hx : p x = true
    · rw [if_pos hx] at h
      exact ⟨[], x, l, rfl, some.inj h, hx, fun y hy => absurd hy not_mem_nil⟩
    · rw [if_neg hx] at h
      obtain ⟨j, hj, rfl⟩ := map_eq_some_iff.1 h
      obtain ⟨pre, y, post, rfl, hlength, hy, hpre⟩ := ih hj
      refine ⟨x :: pre, y, post, rfl, by rw [length_cons, hlength], hy, fun z hz => ?_⟩
      rcases mem_cons.1 hz with rfl | hz
      · exact Bool.eq_false_iff.2 hx
      · exact hpre z hz

variable {regions : List SelectedRegion} {name other : Text}

def regionIntervals (regions : List SelectedRegion) (name : Text) : Option (List Interval) :=
  (selectiveGetRegion regions name).map SelectedRegion.intervals

theorem selectiveGetRegion_eq_find? :
    selectiveGetRegion regions name = regions.find? fun region => decide (region.regionName = name) := by
  rw [selectiveGetRegion, vectorFind]
  have hcompare : (fun region => decide (compareRegions name region = 0)) =
      fun region : SelectedRegion => decide (region.regionName = name) := by
    funext region
    exact decide_eq_decide.2 (compareRegions_eq_zero name region)
  rw [hcompare]
  cases hfind : regions.findIdx? fun region => decide (region.regionName = name) with
  | none =>
    symm
    rw [bind_none, find?_eq_none]
    intro region hregion
    rw [findIdx?_eq_none_iff.1 hfind region hregion]
    exact Bool.false_ne_true
  | some index =>
    obtain ⟨pre, region, post, rfl, rfl, hregion, hpre⟩ := findIdx?_split hfind
    symm
    rw [bind_some, getElem?_append_right (Nat.le_refl _), Nat.sub_self, getElem?_cons_zero,
      find?_eq_some_iff_append]
    exact ⟨hregion, pre, post, rfl, fun y hy => by rw [hpre y hy]; rfl⟩

theorem modify_middle {α : Type} (f : α → α) (pre post : List α) (x : α) :
    (pre ++ x :: post).modify pre.length f = pre ++ f x :: post := by
  induction pre with
  | nil => rfl
  | cons y pre ih => rw [cons_append, length_cons, modify_succ_cons, ih, cons_append]

theorem regionIntervals_append (pre post : List SelectedRegion) (region : SelectedRegion)
    (hpre : ∀ before ∈ pre, before.regionName ≠ region.regionName) :
    regionIntervals (pre ++ region :: post) other =
      if other = region.regionName then some region.intervals else regionIntervals (pre ++ post) other := by
  rw [regionIntervals, regionIntervals, selectiveGetRegion_eq_find?, selectiveGetRegion_eq_find?,
    find?_append, find?_append, find?_cons]
  by_cases hother : other = region.regionName
  · have hnone : pre.find? (fun before => decide (before.regionName = other)) = none := by
      rw [find?_eq_none]
      intro before hbefore
      rw [hother, decide_eq_true_iff]
      exact hpre before hbefore
    rw [if_pos hother, hnone, none_or, decide_eq_true hother.symm]
    rfl
  · rw [if_neg hother, decide_eq_false (Ne.symm hother)]

theorem regionIntervals_eq_none (h : ∀ region ∈ regions, region.regionName ≠ name) :
    regionIntervals regions name = none := by
  rw [regionIntervals, selectiveGetRegion_eq_find?, map_eq_none_iff, find?_eq_none]
  intro region hregion
  rw [decide_eq_true_iff]
  exact h region hregion

theorem regionIntervals_add (first last : ℤ) : regionIntervals (add regions name first last) other =
      if other = name then
        some (addInterval ((regionIntervals regions name).getD []) (toUint64 first) (toUint64 last))
      else regionIntervals regions other := by
  rw [add]
  cases hfind : vectorFind compareRegions regions name with
  | some index =>
    obtain ⟨pre, region, post, rfl, rfl, hregion, hpre⟩ := findIdx?_split hfind
    have hname : region.regionName = name :=
      (compareRegions_eq_zero name region).1 (of_decide_eq_true hregion)
    have hpre' : ∀ before ∈ pre, before.regionName ≠ region.regionName := by
      intro before hbefore heq
      have hzero := (compareRegions_eq_zero name before).2 (heq.trans hname)
      exact of_decide_eq_false (hpre before hbefore) hzero
    dsimp only
    have hupdated := @regionIntervals_append other pre post
      { region with intervals := addInterval region.intervals (toUint64 first) (toUint64 last) } hpre'
    rw [modify_middle, hupdated, ← hname, regionIntervals_append pre post region hpre',
      regionIntervals_append pre post region hpre', if_pos rfl]
    by_cases hother : other = region.regionName
    · rw [if_pos hother, if_pos hother]
      rfl
    · rw [if_neg hother, if_neg hother, if_neg hother]
  | none =>
    have hnew : ∀ region ∈ regions, region.regionName ≠ name := by
      intro region hregion heq
      have hnot := findIdx?_eq_none_iff.1 hfind region hregion
      exact of_decide_eq_false hnot ((compareRegions_eq_zero name region).2 heq)
    have hfound : upperBoundFound compareRegions regions name = false := by
      rw [upperBoundFound, Bool.and_eq_false_iff]
      right
      cases hlast : regions[upperBound compareRegions regions name - 1]? with
      | none => rfl
      | some region =>
        rw [any_some, decide_eq_false_iff_not, compareRegions_eq_zero]
        exact hnew region (mem_of_getElem? hlast)
    have hends : insertAt regions regions.length (⟨name, addInterval [] (toUint64 first) (toUint64 last)⟩) =
        regions ++ [⟨name, addInterval [] (toUint64 first) (toUint64 last)⟩] := by
      rw [insertAt, take_length, drop_length]
    dsimp only
    rw [hfound, if_neg Bool.false_ne_true, insertNewRegion, hends, regionIntervals_append _ _ _ hnew,
      append_nil, regionIntervals_eq_none hnew]
    rfl

/-! ## Lines -/

theorem nextToken_append {α : Type} {sep : α → Bool} {before token rest : List α}
    (hbefore : ∀ c ∈ before, sep c = true) (hne : token ≠ []) (htoken : ∀ c ∈ token, sep c = false)
    (hrest : ∀ c, rest.head? = some c → sep c = true) :
    nextToken sep (before ++ (token ++ rest)) = some (token, rest.drop 1) := by
  obtain ⟨c, token, rfl⟩ := exists_cons_of_ne_nil hne
  have hc : ¬sep c = true := Bool.eq_false_iff.1 (htoken c mem_cons_self)
  have hdrop : (before ++ (c :: token ++ rest)).dropWhile sep = c :: token ++ rest := by
    rw [dropWhile_append_of_pos hbefore, cons_append, dropWhile_cons_of_neg hc]
  have hnot : ∀ d ∈ c :: token, (!sep d) = true := by
    intro d hd
    rw [htoken d hd]
    rfl
  have hstop : rest.takeWhile (fun d => !sep d) = [] ∧ rest.dropWhile (fun d => !sep d) = rest := by
    cases rest with
    | nil => exact ⟨rfl, rfl⟩
    | cons d rest =>
      have hd : ¬(!sep d) = true := by
        rw [hrest d rfl]
        exact Bool.false_ne_true
      exact ⟨takeWhile_cons_of_neg hd, dropWhile_cons_of_neg hd⟩
  have htake : (c :: token ++ rest).takeWhile (fun d => !sep d) = c :: token := by
    rw [takeWhile_append_of_pos hnot, hstop.1, append_nil]
  have hafter : (c :: token ++ rest).dropWhile (fun d => !sep d) = rest := by
    rw [dropWhile_append_of_pos hnot, hstop.2]
  rw [nextToken, hdrop]
  rw [cons_append] at htake hafter ⊢
  dsimp only
  rw [htake, hafter]

variable {text : Text}

theorem takeWhile_digits (rest : Text) (h : ∀ c ∈ text, isDigit c = true)
    (hrest : ∀ c, rest.head? = some c → isDigit c = false) : (text ++ rest).takeWhile isDigit = text := by
  rw [takeWhile_append_of_pos h]
  cases rest with
  | nil => exact append_nil text
  | cons c rest =>
    rw [takeWhile_cons_of_neg (Bool.eq_false_iff.1 (hrest c rfl)), append_nil]

theorem scanInt_number {n : ℕ} (h : IsNumber text n) : scanInt text = some (n : ℤ) := by
  have htake := takeWhile_digits [] h.digits (fun c hc => absurd hc.symm (some_ne_none c))
  rw [append_nil] at htake
  have hsmall := h.small
  rw [scanInt, htake]
  obtain ⟨c, digits, hcons⟩ := exists_cons_of_ne_nil h.ne_nil
  rw [hcons]
  dsimp only
  rw [← hcons, h.value, Nat.min_eq_left (by omega), some_inj, Int.bmod]
  split <;> omega

theorem toUint64_natCast {n : ℕ} (h : n < 2 ^ 31) : toUint64 (n : ℤ) = n := by
  rw [toUint64]
  omega

theorem all_valid {n : ℕ} (h : IsNumber text n) : (text.all fun c => isDigit c || c = ':') = true := by
  rw [List.all_eq_true]
  intro c hc
  rw [h.digits c hc]
  rfl

theorem isDigit_colon : isDigit ':' = false := by decide

theorem strcspn_number (rest : Text) {n : ℕ} (h : IsNumber text n)
    (hrest : ∀ c, rest.head? = some c → c = ':') : Filter.strcspn (text ++ rest) [':'] = text.length := by
  have hnot : ∀ c ∈ text, (!([':'] : Text).contains c) = true := by
    intro c hc
    have hne : c ≠ ':' := by
      intro heq
      have hdigit := h.digits c hc
      rw [heq, isDigit_colon] at hdigit
      exact absurd hdigit Bool.false_ne_true
    rw [Bool.not_eq_true', contains_eq_mem, decide_eq_false_iff_not, mem_singleton]
    exact hne
  rw [Filter.strcspn, takeWhile_append_of_pos hnot]
  cases rest with
  | nil => rw [takeWhile_nil, append_nil]
  | cons c rest =>
    rw [hrest c rfl, takeWhile_cons_of_neg, append_nil]
    decide

theorem processInterval_denotes {item : Text} {interval : Interval} (h : Denotes item interval) :
    processInterval regions name item = add regions name interval.first interval.last ∧
      toUint64 interval.first = interval.first ∧ toUint64 interval.last = interval.last := by
  cases h with
  | @number text n h =>
    have hpos := strcspn_number [] h (fun c hc => absurd hc.symm (some_ne_none c))
    rw [append_nil] at hpos
    refine ⟨?_, toUint64_natCast h.small, toUint64_natCast h.small⟩
    rw [processInterval, if_pos (all_valid h)]
    dsimp only
    rw [hpos, if_pos (Nat.le_refl _), scanInt_number h]
    rfl
  | @range text text' first last h h' =>
    have hpos := strcspn_number (':' :: text') h (fun c hc => (some.inj hc).symm)
    have hvalid : ((text ++ ':' :: text').all fun c => isDigit c || c = ':') = true := by
      rw [all_append, all_valid h, all_cons, all_valid h']
      rfl
    have hshort : ¬(text ++ ':' :: text').length ≤ text.length := by
      rw [length_append, length_cons]
      omega
    refine ⟨?_, toUint64_natCast h.small, toUint64_natCast h'.small⟩
    rw [processInterval, if_pos hvalid]
    dsimp only
    rw [hpos, if_neg hshort, take_left, drop_append, Nat.add_sub_cancel_left,
      drop_of_length_le (Nat.le_succ _), nil_append, drop_one, tail_cons,
      scanInt_number h, scanInt_number h']
    rfl

theorem regionIntervals_processInterval {item : Text} {interval : Interval} (h : Denotes item interval) :
    regionIntervals (processInterval regions name item) other = if other = name then
        some (addInterval ((regionIntervals regions name).getD []) interval.first interval.last)
      else regionIntervals regions other := by
  obtain ⟨hprocess, hfirst, hlast⟩ := @processInterval_denotes regions name _ _ h
  rw [hprocess, regionIntervals_add, hfirst, hlast]

theorem regionIntervals_items {items : List Text} {intervals : List Interval}
    (h : List.Forall₂ Denotes items intervals) :
    regionIntervals (items.foldl (fun regions item => processInterval regions name item) regions) other =
      if other = name ∧ intervals ≠ [] then some (insertAll ((regionIntervals regions name).getD []) intervals)
      else regionIntervals regions other := by
  induction h generalizing regions with
  | nil => rw [if_neg (fun h => h.2 rfl), foldl_nil]
  | @cons item interval items intervals hitem _ ih =>
    rw [foldl_cons, ih, regionIntervals_processInterval hitem, regionIntervals_processInterval hitem,
      if_pos rfl, getD_some]
    by_cases hother : other = name
    · have hall : other = name ∧ interval :: intervals ≠ [] := ⟨hother, cons_ne_nil _ _⟩
      rw [if_pos hother, if_pos hall]
      by_cases hnil : intervals = []
      · rw [if_neg (fun h => h.2 hnil), hnil]
        rfl
      · rw [if_pos ⟨hother, hnil⟩]
        rfl
    · rw [if_neg (fun h => hother h.1), if_neg hother, if_neg (fun h => hother h.1)]

theorem processIntervals_eq_foldl {fuel : ℕ} {rest : Text} (hfuel : rest.length < fuel) :
    processIntervals name fuel rest regions =
      (fields intervalDelimiters.contains rest).foldl (fun regions item => processInterval regions name item)
        regions := by
  induction fuel generalizing rest regions with
  | zero => omega
  | succ fuel ih =>
    rw [processIntervals]
    cases htoken : strtok intervalDelimiters rest with
    | none =>
      rw [fields_of_none htoken]
      rfl
    | some next =>
      obtain ⟨token, after⟩ := next
      obtain ⟨hfields, hlength⟩ := fields_of_nextToken htoken
      dsimp only
      rw [hfields, foldl_cons]
      exact ih (by omega)

def record (recorded : Text → Option (List Interval)) : Option SelectedRegion → Text → Option (List Interval)
  | none => recorded
  | some entry => fun other =>
    if other = entry.regionName then
      some (insertAll ((recorded entry.regionName).getD []) entry.intervals)
    else recorded other

theorem fields_drop_one {rest : Text} (hrest : ∀ c, rest.head? = some c → c ∈ nameDelimiters) :
    fields intervalDelimiters.contains (rest.drop 1) = fields intervalDelimiters.contains rest := by
  cases rest with
  | nil => rfl
  | cons c rest =>
    have hsubset : ∀ d ∈ nameDelimiters, intervalDelimiters.contains d = true := List.all_eq_true.1 (by decide)
    rw [fields_cons_separator (hsubset c (hrest c rfl)), drop_one, tail_cons]

theorem toUint64_last : toUint64 (-1) = 2 ^ 64 - 1 := by decide

theorem regionIntervals_processLine {line : Text} {entry : Option SelectedRegion} (h : LineDenotes line entry) :
    regionIntervals (processLine regions line) = record (regionIntervals regions) entry := by
  cases h with
  | blank h =>
    have hnone : strtok nameDelimiters line = none :=
      nextToken_eq_none_iff.2 fun c hc => contains_iff_mem.2 (h c hc)
    rw [processLine, hnone]
    rfl
  | @region before name rest intervals hbefore hname hname' hrest hitems =>
    have htoken : strtok nameDelimiters (before ++ (name ++ rest)) = some (name, rest.drop 1) := by
      apply nextToken_append _ hname
      · intro c hc
        rw [contains_eq_mem, decide_eq_false_iff_not]
        exact hname' c hc
      · exact fun c hc => contains_iff_mem.2 (hrest c hc)
      · exact fun c hc => contains_iff_mem.2 (hbefore c hc)
    funext other
    rw [processLine, htoken, record]
    dsimp only
    cases hnext : strtok intervalDelimiters (rest.drop 1) with
    | none =>
      have hfields := fields_of_none hnext
      rw [fields_drop_one hrest] at hfields
      rw [hfields] at hitems
      obtain rfl := List.forall₂_nil_left_iff.1 hitems
      dsimp only
      rw [regionIntervals_add, toUint64_last, if_pos rfl]
      rfl
    | some next =>
      obtain ⟨token, after⟩ := next
      obtain ⟨hfields, -⟩ := fields_of_nextToken hnext
      rw [fields_drop_one hrest] at hfields
      have hne : intervals ≠ [] := by
        rintro rfl
        rw [List.forall₂_nil_right_iff.1 hitems] at hfields
        exact absurd hfields (cons_ne_nil _ _).symm
      dsimp only
      rw [processIntervals_eq_foldl (Nat.lt_succ_self _), fields_drop_one hrest, regionIntervals_items hitems,
        if_neg hne]
      exact if_congr (and_iff_left hne) rfl rfl

/-! ## Files -/

theorem regionIntervals_lines {lines : List Text} {options : List (Option SelectedRegion)}
    (h : List.Forall₂ LineDenotes lines options) :
    regionIntervals (lines.foldl processLine regions) = options.foldl record (regionIntervals regions) := by
  induction h generalizing regions with
  | nil => rfl
  | cons hline _ ih => rw [foldl_cons, foldl_cons, ih, regionIntervals_processLine hline]

theorem givenIntervals_cons (entry : SelectedRegion) (entries : List SelectedRegion) :
    givenIntervals (entry :: entries) name =
      if entry.regionName = name then entry.intervals ++ givenIntervals entries name
      else givenIntervals entries name := by
  rw [givenIntervals, givenIntervals, filter_cons]
  by_cases hname : entry.regionName = name
  · rw [if_pos hname, decide_eq_true hname, if_pos rfl, flatMap_cons]
  · rw [if_neg hname, decide_eq_false hname, if_neg Bool.false_ne_true]

theorem givenIntervals_eq_nil {entries : List SelectedRegion}
    (h : ¬∃ entry ∈ entries, entry.regionName = name) : givenIntervals entries name = [] := by
  have hnone : entries.filter (fun entry => decide (entry.regionName = name)) = [] := by
    rw [filter_eq_nil_iff]
    intro entry hentry hname
    exact h ⟨entry, hentry, of_decide_eq_true hname⟩
  rw [givenIntervals, hnone, flatMap_nil]

theorem insertAll_append {given' : List Interval} :
    insertAll intervals (given ++ given') = insertAll (insertAll intervals given) given' :=
  foldl_append

theorem foldl_record {options : List (Option SelectedRegion)} {recorded : Text → Option (List Interval)} :
    options.foldl record recorded name = if ∃ entry ∈ options.reduceOption, entry.regionName = name then
        some (insertAll ((recorded name).getD []) (givenIntervals options.reduceOption name))
      else recorded name := by
  induction options generalizing recorded with
  | nil => rw [if_neg (fun ⟨_, hmem, _⟩ => absurd hmem not_mem_nil), foldl_nil]
  | cons option options ih =>
    cases option with
    | none => rw [foldl_cons, ih, reduceOption_cons_of_none, record]
    | some entry =>
      rw [foldl_cons, ih, reduceOption_cons_of_some, givenIntervals_cons, record]
      dsimp only
      by_cases hname : entry.regionName = name
      · have hlisted : ∃ other ∈ entry :: options.reduceOption, other.regionName = name :=
          ⟨entry, mem_cons_self, hname⟩
        rw [if_pos hlisted, if_pos hname.symm, if_pos hname, getD_some, insertAll_append, hname]
        by_cases hlater : ∃ other ∈ options.reduceOption, other.regionName = name
        · rw [if_pos hlater]
        · rw [if_neg hlater, givenIntervals_eq_nil hlater]
          rfl
      · have hlisted : (∃ other ∈ entry :: options.reduceOption, other.regionName = name) ↔
            ∃ other ∈ options.reduceOption, other.regionName = name := by
          constructor
          · rintro ⟨other, hother, heq⟩
            rcases mem_cons.1 hother with rfl | hother
            · exact absurd heq hname
            · exact ⟨other, hother, heq⟩
          · rintro ⟨other, hother, heq⟩
            exact ⟨other, mem_cons_of_mem _ hother, heq⟩
        rw [if_neg (Ne.symm hname), if_neg hname]
        exact if_congr hlisted.symm rfl rfl

theorem untilError_of_none {σ α ε : Type} (f : σ → α → σ) (xs : List α) (s : σ) :
    untilError (fun s x => (f s x, (none : Option ε))) xs s = (xs.foldl f s, none) := by
  induction xs generalizing s with
  | nil => rfl
  | cons x xs ih => exact ih (f s x)

/-- No line has a NUL, and no line but the last one fills the buffer of `UTILS_IO_GetLine`. -/
def ReadsLines (content : Text) : Prop :=
  ∀ pre line post, Filter.fileLines content = pre ++ line :: post →
    Filter.ReadsWhole (Filter.sizeAfter Filter.bufferSize pre) line post

theorem parseFile_eq {content : Text} (h : ReadsLines content) :
    parseFile content = some ((Filter.fileLines content).foldl processLine []) := by
  rw [parseFile, show content.length + 2 = content.length + 1 + 1 from rfl, Filter.parseLines_zero,
    Filter.parseLines_eq (by decide) (fun h => absurd h Bool.false_ne_true)
      (fun pre line post hlines _ => ⟨h pre line post hlines, rfl⟩) (Nat.lt_succ_self _), untilError_of_none]
  rfl

theorem regionIntervals_entries {content : Text} {entries : List SelectedRegion}
    (hentries : FileDenotes content entries) (h : ReadsLines content) :
    ∃ regions, parseFile content = some regions ∧ ∀ name, regionIntervals regions name =
      if ∃ entry ∈ entries, entry.regionName = name then some (insertAll [] (givenIntervals entries name))
      else none := by
  obtain ⟨options, hlines, rfl⟩ := hentries
  refine ⟨_, parseFile_eq h, fun name => ?_⟩
  rw [regionIntervals_lines hlines, foldl_record]
  rfl

end ScoreP.Selective
