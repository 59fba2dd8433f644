import Mathlib.Data.List.Flatten
import ScoreP.IoTools.PathLoops

/-!
# What `UTILS_IO_SimplifyPath` does to a path

The path is the text of a list of components. `stem` is what the first loop leaves of them, `Shortened`
says what they are after the first component was processed, and `simplifyPath_spec` puts the slashes
back.
-/

namespace ScoreP.IoTools

open Foundations Separated Option
open List hiding tail tail_cons tail_nil tail_append

variable {first name : Name} {names front ws : List Name} {s text junk : List Char}

/-! ## The components after the first loop -/

def IsPlain (name : Name) : Prop :=
  name ≠ [] ∧ name ≠ dot

instance (name : Name) : Decidable (IsPlain name) :=
  inferInstanceAs (Decidable (_ ∧ _))

def stem (names : List Name) : List Name :=
  names.filter fun name => decide (IsPlain name)

theorem mem_stem : name ∈ stem names ↔ name ∈ names ∧ IsPlain name := by
  unfold stem
  rw [mem_filter, decide_eq_true_iff]

theorem stem_cons (h : IsPlain name) : stem (name :: names) = name :: stem names :=
  filter_cons_of_pos (decide_eq_true h)

theorem stem_skip (h : ¬IsPlain name) : stem (name :: names) = stem names :=
  filter_cons_of_neg (by rw [decide_eq_true_iff]; exact h)

theorem keepWords_eq (h : ∀ name, names.getLast? = some name → name ≠ dot) : tail '/' (keepWords names) =
      tail '/' (stem names) ++ if names.getLast? = some [] then ['/'] else [] := by
  induction names with
  | nil => rfl
  | cons name names ih =>
    cases names with
    | nil =>
      rw [keepWords, List.getLast?_singleton]
      by_cases hnil : name = []
      · rw [stem_skip (fun hplain => hplain.1 hnil), hnil]
        rfl
      · rw [stem_cons ⟨hnil, h name rfl⟩, if_neg fun heq => hnil (some.inj heq), append_nil]
        rfl
    | cons next names =>
      rw [List.getLast?_cons_cons] at h ⊢
      rw [keepWords]
      by_cases hplain : IsPlain name
      · have hkeep : ¬(name = [] ∨ name = dot) := fun hor => hor.elim hplain.1 hplain.2
        rw [if_neg hkeep, stem_cons hplain, tail_cons, ih h, tail_cons, cons_append, append_assoc]
      · have hskip : name = [] ∨ name = dot := by
          by_contra hnot
          exact hplain (not_or.1 hnot)
        rw [if_pos hskip, stem_skip hplain, ih h]

theorem walk_stem (l : Location) : l.walk (stem names) = l.walk names := by
  induction names generalizing l with
  | nil => rfl
  | cons name names ih =>
    by_cases hplain : IsPlain name
    · rw [stem_cons hplain, Location.walk_cons, Location.walk_cons, ih]
    · rw [stem_skip hplain, Location.walk_cons, ih]
      have hstay : l.enter name = l := by
        by_contra hne
        exact hplain ⟨fun hnil => hne (by rw [hnil, Location.enter_nil]),
          fun hdot => hne (by rw [hdot, Location.enter_dot])⟩
      rw [hstay]

/-! ## A path that ends in a name -/

def nonempty (names : List Name) : List Name :=
  names.filter fun name => !name.isEmpty

theorem stem_eq : stem names = (nonempty names).filter fun name => decide (name ≠ dot) := by
  unfold stem nonempty
  rw [List.filter_filter]
  congr 1
  funext name
  rw [Bool.eq_iff_iff, Bool.and_eq_true, decide_eq_true_iff, decide_eq_true_iff, Bool.not_eq_true',
    isEmpty_eq_false_iff, and_comm]
  rfl

theorem getLast?_stem (h : ∀ name, (nonempty names).getLast? = some name → name ≠ dot) :
    (stem names).getLast? = (nonempty names).getLast? := by
  rw [stem_eq]
  cases hlast : (nonempty names).getLast? with
  | none =>
    rw [List.getLast?_eq_none_iff.1 hlast]
    rfl
  | some name =>
    obtain ⟨init, hinit⟩ := List.getLast?_eq_some_iff.1 hlast
    have hkeep : [name].filter (fun name => decide (name ≠ dot)) = [name] :=
      filter_cons_of_pos (decide_eq_true (h name hlast))
    rw [hinit, filter_append, hkeep]
    exact List.getLast?_concat

theorem nonempty_concat (h : name ≠ []) : nonempty (names ++ [name]) = nonempty names ++ [name] := by
  unfold nonempty
  rw [filter_append, filter_cons_of_pos]
  · rfl
  · rw [Bool.not_eq_true', isEmpty_eq_false_iff]
    exact h

/-- What `EndsInName` says about the components. -/
structure NameLast (first : Name) (names : List Name) : Prop where
  last : ∀ name, names.getLast? = some name → name ≠ dot
  stem : ∀ name, (stem names).getLast? = some name → name ≠ dots
  first : IoTools.stem names = [] → first ≠ dot ∧ first ≠ dots

theorem EndsInName.nameLast (h : EndsInName (first ++ tail '/' names)) (hfirst : '/' ∉ first)
    (hnames : ∀ name ∈ names, '/' ∉ name) : NameLast first names := by
  have hends : ∀ name, (nonempty (first :: names)).getLast? = some name → name ≠ dot ∧ name ≠ dots := by
    intro name hname
    refine h name ?_
    unfold components
    rw [splitOn_words hfirst hnames]
    exact hname
  have hrest : ∀ name, (nonempty names).getLast? = some name → name ≠ dot ∧ name ≠ dots := by
    intro name hname
    refine hends name ?_
    obtain ⟨init, hinit⟩ := List.getLast?_eq_some_iff.1 hname
    rw [show first :: names = [first] ++ names from rfl, nonempty, filter_append, ← nonempty, ← nonempty,
      hinit, ← append_assoc]
    exact List.getLast?_concat
  have hstem := getLast?_stem fun name hname => (hrest name hname).1
  refine ⟨fun name hname hdot => ?_, fun name hname => ?_, fun hnil => ?_⟩
  · obtain ⟨init, rfl⟩ := List.getLast?_eq_some_iff.1 hname
    refine (hrest name ?_).1 hdot
    rw [nonempty_concat (by rw [hdot]; decide)]
    exact List.getLast?_concat
  · rw [hstem] at hname
    exact (hrest name hname).2
  · rw [hnil, List.getLast?_nil, eq_comm, List.getLast?_eq_none_iff] at hstem
    by_cases hempty : first = []
    · rw [hempty]
      decide
    · refine hends first ?_
      have hfirst' : nonempty (first :: names) = first :: nonempty names :=
        filter_cons_of_pos (by rw [Bool.not_eq_true', isEmpty_eq_false_iff]; exact hempty)
      rw [hfirst', hstem]
      rfl

/-! ## The first component -/

def textOf : List Name → List Char
  | [] => []
  | name :: names => name ++ tail '/' names

def Cancelled.leading (c : Cancelled) (first : Name) : ℕ :=
  if first = dots then c.level + 1 else if first = dot then c.level else c.level - 1

def Cancelled.result (c : Cancelled) (first : Name) : List Name :=
  if first ≠ [] ∧ 0 < c.level then List.replicate (c.leading first) dots ++ c.kept
  else first :: (c.pending ++ c.kept)

def upsText (level : ℕ) : List Char :=
  (List.replicate level ['.', '.', '/']).flatten

theorem upsText_succ (level : ℕ) : upsText (level + 1) = '.' :: '.' :: '/' :: upsText level := by
  unfold upsText
  rw [replicate_succ, flatten_cons]
  rfl

theorem upsText_length (level : ℕ) : (upsText level).length = level * 3 := by
  induction level with
  | zero => rfl
  | succ level ih =>
    rw [upsText_succ, length_cons, length_cons, length_cons, ih]
    omega

theorem textOf_ups (level : ℕ) (name : Name) (names : List Name) :
    textOf (List.replicate level dots ++ name :: names) = upsText level ++ textOf (name :: names) := by
  induction level with
  | zero => rfl
  | succ level ih =>
    rw [upsText_succ, replicate_succ, cons_append, textOf]
    have hnext : tail '/' (List.replicate level dots ++ name :: names) =
        '/' :: textOf (List.replicate level dots ++ name :: names) := by
      cases level with
      | zero => rfl
      | succ level => rfl
    rw [hnext, ih]
    rfl

theorem writeUps_spec {as rest : List Char} {level pos : ℕ} (hpos : pos = as.length)
    (hroom : level * 3 ≤ rest.length) :
    writeUps level pos (as ++ rest) = some (as ++ upsText level ++ rest.drop (level * 3)) := by
  induction level generalizing as rest pos with
  | zero => simp [writeUps, upsText]
  | succ level ih =>
    match rest, hroom with
    | x :: y :: z :: rest, hroom =>
      have hx : write (as ++ x :: y :: z :: rest) pos '.' = some (as ++ '.' :: y :: z :: rest) :=
        write_append (by rw [hpos])
      have hy : write (as ++ '.' :: y :: z :: rest) (pos + 1 : ℕ) '.' = some (as ++ '.' :: '.' :: z :: rest) := by
        have hwrite := @write_append (as ++ ['.']) (z :: rest) ((pos + 1 : ℕ) : ℤ) '.' y (by rw [hpos]; simp)
        simpa using hwrite
      have hz : write (as ++ '.' :: '.' :: z :: rest) (pos + 2 : ℕ) '/' =
          some (as ++ ['.', '.', '/'] ++ rest) := by
        have hwrite := @write_append (as ++ ['.', '.']) rest ((pos + 2 : ℕ) : ℤ) '/' z (by rw [hpos]; simp)
        simpa using hwrite
      rw [writeUps, hx]
      simp only [bind_eq_bind, bind_some, hy, hz]
      rw [ih (by rw [hpos]; simp) (by simp at hroom; omega), upsText_succ, Nat.succ_mul]
      simp
    | [x, y], hroom => simp at hroom; omega
    | [x], hroom => simp at hroom; omega
    | [], hroom => simp at hroom

theorem firstLevel_eq (c : Cancelled) {rest : List Char} (hne : first ≠ []) (hslash : '/' ∉ first) :
    firstLevel (first ++ '/' :: rest) c.level = c.leading first := by
  unfold firstLevel Cancelled.leading
  match first with
  | [a] =>
    have hdots : [a] ≠ dots := fun h => by simp [dots] at h
    have hdot : [a] = dot ↔ a = '.' := by simp [dot]
    simp [hdots, hdot]
  | [a, b] =>
    have hb : b ≠ '/' := fun h => hslash (by rw [h]; simp)
    have hdots : [a, b] = dots ↔ a = '.' ∧ b = '.' := by simp [dots]
    have hdot : [a, b] ≠ dot := fun h => by simp [dot] at h
    simp [hdots, hdot, hb]
  | a :: b :: d :: first =>
    have hb : b ≠ '/' := fun h => hslash (by rw [h]; simp)
    have hd : d ≠ '/' := fun h => hslash (by rw [h]; simp)
    have hdots : a :: b :: d :: first ≠ dots := fun h => by simp [dots] at h
    have hdot : a :: b :: d :: first ≠ dot := fun h => by simp [dot] at h
    simp [hdots, hdot, hb, hd]

theorem leading_le {c : Cancelled} (hne : first ≠ []) (hroom : 3 * c.level ≤ (tail '/' c.pending).length) :
    c.leading first * 3 ≤ first.length + (tail '/' c.pending).length + 1 := by
  have hone := length_pos_of_ne_nil hne
  unfold Cancelled.leading
  split_ifs with hdots
  · rw [hdots]
    show (c.level + 1) * 3 ≤ 2 + _ + 1
    omega
  · omega
  · omega

theorem processFirst_spec {c : Cancelled} {n : ℕ} {scan : Scan} (h : Scanned first [] c n scan)
    (hslash : '/' ∉ first) (hpending : first = [] → 0 < c.level → c.pending ≠ [])
    (hkept : first ≠ [] → 0 < c.level → c.kept ≠ [])
    (hroom : first ≠ [] → 3 * c.level ≤ (tail '/' c.pending).length) : ∃ junk, processFirst scan =
        some (textOf (c.result first) ++ nul :: junk, ((textOf (c.result first)).length : ℤ)) ∧
      (textOf (c.result first)).length + 1 + junk.length = n := by
  obtain ⟨junk, hpath⟩ := h.path
  have hlen := h.len
  have hsize := h.size
  have hlevel := h.level
  rw [tail_nil, append_nil] at hpath hlen
  unfold processFirst
  by_cases hfirst : first ≠ [] ∧ 0 < c.level
  · obtain ⟨hne, hpos⟩ := hfirst
    obtain ⟨k, ks, hk⟩ := exists_cons_of_ne_nil (hkept hne hpos)
    have hcut := h.cutEnd hpos
    have hroom := hroom hne
    rw [tail_nil, append_nil] at hcut
    have hhead : scan.path[0]? ≠ some '/' := by
      rw [hpath]
      intro hread
      match first with
      | a :: first => exact hslash (by rw [show a = '/' from some.inj hread]; exact mem_cons_self)
    have hleading : firstLevel scan.path scan.level = c.leading first := by
      rw [hlevel, hpath]
      cases hpend : c.pending with
      | nil =>
        rw [hpend] at hroom
        rw [tail_nil, length_nil] at hroom
        omega
      | cons p ps =>
        rw [cons_append, tail_cons, cons_append]
        exact firstLevel_eq c hne hslash
    have hle := leading_le hne hroom
    have hresult : c.result first = List.replicate (c.leading first) dots ++ k :: ks := by
      unfold Cancelled.result
      rw [if_pos ⟨hne, hpos⟩, hk]
    have hsplit : scan.path = [] ++ ((first ++ tail '/' c.pending ++ ['/']) ++
        ((textOf (k :: ks) ++ [nul]) ++ junk)) := by
      rw [hpath, hk]
      simp [textOf]
    have hups := @writeUps_spec [] ((first ++ tail '/' c.pending ++ ['/']) ++
      ((textOf (k :: ks) ++ [nul]) ++ junk)) (c.leading first) 0 rfl (by simp; omega)
    have hdrop : ((first ++ tail '/' c.pending ++ ['/']) ++ ((textOf (k :: ks) ++ [nul]) ++ junk)).drop
        (c.leading first * 3) = (first ++ tail '/' c.pending ++ ['/']).drop (c.leading first * 3) ++
          ((textOf (k :: ks) ++ [nul]) ++ junk) :=
      drop_append_of_le_length (by simp; omega)
    have hlength : (scan.len : ℤ) - ((scan.cutEnd + 1 : ℕ) - (c.leading first * 3 : ℕ)) =
        (textOf (c.result first)).length := by
      rw [hresult, textOf_ups, length_append, upsText_length]
      rw [hk, tail_append, tail_cons] at hlen
      simp only [textOf, length_append, length_cons] at hlen ⊢
      omega
    obtain ⟨junk', hmove, hjunk⟩ := @memmove_cut (upsText (c.leading first))
      ((first ++ tail '/' c.pending ++ ['/']).drop (c.leading first * 3)) (textOf (k :: ks) ++ [nul]) junk
      (c.leading first * 3) (scan.cutEnd + 1)
      (((textOf (c.result first)).length : ℤ) - (c.leading first * 3 : ℕ) + 1)
      (upsText_length _).symm (by rw [upsText_length]; simp; omega)
      (by rw [hresult, textOf_ups, length_append, upsText_length]; simp)
    have hwritten : writeUps (c.leading first) 0 scan.path =
        some (upsText (c.leading first) ++ (first ++ tail '/' c.pending ++ ['/']).drop (c.leading first * 3) ++
          (textOf (k :: ks) ++ [nul]) ++ junk) := by
      rw [hsplit, hups, hdrop]
      simp
    refine ⟨junk', ?_, ?_⟩
    · rw [if_pos ⟨hhead, by omega⟩, hleading]
      simp only [hwritten, hlength, hmove, bind_eq_bind, bind_some,
        if_neg (Int.not_lt.2 (Int.natCast_nonneg _))]
      rw [hresult, textOf_ups]
      simp
    · rw [← hsize, hsplit, hresult, textOf_ups]
      simp only [length_append, length_drop, nil_append, length_singleton,
        upsText_length] at hjunk ⊢
      omega
  · have hstay : ¬(scan.path[0]? ≠ some '/' ∧ 0 < scan.level) := by
      rintro ⟨hhead, hpos⟩
      rw [hlevel] at hpos
      have hnil : first = [] := by
        by_contra hne
        exact hfirst ⟨hne, hpos⟩
      obtain ⟨p, ps, hp⟩ := exists_cons_of_ne_nil (hpending hnil hpos)
      rw [hpath, hnil, hp] at hhead
      exact hhead rfl
    have hresult : c.result first = first :: (c.pending ++ c.kept) := if_neg hfirst
    rw [if_neg hstay, hresult]
    refine ⟨junk, ?_, ?_⟩
    · rw [hpath, hlen, textOf]
      simp
    · rw [← hsize, hpath]
      simp [textOf]
      omega

/-! ## What the components become -/

def cancelled (first : Name) (ys : List Name) : Cancelled :=
  cancel (decide (first = [])) ys.reverse ⟨0, [], []⟩

section Result

variable {ys : List Name} {l : Location}

theorem cancelled_relative (hne : first ≠ []) : cancelled first ys = cancel false ys.reverse ⟨0, [], []⟩ := by
  unfold cancelled
  rw [decide_eq_false hne]

theorem ordinary_reverse (hys : ∀ name ∈ ys, Ordinary name) : ∀ name ∈ ys.reverse, Ordinary name :=
  fun name hname => hys name (mem_reverse.1 hname)

theorem cancelled_sound (hne : first ≠ []) (hys : ∀ name ∈ ys, Ordinary name) : (cancelled first ys).Sound := by
  rw [cancelled_relative hne]
  exact (cancel_sound (ordinary_reverse hys) (sound_nil [])).1

theorem cancelled_kept_ne (hlast : ∀ name, ys.getLast? = some name → name ≠ dots) (hne : ys ≠ []) :
    (cancelled first ys).kept ≠ [] := by
  obtain ⟨name, hname⟩ := ne_none_iff_exists'.1 (mt List.getLast?_eq_none_iff.1 hne)
  obtain ⟨init, rfl⟩ := List.getLast?_eq_some_iff.1 hname
  unfold cancelled
  rw [reverse_concat, cancel, if_neg fun hup => hlast name hname hup.1]
  exact cancel_kept_ne (cons_ne_nil _ _)

theorem cancelled_pending_ne (hpos : 0 < (cancelled first ys).level) : (cancelled first ys).pending ≠ [] :=
  cancel_pending_ne (fun hpos => absurd hpos (Nat.lt_irrefl 0)) hpos

theorem cancelled_length : (tail '/' (cancelled first ys).pending).length +
    (tail '/' (cancelled first ys).kept).length ≤ (tail '/' ys).length := by
  have hlength := @cancel_length ys.reverse ⟨0, [], []⟩ (decide (first = []))
  rw [reverse_reverse, tail_append, length_append] at hlength
  exact hlength

theorem walk_result (hys : ∀ name ∈ ys, Ordinary name) (hfirst : first ≠ [] ∨ l.up = l) :
    l.walk ((cancelled first ys).result first) = l.walk (first :: ys) := by
  unfold Cancelled.result
  by_cases hnil : first = []
  · have hroot : l.up = l := hfirst.resolve_left fun hne => hne hnil
    have hwalk := cancel_root hroot (ordinary_reverse hys) (sound_nil [])
    rw [reverse_reverse, append_nil, append_nil] at hwalk
    rw [if_neg fun hand => hand.1 hnil, hnil, Location.walk_cons, Location.walk_cons, Location.enter_nil]
    exact hwalk
  · have hsound := cancelled_sound hnil hys
    have hwalk := (cancel_sound (ordinary_reverse hys) (sound_nil [])).2 (l.enter first)
    rw [← cancelled_relative hnil, reverse_reverse, append_nil, append_nil] at hwalk
    by_cases hpos : 0 < (cancelled first ys).level
    · rw [if_pos ⟨hnil, hpos⟩, Location.walk_cons, ← hwalk, Location.walk_append, Location.walk_append,
        hsound.pending, Location.walk_replicate]
      congr 1
      unfold Cancelled.leading
      split_ifs with hdots hdot
      · rw [hdots, Location.enter_dots, Function.iterate_succ_apply]
      · rw [hdot, Location.enter_dot]
      · obtain ⟨level, hlevel⟩ := Nat.exists_eq_succ_of_ne_zero (Nat.ne_of_gt hpos)
        rw [hlevel, Function.iterate_succ_apply, Location.up_enter hnil hdot hdots]
        rfl
    · rw [if_neg fun hand => hpos hand.2, Location.walk_cons, Location.walk_cons]
      exact hwalk

theorem mem_cancelled (h : name ∈ (cancelled first ys).pending ++ (cancelled first ys).kept) : name ∈ ys := by
  rcases cancel_mem name h with h | h
  · exact mem_reverse.1 h
  · exact (not_mem_nil h).elim

theorem exists_result (hys : ∀ name ∈ ys, Ordinary name)
    (hlast : ∀ name, ys.getLast? = some name → name ≠ dots) : ∃ w ws,
    (cancelled first ys).result first = w :: ws ∧ (w = [] ↔ first = []) ∧
      (w = first ∨ w = dots ∨ w ∈ ys) ∧ ∀ name ∈ ws, name = dots ∨ name ∈ ys := by
  unfold Cancelled.result
  by_cases hcut : first ≠ [] ∧ 0 < (cancelled first ys).level
  · obtain ⟨hne, hpos⟩ := hcut
    have hkept : ∀ name ∈ (cancelled first ys).kept, name ∈ ys := fun name hname =>
      mem_cancelled (mem_append_right _ hname)
    rw [if_pos ⟨hne, hpos⟩]
    cases (cancelled first ys).leading first with
    | zero =>
      have hnil : ys ≠ [] := by
        rintro rfl
        exact absurd hpos (Nat.lt_irrefl 0)
      obtain ⟨k, ks, hk⟩ := exists_cons_of_ne_nil (@cancelled_kept_ne first ys hlast hnil)
      rw [hk] at hkept ⊢
      have hmem := hkept k mem_cons_self
      refine ⟨k, ks, rfl, ?_, .inr (.inr hmem), fun name hname => ?_⟩
      · exact iff_of_false (hys k hmem).nonempty hne
      · exact .inr (hkept name (mem_cons_of_mem k hname))
    | succ level =>
      refine ⟨dots, List.replicate level dots ++ (cancelled first ys).kept, rfl, ?_, .inr (.inl rfl),
        fun name hname => ?_⟩
      · exact iff_of_false (by decide) hne
      · rcases mem_append.1 hname with hname | hname
        · exact .inl (eq_of_mem_replicate hname)
        · exact .inr (hkept name hname)
  · rw [if_neg hcut]
    exact ⟨first, _, rfl, Iff.rfl, .inl rfl, fun name hname => .inr (mem_cancelled hname)⟩

theorem result_length (hys : ∀ name ∈ ys, Ordinary name)
    (hlast : ∀ name, ys.getLast? = some name → name ≠ dots) :
    (textOf ((cancelled first ys).result first)).length ≤ (first ++ tail '/' ys).length ∧
      ∀ w, (cancelled first ys).result first = [w] → ys ≠ [] →
        w.length + 2 ≤ (first ++ tail '/' ys).length := by
  have hlength := @cancelled_length first ys
  rw [length_append]
  unfold Cancelled.result
  by_cases hcut : first ≠ [] ∧ 0 < (cancelled first ys).level
  · obtain ⟨hne, hpos⟩ := hcut
    have hroom := (cancelled_sound hne hys).length
    have hle := leading_le hne hroom
    have hnil : ys ≠ [] := by
      rintro rfl
      exact absurd hpos (Nat.lt_irrefl 0)
    obtain ⟨k, ks, hk⟩ := exists_cons_of_ne_nil (@cancelled_kept_ne first ys hlast hnil)
    rw [hk, tail_cons, length_cons] at hlength
    rw [if_pos ⟨hne, hpos⟩, hk, textOf_ups, length_append, upsText_length, textOf]
    refine ⟨by omega, fun w hw _ => ?_⟩
    have hone : k = w := by
      cases hleading : (cancelled first ys).leading first with
      | zero =>
        rw [hleading] at hw
        exact head_eq_of_cons_eq hw
      | succ level =>
        rw [hleading] at hw
        simp [replicate_succ] at hw
    rw [← hone]
    rw [length_append] at hlength
    omega
  · rw [if_neg hcut]
    refine ⟨?_, fun w hw hnil => ?_⟩
    · rw [textOf, length_append, tail_append, length_append]
      omega
    · have hkept := @cancelled_kept_ne first ys hlast hnil
      have hempty := (append_eq_nil_iff.1 (List.cons.inj hw).2).2
      exact absurd hempty hkept

theorem ups_le_walk_replicate (level : ℕ) (cs : List Name) :
    level ≤ (Location.walk ⟨false, 0, []⟩ (List.replicate level dots ++ cs)).ups := by
  rw [Location.walk_append, Location.walk_replicate, Location.ups_iterate rfl rfl, Nat.zero_add]
  exact @Location.ups_le_walk ⟨false, level, []⟩ cs

theorem cancelled_absolute (hups : (Location.walk ⟨false, 0, []⟩ ys).ups = 0) :
    cancelled [] ys = cancel false ys.reverse ⟨0, [], []⟩ := by
  refine cancel_absolute ?_
  rw [List.getLast?_reverse]
  intro hhead
  obtain ⟨rest, rfl⟩ := List.head?_eq_some_iff.1 hhead
  have hle := ups_le_walk_replicate 1 rest
  rw [replicate_one, singleton_append, hups] at hle
  exact absurd hle (by decide)

theorem result_dots (hys : ∀ name ∈ ys, Ordinary name)
    (hups : (Location.walk ⟨false, 0, []⟩ (first :: ys)).ups = 0) :
    dots ∉ (cancelled first ys).result first := by
  have hfirst : dots ≠ first := by
    rintro rfl
    have hle := ups_le_walk_replicate 1 ys
    rw [replicate_one, singleton_append, hups] at hle
    exact absurd hle (by decide)
  have hrelative : cancelled first ys = cancel false ys.reverse ⟨0, [], []⟩ := by
    by_cases hnil : first = []
    · rw [hnil] at hups ⊢
      exact cancelled_absolute hups
    · exact cancelled_relative hnil
  have hkept : dots ∉ (cancelled first ys).kept := by
    obtain ⟨names, hkept, hnames⟩ := @cancel_kept ys.reverse ⟨0, [], []⟩
    rw [hrelative, hkept, append_nil]
    exact fun hmem => (hnames dots hmem).2 rfl
  obtain ⟨hsound, hwalk⟩ := cancel_sound (ordinary_reverse hys) (sound_nil [])
  rw [← hrelative] at hsound hwalk
  by_cases hcut : first ≠ [] ∧ 0 < (cancelled first ys).level
  · have hresult := @walk_result first ys ⟨false, 0, []⟩ hys (.inl hcut.1)
    unfold Cancelled.result at hresult ⊢
    rw [if_pos hcut] at hresult ⊢
    have hle := ups_le_walk_replicate ((cancelled first ys).leading first) (cancelled first ys).kept
    rw [hresult, hups, Nat.le_zero] at hle
    rw [hle]
    exact hkept
  · have hzero : (cancelled first ys).level = 0 := by
      by_cases hnil : first = []
      · have hle := ups_le_walk_replicate (cancelled first ys).level (cancelled first ys).kept
        rw [Location.walk_append, Location.walk_replicate, ← hsound.pending, ← Location.walk_append, hwalk,
          reverse_reverse, append_nil, append_nil] at hle
        rw [hnil] at hups hle ⊢
        rw [Location.walk_cons, Location.enter_nil] at hups
        omega
      · exact Nat.eq_zero_of_not_pos fun hpos => hcut ⟨hnil, hpos⟩
    unfold Cancelled.result
    rw [if_neg hcut, hsound.nil hzero, nil_append, mem_cons, not_or]
    exact ⟨hfirst, hkept⟩

end Result

/-! ## The loops together -/

theorem last_char (hslash : '/' ∉ first) {ys : List Name} (hys : ∀ name ∈ ys, Ordinary name) {junk : List Char}
    {len : ℕ} (hlen : len = (first ++ tail '/' ys).length) (hpos : 0 < len) :
    (first ++ tail '/' ys ++ junk)[len - 1]? ≠ some '/' := by
  have hword : ∀ {as name : List Char}, name ≠ [] → '/' ∉ name →
      (as ++ name)[(as ++ name).length - 1]? ≠ some '/' := by
    intro as name hne hname hread
    have hone := length_pos_of_ne_nil hne
    rw [length_append, show as.length + name.length - 1 = as.length + (name.length - 1) by omega,
      read_behind] at hread
    exact hname (mem_of_getElem? hread)
  rw [hlen, List.getElem?_append_left (by omega)]
  rcases eq_nil_or_concat ys with rfl | ⟨init, name, rfl⟩
  · rw [tail_nil, append_nil] at hlen ⊢
    exact @hword [] first (ne_nil_of_length_pos (by omega)) hslash
  · rw [concat_eq_append] at hys ⊢
    have hname := hys name (mem_append_right _ (mem_singleton_self name))
    have hsplit : first ++ tail '/' (init ++ [name]) = first ++ tail '/' init ++ ['/'] ++ name := by
      rw [tail_concat, append_assoc (first ++ tail '/' init)]
      rfl
    rw [hsplit]
    exact hword hname.nonempty hname.slash

theorem terminate_spec (hslash : '/' ∉ first) {ys : List Name} (hys : ∀ name ∈ ys, Ordinary name)
    {junk : List Char} {trailing : Bool} {len : ℕ} (hjunk : junk ≠ [])
    (hlen : len = (first ++ tail '/' ys ++ if trailing then ['/'] else []).length) : ∃ junk',
    (first ++ tail '/' ys ++ (if trailing then ['/'] else [])).length + junk.length =
      (first ++ tail '/' ys).length + 1 + junk'.length ∧ (decide (0 < len) &&
      (first ++ tail '/' ys ++ (if trailing then ['/'] else []) ++ junk)[len - 1]? == some '/') = trailing ∧
    (if trailing then len - 1 else len) = (first ++ tail '/' ys).length ∧
    write (first ++ tail '/' ys ++ (if trailing then ['/'] else []) ++ junk) (first ++ tail '/' ys).length nul =
      some (first ++ tail '/' ys ++ nul :: junk') := by
  cases trailing with
  | true =>
    rw [if_pos rfl] at hlen
    simp only [if_true]
    rw [length_append, length_singleton] at hlen
    refine ⟨junk, ?_, ?_, by omega, ?_⟩
    · rw [length_append, length_singleton]
    · have hread : (first ++ tail '/' ys ++ ['/'] ++ junk)[len - 1]? = some '/' := by
        rw [hlen, Nat.add_sub_cancel, append_assoc (first ++ tail '/' ys)]
        exact read_behind _ _ 0
      rw [hread, Bool.and_eq_true, decide_eq_true_iff]
      exact ⟨by omega, rfl⟩
    · rw [append_assoc (first ++ tail '/' ys)]
      exact write_append rfl
  | false =>
    rw [if_neg Bool.false_ne_true, append_nil] at hlen
    simp only [Bool.false_eq_true, if_false, append_nil]
    obtain ⟨j, junk', rfl⟩ := exists_cons_of_ne_nil hjunk
    refine ⟨junk', ?_, ?_, hlen, write_append rfl⟩
    · rw [length_cons]
      omega
    · by_cases hpos : 0 < len
      · rw [beq_eq_false_iff_ne.2 (last_char hslash hys hlen hpos), Bool.and_false]
      · rw [decide_eq_false hpos, Bool.false_and]

theorem stem_ordinary (hnames : ∀ name ∈ names, '/' ∉ name) : ∀ name ∈ stem names, Ordinary name := by
  intro name hname
  obtain ⟨hmem, hnil, hdot⟩ := mem_stem.1 hname
  exact ⟨hnil, hdot, hnames name hmem⟩

theorem notMem_path (hslash : nul ∉ first) (hnames : ∀ name ∈ names, nul ∉ name) :
    nul ∉ first ++ tail '/' names := by
  rw [mem_append, mem_tail]
  rintro (h | ⟨-, h⟩ | ⟨name, hname, h⟩)
  · exact hslash h
  · exact absurd h (by decide)
  · exact hnames name hname h

theorem simplifyPath_loops (hfirst : '/' ∉ first ∧ nul ∉ first)
    (hnames : ∀ name ∈ names, '/' ∉ name ∧ nul ∉ name) (hname : NameLast first names)
    {base : List Char} (hbase : base = textOf ((cancelled first (stem names)).result first))
    {trailing : Bool} (htrailing : trailing = decide (names.getLast? = some [])) : ∃ junk,
    base.length + 1 + junk.length = (first ++ tail '/' names).length + 1 ∧ (trailing = true → junk ≠ []) ∧
    simplifyPath (first ++ tail '/' names ++ [nul]) = (do
      let path ← if trailing then addTrailingSlash (base ++ nul :: junk) base.length
        else some (base ++ nul :: junk)
      let path ← if (first ++ tail '/' names ++ [nul])[0]? == some '/' && path[0]? == some nul then
        addTrailingSlash path 0 else some path
      if decide ('/' ∈ first ++ tail '/' names) && !hasPath path && path[0]? != some nul then do
        let path ← memmove path 2 0 (base.length + 1)
        let path ← write path 0 '.'
        write path 1 '/'
      else some path) := by
  have hys := stem_ordinary fun name hname => (hnames name hname).1
  have hnul : nul ∉ first ++ tail '/' names := notMem_path hfirst.2 fun name hname => (hnames name hname).2
  obtain ⟨junk, level, hsqueeze, hlength, hjunk⟩ := @squeeze_spec (first ++ tail '/' names) hnul [] []
    (first ++ tail '/' names ++ [nul]).length 0 0 false rfl rfl (by simp)
  have hcompress : compress (first ++ tail '/' names) =
      first ++ tail '/' (stem names) ++ if trailing then ['/'] else [] := by
    rw [compress_words hfirst.1 fun name hname => (hnames name hname).1, keepWords_eq hname.last, htrailing,
      append_assoc]
    simp
  rw [hcompress, length_nil, Nat.zero_add, Nat.zero_add] at hlength
  rw [hcompress, Nat.zero_add, Bool.false_or] at hsqueeze
  simp only [nil_append] at hsqueeze
  obtain ⟨junk', hlength', htrail, hlen, hwrite⟩ := @terminate_spec first hfirst.1 (stem names) hys junk
    trailing ((first ++ tail '/' names).length - level) (ne_nil_of_length_pos (by omega)) (by omega)
  obtain ⟨scan, hscan, hscanned⟩ := @removeUps_spec first ⟨0, [], []⟩
    (first ++ tail '/' (stem names) ++ nul :: junk').length (first ++ tail '/' (stem names)).length
    ⟨first ++ tail '/' (stem names) ++ nul :: junk', (first ++ tail '/' (stem names)).length, 0,
      (first ++ tail '/' (stem names)).length⟩ (stem names).reverse hfirst
    (fun name hname => hnames name (mem_stem.1 (mem_reverse.1 hname)).1)
    ⟨⟨junk', by rw [reverse_reverse]; rfl⟩, rfl, by rw [reverse_reverse]; rfl, rfl,
      fun hpos => absurd hpos (Nat.lt_irrefl 0)⟩ (fun _ => rfl) (by rw [reverse_reverse])
  rw [reverse_reverse] at hscan
  obtain ⟨junk₂, hprocess, hsize⟩ := processFirst_spec hscanned hfirst.1 (fun _ => cancelled_pending_ne)
    (fun _ hpos => cancelled_kept_ne hname.stem fun hnil => by
      rw [hnil] at hpos
      exact absurd hpos (Nat.lt_irrefl 0))
    (fun hne => (cancelled_sound hne hys).length)
  have hle := (@result_length first (stem names) hys hname.stem).1
  change _ = some (textOf ((cancelled first (stem names)).result first) ++ nul :: junk₂,
    ((textOf ((cancelled first (stem names)).result first)).length : ℤ)) at hprocess
  change (textOf ((cancelled first (stem names)).result first)).length + 1 + junk₂.length = _ at hsize
  rw [← hbase] at hprocess hsize hle
  rw [length_append, length_cons] at hsize
  have hsum : base.length + 1 + junk₂.length = (first ++ tail '/' names).length + 1 := by omega
  refine ⟨junk₂, hsum, fun htrue => ?_, ?_⟩
  · rw [htrue, if_pos rfl, length_append, length_singleton] at hlength
    exact ne_nil_of_length_pos (by omega)
  · unfold simplifyPath
    rw [hsqueeze]
    simp only [bind_eq_bind, bind_some, htrail, hlen, hwrite, hscan, hprocess]

section Ends

variable {base r : List Char} {w : Name} {rs : List Name}

theorem addTrailingSlash_spec {j : Char} {i : ℤ} (hi : i = base.length) :
    addTrailingSlash (base ++ nul :: j :: junk) i = some (base ++ ['/'] ++ nul :: junk) := by
  have hslash : write (base ++ nul :: j :: junk) i '/' = some (base ++ '/' :: j :: junk) := write_append hi
  have hend := @write_append (base ++ ['/']) junk (i + 1) nul j (by rw [hi]; simp)
  rw [append_assoc] at hend
  unfold addTrailingSlash
  rw [hslash]
  exact hend

theorem takeWhile_text (hnul : nul ∉ base) : (base ++ nul :: junk).takeWhile (· ≠ nul) = base := by
  have hall : ∀ c ∈ base, decide (c ≠ nul) = true := by
    intro c hc
    rw [decide_eq_true_iff]
    rintro rfl
    exact hnul hc
  rw [takeWhile_append_of_pos hall, takeWhile_cons_of_neg (by simp), append_nil]

theorem hasPath_text (hnul : nul ∉ base) : hasPath (base ++ nul :: junk) = decide ('/' ∈ base) := by
  unfold hasPath
  rw [takeWhile_text hnul, contains_eq_mem]

theorem head_text (hnul : nul ∉ base) : (base ++ nul :: junk)[0]? = some nul ↔ base = [] := by
  cases base with
  | nil => exact iff_of_true rfl rfl
  | cons c base =>
    refine iff_of_false (fun hc => hnul ?_) (cons_ne_nil _ _)
    rw [show c = nul from some.inj hc]
    exact mem_cons_self

theorem prepend_spec {c d : Char} (hroom : 2 ≤ junk.length) : ∃ junk',
    (do let path ← memmove (base ++ nul :: junk) 2 0 (base.length + 1)
        let path ← write path 0 c
        write path 1 d) = some (c :: d :: base ++ nul :: junk') ∧ junk'.length + 2 = junk.length := by
  have hmoved : (base ++ nul :: junk).take (base.length + 1) = base ++ [nul] := by
    rw [show base ++ nul :: junk = base ++ [nul] ++ junk by simp]
    exact take_left' (by simp)
  have hrest : (base ++ nul :: junk).drop (2 + (base.length + 1)) = junk.drop 2 := by
    rw [show 2 + (base.length + 1) = (base ++ [nul]).length + 2 by simp; omega,
      show base ++ nul :: junk = base ++ [nul] ++ junk by simp, drop_append,
      drop_of_length_le (Nat.le_add_right _ _), Nat.add_sub_cancel_left, nil_append]
  have hlength : ((base ++ nul :: junk).take 2).length = 2 := by
    rw [length_take, length_append, length_cons]
    omega
  obtain ⟨x, y, htwo⟩ := length_eq_two.1 hlength
  have hmove : memmove (base ++ nul :: junk) 2 0 (base.length + 1) =
      some (x :: y :: base ++ nul :: junk.drop 2) := by
    unfold memmove
    rw [if_pos (by rw [length_append, length_cons]; omega),
      show ((base.length : ℤ) + 1).toNat = base.length + 1 by omega, drop_zero, hmoved, hrest, htwo]
    simp
  have hfirst : write (x :: y :: base ++ nul :: junk.drop 2) 0 c =
      some (c :: y :: base ++ nul :: junk.drop 2) := @write_append [] _ 0 c x rfl
  have hsecond : write (c :: y :: base ++ nul :: junk.drop 2) 1 d =
      some (c :: d :: base ++ nul :: junk.drop 2) := @write_append [c] _ 1 d y rfl
  refine ⟨junk.drop 2, ?_, ?_⟩
  · rw [hmove]
    simp only [bind_eq_bind, bind_some, hfirst, hsecond]
  · rw [length_drop]
    omega

/-- What the end of the code does to the text `base`. -/
inductive Ending (s base : List Char) : List Char → Prop
  | trailing : Ending s base (base ++ ['/'])
  | unchanged (h : '/' ∈ s → '/' ∈ base) : Ending s base base
  | prefixed (hne : base ≠ []) (h : '/' ∉ base) : Ending s base ('.' :: '/' :: base)

theorem stem_ne_nil (hname : NameLast first names) (hne : names ≠ []) (hlast : names.getLast? ≠ some []) :
    stem names ≠ [] := by
  obtain ⟨name, hget⟩ := ne_none_iff_exists'.1 (mt List.getLast?_eq_none_iff.1 hne)
  have hplain : IsPlain name := ⟨fun hnil => hlast (hget.trans (congrArg some hnil)), hname.last name hget⟩
  exact ne_nil_of_mem (mem_stem.2 ⟨mem_of_getLast? hget, hplain⟩)

theorem stem_length : (tail '/' (stem names)).length ≤ (tail '/' names).length :=
  (filter_sublist.flatMap _).length_le

theorem simplifyPath_ending (hfirst : '/' ∉ first ∧ nul ∉ first)
    (hnames : ∀ name ∈ names, '/' ∉ name ∧ nul ∉ name) (hname : NameLast first names)
    (hbase : base = textOf ((cancelled first (stem names)).result first)) (hnul : nul ∉ base)
    (hstart : names.getLast? ≠ some [] → base ≠ [])
    (hroom : '/' ∈ first ++ tail '/' names → '/' ∉ base → names.getLast? ≠ some [] →
      base.length + 2 ≤ (first ++ tail '/' names).length) : ∃ r junk,
    simplifyPath (first ++ tail '/' names ++ [nul]) = some (r ++ nul :: junk) ∧
      r.length + junk.length = (first ++ tail '/' names).length ∧ Ending (first ++ tail '/' names) base r := by
  obtain ⟨junk, hsize, hjunk, hrun⟩ := simplifyPath_loops hfirst hnames hname hbase rfl
  rw [hrun]
  by_cases htrailing : names.getLast? = some []
  · rw [decide_eq_true htrailing] at hjunk ⊢
    obtain ⟨j, junk, rfl⟩ := exists_cons_of_ne_nil (hjunk rfl)
    have hnul' : nul ∉ base ++ ['/'] := by
      rw [mem_append, not_or]
      exact ⟨hnul, by decide⟩
    have hhead : ((base ++ ['/'] ++ nul :: junk)[0]? == some nul) = false := by
      rw [beq_eq_false_iff_ne, ne_eq, head_text hnul']
      exact append_ne_nil_of_right_ne_nil _ (cons_ne_nil _ _)
    have hpath : hasPath (base ++ ['/'] ++ nul :: junk) = true := by
      rw [hasPath_text hnul', decide_eq_true_iff]
      exact mem_append_right _ (mem_singleton_self _)
    refine ⟨base ++ ['/'], junk, ?_, ?_, .trailing⟩
    · rw [if_pos rfl, addTrailingSlash_spec rfl]
      simp only [bind_eq_bind, bind_some, hhead, hpath, Bool.and_false, Bool.false_eq_true,
        if_false, Bool.not_true, Bool.false_and]
    · rw [length_cons] at hsize
      rw [length_append, length_singleton]
      omega
  · have hne' := hstart htrailing
    have hhead : ((base ++ nul :: junk)[0]? == some nul) = false := by
      rw [beq_eq_false_iff_ne, ne_eq, head_text hnul]
      exact hne'
    rw [decide_eq_false htrailing]
    simp only [Bool.false_eq_true, if_false, bind_eq_bind, bind_some, hhead, Bool.and_false,
      hasPath_text hnul, bne, Bool.not_false, Bool.and_true]
    by_cases hlost : '/' ∈ first ++ tail '/' names ∧ '/' ∉ base
    · have hfits := hroom hlost.1 hlost.2 htrailing
      obtain ⟨junk', hprepend, hjunk'⟩ := @prepend_spec junk base '.' '/' (by omega)
      rw [decide_eq_true hlost.1, decide_eq_false hlost.2]
      refine ⟨'.' :: '/' :: base, junk', hprepend, ?_, .prefixed hne' hlost.2⟩
      rw [length_cons, length_cons]
      omega
    · have hstay : (decide ('/' ∈ first ++ tail '/' names) && !decide ('/' ∈ base)) = false := by
        rw [Bool.and_eq_false_iff, decide_eq_false_iff_not, Bool.not_eq_false', decide_eq_true_iff]
        tauto
      rw [hstay]
      refine ⟨base, junk, rfl, by omega, .unchanged fun hs => ?_⟩
      by_contra hnot
      exact hlost ⟨hs, hnot⟩

end Ends

section Whole

variable {w : Name} {rs : List Name}

structure Tidy (s r : List Char) : Prop where
  terminated : nul ∉ r
  location : location r = IoTools.location s
  middle : ∀ name ∈ (components r).tail.dropLast, name ≠ [] ∧ name ≠ dot
  dots : ¬Climbs s → dots ∉ components r
  slash : '/' ∈ s → '/' ∈ r

theorem tidy_of_components {s : List Char} (hs : components s = first :: names)
    (hw : '/' ∉ w ∧ nul ∉ w) (hws : ∀ name ∈ ws, '/' ∉ name ∧ nul ∉ name)
    (hplain : ∀ name ∈ ws.dropLast, name ≠ [] ∧ name ≠ dot)
    (habsolute : (textOf (w :: ws)).head? = some '/' ↔ s.head? = some '/')
    (hwalk : ∀ l : Location, (s.head? = some '/' → l.up = l) → l.walk (w :: ws) = l.walk (first :: names))
    (hdots : (Location.walk ⟨false, 0, []⟩ (first :: names)).ups = 0 → dots ∉ w :: ws)
    (hslash : '/' ∈ s → '/' ∈ textOf (w :: ws)) : Tidy s (textOf (w :: ws)) := by
  have hcomponents : components (textOf (w :: ws)) = w :: ws :=
    splitOn_words hw.1 fun name hname => (hws name hname).1
  refine ⟨notMem_path hw.2 fun name hname => (hws name hname).2, ?_, ?_, fun hclimbs => ?_, hslash⟩
  · have hbool : ((textOf (w :: ws)).head? == some '/') = (s.head? == some '/') := by
      rw [Bool.eq_iff_iff, beq_iff_eq, beq_iff_eq, habsolute]
    unfold location
    rw [hcomponents, hs, hbool]
    refine hwalk _ fun hhead => ?_
    rw [hhead]
    rfl
  · rw [hcomponents]
    exact hplain
  · rw [hcomponents]
    refine hdots (Nat.eq_zero_of_not_pos fun hpos => hclimbs ?_)
    unfold Climbs
    rw [hs]
    exact hpos

theorem head_words (hfirst : '/' ∉ first) (hne : first ++ tail '/' names ≠ []) :
    (first ++ tail '/' names).head? = some '/' ↔ first = [] := by
  cases first with
  | nil =>
    refine iff_of_true ?_ rfl
    cases names with
    | nil => exact absurd rfl hne
    | cons name names => rfl
  | cons c first =>
    refine iff_of_false (fun hc => hfirst ?_) (cons_ne_nil _ _)
    rw [show c = '/' from some.inj hc]
    exact mem_cons_self

theorem slash_mem_words (hfirst : '/' ∉ first) : '/' ∈ first ++ tail '/' names → names ≠ [] := by
  rintro hmem rfl
  rw [tail_nil, append_nil] at hmem
  exact hfirst hmem

theorem Ending.tidy {s r : List Char} (h : Ending s (textOf (w :: ws)) r) (hs : s = first ++ tail '/' names)
    (hne : s ≠ []) (hfirst : '/' ∉ first) (hnames : ∀ name ∈ names, '/' ∉ name)
    (hw : '/' ∉ w ∧ nul ∉ w) (hws : ∀ name ∈ ws, Ordinary name ∧ nul ∉ name) (hnil : w = [] ↔ first = [])
    (hwalk : ∀ l : Location, (s.head? = some '/' → l.up = l) → l.walk (w :: ws) = l.walk (first :: names))
    (hdots : (Location.walk ⟨false, 0, []⟩ (first :: names)).ups = 0 → dots ∉ w :: ws) : Tidy s r := by
  have hcomponents : components s = first :: names := by
    rw [hs]
    exact splitOn_words hfirst hnames
  have hhead : s.head? = some '/' ↔ first = [] := by
    rw [hs] at hne ⊢
    exact head_words hfirst hne
  have hplain : ∀ name ∈ ws, name ≠ [] ∧ name ≠ dot := fun name hname =>
    ⟨(hws name hname).1.nonempty, (hws name hname).1.ne_dot⟩
  have hchars : ∀ name ∈ ws, '/' ∉ name ∧ nul ∉ name := fun name hname =>
    ⟨(hws name hname).1.slash, (hws name hname).2⟩
  cases h with
  | trailing =>
    have htext : textOf (w :: ws) ++ ['/'] = textOf (w :: (ws ++ [[]])) := by
      simp [textOf]
    rw [htext]
    refine tidy_of_components hcomponents hw ?_ ?_ ?_ ?_ ?_ ?_
    · intro name hname
      rcases mem_append.1 hname with hname | hname
      · exact hchars name hname
      · rw [mem_singleton.1 hname]
        exact ⟨not_mem_nil, not_mem_nil⟩
    · rw [dropLast_concat]
      exact hplain
    · rw [textOf, head_words hw.1 (by simp), hhead, hnil]
    · intro l hl
      rw [← cons_append, Location.walk_append, hwalk l hl, Location.walk_cons, Location.enter_nil,
        Location.walk_nil]
    · intro hups
      rw [← cons_append, mem_append, not_or]
      exact ⟨hdots hups, by decide⟩
    · intro _
      rw [← htext]
      exact mem_append_right _ (mem_singleton_self _)
  | unchanged hslash =>
    refine tidy_of_components hcomponents hw hchars ?_ ?_ hwalk hdots hslash
    · exact fun name hname => hplain name (mem_of_mem_dropLast hname)
    · by_cases hempty : first = []
      · have hmem := hslash (mem_of_head? (hhead.2 hempty))
        rw [hhead, textOf, head_words hw.1 (ne_nil_of_mem hmem), hnil]
      · have hwne : w ≠ [] := fun hw => hempty (hnil.1 hw)
        rw [hhead, textOf, head_words hw.1 (append_ne_nil_of_left_ne_nil hwne _), hnil]
  | prefixed hbase hlost =>
    have hempty : ws = [] := by
      by_contra hws
      obtain ⟨x, xs, rfl⟩ := exists_cons_of_ne_nil hws
      refine hlost ?_
      rw [textOf, tail_cons]
      exact mem_append_right _ mem_cons_self
    rw [hempty] at hbase hwalk hdots ⊢
    have hwne : w ≠ [] := by
      rintro rfl
      exact hbase rfl
    have htext : '.' :: '/' :: textOf [w] = textOf [dot, w] := rfl
    rw [htext]
    refine tidy_of_components hcomponents (by decide) ?_ ?_ ?_ ?_ ?_ ?_
    · intro name hname
      rw [mem_singleton.1 hname]
      exact hw
    · exact fun name hname => (not_mem_nil hname).elim
    · rw [hhead]
      refine iff_of_false (fun hdot => ?_) fun hfirst => hwne (hnil.2 hfirst)
      exact absurd (some.inj hdot) (by decide)
    · intro l hl
      rw [Location.walk_cons, Location.enter_dot]
      exact hwalk l hl
    · intro hups hmem
      rcases mem_cons.1 hmem with hmem | hmem
      · exact absurd hmem (by decide)
      · exact hdots hups hmem
    · intro _
      exact mem_cons_of_mem _ mem_cons_self

theorem simplifyPath_tidy {s : List Char} (hnul : nul ∉ s) (hlast : EndsInName s) (hne : s ≠ []) :
    ∃ r junk, simplifyPath (s ++ [nul]) = some (r ++ nul :: junk) ∧ r.length + junk.length = s.length ∧
      Tidy s r := by
  obtain ⟨first, names, rfl, hfirst, hnames⟩ := exists_words '/' s
  have hname := hlast.nameLast hfirst hnames
  have hfirst' : nul ∉ first := fun hmem => hnul (mem_append_left _ hmem)
  have hnames' : ∀ name ∈ names, nul ∉ name := fun name hname hmem =>
    hnul (mem_append_right _ (mem_tail.2 (.inr ⟨name, hname, hmem⟩)))
  have hys := stem_ordinary hnames
  obtain ⟨w, ws, hresult, hnil, hw, hws⟩ := @exists_result first (stem names) hys hname.stem
  have hstem : ∀ name ∈ stem names, Ordinary name ∧ nul ∉ name := fun name hname =>
    ⟨hys name hname, hnames' name (mem_stem.1 hname).1⟩
  have hordinary : Ordinary dots ∧ nul ∉ dots := ⟨⟨by decide, by decide, by decide⟩, by decide⟩
  have hws' : ∀ name ∈ ws, Ordinary name ∧ nul ∉ name := by
    intro name hname
    rcases hws name hname with rfl | hname
    · exact hordinary
    · exact hstem name hname
  have hw' : '/' ∉ w ∧ nul ∉ w := by
    rcases hw with rfl | rfl | hw
    · exact ⟨hfirst, hfirst'⟩
    · exact ⟨hordinary.1.slash, hordinary.2⟩
    · exact ⟨(hstem w hw).1.slash, (hstem w hw).2⟩
  have hbase : nul ∉ textOf (w :: ws) := notMem_path hw'.2 fun name hname => (hws' name hname).2
  have hstart : names.getLast? ≠ some [] → textOf (w :: ws) ≠ [] := by
    intro hlast' hempty
    obtain ⟨hwnil, htail⟩ := append_eq_nil_iff.1 hempty
    have hwsnil : ws = [] := by
      cases ws with
      | nil => rfl
      | cons name ws => exact nomatch htail
    have hfirstnil := hnil.1 hwnil
    have hnames : names ≠ [] := by
      rintro rfl
      rw [hfirstnil] at hne
      exact hne rfl
    have hcut : ¬(first ≠ [] ∧ 0 < (cancelled first (stem names)).level) := fun hand => hand.1 hfirstnil
    unfold Cancelled.result at hresult
    rw [if_neg hcut, hwsnil] at hresult
    exact cancelled_kept_ne hname.stem (stem_ne_nil hname hnames hlast')
      (append_eq_nil_iff.1 (List.cons.inj hresult).2).2
  have hroom : '/' ∈ first ++ tail '/' names → '/' ∉ textOf (w :: ws) → names.getLast? ≠ some [] →
      (textOf (w :: ws)).length + 2 ≤ (first ++ tail '/' names).length := by
    intro hslash hlost hlast'
    have hone : ws = [] := by
      cases ws with
      | nil => rfl
      | cons name ws => exact absurd (mem_append_right _ mem_cons_self) hlost
    have hstems := stem_ne_nil hname (slash_mem_words hfirst hslash) hlast'
    have hle := (result_length hys hname.stem).2 w (by rw [hresult, hone]) hstems
    have hshort := @stem_length names
    rw [hone, textOf, tail_nil, append_nil]
    rw [length_append] at hle ⊢
    omega
  obtain ⟨r, junk, hrun, hlength, hending⟩ := simplifyPath_ending ⟨hfirst, hfirst'⟩
    (fun name hname => ⟨hnames name hname, hnames' name hname⟩) hname (congrArg textOf hresult.symm) hbase
    hstart hroom
  refine ⟨r, junk, hrun, hlength, hending.tidy rfl hne hfirst hnames hw' hws' hnil ?_ ?_⟩
  · intro l hl
    rw [← hresult, walk_result hys, Location.walk_cons, walk_stem, Location.walk_cons]
    by_cases hempty : first = []
    · exact .inr (hl ((head_words hfirst hne).2 hempty))
    · exact .inl hempty
  · intro hups
    rw [← hresult]
    refine result_dots hys ?_
    rw [Location.walk_cons, walk_stem]
    exact hups

/-- For every path that ends in a name: the code terminates and stays in front of the terminator, and the
result leads to the same place, has no "//" and no "/./", no name in front of a ".." unless the path
climbs above its start, and a slash if there was one. -/
theorem simplifyPath_spec (s : List Char) (hnul : nul ∉ s) (hlast : EndsInName s) : ∃ r junk,
    simplifyPath (s ++ [nul]) = some (r ++ nul :: junk) ∧ nul ∉ r ∧ r.length + junk.length = s.length ∧
      location r = location s ∧ ¬['/', '/'] <:+: r ∧ ¬['/', '.', '/'] <:+: r ∧
      (¬Climbs s → ∀ pre name post, components r = pre ++ name :: dots :: post →
        name = [] ∨ name = dot ∨ name = dots) ∧ ('/' ∈ s → r ≠ [] → '/' ∈ r) := by
  by_cases hne : s = []
  · rw [hne]
    refine ⟨[], [], rfl, not_mem_nil, rfl, rfl, by decide, by decide, ?_, fun h => (not_mem_nil h).elim⟩
    intro _ pre name post hsplit
    have hdots : dots ∈ components [] := by
      rw [hsplit]
      exact mem_append_right _ (mem_cons_of_mem _ mem_cons_self)
    exact absurd hdots (by decide)
  · obtain ⟨r, junk, hrun, hlength, htidy⟩ := simplifyPath_tidy hnul hlast hne
    refine ⟨r, junk, hrun, htidy.terminated, hlength, htidy.location, ?_, ?_, ?_, fun hs _ => htidy.slash hs⟩
    · exact fun hinfix => (htidy.middle [] (mem_middle_of_enclosed not_mem_nil hinfix)).1 rfl
    · exact fun hinfix => (htidy.middle dot (mem_middle_of_enclosed (by decide) hinfix)).2 rfl
    · intro hclimbs pre name post hsplit
      refine absurd ?_ (htidy.dots hclimbs)
      rw [hsplit]
      exact mem_append_right _ (mem_cons_of_mem _ mem_cons_self)

theorem simplifyPath_spec_climbing : ∃ r junk,
    simplifyPath ("a//b/../../../c/./d/".toList ++ [nul]) = some (r ++ nul :: junk) ∧ nul ∉ r ∧
      r.length + junk.length = 20 ∧ location r = location "a//b/../../../c/./d/".toList ∧
      ¬['/', '/'] <:+: r ∧ ¬['/', '.', '/'] <:+: r ∧ (¬Climbs "a//b/../../../c/./d/".toList → ∀ pre name post,
        components r = pre ++ name :: dots :: post → name = [] ∨ name = dot ∨ name = dots) ∧
      ('/' ∈ "a//b/../../../c/./d/".toList → r ≠ [] → '/' ∈ r) :=
  simplifyPath_spec "a//b/../../../c/./d/".toList (by decide) (by decide)

example : (simplifyPath ("a//b/../../../c/./d/".toList ++ [nul])).map (·.takeWhile (· ≠ nul)) =
    some "../c/d/".toList := by decide

end Whole

end ScoreP.IoTools
