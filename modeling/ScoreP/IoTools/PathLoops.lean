import Mathlib.Tactic.Ring
import ScoreP.IoTools.Location
import ScoreP.IoTools.SimplifyPath

/-!
# The loops of `UTILS_IO_SimplifyPath`

The first loop leaves `compress` of the path at its front (`squeeze_spec`), which takes empty components
and "." out of the middle (`compress_words`). The second loop treats the components as `cancel` does
(`removeUps_spec`).
-/

namespace ScoreP.IoTools

open Foundations Separated Option
open List hiding tail tail_cons tail_nil tail_append

section Writing

variable {as mid rest path : List Char} {i : ℤ} {n : ℕ} {c d : Char}

theorem write_eq (hi : i = n) (hn : n < path.length) : write path i c = some (path.set n c) := by
  unfold write
  rw [hi, if_pos ⟨Int.natCast_nonneg n, Int.ofNat_lt.2 hn⟩, Int.toNat_natCast]

theorem write_append (hi : i = as.length) : write (as ++ d :: rest) i c = some (as ++ c :: rest) := by
  rw [write_eq hi (by simp), set_append_right _ _ (Nat.le_refl _), Nat.sub_self, set_cons_zero]

theorem memmove_cut {cut text junk : List Char} {dst src : ℕ} {count : ℤ} (hdst : dst = as.length)
    (hsrc : src = as.length + cut.length) (hcount : count = text.length) : ∃ junk',
    memmove (as ++ cut ++ text ++ junk) dst src count = some (as ++ text ++ junk') ∧
      junk'.length = cut.length + junk.length := by
  have htake : (as ++ cut ++ text ++ junk).take dst = as := by
    rw [hdst, append_assoc, append_assoc]
    exact take_left
  have hmoved : ((as ++ cut ++ text ++ junk).drop src).take text.length = text := by
    rw [hsrc, ← length_append, append_assoc (as ++ cut), drop_left]
    exact take_left
  unfold memmove
  rw [if_pos ⟨by omega, by simp; omega, by simp; omega⟩, hcount, Int.toNat_natCast, htake, hmoved]
  refine ⟨_, rfl, ?_⟩
  simp
  omega

end Writing

/-! ## The first loop -/

def compress : List Char → List Char
  | [] => []
  | c :: text =>
    if c = '/' ∧ text.head? = some '/' then compress text
    else if c = '/' ∧ text.head? = some '.' ∧ text[1]? = some '/' then compress text.tail
    else c :: compress text
  termination_by text => text.length
  decreasing_by all_goals simp; try omega

def shifted (mid : List Char) (c : Char) : List Char :=
  c :: (mid ++ [c]).tail

theorem shifted_length (mid : List Char) (c : Char) : (shifted mid c).length = mid.length + 1 := by
  unfold shifted
  simp

theorem shifted_last (mid : List Char) (c : Char) : (shifted mid c)[mid.length]? = some c := by
  unfold shifted
  cases mid with
  | nil => rfl
  | cons d mid => simp

theorem write_shifted {out mid rest : List Char} {i : ℤ} (c : Char) (hi : i = out.length) :
    write (out ++ mid ++ c :: rest) i c = some (out ++ shifted mid c ++ rest) := by
  cases mid with
  | nil =>
    rw [append_nil, write_append hi]
    simp [shifted]
  | cons d mid =>
    rw [append_assoc, cons_append, write_append hi]
    simp [shifted]

theorem read_behind (as bs : List Char) (k : ℕ) : (as ++ bs)[as.length + k]? = bs[k]? := by
  rw [List.getElem?_append_right (Nat.le_add_right _ _), Nat.add_sub_cancel_left]

theorem read_terminated {text : List Char} {k : ℕ} {c : Char} (hc : c ≠ nul) :
    (text ++ [nul])[k]? = some c ↔ text[k]? = some c := by
  by_cases hk : k < text.length
  · rw [List.getElem?_append_left hk]
  · rw [List.getElem?_append_right (by omega), List.getElem?_eq_none (l := text) (by omega)]
    constructor
    · intro h
      have hmem := mem_of_getElem? h
      exact absurd (mem_singleton.1 hmem) hc
    · exact fun h => nomatch h

theorem squeeze_step {c : Char} {text out mid : List Char} {fuel len level : ℕ} (hc : c ≠ nul)
    (hasSlashes : Bool) (hlen : out.length + mid.length = len) (hlevel : mid.length = level) :
    squeeze (fuel + 1) ⟨out ++ mid ++ (c :: text ++ [nul]), len, level, hasSlashes⟩ =
      if c = '/' ∧ text.head? = some '/' then
        squeeze fuel ⟨out ++ shifted mid c ++ (text ++ [nul]), len + 1, level + 1, hasSlashes || c == '/'⟩
      else if c = '/' ∧ text.head? = some '.' ∧ text[1]? = some '/' then
        squeeze fuel ⟨out ++ shifted mid c ++ (text ++ [nul]), len + 2, level + 2, hasSlashes || c == '/'⟩ else
        squeeze fuel ⟨out ++ shifted mid c ++ (text ++ [nul]), len + 1, level, hasSlashes || c == '/'⟩ := by
  have hread : (out ++ mid ++ (c :: text ++ [nul]))[len]? = some c := by
    rw [← hlen, ← length_append]
    exact read_behind (out ++ mid) (c :: text ++ [nul]) 0
  have hwrite : write (out ++ mid ++ (c :: text ++ [nul])) (len - level) c =
      some (out ++ shifted mid c ++ (text ++ [nul])) := by
    rw [cons_append]
    exact write_shifted c (by omega)
  have hat : (out ++ shifted mid c ++ (text ++ [nul]))[len]? = some c := by
    rw [← hlen, append_assoc, read_behind,
      List.getElem?_append_left (by rw [shifted_length]; exact Nat.lt_succ_self _)]
    exact shifted_last mid c
  have hnext : ∀ k, (out ++ shifted mid c ++ (text ++ [nul]))[len + 1 + k]? = (text ++ [nul])[k]? := by
    intro k
    rw [← read_behind (out ++ shifted mid c) (text ++ [nul]) k, length_append, shifted_length, ← hlen]
    rfl
  have hfirst : ∀ d : Char, d ≠ nul →
      ((out ++ shifted mid c ++ (text ++ [nul]))[len + 1]? = some d ↔ text.head? = some d) := by
    intro d hd
    rw [hnext 0, read_terminated hd, List.head?_eq_getElem?]
  have hsecond : (out ++ shifted mid c ++ (text ++ [nul]))[len + 2]? = some '/' ↔ text[1]? = some '/' := by
    rw [hnext 1, read_terminated (by decide)]
  rw [squeeze]
  simp only [hread, if_neg hc, hwrite, hat, hfirst _ (show '/' ≠ nul by decide),
    hfirst _ (show '.' ≠ nul by decide), hsecond, bind_eq_bind, bind_some, some.injEq,
    some_beq_some]
  by_cases hslash : c = '/' ∧ text.head? = some '/'
  · have hdot : ¬(c = '/' ∧ text.head? = some '.' ∧ text[1]? = some '/') := by
      rw [hslash.2]
      simp
    rw [if_pos hslash, if_neg hdot, if_pos hslash]
  · rw [if_neg hslash, if_neg hslash]

theorem mem_slash_cons (hasSlashes : Bool) (c : Char) (text : List Char) :
    (hasSlashes || c == '/' || decide ('/' ∈ text)) = (hasSlashes || decide ('/' ∈ c :: text)) := by
  rw [Bool.or_assoc]
  congr 1
  rw [Bool.eq_iff_iff, Bool.or_eq_true, beq_iff_eq, decide_eq_true_iff, decide_eq_true_iff,
    mem_cons, @eq_comm _ c]

theorem squeeze_spec {text : List Char} (hnul : nul ∉ text) {out mid : List Char} {fuel len level : ℕ}
    (hasSlashes : Bool) (hlen : out.length + mid.length = len) (hlevel : mid.length = level)
    (hfuel : text.length < fuel) : ∃ junk level',
    squeeze fuel ⟨out ++ mid ++ (text ++ [nul]), len, level, hasSlashes⟩ =
      some ⟨out ++ compress text ++ junk, len + text.length, level', hasSlashes || decide ('/' ∈ text)⟩ ∧
      out.length + (compress text).length + level' = len + text.length ∧ junk.length = level' + 1 := by
  induction text using compress.induct generalizing out mid fuel len level hasSlashes with
  | case1 =>
    obtain ⟨fuel, rfl⟩ := Nat.exists_eq_succ_of_ne_zero (Nat.ne_of_gt hfuel)
    refine ⟨mid ++ [nul], level, ?_, by rw [compress, ← hlevel]; exact hlen, by simp [hlevel]⟩
    have hread : (out ++ mid ++ ([] ++ [nul]))[len]? = some nul := by
      rw [← hlen, ← length_append]
      exact read_behind (out ++ mid) [nul] 0
    unfold squeeze
    simp only [hread, if_pos]
    simp [compress]
  | case2 c text hslash ih =>
    obtain ⟨hc, hrest⟩ := not_or.1 (mt mem_cons.2 hnul)
    obtain ⟨fuel, rfl⟩ := Nat.exists_eq_succ_of_ne_zero (Nat.ne_of_gt (Nat.zero_lt_of_lt hfuel))
    rw [length_cons] at hfuel ⊢
    obtain ⟨junk, level', hrun, hlength, hjunk⟩ := @ih hrest out (shifted mid c) fuel (len + 1) (level + 1)
      (hasSlashes || c == '/') (by rw [shifted_length]; omega) (by rw [shifted_length, hlevel]) (by omega)
    rw [squeeze_step (Ne.symm hc) hasSlashes hlen hlevel, if_pos hslash, hrun, compress, if_pos hslash,
      mem_slash_cons, Nat.add_assoc, Nat.add_comm 1]
    exact ⟨junk, level', rfl, by omega, hjunk⟩
  | case3 c text hslash hdot ih =>
    obtain ⟨hc, hrest⟩ := not_or.1 (mt mem_cons.2 hnul)
    obtain ⟨fuel, rfl⟩ := Nat.exists_eq_succ_of_ne_zero (Nat.ne_of_gt (Nat.zero_lt_of_lt hfuel))
    obtain ⟨d, text, rfl⟩ := exists_cons_of_ne_nil (l := text) (by rintro rfl; simp at hdot)
    have hd : d = '.' := some.inj hdot.2.1
    rw [length_cons] at hfuel ⊢
    rw [length_cons] at hfuel
    have hpath : out ++ shifted mid c ++ (d :: text ++ [nul]) =
        out ++ (shifted mid c ++ [d]) ++ (text ++ [nul]) := by simp
    obtain ⟨junk, level', hrun, hlength, hjunk⟩ := @ih (fun h => hrest (mem_cons_of_mem d h)) out
      (shifted mid c ++ [d]) fuel (len + 2) (level + 2) (hasSlashes || c == '/')
      (by rw [length_append, shifted_length, length_singleton]; omega)
      (by rw [length_append, shifted_length, hlevel, length_singleton])
      (by rw [List.tail_cons]; omega)
    rw [List.tail_cons] at hrun hlength
    rw [squeeze_step (Ne.symm hc) hasSlashes hlen hlevel, if_neg hslash, if_pos hdot, hpath, hrun, compress,
      if_neg hslash, if_pos hdot, mem_slash_cons, List.tail_cons, length_cons]
    have hmem : decide ('/' ∈ d :: text) = decide ('/' ∈ text) := by
      rw [decide_eq_decide, mem_cons, hd]
      exact or_iff_right (by decide)
    rw [← mem_slash_cons hasSlashes c text, ← mem_slash_cons, hmem]
    refine ⟨junk, level', ?_, by omega, hjunk⟩
    rw [Nat.add_assoc, Nat.add_comm 2]
  | case4 c text hslash hdot ih =>
    obtain ⟨hc, hrest⟩ := not_or.1 (mt mem_cons.2 hnul)
    obtain ⟨fuel, rfl⟩ := Nat.exists_eq_succ_of_ne_zero (Nat.ne_of_gt (Nat.zero_lt_of_lt hfuel))
    rw [length_cons] at hfuel ⊢
    have hpath : out ++ shifted mid c ++ (text ++ [nul]) =
        (out ++ [c]) ++ (mid ++ [c]).tail ++ (text ++ [nul]) := by
      unfold shifted
      simp
    have htail : ((mid ++ [c]).tail).length = mid.length := by simp
    obtain ⟨junk, level', hrun, hlength, hjunk⟩ := @ih hrest (out ++ [c]) (mid ++ [c]).tail fuel (len + 1)
      level (hasSlashes || c == '/') (by rw [htail, length_append, length_singleton]; omega)
      (htail.trans hlevel) (by omega)
    rw [length_append, length_singleton] at hlength
    rw [squeeze_step (Ne.symm hc) hasSlashes hlen hlevel, if_neg hslash, if_neg hdot, hpath, hrun, compress,
      if_neg hslash, if_neg hdot, mem_slash_cons, length_cons, Nat.add_assoc, Nat.add_comm 1,
      append_assoc out]
    exact ⟨junk, level', rfl, by omega, hjunk⟩

def keepWords : List Name → List Name
  | [] => []
  | [name] => [name]
  | name :: next :: names =>
    if name = [] ∨ name = dot then keepWords (next :: names) else name :: keepWords (next :: names)

theorem compress_cons {c : Char} {text : List Char} (h : c ≠ '/') :
    compress (c :: text) = c :: compress text := by
  rw [compress, if_neg fun hand => h hand.1, if_neg fun hand => h hand.1]

theorem compress_append {name text : List Char} (h : '/' ∉ name) :
    compress (name ++ text) = name ++ compress text := by
  induction name with
  | nil => rfl
  | cons c name ih =>
    rw [mem_cons, not_or] at h
    rw [cons_append, compress_cons (Ne.symm h.1), ih h.2]
    rfl

theorem compress_slash {first : Name} {rest : List Char} (hfirst : '/' ∉ first)
    (h : rest = [] ∨ first ≠ [] ∧ first ≠ dot) :
    compress ('/' :: (first ++ rest)) = '/' :: (first ++ compress rest) := by
  rw [compress, compress_append hfirst]
  have hslash : (first ++ rest).head? ≠ some '/' := by
    cases first with
    | nil =>
      rcases h with rfl | h
      · exact fun hnil => nomatch hnil
      · exact absurd rfl h.1
    | cons c first =>
      rw [cons_append, List.head?_cons]
      exact fun hc => hfirst (by rw [some.inj hc]; exact mem_cons_self)
  have hdot : ¬((first ++ rest).head? = some '.' ∧ (first ++ rest)[1]? = some '/') := by
    rintro ⟨hhead, hnext⟩
    cases first with
    | nil =>
      rcases h with rfl | h
      · exact nomatch hhead
      · exact h.1 rfl
    | cons c first =>
      cases first with
      | nil =>
        rcases h with rfl | h
        · exact nomatch hnext
        · exact h.2 (by rw [some.inj hhead]; rfl)
      | cons d first =>
        have hd : d = '/' := some.inj hnext
        exact hfirst (by rw [hd]; exact mem_cons_of_mem c mem_cons_self)
  rw [if_neg fun hand => hslash hand.2, if_neg fun hand => hdot hand.2]

theorem compress_words {name : Name} {names : List Name} (hname : '/' ∉ name)
    (hnames : ∀ name ∈ names, '/' ∉ name) :
    compress (name ++ tail '/' names) = name ++ tail '/' (keepWords names) := by
  rw [compress_append hname]
  congr 1
  clear hname
  induction names with
  | nil =>
    rw [tail_nil, compress]
    rfl
  | cons first names ih =>
    obtain ⟨hfirst, hrest⟩ := forall_mem_cons.1 hnames
    rw [tail_cons]
    cases names with
    | nil =>
      rw [tail_nil, compress_slash hfirst (.inl rfl), compress]
      rfl
    | cons next names =>
      have hhead : (tail '/' (next :: names)).head? = some '/' := rfl
      rw [keepWords]
      by_cases hskip : first = [] ∨ first = dot
      · rw [if_pos hskip, ← ih hrest]
        rcases hskip with rfl | rfl
        · rw [nil_append, compress, if_pos ⟨rfl, hhead⟩]
        · rw [compress, if_neg (by simp [dot]), if_pos ⟨rfl, rfl, rfl⟩]
          rfl
      · rw [if_neg hskip, compress_slash hfirst (.inr (not_or.1 hskip)), ih hrest]
        rfl

section Scanning

variable {as bs path : List Char} {first name : Name} {front : List Name} {c : Cancelled} {n a k fuel : ℕ}
  {s : Scan}

theorem removeUps_skip (h : ∀ i < k, s.path[a + i]? ≠ some '/' ∧ ¬IsUp s.path (a + i)) :
    removeUps (fuel + k) s (a + k) = removeUps fuel s a := by
  induction k with
  | zero => rfl
  | succ k ih =>
    obtain ⟨hslash, hup⟩ := h k (Nat.lt_succ_self k)
    rw [← Nat.add_assoc, ← Nat.add_assoc, removeUps, if_neg hup, if_neg hslash]
    exact ih fun i hi => h i (Nat.lt_succ_of_lt hi)

theorem not_isUp (hslash : '/' ∉ name) (hnul : nul ∉ name) (has : as = [] ∨ ∃ as', as = as' ++ ['/'])
    (hdots : name = dots → as.length ≤ 1) {i : ℕ} (hi : i < name.length) :
    ¬IsUp (as ++ (name ++ bs)) (as.length + i) := by
  have hread : ∀ k, k < name.length → (as ++ (name ++ bs))[as.length + k]? = name[k]? := by
    intro k hk
    rw [read_behind, List.getElem?_append_left hk]
  have hmem : ∀ {k : ℕ} {d : Char}, k < name.length → (as ++ (name ++ bs))[as.length + k]? = some d →
      d ∈ name := by
    intro k d hk h
    rw [hread k hk] at h
    exact mem_of_getElem? h
  rintro ⟨hpos, hend, hlast, hbefore, hslash'⟩
  -- the word ends here
  have hlength : name.length = i + 1 := by
    by_contra hne
    have hk : i + 1 < name.length := by omega
    rcases hend with hend | hend
    · exact hslash (hmem hk hend)
    · exact hnul (hmem hk hend)
  rcases i with _ | _ | i
  · rcases has with rfl | ⟨as', rfl⟩
    · simp at hpos
    · rw [append_assoc, length_append, length_singleton,
        show as'.length + 1 + 0 - 1 = as'.length + 0 by omega, read_behind] at hbefore
      exact absurd (some.inj hbefore) (by decide)
  · have hname : name = dots := by
      rw [show as.length + (0 + 1) - 1 = as.length + 0 by omega, hread 0 (by omega)] at hbefore
      rw [hread (0 + 1) hi] at hlast
      match name, hlength with
      | [x, y], _ =>
        rw [show x = '.' from some.inj hbefore, show y = '.' from some.inj hlast]
        rfl
    have hle := hdots hname
    omega
  · rw [show as.length + (i + 1 + 1) - 2 = as.length + i by omega] at hslash'
    exact hslash (hmem (by omega) hslash')

theorem isUp_dots (has : as ≠ []) (hbs : bs.head? = some '/' ∨ bs.head? = some nul) :
    IsUp (as ++ '/' :: (dots ++ bs)) (as.length + 2) := by
  have hpos := length_pos_of_ne_nil has
  refine ⟨by omega, ?_, ?_, ?_, ?_⟩
  · rw [List.head?_eq_getElem?] at hbs
    rw [Nat.add_assoc, read_behind]
    exact hbs
  · rw [read_behind]
    rfl
  · rw [show as.length + 2 - 1 = as.length + 1 by omega, read_behind]
    rfl
  · rw [show as.length + 2 - 2 = as.length + 0 by omega, read_behind]
    rfl

/-- The loop stands behind the components `front`. -/
structure Scanned (first : Name) (front : List Name) (c : Cancelled) (n : ℕ) (s : Scan) : Prop where
  path : ∃ junk, s.path = first ++ tail '/' front ++ (tail '/' (c.pending ++ c.kept) ++ nul :: junk)
  size : s.path.length = n
  len : s.len = (first ++ tail '/' front).length + (tail '/' (c.pending ++ c.kept)).length
  level : s.level = c.level
  cutEnd : 0 < c.level → s.cutEnd = (first ++ tail '/' front).length + (tail '/' c.pending).length

theorem head?_tail (names : List Name) (junk : List Char) :
    (tail '/' names ++ nul :: junk).head? = some '/' ∨ (tail '/' names ++ nul :: junk).head? = some nul := by
  cases names with
  | nil => exact .inr rfl
  | cons name names => exact .inl rfl

theorem tail_concat (front : List Name) (name : Name) : first ++ tail '/' (front ++ [name]) =
    first ++ tail '/' front ++ '/' :: name := by
  rw [tail_append, tail_cons, tail_nil, append_nil, append_assoc]

theorem length_tail_concat (front : List Name) (name : Name) :
    (first ++ tail '/' (front ++ [name])).length = (first ++ tail '/' front).length + 1 + name.length := by
  rw [tail_concat, length_append, length_cons]
  omega

theorem removeUps_dots (h : Scanned first (front ++ [dots]) c n s) (hnil : c.level = 0 → c.pending = [])
    (hne : first ++ tail '/' front ≠ []) : ∃ s',
    removeUps (fuel + 1) s (first ++ tail '/' (front ++ [dots])).length =
        removeUps fuel s' (first ++ tail '/' front).length ∧ Scanned first front c.addUp n s' := by
  obtain ⟨junk, hpath⟩ := h.path
  have hlength := @length_tail_concat first front dots
  have hdots : dots.length = 2 := rfl
  have hpath' : s.path = first ++ tail '/' front ++
      '/' :: (dots ++ (tail '/' (c.pending ++ c.kept) ++ nul :: junk)) := by
    rw [hpath, tail_concat, append_assoc (first ++ tail '/' front), cons_append]
  have hup : IsUp s.path ((first ++ tail '/' front).length + 2) := by
    rw [hpath']
    exact isUp_dots hne (head?_tail _ _)
  refine ⟨{ s with
      cutEnd := if s.level = 0 then (first ++ tail '/' front).length + 2 + 1 else s.cutEnd
      level := s.level + 1 }, ?_, ⟨⟨junk, ?_⟩, h.size, ?_, congrArg (· + 1) h.level, ?_⟩⟩
  · rw [hlength, hdots, show (first ++ tail '/' front).length + 1 + 2 =
      (first ++ tail '/' front).length + 2 + 1 by omega, removeUps, if_pos hup]
    rfl
  · rw [hpath']
    simp [Cancelled.addUp]
  · have hlen := h.len
    simp only [Cancelled.addUp, cons_append, tail_cons, length_cons, length_append] at *
    omega
  · intro _
    have hcut := h.cutEnd
    have hlevel := h.level
    by_cases hzero : s.level = 0
    · have hpending := hnil (by omega)
      simp [hzero, Cancelled.addUp, hpending, tail_cons, tail_nil, hdots]
    · have hcut := hcut (by omega)
      simp only [hzero, if_false, Cancelled.addUp, tail_cons, length_cons, length_append] at *
      omega

theorem removeUps_word (h : Scanned first (front ++ [name]) c n s) (hslash : '/' ∉ name)
    (hnul : nul ∉ name) (hdots : name = dots → first ++ tail '/' front = []) :
    removeUps (fuel + name.length) s (first ++ tail '/' (front ++ [name])).length =
      removeUps fuel s ((first ++ tail '/' front).length + 1) := by
  obtain ⟨junk, hpath⟩ := h.path
  have hpath' : s.path = (first ++ tail '/' front ++ ['/']) ++
      (name ++ (tail '/' (c.pending ++ c.kept) ++ nul :: junk)) := by
    rw [hpath, tail_concat]
    simp
  have hlength : (first ++ tail '/' front ++ ['/']).length = (first ++ tail '/' front).length + 1 := by
    rw [length_append, length_singleton]
  rw [length_tail_concat, ← hlength]
  refine removeUps_skip fun i hi => ⟨?_, ?_⟩
  · rw [hpath', read_behind, List.getElem?_append_left hi]
    exact fun hread => hslash (mem_of_getElem? hread)
  · rw [hpath']
    refine not_isUp hslash hnul (.inr ⟨_, rfl⟩) (fun heq => ?_) hi
    rw [hlength, hdots heq]
    rfl

theorem removeUps_slash (h : Scanned first (front ++ [name]) c n s) (hnil : c.level = 0 → c.pending = []) :
    ∃ s', removeUps (fuel + 1) s ((first ++ tail '/' front).length + 1) =
        removeUps fuel s' (first ++ tail '/' front).length ∧ Scanned first front (c.addName name) n s' := by
  obtain ⟨junk, hpath⟩ := h.path
  have hlevel := h.level
  have hlen := h.len
  have hlength := @length_tail_concat first front name
  have hpath' : s.path = first ++ tail '/' front ++
      '/' :: (name ++ (tail '/' (c.pending ++ c.kept) ++ nul :: junk)) := by
    rw [hpath, tail_concat, append_assoc (first ++ tail '/' front), cons_append]
  have hread : s.path[(first ++ tail '/' front).length]? = some '/' := by
    rw [hpath']
    exact read_behind _ _ 0
  have hup : ¬IsUp s.path (first ++ tail '/' front).length := by
    rintro ⟨-, -, hdot, -⟩
    rw [hread] at hdot
    exact absurd (some.inj hdot) (by decide)
  rw [removeUps, if_neg hup, if_pos hread]
  by_cases hzero : s.level = 0
  · have hpending := hnil (by omega)
    refine ⟨{ s with cutEnd := (first ++ tail '/' front).length }, ?_, ?_⟩
    · rw [if_neg (by omega)]
    · unfold Cancelled.addName
      rw [if_pos (by omega)]
      refine ⟨⟨junk, ?_⟩, h.size, ?_, hlevel, fun hpos => by dsimp only at hpos; omega⟩
      · rw [hpath', hpending]
        simp
      · rw [hpending] at hlen ⊢
        simp only [nil_append, tail_cons, length_cons, length_append] at *
        omega
  · rw [if_pos (by omega)]
    by_cases hone : s.level = 1
    · have hcut := h.cutEnd (by omega)
      -- the text behind the cut, with the terminator
      obtain ⟨junk', hmove, hjunk⟩ := @memmove_cut (first ++ tail '/' front) ('/' :: (name ++ tail '/' c.pending))
        (tail '/' c.kept ++ [nul]) junk (first ++ tail '/' front).length
        ((first ++ tail '/' front).length + (s.cutEnd - (first ++ tail '/' front).length))
        ((s.len - (s.cutEnd - (first ++ tail '/' front).length) : ℕ) -
          ((first ++ tail '/' front).length : ℤ) + 1) rfl
        (by simp only [length_cons, length_append] at *; omega)
        (by simp only [tail_append, length_cons, length_append, length_nil] at *; omega)
      have hsplit : first ++ tail '/' front ++ '/' :: (name ++ tail '/' c.pending) ++
          (tail '/' c.kept ++ [nul]) ++ junk = s.path := by
        rw [hpath']
        simp
      rw [hsplit] at hmove
      refine ⟨⟨first ++ tail '/' front ++ (tail '/' c.kept ++ [nul]) ++ junk',
        s.len - (s.cutEnd - (first ++ tail '/' front).length), 0, (first ++ tail '/' front).length⟩, ?_, ?_⟩
      · rw [if_pos (by omega)]
        dsimp only
        rw [hmove]
        rfl
      · unfold Cancelled.addName
        rw [if_neg (by omega), if_pos (by omega)]
        refine ⟨⟨junk', ?_⟩, ?_, ?_, rfl, fun hpos => absurd hpos (Nat.lt_irrefl 0)⟩
        · simp
        · have hsize := h.size
          rw [← hsize, ← hsplit]
          simp only [length_append, length_cons] at *
          omega
        · simp only [tail_append, nil_append, length_append, length_cons] at *
          omega
    · have hcut := h.cutEnd (by omega)
      refine ⟨{ s with level := s.level - 1 }, ?_, ?_⟩
      · rw [if_neg (by omega)]
      · unfold Cancelled.addName
        rw [if_neg (by omega), if_neg (by omega)]
        refine ⟨⟨junk, ?_⟩, h.size, ?_, ?_, fun _ => ?_⟩
        · rw [hpath']
          simp
        · simp only [cons_append, tail_cons, length_cons, length_append] at *
          omega
        · dsimp only
          omega
        · simp only [tail_cons, length_cons, length_append] at *
          omega

theorem nil_addName (hnil : c.level = 0 → c.pending = []) :
    (c.addName name).level = 0 → (c.addName name).pending = [] := by
  unfold Cancelled.addName
  split_ifs
  · exact hnil
  · exact fun _ => rfl
  · intro hzero
    dsimp only at hzero
    omega

theorem removeUps_spec {rev : List Name} (hfirst : '/' ∉ first ∧ nul ∉ first)
    (hrev : ∀ name ∈ rev, '/' ∉ name ∧ nul ∉ name) (h : Scanned first rev.reverse c n s)
    (hnil : c.level = 0 → c.pending = []) (hfuel : (first ++ tail '/' rev.reverse).length ≤ fuel) :
    ∃ s', removeUps fuel s (first ++ tail '/' rev.reverse).length = some s' ∧
      Scanned first [] (cancel (decide (first = [])) rev c) n s' := by
  induction rev generalizing c s fuel with
  | nil =>
    refine ⟨s, ?_, h⟩
    rw [reverse_nil, tail_nil, append_nil] at hfuel ⊢
    obtain ⟨fuel, rfl⟩ := Nat.exists_eq_add_of_le' hfuel
    obtain ⟨junk, hpath⟩ := h.path
    rw [reverse_nil, tail_nil, append_nil] at hpath
    have hskip := @removeUps_skip 0 first.length fuel s fun i hi => ⟨?_, ?_⟩
    · rw [Nat.zero_add] at hskip
      rw [hskip]
      cases fuel <;> rfl
    · rw [hpath, Nat.zero_add, List.getElem?_append_left hi]
      exact fun hslash => hfirst.1 (mem_of_getElem? hslash)
    · rw [hpath]
      exact @not_isUp [] _ first hfirst.1 hfirst.2 (.inl rfl) (fun _ => Nat.zero_le 1) i hi
  | cons name rev ih =>
    obtain ⟨hname, hrest⟩ := forall_mem_cons.1 hrev
    rw [reverse_cons] at h hfuel ⊢
    rw [length_tail_concat] at hfuel
    have hfront : first ++ tail '/' rev.reverse = [] ↔ first = [] ∧ rev = [] := by
      rw [append_eq_nil_iff]
      refine and_congr_right fun _ => ?_
      cases rev with
      | nil => simp
      | cons next rev => simp [tail]
    rw [cancel]
    by_cases hup : name = dots ∧ ¬(decide (first = []) = true ∧ rev = [])
    · obtain ⟨rfl, hne⟩ := hup
      rw [if_pos ⟨rfl, hne⟩]
      rw [decide_eq_true_iff, ← hfront] at hne
      obtain ⟨fuel, rfl⟩ := Nat.exists_eq_succ_of_ne_zero (n := fuel) (by omega)
      obtain ⟨s', hstep, hscanned⟩ := @removeUps_dots first rev.reverse c n fuel s h hnil hne
      rw [hstep]
      exact ih hrest hscanned (fun hzero => absurd hzero (Nat.succ_ne_zero _)) (by omega)
    · rw [if_neg hup]
      have hdots : name = dots → first ++ tail '/' rev.reverse = [] := by
        intro hdots
        rw [hfront]
        by_contra hne
        rw [not_and, decide_eq_true_iff, not_not] at hup
        exact hne (hup hdots)
      obtain ⟨fuel', hfuel'⟩ := Nat.exists_eq_add_of_le hfuel
      obtain ⟨s', hstep, hscanned⟩ := @removeUps_slash first name rev.reverse c n
        ((first ++ tail '/' rev.reverse).length + fuel') s h hnil
      rw [show fuel = (first ++ tail '/' rev.reverse).length + fuel' + 1 + name.length by omega,
        removeUps_word h hname.1 hname.2 hdots, hstep]
      exact ih hrest hscanned (nil_addName hnil) (Nat.le_add_right _ _)

end Scanning

end ScoreP.IoTools
