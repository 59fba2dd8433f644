import Mathlib.Data.List.TakeWhile
import ScoreP.ToolsUtils.ReplaceAll

/-!
# Wrapping lines

Source: `wrap_lines` in `src/tools/lib/scorep_tools_utils.cpp`. The position `curr` is what is left of the
message.

A word that is longer than a line makes the remaining width wrap around, so the words behind it stay in its
line until one is directly followed by a line break (`fits_of_over`).
-/

namespace ScoreP.ToolsUtils

open List

def isSpace (c : Char) : Bool :=
  c = ' ' ∨ c = '\t' ∨ c = '\n' ∨ c = '\r' ∨ c = '\x0b'

/-- The variables of the loop, `rest` is the message from `curr` on. -/
structure Wrapping where
  out : Text
  rest : Text
  nl : ℕ
  sep : Text
  reminder : ℕ

def separated (indent firstIndent columnWidth : ℕ) (s : Wrapping) : Wrapping :=
  match s.nl with
  | 0 =>
    let begin_ := if firstIndent = 0 then '\n' :: replicate indent ' ' else replicate firstIndent ' '
    { s with out := s.out ++ begin_, sep := [] }
  | 3 => { s with out := s.out ++ '\n' :: '\n' :: replicate indent ' ', reminder := columnWidth, sep := [] }
  | 2 => { s with out := s.out ++ '\n' :: replicate indent ' ', reminder := columnWidth, sep := [] }
  | _ => s

def lineBreaks : Text → ℕ
  | '\n' :: '\n' :: _ => 3
  | '\n' :: _ => 2
  | _ => 1

/-- One pass of the loop, `none` at the end of the message. -/
def wrapStep (indent firstIndent columnWidth : ℕ) (s : Wrapping) : Option Wrapping :=
  let rest := s.rest.dropWhile isSpace
  if rest = [] then none
  else
    let s := separated indent firstIndent columnWidth s
    let word := rest.takeWhile (!isSpace ·)
    let after := rest.dropWhile (!isSpace ·)
    if word.length < s.reminder ∨ s.reminder = columnWidth then
      some ⟨s.out ++ (s.sep ++ word), after, lineBreaks after, [' '],
        sizeSub s.reminder (word.length + s.sep.length)⟩
    else some ⟨s.out, rest, 2, [' '], s.reminder⟩

def wrapFrom (indent firstIndent columnWidth : ℕ) : ℕ → Wrapping → Option Text
  | 0, _ => none
  | fuel + 1, s =>
    match wrapStep indent firstIndent columnWidth s with
    | none => some (if 1 < s.nl then s.out ++ ['\n'] else s.out)
    | some s => wrapFrom indent firstIndent columnWidth fuel s

def wrapLines (fuel : ℕ) (message : Text) (indent firstIndent width : ℕ) : Option Text :=
  let columnWidth := if indent < width then width - indent else 0
  wrapFrom indent firstIndent columnWidth fuel ⟨[], message, 0, [], columnWidth⟩

def words (s : Text) : List Text :=
  (s.splitOnP isSpace).filter (· ≠ [])

def Fitting (w : ℕ) (content : Text) : Prop :=
  content.length ≤ w ∨ ' ' ∉ content

def Fits (w : ℕ) (out : Text) : Prop :=
  ∀ line ∈ out.splitOn '\n', Fitting w (line.dropWhile (· == ' '))

/-- A word that is longer than a line is directly followed by a line break if another word follows; `n`
characters of the first word are in front of the text. -/
def LongWordsBreak (w : ℕ) : ℕ → Text → Prop
  | _, [] => True
  | n, c :: s =>
    if isSpace c then (w < n → ¬s.all isSpace → c = '\n') ∧ LongWordsBreak w 0 s
    else LongWordsBreak w (n + 1) s

/-! ## Words -/

variable {indent firstIndent w n fuel : ℕ} {s s' : Wrapping} {t out gap word after content rest x : Text} {c : Char}

theorem words_append (h : isSpace c) : words (t ++ c :: x) = words t ++ words x := by
  rw [words, splitOnP_append_cons t x h, filter_append]
  rfl

theorem words_gap (h : ∀ c ∈ gap, isSpace c) : words (gap ++ x) = words x := by
  induction gap with
  | nil => rfl
  | cons c gap ih =>
    obtain ⟨hc, hgap⟩ := forall_mem_cons.1 h
    exact (words_append (t := []) hc).trans (ih hgap)

theorem words_word (hne : word ≠ []) (h : ∀ c ∈ word, isSpace c = false) : words word = [word] := by
  rw [words, splitOnP_eq_singleton h]
  simpa using hne

structure Next (rest gap word after : Text) : Prop where
  eq : rest = gap ++ (word ++ after)
  space : ∀ c ∈ gap, isSpace c
  ne_nil : word ≠ []
  word : ∀ c ∈ word, isSpace c = false
  after : ∀ c s, after = c :: s → isSpace c

theorem Next.words (h : Next rest gap word after) : words rest = word :: words after := by
  rw [h.eq, words_gap h.space]
  cases after with
  | nil => rw [append_nil]; exact words_word h.ne_nil h.word
  | cons c s =>
    rw [words_append (h.after c s rfl), words_word h.ne_nil h.word, ← nil_append (c :: s),
      words_append (h.after c s rfl)]
    rfl

theorem exists_next (h : rest.dropWhile isSpace ≠ []) : Next rest (rest.takeWhile isSpace)
    ((rest.dropWhile isSpace).takeWhile (!isSpace ·)) ((rest.dropWhile isSpace).dropWhile (!isSpace ·)) where
  eq := by rw [takeWhile_append_dropWhile, takeWhile_append_dropWhile]
  space c hc := mem_takeWhile_imp hc
  ne_nil := by
    have hhead := head_dropWhile_not isSpace h
    cases hrest : rest.dropWhile isSpace with
    | nil => exact absurd hrest h
    | cons c s => simp_all
  word c hc := by simpa using mem_takeWhile_imp hc
  after c s hafter := by
    have hhead := head_dropWhile_not (!isSpace ·) (l := rest.dropWhile isSpace) (by simp [hafter])
    simp_all

theorem wrapStep_cases (h : wrapStep indent firstIndent w s = some s') :
    ∃ gap word after b, b = separated indent firstIndent w s ∧ Next s.rest gap word after ∧
      ((word.length < b.reminder ∨ b.reminder = w) ∧
          s' = ⟨b.out ++ (b.sep ++ word), after, lineBreaks after, [' '],
            sizeSub b.reminder (word.length + b.sep.length)⟩ ∨
        ¬(word.length < b.reminder ∨ b.reminder = w) ∧ s' = ⟨b.out, word ++ after, 2, [' '], b.reminder⟩) := by
  rw [wrapStep] at h
  by_cases hnil : s.rest.dropWhile isSpace = []
  · simp [hnil] at h
  · simp only [if_neg hnil] at h
    refine ⟨_, _, _, _, rfl, exists_next hnil, ?_⟩
    split at h
    · next hfits => exact .inl ⟨hfits, (Option.some.inj h).symm⟩
    · next hfits =>
      refine .inr ⟨hfits, ?_⟩
      rw [takeWhile_append_dropWhile]
      exact (Option.some.inj h).symm

theorem wrapStep_none (h : wrapStep indent firstIndent w s = none) : ∀ c ∈ s.rest, isSpace c := by
  rw [wrapStep] at h
  by_cases hnil : s.rest.dropWhile isSpace = []
  · exact dropWhile_eq_nil_iff.1 hnil
  · simp only [if_neg hnil] at h
    split at h <;> cases h

structure Ready (w : ℕ) (s : Wrapping) : Prop where
  first : s.nl = 0 → s.out = [] ∧ s.reminder = w
  line : s.nl = 1 → s.sep = [' ']
  le : s.nl ≤ 3

theorem lineBreaks_pos (x : Text) : 0 < lineBreaks x ∧ lineBreaks x ≤ 3 := by
  unfold lineBreaks
  split <;> decide

theorem Ready.step (_ : Ready w s) (hstep : wrapStep indent firstIndent w s = some s') : Ready w s' := by
  obtain ⟨gap, word, after, b, -, -, ⟨-, rfl⟩ | ⟨-, rfl⟩⟩ := wrapStep_cases hstep
  · have hpos := lineBreaks_pos after
    exact ⟨fun h0 => by dsimp only at h0; omega, fun _ => rfl, hpos.2⟩
  · exact ⟨nofun, nofun, by simp⟩

theorem Ready.separated (indent firstIndent : ℕ) (h : Ready w s) : ∃ x, (separated indent firstIndent w s).out ++
    (separated indent firstIndent w s).sep = s.out ++ x ∧ x ≠ [] ∧ ∀ c ∈ x, c = ' ' ∨ c = '\n' := by
  obtain ⟨out, rest, nl, sep, reminder⟩ := s
  have hle := h.le
  match nl with
  | 0 =>
    refine ⟨_, append_nil _, ?_, ?_⟩
    · split
      · simp
      · simpa
    · split <;> simp [mem_replicate, or_imp]
      · tauto
  | 1 => exact ⟨_, rfl, by simp [ToolsUtils.separated, h.line rfl], by simp [ToolsUtils.separated, h.line rfl]⟩
  | 2 => exact ⟨_, append_nil _, by simp, by simp [mem_replicate]⟩
  | 3 => exact ⟨_, append_nil _, by simp, by simp [mem_replicate]⟩

theorem Ready.rejected (h : Ready w s) (hne : (ToolsUtils.separated indent firstIndent w s).reminder ≠ w) :
    s.nl = 1 ∧ ToolsUtils.separated indent firstIndent w s = s := by
  obtain ⟨out, rest, nl, sep, reminder⟩ := s
  have hle := h.le
  match nl with
  | 0 => exact absurd (h.first rfl).2 hne
  | 1 => exact ⟨rfl, rfl⟩
  | 2 => exact absurd rfl hne
  | 3 => exact absurd rfl hne

theorem Ready.step_words (h : Ready w s) (hstep : wrapStep indent firstIndent w s = some s') :
    words s.out ++ words s.rest = words s'.out ++ words s'.rest ∧
      ((∀ c ∈ s.out, isSpace c → c = ' ' ∨ c = '\n') → ∀ c ∈ s'.out, isSpace c → c = ' ' ∨ c = '\n') ∧
      s.out <+: s'.out := by
  obtain ⟨gap, word, after, b, rfl, hnext, ⟨-, rfl⟩ | ⟨hne, rfl⟩⟩ := wrapStep_cases hstep
  · obtain ⟨x, hx, hne, hspace⟩ := h.separated indent firstIndent
    have hout : words (s.out ++ x ++ word) = words s.out ++ [word] := by
      obtain ⟨c, x, rfl⟩ := exists_cons_of_ne_nil hne
      have hall : ∀ d ∈ c :: x, isSpace d := fun d hd => by
        rcases hspace d hd with rfl | rfl <;> decide
      obtain ⟨hc, hall⟩ := forall_mem_cons.1 hall
      rw [append_assoc, cons_append, words_append hc, words_gap hall, words_word hnext.ne_nil hnext.word]
    rw [← append_assoc, hx]
    refine ⟨?_, fun hblank c hc hcspace => ?_, ⟨x ++ word, by simp⟩⟩
    · rw [hnext.words, hout, append_assoc]
      rfl
    · rw [mem_append, mem_append] at hc
      rcases hc with (hc | hc) | hc
      · exact hblank c hc hcspace
      · exact hspace c hc
      · rw [hnext.word c hc] at hcspace
        cases hcspace
  · rw [(h.rejected (not_or.1 hne).2).2, hnext.eq, words_gap hnext.space]
    exact ⟨rfl, id, prefix_rfl⟩

theorem Ready.wrapFrom (h : Ready w s) (hrun : wrapFrom indent firstIndent w fuel s = some t) :
    words t = words s.out ++ words s.rest ∧
      ((∀ c ∈ s.out, isSpace c → c = ' ' ∨ c = '\n') → ∀ c ∈ t, isSpace c → c = ' ' ∨ c = '\n') ∧
      s.out <+: t := by
  induction fuel generalizing s with
  | zero => cases hrun
  | succ fuel ih =>
    rw [ToolsUtils.wrapFrom] at hrun
    cases hstep : wrapStep indent firstIndent w s with
    | none =>
      have hrest : words s.rest = [] := by
        rw [← append_nil s.rest, words_gap (wrapStep_none hstep)]
        rfl
      rw [hstep] at hrun
      cases hrun
      rw [hrest, append_nil]
      split
      · refine ⟨(words_append (by decide)).trans (append_nil _), fun hblank c hc => ?_, prefix_append _ _⟩
        rw [mem_append, mem_singleton] at hc
        exact hc.elim (hblank c) fun heq _ => .inr heq
      · exact ⟨rfl, id, prefix_rfl⟩
    | some s' =>
      rw [hstep] at hrun
      obtain ⟨hwords, hblank, hstarts⟩ := ih (h.step hstep) hrun
      obtain ⟨hwords', hblank', hstarts'⟩ := h.step_words hstep
      exact ⟨hwords.trans hwords'.symm, hblank ∘ hblank', hstarts'.trans hstarts⟩

theorem Next.length (h : Next rest gap word after) : 0 < word.length ∧ word.length + after.length ≤ rest.length := by
  rw [h.eq, length_append, length_append]
  exact ⟨length_pos_of_ne_nil h.ne_nil, by omega⟩

theorem exists_wrapFrom (h : Ready w s) (hfuel : 2 * s.rest.length + (if s.nl = 1 then 1 else 0) < fuel) :
    ∃ t, wrapFrom indent firstIndent w fuel s = some t := by
  induction fuel generalizing s with
  | zero => omega
  | succ fuel ih =>
    rw [wrapFrom]
    cases hstep : wrapStep indent firstIndent w s with
    | none => exact ⟨_, rfl⟩
    | some s' =>
      apply ih (h.step hstep)
      obtain ⟨gap, word, after, b, rfl, hnext, ⟨-, rfl⟩ | ⟨hne, rfl⟩⟩ := wrapStep_cases hstep
      · have hlength := hnext.length
        dsimp only
        split <;> omega
      · have hlength := hnext.length
        rw [if_pos (h.rejected (not_or.1 hne).2).1] at hfuel
        rw [length_append, if_neg (by simp)]
        omega

/-! ## Lines -/

theorem fits_append : Fits w (out ++ '\n' :: x) ↔ Fits w out ∧ Fits w x := by
  rw [Fits, splitOn, splitOnP_append_cons out x (by decide)]
  exact forall_mem_append

structure Line (w : ℕ) (out content : Text) : Prop where
  eq : ∃ before n, out = before ++ (replicate n ' ' ++ content) ∧
    (before = [] ∨ ∃ lines, before = lines ++ ['\n'] ∧ Fits w lines)
  newline : '\n' ∉ content
  begin_ : ∀ x, content ≠ ' ' :: x

theorem Line.fits (h : Line w out content) : Fits w out ↔ Fitting w content := by
  obtain ⟨before, n, rfl, hbefore⟩ := h.eq
  have hlast : Fits w (replicate n ' ' ++ content) ↔ Fitting w content := by
    have hdrop : (replicate n ' ' ++ content).dropWhile (· == ' ') = content := by
      rw [dropWhile_append_of_pos (by simp [mem_replicate])]
      cases content with
      | nil => rfl
      | cons c x => exact dropWhile_cons_of_neg fun hc => h.begin_ x (by rw [eq_of_beq hc])
    rw [Fits, splitOn_eq_singleton (by simp [mem_replicate, h.newline]), forall_mem_singleton, hdrop]
  obtain rfl | ⟨lines, rfl, hlines⟩ := hbefore
  · exact hlast
  · rw [append_assoc, singleton_append, fits_append, hlast]
    exact and_iff_right hlines

theorem Line.append (h : Line w out content) (hx : '\n' ∉ x) (hbegin : ∀ y, content ++ x ≠ ' ' :: y) :
    Line w (out ++ x) (content ++ x) := by
  obtain ⟨before, n, rfl, hbefore⟩ := h.eq
  exact ⟨⟨before, n, by simp, hbefore⟩, by simp [h.newline, hx], hbegin⟩

theorem Line.not_fits (h : Line w out content) (hlong : w < content.length) (hblank : ' ' ∈ content)
    (ht : out <+: t) : ¬Fits w t := by
  obtain ⟨x, rfl⟩ := ht
  have hstill : ∀ y, '\n' ∉ y → ¬Fits w (out ++ y) := fun y hy => by
    have hbegin : ∀ z, content ++ y ≠ ' ' :: z := fun z hz => by
      cases content with
      | nil => simp at hblank
      | cons c content => exact h.begin_ content (by rw [(cons.inj hz).1])
    rw [(h.append hy hbegin).fits, Fitting, length_append]
    exact fun hfits => hfits.elim (fun hle => by omega) fun hnot => hnot (mem_append_left y hblank)
  by_cases hx : '\n' ∈ x
  · obtain ⟨y, z, rfl, hy⟩ := eq_append_cons_of_mem hx
    rw [← append_assoc, fits_append]
    exact fun hfits => hstill y hy hfits.1
  · exact hstill x hx

theorem longWordsBreak_word (h : ∀ c ∈ word, isSpace c = false) :
    LongWordsBreak w n (word ++ x) ↔ LongWordsBreak w (n + word.length) x := by
  induction word generalizing n with
  | nil => rfl
  | cons c word ih =>
    obtain ⟨hc, hword⟩ := forall_mem_cons.1 h
    rw [cons_append, LongWordsBreak, hc, if_neg (by simp), ih hword, length_cons]
    rw [show n + 1 + word.length = n + (word.length + 1) by omega]

theorem longWordsBreak_gap (h : ∀ c ∈ gap, isSpace c) : LongWordsBreak w 0 (gap ++ x) ↔ LongWordsBreak w 0 x := by
  induction gap with
  | nil => rfl
  | cons c gap ih =>
    obtain ⟨hc, hgap⟩ := forall_mem_cons.1 h
    rw [cons_append, LongWordsBreak, if_pos hc, ih hgap]
    exact and_iff_right fun hlt => absurd hlt (by omega)

theorem Next.longWordsBreak (h : Next rest gap word after) (hgood : word.length ≤ w ∨ lineBreaks after ≠ 1) :
    LongWordsBreak w 0 rest ↔ LongWordsBreak w 0 after := by
  rw [h.eq, longWordsBreak_gap h.space, longWordsBreak_word h.word]
  cases after with
  | nil => rfl
  | cons c s =>
    rw [LongWordsBreak, LongWordsBreak, if_pos (h.after c s rfl), if_pos (h.after c s rfl)]
    have hc : w < word.length → c = '\n' := fun hlt => by
      by_contra hne
      apply hgood.resolve_left (by omega)
      unfold lineBreaks
      split <;> simp_all
    apply and_congr_left'
    exact iff_of_true (fun hlt _ => hc (by omega)) fun hlt => absurd hlt (by omega)

theorem Next.longWordsBreak_over (h : Next rest gap word after) (hlong : w < word.length)
    (hbreak : lineBreaks after = 1) : LongWordsBreak w 0 rest ↔ after.all isSpace := by
  rw [h.eq, longWordsBreak_gap h.space, longWordsBreak_word h.word]
  cases after with
  | nil => exact iff_of_true trivial rfl
  | cons c s =>
    have hc : c ≠ '\n' := fun hc => by
      subst hc
      unfold lineBreaks at hbreak
      split at hbreak <;> simp_all
    have hall : s.all isSpace → LongWordsBreak w 0 s := fun hall => by
      rw [← append_nil s, longWordsBreak_gap (all_eq_true.1 hall)]
      trivial
    rw [LongWordsBreak, if_pos (h.after c s rfl), all_cons, h.after c s rfl, Bool.true_and]
    constructor
    · intro hbreaks
      by_contra hnot
      exact hc (hbreaks.1 (by omega) hnot)
    · exact fun hs => ⟨fun _ hnot => absurd hs hnot, hall hs⟩

structure Within (w : ℕ) (s : Wrapping) (content : Text) : Prop where
  line : Line w s.out content
  le : content.length ≤ w
  reminder : s.reminder = w - content.length
  sep : s.sep = if content = [] then [] else [' ']

structure Over (w : ℕ) (s : Wrapping) (content : Text) : Prop where
  line : Line w s.out content
  nl : s.nl = 1
  lt : w < content.length
  single : ' ' ∉ content
  reminder : s.reminder = 2 ^ 64 + w - content.length
  sep : s.sep = [' ']
  bound : content.length + s.rest.length < 2 ^ 64

inductive Good (w : ℕ) (s : Wrapping) : Prop
  | first (hnl : s.nl = 0) (hout : s.out = []) (hreminder : s.reminder = w)
  | broken (hnl : s.nl = 2 ∨ s.nl = 3) (hfits : Fits w s.out)
  | line (content : Text) (hnl : s.nl = 1) (hne : content ≠ []) (hwithin : Within w s content)

theorem fits_nil : Fits w [] :=
  fun line hline => by rw [eq_of_mem_singleton hline]; exact .inl (Nat.zero_le w)

theorem line_indent (h : Fits w out) : Line w (out ++ '\n' :: replicate n ' ') [] :=
  ⟨⟨out ++ ['\n'], n, by simp, .inr ⟨out, rfl, h⟩⟩, not_mem_nil, nofun⟩

theorem Good.separated (h : Good w s) :
    ∃ content, Within w (separated indent firstIndent w s) content ∧ (content ≠ [] → s.nl = 1) := by
  obtain ⟨out, rest, nl, sep, reminder⟩ := s
  cases h with
  | first hnl hout hreminder =>
    dsimp only at hnl hout hreminder
    subst hnl hout hreminder
    refine ⟨[], ⟨?_, Nat.zero_le _, rfl, rfl⟩, nofun⟩
    change Line reminder ([] ++ if firstIndent = 0 then _ else _) []
    split
    · exact line_indent fits_nil
    · exact ⟨⟨[], firstIndent, by simp, .inl rfl⟩, not_mem_nil, nofun⟩
  | broken hnl hfits =>
    dsimp only at hnl hfits
    obtain rfl | rfl := hnl
    · exact ⟨[], ⟨line_indent hfits, Nat.zero_le _, rfl, rfl⟩, nofun⟩
    · refine ⟨[], ⟨?_, Nat.zero_le _, rfl, rfl⟩, nofun⟩
      have hempty : Fits w (out ++ ['\n']) := fits_append.2 ⟨hfits, fits_nil⟩
      simpa [ToolsUtils.separated] using line_indent hempty
  | line content hnl hne hwithin =>
    dsimp only at hnl
    subst hnl
    exact ⟨content, hwithin, fun _ => rfl⟩

theorem Line.append_word {sep : Text} (h : Line w out content) (hnext : Next rest gap word after)
    (hsep : sep = if content = [] then [] else [' ']) : Line w (out ++ (sep ++ word)) (content ++ (sep ++ word)) := by
  apply h.append
  · have hword : '\n' ∉ word := fun hmem => absurd (hnext.word _ hmem) (by decide)
    rw [hsep]
    split <;> simp [hword]
  · intro y hy
    cases content with
    | nil =>
      rw [hsep, if_pos rfl] at hy
      exact absurd (hnext.word ' ' (by simp_all)) (by decide)
    | cons c content => exact h.begin_ content (by rw [(cons.inj hy).1])

theorem sizeSub_of_le {a b : ℕ} (h : b ≤ a) : sizeSub a b = a - b :=
  if_pos h

theorem Within.accepted {b : Wrapping} (h : Within w b content) (hnext : Next rest gap word after)
    (hrest : rest.length < 2 ^ 64) (hfits : word.length < b.reminder ∨ b.reminder = w)
    (hs' : s' = ⟨b.out ++ (b.sep ++ word), after, lineBreaks after, [' '],
      sizeSub b.reminder (word.length + b.sep.length)⟩) :
    (Good w s' ∧ (LongWordsBreak w 0 rest ↔ LongWordsBreak w 0 s'.rest)) ∨
      (∃ content, Over w s' content) ∧ (LongWordsBreak w 0 rest ↔ s'.rest.all isSpace) := by
  subst hs'
  have hlength := hnext.length
  have hline := h.line.append_word hnext h.sep
  have hblank : ' ' ∉ word := fun hmem => absurd (hnext.word _ hmem) (by decide)
  have hpos := lineBreaks_pos after
  by_cases hlong : (content ++ (b.sep ++ word)).length ≤ w
  · have hword : word.length ≤ w := by
      rw [length_append, length_append] at hlong
      omega
    refine .inl ⟨?_, hnext.longWordsBreak (.inl hword)⟩
    by_cases hbreak : lineBreaks after = 1
    · have hne : content ++ (b.sep ++ word) ≠ [] := by simp [hnext.ne_nil]
      refine .line _ hbreak hne ⟨hline, hlong, ?_, (if_neg hne).symm⟩
      change sizeSub b.reminder _ = _
      rw [length_append, length_append] at hlong ⊢
      rw [h.reminder, sizeSub_of_le (by omega)]
      omega
    · exact .broken (by dsimp only; omega) (hline.fits.2 (.inl hlong))
  · -- only the first word of a line can be too long
    have hnil : content = [] := by
      by_contra hne
      have hcontent := length_pos_of_ne_nil hne
      rw [length_append, length_append, h.sep, if_neg hne, length_singleton] at hlong
      have hle := h.le
      have hreminder := h.reminder
      omega
    subst hnil
    have hsep : b.sep = [] := h.sep
    have hreminder : b.reminder = w := h.reminder
    rw [hsep, nil_append, nil_append] at hline hlong
    rw [hsep, hreminder, nil_append]
    by_cases hbreak : lineBreaks after = 1
    · refine .inr ⟨⟨word, hline, hbreak, by omega, hblank, ?_, rfl, ?_⟩, hnext.longWordsBreak_over (by omega) hbreak⟩
      · unfold sizeSub
        rw [if_neg (by rw [length_nil]; omega), length_nil]
        rfl
      · dsimp only
        omega
    · exact .inl ⟨.broken (by dsimp only; omega) (hline.fits.2 (.inr hblank)), hnext.longWordsBreak (.inr hbreak)⟩

theorem Good.step (h : Good w s) (hready : Ready w s) (hrest : s.rest.length < 2 ^ 64)
    (hstep : wrapStep indent firstIndent w s = some s') :
    (Good w s' ∧ (LongWordsBreak w 0 s.rest ↔ LongWordsBreak w 0 s'.rest)) ∨
      (∃ content, Over w s' content) ∧ (LongWordsBreak w 0 s.rest ↔ s'.rest.all isSpace) := by
  obtain ⟨gap, word, after, b, rfl, hnext, ⟨hfits, hs'⟩ | ⟨hne, rfl⟩⟩ := wrapStep_cases hstep
  · obtain ⟨content, hwithin, -⟩ := h.separated
    exact hwithin.accepted hnext hrest hfits hs'
  · obtain ⟨hnl, hsame⟩ := hready.rejected (not_or.1 hne).2
    refine .inl ⟨.broken (.inl rfl) ?_, by rw [hnext.eq, longWordsBreak_gap hnext.space]⟩
    rw [hsame]
    cases h with
    | first hnl' => omega
    | broken hnl' => omega
    | line content _ _ hwithin => exact hwithin.line.fits.2 (.inl hwithin.le)

theorem wrapFrom_none (h : wrapStep indent firstIndent w s = none) :
    wrapFrom indent firstIndent w (fuel + 1) s = some (if 1 < s.nl then s.out ++ ['\n'] else s.out) := by
  rw [wrapFrom, h]

theorem wrapFrom_some (h : wrapStep indent firstIndent w s = some s') :
    wrapFrom indent firstIndent w (fuel + 1) s = wrapFrom indent firstIndent w fuel s' := by
  rw [wrapFrom, h]

theorem fits_of_over (h : Over w s content) (hready : Ready w s)
    (hrun : wrapFrom indent firstIndent w fuel s = some t) : Fits w t ↔ s.rest.all isSpace := by
  cases fuel with
  | zero => cases hrun
  | succ fuel =>
    cases hstep : wrapStep indent firstIndent w s with
    | none =>
      rw [wrapFrom_none hstep, h.nl] at hrun
      cases hrun
      exact iff_of_true (h.line.fits.2 (.inr h.single)) (all_eq_true.2 (wrapStep_none hstep))
    | some s' =>
      rw [wrapFrom_some hstep] at hrun
      obtain ⟨gap, word, after, b, hb, hnext, hcases⟩ := wrapStep_cases hstep
      have hlength := hnext.length
      have hbound := h.bound
      have hlt := h.lt
      have hreminder := h.reminder
      have hsame : separated indent firstIndent w s = s := by simp [separated, h.nl]
      obtain rfl := hb.trans hsame
      refine iff_of_false ?_ fun hall => ?_
      · -- the next word follows in the same line
        obtain ⟨-, rfl⟩ := hcases.resolve_right fun hno => by omega
        have hsep : b.sep = if content = [] then [] else [' '] := by
          rw [h.sep, if_neg (ne_nil_of_length_pos (by omega))]
        apply (h.line.append_word hnext hsep).not_fits
        · rw [length_append]
          omega
        · simp [h.sep]
        · exact ((hready.step hstep).wrapFrom hrun).2.2
      · obtain ⟨c, x, hword⟩ := exists_cons_of_ne_nil hnext.ne_nil
        have hc := hnext.word c (by simp [hword])
        rw [all_eq_true.1 hall c (by simp [hnext.eq, hword])] at hc
        cases hc

theorem fits_of_good (h : Good w s) (hready : Ready w s) (hrest : s.rest.length < 2 ^ 64)
    (hrun : wrapFrom indent firstIndent w fuel s = some t) : Fits w t ↔ LongWordsBreak w 0 s.rest := by
  induction fuel generalizing s with
  | zero => cases hrun
  | succ fuel ih =>
    cases hstep : wrapStep indent firstIndent w s with
    | none =>
      have hspace := wrapStep_none hstep
      rw [wrapFrom_none hstep] at hrun
      cases hrun
      refine iff_of_true ?_ (by rw [← append_nil s.rest, longWordsBreak_gap hspace]; trivial)
      have hout : Fits w s.out := by
        cases h with
        | first _ hout => rw [hout]; exact fits_nil
        | broken _ hfits => exact hfits
        | line content _ _ hwithin => exact hwithin.line.fits.2 (.inl hwithin.le)
      split
      · exact fits_append.2 ⟨hout, fits_nil⟩
      · exact hout
    | some s' =>
      rw [wrapFrom_some hstep] at hrun
      have hready' := hready.step hstep
      obtain ⟨hgood, hbreaks⟩ | ⟨⟨content, hover⟩, hbreaks⟩ := h.step hready hrest hstep
      · have hle : s'.rest.length ≤ s.rest.length := by
          obtain ⟨gap, word, after, b, -, hnext, ⟨-, rfl⟩ | ⟨-, rfl⟩⟩ := wrapStep_cases hstep
          · have hlength := hnext.length
            dsimp only
            omega
          · rw [hnext.eq]
            simp
        exact (ih hgood hready' (by omega) hrun).trans hbreaks.symm
      · exact (fits_of_over hover hready' hrun).trans hbreaks.symm

/-! ## The function -/

variable {message : Text} {width : ℕ}

def Wraps (message : Text) (indent firstIndent width : ℕ) : Prop :=
  ∃ out, (∃ fuel, wrapLines fuel message indent firstIndent width = some out) ∧ words out = words message ∧
    (∀ c ∈ out, isSpace c → c = ' ' ∨ c = '\n') ∧ (indent < width → Fits (width - indent) out)

theorem wraps_iff (hmessage : message.length < 2 ^ 64) : Wraps message indent firstIndent width ↔
    (indent < width → LongWordsBreak (width - indent) 0 message) := by
  have hready : ∀ w, Ready w ⟨[], message, 0, [], w⟩ := fun w => ⟨fun _ => ⟨rfl, rfl⟩, nofun, Nat.zero_le 3⟩
  have hfits : ∀ fuel out, wrapLines fuel message indent firstIndent width = some out → indent < width →
      (Fits (width - indent) out ↔ LongWordsBreak (width - indent) 0 message) := fun fuel out hrun hlt => by
    rw [wrapLines, if_pos hlt] at hrun
    have hgood : Good (width - indent) ⟨[], message, 0, [], width - indent⟩ := .first rfl rfl rfl
    exact fits_of_good hgood (hready _) hmessage hrun
  constructor
  · rintro ⟨out, ⟨fuel, hrun⟩, -, -, hout⟩ hlt
    exact (hfits fuel out hrun hlt).1 (hout hlt)
  · intro hbreaks
    have hstart := hready (if indent < width then width - indent else 0)
    obtain ⟨out, hrun⟩ : ∃ out, wrapLines (2 * message.length + 1) message indent firstIndent width = some out :=
      exists_wrapFrom hstart (by simp)
    obtain ⟨hwords, hblank, -⟩ := hstart.wrapFrom hrun
    exact ⟨out, ⟨_, hrun⟩, hwords, hblank nofun, fun hlt => (hfits _ out hrun hlt).2 (hbreaks hlt)⟩

theorem wraps_two : Wraps ['a', 'b', 'c', '\n', 'd'] 1 0 3 := by
  apply (wraps_iff (by decide)).2
  simp [LongWordsBreak, isSpace]

theorem not_wraps_long : ¬Wraps ['a', 'b', 'c', ' ', 'd'] 1 0 3 := by
  rw [wraps_iff (by decide)]
  simp [LongWordsBreak, isSpace]

end ScoreP.ToolsUtils
