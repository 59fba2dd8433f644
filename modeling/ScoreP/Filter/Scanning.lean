import ScoreP.Filter.Parser
import ScoreP.Foundations.Scan
import Mathlib.Data.List.TakeWhile

/-!
# One line of a filter file

`stripComment`, `lineTokens` and `escapesBreak` say what a line means: its text before the first
unescaped `#`, the pieces of that text between unescaped blanks, and whether the end of the line is
escaped. `cutComment_eq` and `tokenize_eq` say what the two loops of the parser compute;
`parseLine_eq_specLine` and `parseLine_ne_specLine` say when that is what the line means.
-/

namespace ScoreP.Filter

open Foundations List

/-! ## What a line means -/

def isHash (c : Char) : Bool := c == '#'

def isEscape (c : Char) : Bool := c == '\\'

def isBlank (c : Char) : Bool := blanks.contains c

def stripComment (line : Text) : Text := upToMark isHash isEscape false line

def chomp (text : Text) : Text :=
  if text.getLast? = some '\n' then text.dropLast else text

def lineTokens (line : Text) : List Text :=
  (pieces isBlank isEscape false [] (chomp (stripComment line))).filter fun token => token != []

def escapesBreak (line : Text) : Bool := (chomp (stripComment line)).getLast? == some '\\'

variable {σ : Type}

def specLine (process : σ → Text → σ × Option ParseError) (state : σ) (line : Text) : σ × Option ParseError :=
  if escapesBreak line then (state, some .escapedLineBreak)
  else untilError process (lineTokens line) state

variable {process : σ → Text → σ × Option ParseError} {state : σ}
  {pre cur rest skip buffer line text : Text} {start fuel : ℕ} {w : Char}

/-! ## Stretches -/

theorem escapedAfter_false : escapedAfter isEscape false text = (text.getLast? == some '\\') := by
  rw [escapedAfter_getLast]
  cases text.getLast? <;> rfl

theorem escapedAfter_pre (hpre : pre.getLast? ≠ some '\\') :
    escapedAfter isEscape false (pre ++ text) = escapedAfter isEscape false text := by
  rw [escapedAfter_append, escapedAfter_false, beq_eq_false_iff_ne.2 hpre]

theorem unescaped_iff (pre rest : Text) (hlength : start = pre.length) :
    (start = 0 ∨ 0 < start ∧ (pre ++ rest)[start - 1]? ≠ some '\\') ↔
      escapedAfter isEscape false pre = false := by
  rw [escapedAfter_false, beq_eq_false_iff_ne]
  by_cases hpre : pre = []
  · rw [hpre] at hlength ⊢
    simp [hlength]
  · have hpos : 0 < pre.length := length_pos_iff.2 hpre
    have hlast : (pre ++ rest)[start - 1]? = pre.getLast? := by
      rw [hlength, getElem?_append_left (by omega), getLast?_eq_getElem?]
    rw [hlast]
    constructor
    · rintro (h | h)
      · omega
      · exact h.2
    · exact fun h => Or.inr ⟨by omega, h⟩

theorem strcspn_append (reject : Text) (hskip : ∀ c ∈ skip, reject.contains c = false)
    (hrest : ∀ c, rest.head? = some c → reject.contains c = true) :
    strcspn (skip ++ rest) reject = skip.length := by
  unfold strcspn
  induction skip with
  | nil =>
    cases rest with
    | nil => rfl
    | cons c rest => rw [nil_append, takeWhile_cons, hrest c rfl]; rfl
  | cons c skip ih =>
    rw [cons_append, takeWhile_cons, hskip c mem_cons_self]
    simp only [Bool.not_false, if_true, length_cons]
    rw [ih fun x hx => hskip x (mem_cons_of_mem c hx)]

theorem exists_stretch (reject text : Text) : ∃ skip rest, text = skip ++ rest ∧
    (∀ c ∈ skip, reject.contains c = false) ∧ ∀ c, rest.head? = some c → reject.contains c = true := by
  induction text with
  | nil => exact ⟨[], [], rfl, by simp, by simp⟩
  | cons c text ih =>
    by_cases hc : reject.contains c = true
    · refine ⟨[], c :: text, rfl, by simp, fun d hd => ?_⟩
      have hdc : c = d := by simpa using hd
      rw [← hdc, hc]
    · obtain ⟨skip, rest, htext, hskip, hrest⟩ := ih
      refine ⟨c :: skip, rest, by rw [htext]; rfl, fun d hd => ?_, hrest⟩
      obtain rfl | hd := mem_cons.1 hd
      · simpa using hc
      · exact hskip d hd

theorem take_length_append : (pre ++ rest).take pre.length = pre :=
  take_left

/-! ## Comments -/

theorem cutAt_end : cutAt pre pre.length = pre :=
  if_neg fun h => Nat.lt_irrefl _ h.1

theorem cutAt_of_escaped (h : escapedAfter isEscape false pre = true) :
    cutAt (pre ++ rest) pre.length = pre ++ rest := by
  refine if_neg fun hcut => ?_
  have hunescaped := unescaped_iff pre rest rfl
  obtain hzero | hpos := hcut.2
  · rw [length_eq_zero_iff.1 hzero.1] at h
    exact absurd h (by decide)
  · exact absurd (h.symm.trans (hunescaped.1 (Or.inr hpos))) (by decide)

theorem cutAt_of_unescaped (h : escapedAfter isEscape false pre = false) :
    cutAt (pre ++ '#' :: rest) pre.length = pre := by
  have hunescaped := unescaped_iff pre ('#' :: rest) rfl
  have hlength : pre.length < (pre ++ '#' :: rest).length := by
    simp only [length_append, length_cons]
    omega
  have hcut : pre.length = 0 ∧ (pre ++ '#' :: rest).head? = some '#' ∨
      0 < pre.length ∧ (pre ++ '#' :: rest)[pre.length - 1]? ≠ some '\\' := by
    obtain hzero | hpos := hunescaped.2 h
    · exact Or.inl ⟨hzero, by rw [length_eq_zero_iff.1 hzero]; rfl⟩
    · exact Or.inr hpos
  rw [cutAt, if_pos ⟨hlength, hcut⟩, take_length_append]

theorem cutComment_mark (hpos : start + strcspn ((pre ++ '#' :: rest).drop start) ['#'] = pre.length) :
    cutComment (fuel + 1) (pre ++ '#' :: rest) start = if escapedAfter isEscape false pre = true then
        if rest = [] then pre ++ ['#'] else cutComment fuel (pre ++ '#' :: rest) (pre.length + 1) else pre := by
  simp only [cutComment, hpos]
  by_cases hescaped : escapedAfter isEscape false pre = true
  · have hlength : (pre ++ '#' :: rest).length = pre.length + 1 + rest.length := by
      simp only [length_append, length_cons]
      omega
    rw [if_pos hescaped, cutAt_of_escaped hescaped, hlength]
    by_cases hrest : rest = []
    · rw [hrest, if_neg (by simp), if_pos rfl]
    · have hlong : 0 < rest.length := length_pos_iff.2 hrest
      rw [if_pos (by omega), if_neg hrest]
  · rw [if_neg hescaped, cutAt_of_unescaped (by simpa using hescaped), if_neg (by omega)]

theorem cutComment_eq (hlength : start = pre.length) (hfuel : rest.length < fuel) :
    cutComment fuel (pre ++ rest) start =
      pre ++ upToMark isHash isEscape (escapedAfter isEscape false pre) rest := by
  induction fuel generalizing pre rest start with
  | zero => omega
  | succ fuel ih =>
    obtain ⟨skip, tail, hrest, hskip, htail⟩ := exists_stretch ['#'] rest
    subst hrest
    have hmark : ∀ c ∈ skip, isHash c = false := fun c hc => by simpa [isHash] using hskip c hc
    have hpos : start + strcspn ((pre ++ skip ++ tail).drop start) ['#'] = (pre ++ skip).length := by
      rw [hlength, append_assoc, drop_left, strcspn_append ['#'] hskip htail, length_append]
    rw [upToMark_append hmark, ← escapedAfter_append, ← append_assoc, ← append_assoc]
    cases tail with
    | nil =>
      rw [append_nil] at hpos
      simp only [append_nil, cutComment, hpos, cutAt_end, upToMark]
      exact if_neg (by omega)
    | cons c tail =>
      have hc : c = '#' := by simpa using htail c rfl
      subst hc
      rw [cutComment_mark hpos]
      by_cases hescaped : escapedAfter isEscape false (pre ++ skip) = true
      · -- an escaped mark is kept, and what follows is not escaped
        rw [if_pos hescaped, upToMark, hescaped]
        by_cases hnil : tail = []
        · rw [if_pos hnil, hnil]
          rfl
        · have hnext := @ih (pre ++ skip ++ ['#']) tail
            ((pre ++ skip).length + 1) (by simp only [length_append, length_singleton]) (by
              simp only [length_append, length_cons] at hfuel
              omega)
          rw [escapedAfter_concat, append_assoc (pre ++ skip), append_assoc (pre ++ skip)]
            at hnext
          rw [if_neg hnil]
          exact hnext
      · have hfalse : escapedAfter isEscape false (pre ++ skip) = false := by simpa using hescaped
        rw [if_neg hescaped, hfalse]
        exact (append_nil _).symm

theorem cutComment_line : cutComment (line.length + 1) line 0 = stripComment line :=
  @cutComment_eq [] line 0 (line.length + 1) rfl (Nat.lt_succ_self _)

/-! ## Tokens -/

/-- The pieces the loop hands over: one that ends with an escape at the end of the text is left
out. -/
def keptPieces (e : Bool) (cur text : Text) : List Text :=
  if escapedAfter isEscape e text = true then (pieces isBlank isEscape e cur text).dropLast
  else pieces isBlank isEscape e cur text

def EndsInEscapedBlank (e : Bool) (text : Text) : Prop :=
  ∃ before w, text = before ++ [w] ∧ isBlank w = true ∧ escapedAfter isEscape e before = true

theorem isEscape_of_isBlank (hw : isBlank w = true) : isEscape w = false := by
  have hne : w ≠ '\\' := fun h => by rw [h] at hw; exact absurd hw (by decide)
  exact beq_eq_false_iff_ne.2 hne

theorem keptPieces_skip (hskip : ∀ c ∈ skip, isBlank c = false) :
    keptPieces (escapedAfter isEscape false cur) cur (skip ++ rest) =
      keptPieces (escapedAfter isEscape false (cur ++ skip)) (cur ++ skip) rest := by
  unfold keptPieces
  rw [pieces_append hskip, escapedAfter_append, escapedAfter_append]

theorem keptPieces_unescaped (hw : isBlank w = true) :
    keptPieces false cur (w :: rest) = cur :: keptPieces false [] rest := by
  have hpieces : pieces isBlank isEscape false cur (w :: rest) =
      cur :: pieces isBlank isEscape false [] rest := by
    simp [pieces, hw, isEscape_of_isBlank hw]
  have hescaped : escapedAfter isEscape false (w :: rest) = escapedAfter isEscape false rest := by
    rw [escapedAfter, isEscape_of_isBlank hw]
  unfold keptPieces
  rw [hpieces, hescaped, dropLast_cons_of_ne_nil pieces_ne_nil]
  split <;> rfl

theorem keptPieces_escaped (hw : isBlank w = true) :
    keptPieces true cur (w :: rest) = keptPieces false (cur ++ [w]) rest := by
  unfold keptPieces
  rw [pieces, escapedAfter, isEscape_of_isBlank hw, Bool.not_true, Bool.and_false]
  rfl

theorem cString_of_notMem (h : '\x00' ∉ text) : cString text = text := by
  refine takeWhile_eq_self_iff.2 fun c hc => bne_iff_ne.2 fun hz => h ?_
  rw [← hz]
  exact hc

theorem cString_append_nul (h : '\x00' ∉ text) : cString (text ++ '\x00' :: rest) = text := by
  have hall : ∀ c ∈ text, (c != '\x00') = true := fun c hc => bne_iff_ne.2 fun hz => h (by
    rw [← hz]
    exact hc)
  rw [cString, takeWhile_append_of_pos hall]
  simp

theorem cString_notMem : '\x00' ∉ cString text := fun h => by
  have hne := mem_takeWhile_imp h
  simp at hne

theorem tokenize_done (h : ¬start < buffer.length) {tokenStart : ℕ} :
    tokenize process fuel buffer start tokenStart state = (state, none) := by
  cases fuel with
  | zero => rfl
  | succ fuel => exact if_neg h

theorem tokenize_piece {tokenStart : ℕ} (htoken : tokenStart = pre.length)
    (hpre : pre.getLast? ≠ some '\\') (hstart : start < (pre ++ cur ++ rest).length)
    (hpos : start + strcspn ((pre ++ cur ++ rest).drop start) blanks = (pre ++ cur).length)
    (hcur : escapedAfter isEscape false cur = false) (hnul : '\x00' ∉ cur)
    (hrest : rest = [] ∨ ∃ w tail, rest = w :: tail) :
    tokenize process (fuel + 1) (pre ++ cur ++ rest) start tokenStart state =
      match process state cur with
      | (state, some err) => (state, some err)
      | (state, none) => tokenize process fuel ((pre ++ cur ++ rest).set (pre ++ cur).length '\x00')
          ((pre ++ cur).length + 1) ((pre ++ cur).length + 1) state := by
  have hunescaped := (unescaped_iff (pre ++ cur) rest rfl).2 (by rw [escapedAfter_pre hpre, hcur])
  have hle : (pre ++ cur).length ≤ (pre ++ cur ++ rest).length := by
    simp only [length_append]
    omega
  have hstring : cString (((pre ++ cur ++ rest).set (pre ++ cur).length '\x00').drop tokenStart) = cur := by
    obtain rfl | ⟨w, tail, rfl⟩ := hrest
    · rw [append_nil, set_eq_of_length_le (Nat.le_refl _), htoken, drop_left, cString_of_notMem hnul]
    · rw [set_append_right _ _ (Nat.le_refl _), Nat.sub_self, set_cons_zero, htoken,
        append_assoc, drop_left, cString_append_nul hnul]
  cases hprocess : process state cur with
  | mk state' err =>
    cases err with
    | none =>
      simp only [tokenize, if_pos hstart, hpos, if_pos (And.intro hle hunescaped), hstring, hprocess]
    | some err =>
      simp only [tokenize, if_pos hstart, hpos, if_pos (And.intro hle hunescaped), hstring, hprocess]

theorem tokenize_escaped {tokenStart : ℕ} (hpre : pre.getLast? ≠ some '\\')
    (hstart : start < (pre ++ cur ++ rest).length)
    (hpos : start + strcspn ((pre ++ cur ++ rest).drop start) blanks = (pre ++ cur).length)
    (hcur : escapedAfter isEscape false cur = true) :
    tokenize process (fuel + 1) (pre ++ cur ++ rest) start tokenStart state =
      tokenize process fuel (pre ++ cur ++ rest) ((pre ++ cur).length + 1) tokenStart state := by
  have hunescaped := (not_congr (unescaped_iff (pre ++ cur) rest rfl)).2
    (by rw [escapedAfter_pre hpre, hcur]; decide)
  simp only [tokenize, if_pos hstart, hpos, if_neg fun h => hunescaped (And.right h)]

theorem EndsInEscapedBlank.append {e : Bool} {skip : Text} (h : EndsInEscapedBlank (escapedAfter isEscape e skip) rest) :
    EndsInEscapedBlank e (skip ++ rest) := by
  obtain ⟨before, w, hrest, hw, hescaped⟩ := h
  refine ⟨skip ++ before, w, by rw [hrest, append_assoc], hw, ?_⟩
  rw [escapedAfter_append, hescaped]

theorem EndsInEscapedBlank.afterChar {e : Bool} (h : EndsInEscapedBlank (isEscape w) rest) :
    EndsInEscapedBlank e (w :: rest) :=
  @EndsInEscapedBlank.append rest e [w] h

theorem tokenize_eq (hempty : ∀ state, process state [] = (state, none)) {tokenStart : ℕ}
    (htoken : tokenStart = pre.length) (hstart : start = (pre ++ cur).length)
    (hpre : pre.getLast? ≠ some '\\') (hnul : '\x00' ∉ cur ++ rest) (hrest : rest ≠ [] ∨ cur = [])
    (hend : ¬EndsInEscapedBlank (escapedAfter isEscape false cur) rest) (hfuel : rest.length < fuel) :
    tokenize process fuel (pre ++ cur ++ rest) start tokenStart state =
      untilError process (keptPieces (escapedAfter isEscape false cur) cur rest) state := by
  induction fuel generalizing pre cur rest start tokenStart state with
  | zero => omega
  | succ fuel ih =>
    by_cases hnil : rest = []
    · have hcur : cur = [] := hrest.resolve_left fun h => h hnil
      subst hnil hcur
      have hdone : untilError process (keptPieces (escapedAfter isEscape false []) [] []) state =
          (state, none) := by
        rw [show keptPieces (escapedAfter isEscape false []) [] [] = [[]] from rfl,
          untilError_cons_of_none (by rw [hempty]), hempty]
        rfl
      rw [hdone, tokenize_done (by rw [hstart, append_nil, append_nil]; exact Nat.lt_irrefl _)]
    · obtain ⟨skip, tail, hsplit, hskip, htail⟩ := exists_stretch blanks rest
      subst hsplit
      have hlong : start < (pre ++ (cur ++ skip) ++ tail).length := by
        have hpos := length_pos_iff.2 hnil
        rw [hstart, ← append_assoc, append_assoc (pre ++ cur), @length_append _ (pre ++ cur)]
        omega
      have hpos : start + strcspn ((pre ++ (cur ++ skip) ++ tail).drop start) blanks =
          (pre ++ (cur ++ skip)).length := by
        rw [hstart, ← append_assoc, append_assoc (pre ++ cur), drop_left,
          strcspn_append blanks hskip htail, @length_append _ (pre ++ cur)]
      have hnul' : '\x00' ∉ cur ++ skip := fun h => hnul (by
        rw [← append_assoc]
        exact mem_append_left _ h)
      rw [keptPieces_skip hskip, ← append_assoc, append_assoc pre cur skip]
      cases tail with
      | nil =>
        by_cases hescaped : escapedAfter isEscape false (cur ++ skip) = true
        · have hkept : keptPieces true (cur ++ skip) [] = [] := rfl
          rw [tokenize_escaped hpre hlong hpos hescaped, hescaped, hkept, tokenize_done (by
            simp only [append_nil]
            omega)]
          rfl
        · have hfalse : escapedAfter isEscape false (cur ++ skip) = false := by simpa using hescaped
          have hkept : keptPieces false (cur ++ skip) [] = [cur ++ skip] := rfl
          rw [tokenize_piece htoken hpre hlong hpos hfalse hnul' (Or.inl rfl), hfalse, hkept, untilError]
          cases process state (cur ++ skip) with
          | mk state err =>
            cases err with
            | some err => rfl
            | none =>
              refine tokenize_done ?_
              simp only [length_set, append_nil]
              omega
      | cons w tail =>
        have hw : isBlank w = true := htail w rfl
        have hfuel' : tail.length < fuel := by
          simp only [length_append, length_cons] at hfuel
          omega
        have hnul'' : '\x00' ∉ tail := fun h => hnul (by simp [h])
        by_cases hescaped : escapedAfter isEscape false (cur ++ skip) = true
        · -- an escaped blank belongs to the token
          have hcur : cur ++ skip ++ [w] = (cur ++ skip) ++ [w] := rfl
          have hlast : escapedAfter isEscape false (cur ++ skip ++ [w]) = false := by
            rw [escapedAfter_concat, isEscape_of_isBlank hw]
          have hend' : ¬EndsInEscapedBlank (escapedAfter isEscape false (cur ++ skip ++ [w])) tail := by
            intro h
            rw [escapedAfter_concat] at h
            refine hend (EndsInEscapedBlank.append ?_)
            exact EndsInEscapedBlank.afterChar h
          have hmore : tail ≠ [] := by
            intro h
            rw [escapedAfter_append] at hescaped
            refine hend (EndsInEscapedBlank.append ⟨[], w, by rw [h]; rfl, hw, hescaped⟩)
          have hnul3 : '\x00' ∉ cur ++ skip ++ [w] ++ tail := by
            simpa [append_assoc] using hnul
          have hstart' : (pre ++ (cur ++ skip)).length + 1 = (pre ++ (cur ++ skip ++ [w])).length := by
            simp only [length_append, length_singleton]
            omega
          rw [tokenize_escaped hpre hlong hpos hescaped, hescaped, keptPieces_escaped hw, ← hlast,
            ← ih htoken hstart' hpre hnul3 (Or.inl hmore) hend' hfuel']
          simp
        · have hfalse : escapedAfter isEscape false (cur ++ skip) = false := by simpa using hescaped
          have hend' : ¬EndsInEscapedBlank (escapedAfter isEscape false []) tail := by
            intro h
            refine hend (EndsInEscapedBlank.append (EndsInEscapedBlank.afterChar ?_))
            rw [isEscape_of_isBlank hw]
            exact h
          rw [tokenize_piece htoken hpre hlong hpos hfalse hnul' (Or.inr ⟨w, tail, rfl⟩), hfalse,
            keptPieces_unescaped hw, untilError]
          cases process state (cur ++ skip) with
          | mk state err =>
            cases err with
            | some err => rfl
            | none =>
              have hset : (pre ++ (cur ++ skip) ++ w :: tail).set (pre ++ (cur ++ skip)).length
                  '\x00' = (pre ++ (cur ++ skip) ++ ['\x00']) ++ [] ++ tail := by
                rw [set_append_right _ _ (Nat.le_refl _), Nat.sub_self, set_cons_zero]
                simp
              have htoken' : (pre ++ (cur ++ skip)).length + 1 =
                  (pre ++ (cur ++ skip) ++ ['\x00']).length := by
                rw [@length_append _ (pre ++ (cur ++ skip)), length_singleton]
              have hstart' : (pre ++ (cur ++ skip)).length + 1 =
                  (pre ++ (cur ++ skip) ++ ['\x00'] ++ []).length := by
                rw [append_nil, htoken']
              have hpre' : (pre ++ (cur ++ skip) ++ ['\x00']).getLast? ≠ some '\\' := by
                rw [getLast?_append]
                simp
              simp only [hset]
              exact ih htoken' hstart' hpre' hnul'' (Or.inr rfl) hend' hfuel'

/-! ## The whole line -/

theorem notMem_stripComment (h : '\x00' ∉ line) : '\x00' ∉ stripComment line := fun hmem =>
  h (upToMark_isPrefix.subset hmem)

theorem escapesLineBreak_concat : escapesLineBreak (text ++ [w]) = (text.getLast? == some '\\') := by
  obtain rfl | ⟨before, c, rfl⟩ := eq_nil_or_concat text
  · rfl
  · rw [concat_eq_append, escapesLineBreak, getLast?_append]
    have hlength : (before ++ [c] ++ [w]).length = before.length + 2 := by simp
    have hget : (before ++ [c] ++ [w])[before.length]? = some c := by simp
    rw [hlength, Nat.add_sub_cancel, hget]
    simp

theorem endsInEscapedBlank_of (h : escapesLineBreak text = false) : ¬EndsInEscapedBlank false text := by
  rintro ⟨before, w, htext, -, hescaped⟩
  rw [htext, escapesLineBreak_concat, ← escapedAfter_false, hescaped] at h
  exact absurd h (by decide)

theorem parseLine_eq (hempty : ∀ state, process state [] = (state, none)) (hnul : '\x00' ∉ line) :
    parseLine process state line =
      if escapesLineBreak (stripComment line) = true then (state, some .escapedLineBreak)
      else untilError process (keptPieces false [] (stripComment line)) state := by
  simp only [parseLine, cutComment_line]
  by_cases hescapes : escapesLineBreak (stripComment line) = true
  · rw [if_pos hescapes, if_pos hescapes]
  · rw [if_neg hescapes, if_neg hescapes]
    by_cases hnil : stripComment line = []
    · rw [hnil, show keptPieces false [] [] = [[]] from rfl, untilError_cons_of_none (by rw [hempty]), hempty]
      rfl
    · exact tokenize_eq hempty (show 0 = ([] : Text).length from rfl) (show 0 = ([] ++ [] : Text).length from rfl) (by decide)
        (notMem_stripComment hnul) (Or.inl hnil)
        (endsInEscapedBlank_of (Bool.eq_false_iff.2 hescapes))
        (Nat.lt_succ_self _)

def EndAgrees (text : Text) : Prop :=
  text.getLast? ≠ some '\n' → (text.getLast? = some '\\' ↔ escapesLineBreak text = true)

theorem chomp_concat : chomp (text ++ ['\n']) = text := by
  rw [chomp, if_pos (by rw [getLast?_append]; rfl), dropLast_concat]

theorem chomp_of_ne (h : text.getLast? ≠ some '\n') : chomp text = text :=
  if_neg h

theorem exists_concat_of_getLast? {c : Char} (h : text.getLast? = some c) : ∃ before, text = before ++ [c] := by
  obtain ⟨before, hbefore⟩ := getLast?_eq_some_iff.1 h
  exact ⟨before, hbefore⟩

theorem keptPieces_concat (h : text.getLast? ≠ some '\\') :
    (keptPieces false [] (text ++ ['\n'])).filter (fun token => token != []) =
      (pieces isBlank isEscape false [] text).filter fun token => token != [] := by
  have hescaped : escapedAfter isEscape false text = false := by
    rw [escapedAfter_false]
    exact beq_eq_false_iff_ne.2 h
  have hkept : keptPieces false [] (text ++ ['\n']) = pieces isBlank isEscape false [] (text ++ ['\n']) :=
    if_neg (by rw [escapedAfter_concat]; decide)
  rw [hkept, pieces_concat (by decide) hescaped, filter_append]
  simp

theorem untilError_nonempty (hempty : ∀ state, process state [] = (state, none)) {tokens : List Text} :
    untilError process (tokens.filter fun token => token != []) state = untilError process tokens state :=
  untilError_filter fun state token htoken => by
    have hnil : token = [] := by simpa using htoken
    rw [hnil, hempty]

theorem parseLine_eq_specLine (hempty : ∀ state, process state [] = (state, none))
    (hnul : '\x00' ∉ line) (hend : EndAgrees (stripComment line)) :
    parseLine process state line = specLine process state line := by
  rw [parseLine_eq hempty hnul, specLine, escapesBreak, lineTokens]
  by_cases hbreak : (stripComment line).getLast? = some '\n'
  · obtain ⟨text, htext⟩ := exists_concat_of_getLast? hbreak
    rw [htext, escapesLineBreak_concat, chomp_concat]
    by_cases hescaped : text.getLast? = some '\\'
    · rw [hescaped]
      rfl
    · have hfalse : (text.getLast? == some '\\') = false := beq_eq_false_iff_ne.2 hescaped
      rw [hfalse, ← keptPieces_concat hescaped, untilError_nonempty hempty]
  · have hagrees := hend hbreak
    rw [chomp_of_ne hbreak]
    by_cases hescaped : (stripComment line).getLast? = some '\\'
    · rw [hagrees.1 hescaped, hescaped]
      rfl
    · have hfalse : ((stripComment line).getLast? == some '\\') = false :=
        beq_eq_false_iff_ne.2 hescaped
      have hescapes : escapesLineBreak (stripComment line) = false :=
        Bool.eq_false_iff.2 fun h => hescaped (hagrees.2 h)
      have hkept : keptPieces false [] (stripComment line) =
          pieces isBlank isEscape false [] (stripComment line) :=
        if_neg (by rw [escapedAfter_false, hfalse]; decide)
      rw [hescapes, hfalse, hkept, untilError_nonempty hempty]

theorem parseLine_ne_specLine (hempty : ∀ state, process state [] = (state, none))
    (herror : ∀ state token, (process state token).2 ≠ some .escapedLineBreak)
    (hnul : '\x00' ∉ line) (hend : ¬EndAgrees (stripComment line)) :
    (parseLine process state line).2 ≠ (specLine process state line).2 := by
  have hrun : ∀ (tokens : List Text) state, (untilError process tokens state).2 ≠
      some .escapedLineBreak := by
    intro tokens
    induction tokens with
    | nil => exact fun state h => nomatch h
    | cons token tokens ih =>
      intro state
      by_cases htoken : (process state token).2 = none
      · rw [untilError_cons_of_none htoken]
        exact ih _
      · rw [untilError_cons_of_some htoken]
        exact herror state token
  have hbreak : (stripComment line).getLast? ≠ some '\n' := fun h => hend fun hne => absurd h hne
  have hdisagree : ¬((stripComment line).getLast? = some '\\' ↔
      escapesLineBreak (stripComment line) = true) := fun h => hend fun _ => h
  rw [parseLine_eq hempty hnul, specLine, escapesBreak, chomp_of_ne hbreak]
  by_cases hescaped : (stripComment line).getLast? = some '\\'
  · have hescapes : ¬escapesLineBreak (stripComment line) = true := fun h =>
      hdisagree ⟨fun _ => h, fun _ => hescaped⟩
    rw [if_neg hescapes, if_pos (by rw [hescaped]; rfl)]
    exact hrun _ _
  · have hescapes : escapesLineBreak (stripComment line) = true := by
      by_contra h
      exact hdisagree ⟨fun hlast => absurd hlast hescaped, fun hesc => absurd hesc h⟩
    rw [if_pos hescapes, if_neg (by simpa using hescaped)]
    exact fun h => hrun _ _ h.symm

end ScoreP.Filter
