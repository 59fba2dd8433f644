import Mathlib.Data.List.TakeWhile
import ScoreP.Config.RoundTrip

/-!
# Which numbers are accepted

Source: `parse_uint64`, `parse_number` and `parse_size` of `SCOREP_Config.c`. An overflow is looked for by
comparing the new number with the old one. `parses_iff`: a text is parsed as what it says exactly when its
value fits, or the wrap is seen after a digit or in the product.
-/

namespace ScoreP.Config

open List

/-! ## What a text says -/

def Blank (text : Text) : Prop :=
  ∀ c ∈ text, isSpace c = true

def decimalValue (digits : Text) : ℕ :=
  Nat.ofDigitChars 10 digits 0

def NumberThen (value digits rest : Text) : Prop :=
  ∃ before, value = before ++ digits ++ rest ∧ Blank before ∧ digits ≠ [] ∧ ∀ c ∈ digits, c.isDigit = true

def NumberText (value digits : Text) : Prop :=
  ∃ rest, NumberThen value digits rest ∧ Blank rest

inductive SuffixOf : Text → ℕ → Prop where
  | none : SuffixOf [] 0
  | byte {b : Char} (hb : b.toUpper = 'B') : SuffixOf [b] 0
  | scale {c : Char} {i : ℕ} (hc : ['K', 'M', 'G', 'T', 'P', 'E'][i]? = some c.toUpper) : SuffixOf [c] (i + 1)
  | scaleByte {c b : Char} {i : ℕ} (hc : ['K', 'M', 'G', 'T', 'P', 'E'][i]? = some c.toUpper)
      (hb : b.toUpper = 'B') : SuffixOf [c, b] (i + 1)

def SuffixRest (rest : Text) (power : ℕ) : Prop :=
  ∃ between suffix after, rest = between ++ suffix ++ after ∧ Blank between ∧ Blank after ∧
    SuffixOf suffix power

def SizeText (value digits : Text) (power : ℕ) : Prop :=
  ∃ rest, NumberThen value digits rest ∧ SuffixRest rest power

/-- The parser accepts numbers below `2 ^ 64` only, and stores what the text says. -/
def ParsesNumber (value : Text) : Prop :=
  ∀ old number, parseNumber value old = (number, true) ↔
    ∃ digits, NumberText value digits ∧ decimalValue digits < 2 ^ 64 ∧ number.toNat = decimalValue digits

def ParsesSize (value : Text) : Prop :=
  ∀ old number, parseSize value old = (number, true) ↔
    ∃ digits power, SizeText value digits power ∧ decimalValue digits * 1024 ^ power < 2 ^ 64 ∧
      number.toNat = decimalValue digits * 1024 ^ power

/-- After one of the digits the number is smaller than before, modulo `2 ^ 64`. -/
def WrapSeen (before digits : Text) : Prop :=
  ∃ middle c after, digits = middle ++ c :: after ∧
    decimalValue (before ++ middle ++ [c]) % 2 ^ 64 < decimalValue (before ++ middle) % 2 ^ 64

/-! ## Digits -/

theorem decimalValue_concat (before : Text) (c : Char) :
    decimalValue (before ++ [c]) = 10 * decimalValue before + (c.toNat - '0'.toNat) := by
  rw [decimalValue, Nat.ofDigitChars_append, Nat.ofDigitChars_cons, Nat.ofDigitChars_nil]
  rfl

theorem wrapSeen_cons {before digits : Text} {c : Char} : WrapSeen before (c :: digits) ↔
      decimalValue (before ++ [c]) % 2 ^ 64 < decimalValue before % 2 ^ 64 ∨
        WrapSeen (before ++ [c]) digits := by
  constructor
  · rintro ⟨middle, d, after, hdigits, hlt⟩
    cases middle with
    | nil =>
      cases hdigits
      rw [append_nil] at hlt
      exact .inl hlt
    | cons e middle =>
      cases hdigits
      refine .inr ⟨middle, d, after, rfl, ?_⟩
      simpa using hlt
  · rintro (hlt | ⟨middle, d, after, rfl, hlt⟩)
    · refine ⟨[], c, digits, rfl, ?_⟩
      rw [append_nil]
      exact hlt
    · refine ⟨c :: middle, d, after, rfl, ?_⟩
      simpa using hlt

theorem not_wrapSeen_nil (before : Text) : ¬ WrapSeen before [] := by
  rintro ⟨middle, c, after, hdigits, -⟩
  simp at hdigits

theorem decimalValue_le_append (before digits : Text) :
    decimalValue before ≤ decimalValue (before ++ digits) := by
  rw [decimalValue, decimalValue, Nat.ofDigitChars_append]
  exact ofDigitChars_le digits _

theorem not_wrapSeen_of_lt {digits : Text} (h : decimalValue digits < 2 ^ 64) : ¬ WrapSeen [] digits := by
  rintro ⟨middle, c, after, rfl, hlt⟩
  have hmiddle := decimalValue_le_append middle [c]
  have hall := decimalValue_le_append (middle ++ [c]) after
  rw [append_assoc, singleton_append] at hall
  rw [nil_append, Nat.mod_eq_of_lt (by omega), Nat.mod_eq_of_lt (by omega)] at hlt
  omega

theorem toUInt64_step (before : Text) (c : Char) :
    10 * (decimalValue before).toUInt64 + (c.toNat - '0'.toNat).toUInt64 =
      (decimalValue (before ++ [c])).toUInt64 := by
  rw [decimalValue_concat]
  simp [Nat.toUInt64]

theorem toUInt64_lt_iff (a b : ℕ) : a.toUInt64 < b.toUInt64 ↔ a % 2 ^ 64 < b % 2 ^ 64 := by
  rw [UInt64.lt_iff_toNat_lt]
  rfl

theorem parseDigits_spec {digits rest : Text} (hdigits : ∀ c ∈ digits, c.isDigit = true)
    (hrest : NoDigit rest) (before : Text) (hne : before ++ digits ≠ []) :
    (WrapSeen before digits → parseDigits (digits ++ rest) (decimalValue before).toUInt64 (before ≠ []) =
        .error .range) ∧
      (¬ WrapSeen before digits → parseDigits (digits ++ rest) (decimalValue before).toUInt64 (before ≠ []) =
        .ok ((decimalValue (before ++ digits)).toUInt64, rest)) := by
  induction digits generalizing before with
  | nil =>
    refine ⟨fun hwrap => absurd hwrap (not_wrapSeen_nil before), fun _ => ?_⟩
    rw [append_nil] at hne ⊢
    cases rest with
    | nil => simp [parseDigits, hne]
    | cons c rest =>
      have hdigit : c.isDigit = false := hrest c rfl
      simp [parseDigits, hne, hdigit]
  | cons c digits ih =>
    have hrestDigits : ∀ d ∈ digits, d.isDigit = true := fun d hd => hdigits d (mem_cons_of_mem _ hd)
    have hdigit := hdigits c mem_cons_self
    have hnext := ih hrestDigits (before ++ [c]) (by simp)
    have hconsumed : decide (before ++ [c] ≠ []) = true := by simp
    rw [hconsumed, append_assoc, singleton_append] at hnext
    rw [cons_append, parseDigits, if_pos hdigit, toUInt64_step, wrapSeen_cons]
    by_cases hlt : decimalValue (before ++ [c]) % 2 ^ 64 < decimalValue before % 2 ^ 64
    · rw [if_pos ((toUInt64_lt_iff _ _).mpr hlt)]
      exact ⟨fun _ => rfl, fun hno => absurd (.inl hlt) hno⟩
    · rw [if_neg (fun h => hlt ((toUInt64_lt_iff _ _).mp h))]
      constructor
      · rintro (h | h)
        · exact absurd h hlt
        · exact hnext.1 h
      · intro hno
        exact hnext.2 fun h => hno (.inr h)

/-! ## The parts of a text -/

theorem noDigit_of_blank {rest : Text} (h : Blank rest) : NoDigit rest := by
  intro c hc
  have hspace := h c (mem_of_mem_head? hc)
  by_contra hdigit
  simp only [Bool.not_eq_false] at hdigit
  rw [isSpace_of_isDigit hdigit] at hspace
  cases hspace

theorem skipSpaces_append {before : Text} (h : Blank before) (rest : Text) :
    skipSpaces (before ++ rest) = skipSpaces rest :=
  dropWhile_append_of_pos h

theorem skipSpaces_eq_nil {text : Text} : skipSpaces text = [] ↔ Blank text := by
  rw [skipSpaces, dropWhile_eq_nil_iff]
  rfl

theorem skipSpaces_split (text : Text) : ∃ before, text = before ++ skipSpaces text ∧ Blank before := by
  refine ⟨text.takeWhile isSpace, (takeWhile_append_dropWhile).symm, ?_⟩
  intro c hc
  exact mem_takeWhile_imp hc

variable {value digits rest : Text}

theorem numberThen_iff : NumberThen value digits rest ↔ skipSpaces value = digits ++ rest ∧ digits ≠ [] ∧
      ∀ c ∈ digits, c.isDigit = true := by
  constructor
  · rintro ⟨before, rfl, hbefore, hne, hdigits⟩
    refine ⟨?_, hne, hdigits⟩
    rw [append_assoc, skipSpaces_append hbefore]
    apply skipSpaces_of_head
    intro c hc
    cases digits with
    | nil => exact absurd rfl hne
    | cons d digits =>
      cases hc
      exact isSpace_of_isDigit (hdigits _ mem_cons_self)
  · rintro ⟨hskip, hne, hdigits⟩
    rcases skipSpaces_split value with ⟨before, hvalue, hbefore⟩
    refine ⟨before, ?_, hbefore, hne, hdigits⟩
    rw [append_assoc, ← hskip]
    exact hvalue

theorem digits_unique (h : NumberThen value digits rest) (hrest : NoDigit rest) :
    digits = (skipSpaces value).takeWhile Char.isDigit ∧ rest = (skipSpaces value).dropWhile Char.isDigit := by
  rcases numberThen_iff.mp h with ⟨hskip, -, hdigits⟩
  have hstop : rest.takeWhile Char.isDigit = [] ∧ rest.dropWhile Char.isDigit = rest := by
    cases rest with
    | nil => exact ⟨rfl, rfl⟩
    | cons c rest =>
      have hc : c.isDigit = false := hrest c rfl
      simp [hc]
  rw [hskip, takeWhile_append_of_pos hdigits, dropWhile_append_of_pos hdigits, hstop.1, hstop.2, append_nil]
  exact ⟨rfl, rfl⟩

theorem parseUint64_spec (h : NumberThen value digits rest) (hrest : NoDigit rest) :
    (WrapSeen [] digits → parseUint64 value = .error .range) ∧
      (¬ WrapSeen [] digits → parseUint64 value = .ok ((decimalValue digits).toUInt64, rest)) := by
  rcases numberThen_iff.mp h with ⟨hskip, hne, hdigits⟩
  rw [parseUint64, hskip]
  exact parseDigits_spec hdigits hrest [] hne

theorem exists_digits (text : Text) :
    ∃ digits rest, text = digits ++ rest ∧ (∀ c ∈ digits, c.isDigit = true) ∧ NoDigit rest := by
  refine ⟨text.takeWhile Char.isDigit, text.dropWhile Char.isDigit, ?_, ?_, ?_⟩
  · exact takeWhile_append_dropWhile.symm
  · intro c hc
    exact mem_takeWhile_imp hc
  · intro c hc
    have hnot := head?_dropWhile_not Char.isDigit text
    rw [Option.mem_def.mp hc] at hnot
    exact hnot

theorem numberThen_of_parseUint64 {value rest : Text} {number : UInt64}
    (h : parseUint64 value = .ok (number, rest)) :
    ∃ digits, NumberThen value digits rest ∧ NoDigit rest ∧ ¬ WrapSeen [] digits ∧
      number = (decimalValue digits).toUInt64 := by
  rcases exists_digits (skipSpaces value) with ⟨digits, tail, hskip, hdigits, hstop⟩
  by_cases hne : digits = []
  · subst hne
    rw [nil_append] at hskip
    rw [parseUint64, hskip] at h
    cases tail with
    | nil => cases h
    | cons c tail =>
      have hc : c.isDigit = false := hstop c rfl
      simp [parseDigits, hc] at h
  · have hnumber : NumberThen value digits tail := numberThen_iff.mpr ⟨hskip, hne, hdigits⟩
    have hspec := parseUint64_spec hnumber hstop
    by_cases hwrap : WrapSeen [] digits
    · rw [hspec.1 hwrap] at h
      cases h
    · rw [hspec.2 hwrap] at h
      cases h
      exact ⟨digits, hnumber, hstop, hwrap, rfl⟩

/-! ## Numbers -/

def NumberSafe (value : Text) : Prop :=
  ∀ digits, NumberText value digits → decimalValue digits < 2 ^ 64 ∨ WrapSeen [] digits

theorem parseNumber_iff {value : Text} {old number : UInt64} : parseNumber value old = (number, true) ↔
      ∃ digits, NumberText value digits ∧ ¬ WrapSeen [] digits ∧ number = (decimalValue digits).toUInt64 := by
  constructor
  · intro h
    rw [parseNumber] at h
    cases hparse : parseUint64 value with
    | error e => simp [hparse] at h
    | ok parsed =>
      rcases numberThen_of_parseUint64 hparse with ⟨digits, hnumber, -, hwrap, hvalue⟩
      simp only [hparse, Prod.mk.injEq, decide_eq_true_eq] at h
      exact ⟨digits, ⟨_, hnumber, skipSpaces_eq_nil.mp h.2⟩, hwrap, h.1.symm.trans hvalue⟩
  · rintro ⟨digits, ⟨rest, hnumber, hblank⟩, hwrap, rfl⟩
    rw [parseNumber, (parseUint64_spec hnumber (noDigit_of_blank hblank)).2 hwrap]
    simp [skipSpaces_eq_nil.mpr hblank]

theorem numberText_unique {value digits digits' : Text} (h : NumberText value digits)
    (h' : NumberText value digits') : digits = digits' := by
  rcases h with ⟨rest, hnumber, hblank⟩
  rcases h' with ⟨rest', hnumber', hblank'⟩
  rw [(digits_unique hnumber (noDigit_of_blank hblank)).1,
    (digits_unique hnumber' (noDigit_of_blank hblank')).1]

theorem toUInt64_toNat_of_lt {n : ℕ} (h : n < 2 ^ 64) : n.toUInt64.toNat = n :=
  UInt64.toNat_ofNat_of_lt' h

theorem parsesNumber_iff_safe (value : Text) : ParsesNumber value ↔ NumberSafe value := by
  constructor
  · intro h digits htext
    by_cases hwrap : WrapSeen [] digits
    · exact .inr hwrap
    · have haccepted := (@parseNumber_iff value 0 _).mpr ⟨digits, htext, hwrap, rfl⟩
      rcases (h 0 _).mp haccepted with ⟨digits', htext', hlt, -⟩
      rw [numberText_unique htext htext']
      exact .inl hlt
  · intro h old number
    rw [parseNumber_iff]
    constructor
    · rintro ⟨digits, htext, hwrap, rfl⟩
      have hlt := (h digits htext).resolve_right hwrap
      exact ⟨digits, htext, hlt, toUInt64_toNat_of_lt hlt⟩
    · rintro ⟨digits, htext, hlt, hvalue⟩
      refine ⟨digits, htext, not_wrapSeen_of_lt hlt, ?_⟩
      apply UInt64.toNat_inj.mp
      rw [hvalue, toUInt64_toNat_of_lt hlt]

/-! ## Sizes -/

variable {power : ℕ}

theorem SuffixOf.power_le {suffix : Text} (h : SuffixOf suffix power) : power ≤ 6 := by
  cases h with
  | none => omega
  | byte _ => omega
  | scale hc =>
    have hi := (List.getElem?_eq_some_iff.mp hc).1
    exact hi
  | scaleByte hc _ =>
    have hi := (List.getElem?_eq_some_iff.mp hc).1
    exact hi

variable {scaleFactor : UInt64}

theorem suffixOf_letter {c : Char} (i : ℕ) (rest : Text)
    (hc : ['K', 'M', 'G', 'T', 'P', 'E'][i]? = some c.toUpper) :
    ∃ suffix, c :: rest = suffix ++ (match rest with
      | [] => []
      | b :: tail => if b.toUpper = 'B' then tail else b :: tail) ∧ SuffixOf suffix (i + 1) := by
  cases rest with
  | nil => exact ⟨[c], rfl, .scale hc⟩
  | cons b tail =>
    by_cases hb : b.toUpper = 'B'
    · exact ⟨[c, b], by simp [hb], .scaleByte hc hb⟩
    · exact ⟨[c], by simp [hb], .scale hc⟩

theorem suffixOf_of_parseSuffix {text after : Text} (h : parseSuffix text = some (scaleFactor, after)) :
    ∃ suffix power, text = suffix ++ after ∧ SuffixOf suffix power ∧ scaleFactor.toNat = 1024 ^ power := by
  cases text with
  | nil =>
    cases h
    exact ⟨[], 0, rfl, .none, rfl⟩
  | cons c rest =>
    rw [parseSuffix] at h
    split at h
    all_goals first
      | contradiction
      | (rename_i hc
         simp only [Option.some.injEq, Prod.mk.injEq] at h
         rcases h with ⟨rfl, rfl⟩)
    · rcases suffixOf_letter 5 rest (by rw [hc]; rfl) with ⟨suffix, hsuffix, hof⟩
      exact ⟨suffix, 6, hsuffix, hof, rfl⟩
    · rcases suffixOf_letter 4 rest (by rw [hc]; rfl) with ⟨suffix, hsuffix, hof⟩
      exact ⟨suffix, 5, hsuffix, hof, rfl⟩
    · rcases suffixOf_letter 3 rest (by rw [hc]; rfl) with ⟨suffix, hsuffix, hof⟩
      exact ⟨suffix, 4, hsuffix, hof, rfl⟩
    · rcases suffixOf_letter 2 rest (by rw [hc]; rfl) with ⟨suffix, hsuffix, hof⟩
      exact ⟨suffix, 3, hsuffix, hof, rfl⟩
    · rcases suffixOf_letter 1 rest (by rw [hc]; rfl) with ⟨suffix, hsuffix, hof⟩
      exact ⟨suffix, 2, hsuffix, hof, rfl⟩
    · rcases suffixOf_letter 0 rest (by rw [hc]; rfl) with ⟨suffix, hsuffix, hof⟩
      exact ⟨suffix, 1, hsuffix, hof, rfl⟩
    · exact ⟨[c], 0, rfl, .byte hc, rfl⟩

theorem toUpper_of_isSpace {c : Char} (h : isSpace c = true) : c.toUpper = c ∧ c ≠ 'B' := by
  simp only [isSpace, Bool.or_eq_true, Bool.and_eq_true, decide_eq_true_eq] at h
  rcases h with rfl | ⟨hlow, hhigh⟩
  · decide
  · have hc : c = Char.ofNat c.toNat := (Char.ofNat_toNat c).symm
    rw [hc]
    generalize c.toNat = n at hlow hhigh
    interval_cases n <;> decide

theorem parseSuffix_of_suffixOf {suffix after : Text} (h : SuffixOf suffix power)
    (hafter : Blank after) (hnone : suffix = [] → after = []) :
    ∃ scaleFactor, parseSuffix (suffix ++ after) = some (scaleFactor, after) ∧
      scaleFactor.toNat = 1024 ^ power := by
  cases h with
  | none =>
    rw [hnone rfl]
    exact ⟨1, rfl, rfl⟩
  | byte hb => exact ⟨1, by simp [parseSuffix, hb], rfl⟩
  | @scale c i hc =>
    have hi := (List.getElem?_eq_some_iff.mp hc).1
    refine ⟨(1024 ^ (i + 1) : ℕ).toUInt64, ?_, ?_⟩
    · cases after with
      | nil =>
        simp only [length_cons, length_nil] at hi
        interval_cases i <;>
          simp only [getElem?_cons_zero, getElem?_cons_succ, Option.some.injEq] at hc <;>
          simp only [append_nil, parseSuffix, ← hc] <;> rfl
      | cons b tail =>
        -- the optional byte letter is not taken from white space
        have hb := toUpper_of_isSpace (hafter b mem_cons_self)
        simp only [length_cons, length_nil] at hi
        interval_cases i <;>
          simp only [getElem?_cons_zero, getElem?_cons_succ, Option.some.injEq] at hc <;>
          simp only [cons_append, nil_append, parseSuffix, ← hc, hb.1, hb.2, if_false] <;> rfl
    · simp only [length_cons, length_nil] at hi
      interval_cases i <;> rfl
  | @scaleByte c b i hc hb =>
    have hi := (List.getElem?_eq_some_iff.mp hc).1
    simp only [length_cons, length_nil] at hi
    refine ⟨(1024 ^ (i + 1) : ℕ).toUInt64, ?_, ?_⟩
    · interval_cases i <;>
        simp only [getElem?_cons_zero, getElem?_cons_succ, Option.some.injEq] at hc <;>
        simp only [cons_append, nil_append, parseSuffix, ← hc, hb, if_true] <;> rfl
    · interval_cases i <;> rfl

theorem SuffixOf.head_not_space {suffix : Text} (h : SuffixOf suffix power) :
    ∀ c ∈ suffix.head?, isSpace c = false := by
  have hletter : ∀ c : Char, (∃ i : ℕ, ['K', 'M', 'G', 'T', 'P', 'E'][i]? = some c.toUpper) ∨
      c.toUpper = 'B' → isSpace c = false := by
    intro c hc
    by_contra hspace
    simp only [Bool.not_eq_false] at hspace
    have hupper := (toUpper_of_isSpace hspace).1
    rcases hc with ⟨i, hi⟩ | hb
    · have hmem := mem_of_getElem? hi
      rw [hupper] at hmem
      have hall : ['K', 'M', 'G', 'T', 'P', 'E'].all (fun d => !isSpace d) = true := by decide
      have hnot := all_eq_true.mp hall c hmem
      simp [hspace] at hnot
    · rw [hupper] at hb
      exact (toUpper_of_isSpace hspace).2 hb
  cases h with
  | none => simp
  | byte hb =>
    intro c hc
    cases hc
    exact hletter _ (.inr hb)
  | scale hi =>
    intro c hc
    cases hc
    exact hletter _ (.inl ⟨_, hi⟩)
  | scaleByte hi _ =>
    intro c hc
    cases hc
    exact hletter _ (.inl ⟨_, hi⟩)

theorem noDigit_of_suffixRest {rest : Text} (h : SuffixRest rest power) : NoDigit rest := by
  have hletter : ∀ c : Char, (∃ i : ℕ, ['K', 'M', 'G', 'T', 'P', 'E'][i]? = some c.toUpper) ∨
      c.toUpper = 'B' → c.isDigit = false := by
    intro c hc
    by_contra hdigit
    simp only [Bool.not_eq_false] at hdigit
    have hbounds := isDigit_iff.mp hdigit
    have hupper : c.toUpper = c ∧ c ∉ ['K', 'M', 'G', 'T', 'P', 'E'] ∧ c ≠ 'B' := by
      have hchar : c = Char.ofNat c.toNat := (Char.ofNat_toNat c).symm
      rw [hchar]
      rcases hbounds with ⟨hlow, hhigh⟩
      generalize c.toNat = n at hlow hhigh
      interval_cases n <;> decide
    rw [hupper.1] at hc
    rcases hc with ⟨i, hi⟩ | hb
    · exact hupper.2.1 (mem_of_getElem? hi)
    · exact hupper.2.2 hb
  rcases h with ⟨between, suffix, after, rfl, hbetween, hafter, hsuffix⟩
  intro c hc
  cases between with
  | cons d between =>
    cases hc
    exact noDigit_of_blank hbetween _ rfl
  | nil =>
    cases hsuffix with
    | none => exact noDigit_of_blank hafter c hc
    | byte hb =>
      cases hc
      exact hletter _ (.inr hb)
    | scale hi =>
      cases hc
      exact hletter _ (.inl ⟨_, hi⟩)
    | scaleByte hi _ =>
      cases hc
      exact hletter _ (.inl ⟨_, hi⟩)

theorem sizeScale_iff {rest : Text} :
    sizeScale rest = some scaleFactor ↔ ∃ power, SuffixRest rest power ∧ scaleFactor.toNat = 1024 ^ power := by
  constructor
  · intro h
    rw [sizeScale] at h
    cases hparse : parseSuffix (skipSpaces rest) with
    | none => simp [hparse] at h
    | some parsed =>
      rcases parsed with ⟨factor, after⟩
      simp only [hparse] at h
      split_ifs at h with hafter
      cases h
      rcases suffixOf_of_parseSuffix hparse with ⟨suffix, power, hskip, hsuffix, hfactor⟩
      rcases skipSpaces_split rest with ⟨between, hrest, hbetween⟩
      refine ⟨power, ⟨between, suffix, after, ?_, hbetween, skipSpaces_eq_nil.mp hafter, hsuffix⟩, hfactor⟩
      rw [append_assoc, ← hskip]
      exact hrest
  · rintro ⟨power, ⟨between, suffix, after, rfl, hbetween, hafter, hsuffix⟩, hfactor⟩
    by_cases hempty : suffix = []
    · subst hempty
      cases hsuffix
      have hall : Blank (between ++ [] ++ after) := by
        intro c hc
        rw [append_nil] at hc
        rcases mem_append.mp hc with hc | hc
        · exact hbetween c hc
        · exact hafter c hc
      have hone : scaleFactor = 1 := UInt64.toNat_inj.mp hfactor
      rw [sizeScale, skipSpaces_eq_nil.mpr hall, hone]
      rfl
    · rcases parseSuffix_of_suffixOf hsuffix hafter (fun h => absurd h hempty) with ⟨factor, hparse, hnat⟩
      have hskip : skipSpaces (between ++ suffix ++ after) = suffix ++ after := by
        rw [append_assoc, skipSpaces_append hbetween]
        apply skipSpaces_of_head
        intro c hc
        apply hsuffix.head_not_space c
        rw [head?_append_of_ne_nil _ hempty] at hc
        exact hc
      have hsame : factor = scaleFactor := UInt64.toNat_inj.mp (hnat.trans hfactor.symm)
      rw [sizeScale, hskip, hparse, ← hsame]
      exact if_pos (skipSpaces_eq_nil.mpr hafter)

def SizeSafe (value : Text) : Prop :=
  ∀ digits power, SizeText value digits power → decimalValue digits * 1024 ^ power < 2 ^ 64 ∨
    WrapSeen [] digits ∨ decimalValue digits * 1024 ^ power % 2 ^ 64 < decimalValue digits % 2 ^ 64

theorem product_toNat {n power : ℕ} (h : scaleFactor.toNat = 1024 ^ power) :
    (n.toUInt64 * scaleFactor).toNat = n * 1024 ^ power % 2 ^ 64 := by
  rw [UInt64.toNat_mul, h]
  exact Nat.mod_mul_mod n (1024 ^ power) (2 ^ 64)

theorem parseSize_iff {value : Text} {old number : UInt64} : parseSize value old = (number, true) ↔
      ∃ digits power, SizeText value digits power ∧ ¬ WrapSeen [] digits ∧
        ¬ decimalValue digits * 1024 ^ power % 2 ^ 64 < decimalValue digits % 2 ^ 64 ∧
        number.toNat = decimalValue digits * 1024 ^ power % 2 ^ 64 := by
  constructor
  · intro h
    rw [parseSize] at h
    cases hparse : parseUint64 value with
    | error e => simp [hparse] at h
    | ok parsed =>
      rcases parsed with ⟨parsedNumber, rest⟩
      rcases numberThen_of_parseUint64 hparse with ⟨digits, hnumber, -, hwrap, hvalue⟩
      simp only [hparse] at h
      cases hscale : sizeScale rest with
      | none => simp [hscale] at h
      | some scaleFactor =>
        rcases sizeScale_iff.mp hscale with ⟨power, hsuffix, hfactor⟩
        simp only [hscale] at h
        split_ifs at h with hlt
        · simp at h
        · have hproduct := product_toNat (n := decimalValue digits) hfactor
          rw [UInt64.lt_iff_toNat_lt, hvalue, hproduct] at hlt
          simp only [Prod.mk.injEq, and_true] at h
          refine ⟨digits, power, ⟨rest, hnumber, hsuffix⟩, hwrap, hlt, ?_⟩
          rw [← h, hvalue, hproduct]
  · rintro ⟨digits, power, ⟨rest, hnumber, hsuffix⟩, hwrap, hlt, hvalue⟩
    have hpower : 1024 ^ power < 2 ^ 64 := by
      rcases hsuffix with ⟨-, suffix, -, -, -, -, hof⟩
      calc 1024 ^ power ≤ 1024 ^ 6 := Nat.pow_le_pow_right (by omega) hof.power_le
        _ < 2 ^ 64 := by decide
    have hfactor : (1024 ^ power).toUInt64.toNat = 1024 ^ power := toUInt64_toNat_of_lt hpower
    have hscale := sizeScale_iff.mpr ⟨power, hsuffix, hfactor⟩
    have hproduct := product_toNat (n := decimalValue digits) hfactor
    rw [parseSize, (parseUint64_spec hnumber (noDigit_of_suffixRest hsuffix)).2 hwrap]
    simp only [hscale]
    rw [if_neg]
    · rw [UInt64.toNat_inj.mp (hvalue.trans hproduct.symm)]
    · rw [UInt64.lt_iff_toNat_lt, hproduct]
      exact hlt

theorem sizeText_unique {value digits digits' : Text} {power power' : ℕ} (h : SizeText value digits power)
    (h' : SizeText value digits' power') : digits = digits' ∧ power = power' := by
  rcases h with ⟨rest, hnumber, hsuffix⟩
  rcases h' with ⟨rest', hnumber', hsuffix'⟩
  rcases digits_unique hnumber (noDigit_of_suffixRest hsuffix) with ⟨hdigits, hrest⟩
  rcases digits_unique hnumber' (noDigit_of_suffixRest hsuffix') with ⟨hdigits', hrest'⟩
  have hle : ∀ {power : ℕ}, SuffixRest rest power → 1024 ^ power < 2 ^ 64 := by
    rintro power ⟨-, suffix, -, -, -, -, hof⟩
    calc 1024 ^ power ≤ 1024 ^ 6 := Nat.pow_le_pow_right (by omega) hof.power_le
      _ < 2 ^ 64 := by decide
  rw [← hrest] at hrest'
  subst hrest'
  have hscale := sizeScale_iff.mpr ⟨power, hsuffix, toUInt64_toNat_of_lt (hle hsuffix)⟩
  have hscale' := sizeScale_iff.mpr ⟨power', hsuffix', toUInt64_toNat_of_lt (hle hsuffix')⟩
  have hsame := congrArg UInt64.toNat (Option.some.inj (hscale.symm.trans hscale'))
  rw [toUInt64_toNat_of_lt (hle hsuffix), toUInt64_toNat_of_lt (hle hsuffix')] at hsame
  exact ⟨hdigits.trans hdigits'.symm, Nat.pow_right_injective (le_refl 1024 |>.trans' (by omega)) hsame⟩

theorem parsesSize_iff_safe (value : Text) : ParsesSize value ↔ SizeSafe value := by
  constructor
  · intro h digits power htext
    by_contra hno
    push Not at hno
    rcases hno with ⟨hfits, hwrap, hlt⟩
    have hnat : (decimalValue digits * 1024 ^ power).toUInt64.toNat =
        decimalValue digits * 1024 ^ power % 2 ^ 64 := rfl
    have haccepted := (@parseSize_iff value 0 _).mpr ⟨digits, power, htext, hwrap, not_lt.mpr hlt, hnat⟩
    rcases (h 0 _).mp haccepted with ⟨digits', power', htext', hfits', -⟩
    rcases sizeText_unique htext htext' with ⟨rfl, rfl⟩
    omega
  · intro h old number
    rw [parseSize_iff]
    constructor
    · rintro ⟨digits, power, htext, hwrap, hlt, hvalue⟩
      have hfits := (h digits power htext).resolve_right fun hseen =>
        hseen.elim hwrap hlt
      refine ⟨digits, power, htext, hfits, ?_⟩
      rw [hvalue, Nat.mod_eq_of_lt hfits]
    · rintro ⟨digits, power, htext, hfits, hvalue⟩
      have hle : decimalValue digits ≤ decimalValue digits * 1024 ^ power :=
        Nat.le_mul_of_pos_right _ (Nat.pow_pos (by omega))
      have hsmall : decimalValue digits < 2 ^ 64 := by omega
      refine ⟨digits, power, htext, not_wrapSeen_of_lt hsmall, ?_, ?_⟩
      · rw [Nat.mod_eq_of_lt hfits, Nat.mod_eq_of_lt hsmall]
        omega
      · rw [hvalue, Nat.mod_eq_of_lt hfits]

/-! ## All texts -/

/-- A text is parsed as what it says exactly when its value fits, or the wrap is seen. -/
theorem parses_iff (value : Text) :
    (ParsesNumber value ↔ NumberSafe value) ∧ (ParsesSize value ↔ SizeSafe value) :=
  ⟨parsesNumber_iff_safe value, parsesSize_iff_safe value⟩

/-- The multiplication by 10 wraps past the old number: 30000000000000000000 is accepted as
11553255926290448384. -/
theorem accepts_wrapped_number : ¬ ∀ value : Text, ParsesNumber value ∧ ParsesSize value := by
  intro h
  have haccepted : parseNumber "30000000000000000000".toList 0 = (11553255926290448384, true) := by
    decide +kernel
  rcases ((h "30000000000000000000".toList).1 0 _).mp haccepted with
    ⟨digits, ⟨rest, hnumber, hblank⟩, hlt, -⟩
  have hdigits := (digits_unique hnumber (noDigit_of_blank hblank)).1
  have hvalue : decimalValue ((skipSpaces "30000000000000000000".toList).takeWhile Char.isDigit) =
      30000000000000000000 := by decide +kernel
  rw [hdigits, hvalue] at hlt
  omega

end ScoreP.Config
