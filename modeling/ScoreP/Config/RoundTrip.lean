import Mathlib.Data.List.Pairwise
import Mathlib.Tactic.IntervalCases
import ScoreP.Config.Dumping

/-!
# What is written is read back

`roundTrips_iff`: the value that is read back from the text after the equals sign is the value that was
written, for every string, boolean, number and size; for a set and an option exactly when the first
names of the entries that are written make it up again.
-/

namespace ScoreP.Config

open Foundations List

def RoundTrips (type : ConfigType) (variableContext : List SetEntry) (v : type.Object) : Prop :=
  ∀ name, ∃ text word, dumpValue true name type variableContext v = some (name ++ '=' :: text ++ ['\n']) ∧
    unquote text = some word ∧ ∀ old, parseValue true word type variableContext old = some (v, true)

def Produced (type : ConfigType) (variableContext : List SetEntry) (v : type.Object) : Prop :=
  ∃ value old, parseValue true value type variableContext old = some (v, true)

def Admissible (type : ConfigType) (variableContext : List SetEntry) : Prop :=
  type = .bitset → checkBitset variableContext = true ∧
    ∀ accepted ∈ variableContext, ∀ c ∈ accepted.name, isSeparator c = false ∧ isSpace c = false

variable {variableContext : List SetEntry}

theorem admissible_of_checked {type : ConfigType} (hcheck : checkBitset variableContext = true)
    (hfree : (variableContext.all fun accepted =>
      accepted.name.all fun c => !isSeparator c && !isSpace c) = true) : Admissible type variableContext := by
  intro _
  refine ⟨hcheck, fun accepted haccepted c hc => ?_⟩
  have hname := all_eq_true.mp hfree accepted haccepted
  simpa using all_eq_true.mp hname c hc

/-! ## Numbers -/

def NoDigit (rest : Text) : Prop :=
  ∀ c ∈ rest.head?, c.isDigit = false

theorem ofDigitChars_le (digits : Text) (number : ℕ) : number ≤ Nat.ofDigitChars 10 digits number := by
  induction digits generalizing number with
  | nil => simp
  | cons c digits ih =>
    rw [Nat.ofDigitChars_cons]
    exact le_trans (by omega) (ih _)

theorem isDigit_iff {c : Char} : c.isDigit = true ↔ 48 ≤ c.toNat ∧ c.toNat ≤ 57 := by
  simp [Char.isDigit, UInt32.le_iff_toNat_le]

theorem parseDigits_append {digits rest : Text} {number : UInt64} {consumed : Bool}
    (hdigits : ∀ c ∈ digits, c.isDigit = true) (hrest : NoDigit rest)
    (hconsumed : digits ≠ [] ∨ consumed = true) (hfits : Nat.ofDigitChars 10 digits number.toNat < 2 ^ 64) :
    parseDigits (digits ++ rest) number consumed =
      .ok ((Nat.ofDigitChars 10 digits number.toNat).toUInt64, rest) := by
  induction digits generalizing number consumed with
  | nil =>
    have hc : consumed = true := by simpa using hconsumed
    subst hc
    cases rest with
    | nil => simp [parseDigits]
    | cons c rest =>
      have hdigit : c.isDigit = false := hrest c (by simp)
      simp [parseDigits, hdigit]
  | cons c digits ih =>
    have hdigit := hdigits c (by simp)
    have hbounds := isDigit_iff.mp hdigit
    rw [Nat.ofDigitChars_cons] at hfits
    have hle := ofDigitChars_le digits (10 * number.toNat + (c.toNat - '0'.toNat))
    have hnew : (10 * number + (c.toNat - '0'.toNat).toUInt64).toNat =
        10 * number.toNat + (c.toNat - '0'.toNat) := by
      have hten : (10 : UInt64).toNat = 10 := rfl
      have hzero : '0'.toNat = 48 := rfl
      have hdigitNat : (c.toNat - '0'.toNat).toUInt64.toNat = c.toNat - '0'.toNat := by
        apply UInt64.toNat_ofNat_of_lt'
        rw [hzero, show UInt64.size = 2 ^ 64 from rfl]
        omega
      rw [UInt64.toNat_add, UInt64.toNat_mul, hten, hdigitNat]
      omega
    have hno : ¬ 10 * number + (c.toNat - '0'.toNat).toUInt64 < number := by
      rw [UInt64.lt_iff_toNat_lt, hnew]
      omega
    rw [cons_append, parseDigits, if_pos hdigit, if_neg hno]
    rw [ih (fun d hd => hdigits d (by simp [hd])) (.inr rfl) (by rw [hnew]; exact hfits), hnew,
      Nat.ofDigitChars_cons]

theorem decimal_digits {value : UInt64} : ∀ c ∈ decimal value, c.isDigit = true :=
  fun _ hc => Nat.isDigit_of_mem_toDigits (by decide) (by decide) hc

theorem skipSpaces_of_head {text : Text} (h : ∀ c ∈ text.head?, isSpace c = false) :
    skipSpaces text = text := by
  cases text with
  | nil => rfl
  | cons c text =>
    have hc := h c (by simp)
    simp [skipSpaces, hc]

theorem isSpace_of_isDigit {c : Char} (h : c.isDigit = true) : isSpace c = false := by
  have hbounds := isDigit_iff.mp h
  have hblank : c ≠ ' ' := by
    rintro rfl
    exact absurd h (by decide)
  simp only [isSpace, hblank, decide_false, Bool.false_or, Bool.and_eq_false_iff, decide_eq_false_iff_not]
  omega

theorem parseUint64_decimal (value : UInt64) {rest : Text} (hrest : NoDigit rest) :
    parseUint64 (decimal value ++ rest) = .ok (value, rest) := by
  have hskip : skipSpaces (decimal value ++ rest) = decimal value ++ rest := by
    apply skipSpaces_of_head
    intro c hc
    cases hd : decimal value with
    | nil => exact absurd hd Nat.toDigits_ne_nil
    | cons d digits =>
      rw [hd] at hc
      have hcd : c = d := by simpa using hc.symm
      subst hcd
      exact isSpace_of_isDigit (@decimal_digits value c (by simp [hd]))
  have hvalue : Nat.ofDigitChars 10 (decimal value) (0 : UInt64).toNat = value.toNat :=
    Nat.ofDigitChars_ten_toDigits
  rw [parseUint64, hskip, parseDigits_append decimal_digits hrest (.inl Nat.toDigits_ne_nil)
    (by rw [hvalue]; exact value.toNat_lt), hvalue]
  simp

theorem parseNumber_decimal (value old : UInt64) : parseNumber (decimal value) old = (value, true) := by
  have hparse := parseUint64_decimal value (fun _ h => nomatch h : NoDigit [])
  rw [append_nil] at hparse
  simp [parseNumber, hparse, skipSpaces]

theorem decimal_reads (value : UInt64) : Reads (decimal value) (decimal value) := by
  apply Reads.plain
  intro c hc
  have hdigit := decimal_digits c hc
  simp [isPlain, Char.isAlphanum, hdigit]

/-! ## Sizes -/

theorem divideSize_spec (value : UInt64) (suffix : Text) (hne : suffix ≠ []) :
    ∃ passed left, suffix = passed ++ left ∧ left ≠ [] ∧ (divideSize value suffix).2 = left ∧
      value.toNat = (divideSize value suffix).1.toNat * 1024 ^ passed.length := by
  induction suffix generalizing value with
  | nil => exact absurd rfl hne
  | cons c suffix ih =>
    cases suffix with
    | nil => exact ⟨[], [c], rfl, by simp, rfl, by simp [divideSize]⟩
    | cons next suffix =>
      rw [divideSize]
      split
      · rename_i hmod
        rcases ih (value / 1024) (by simp) with ⟨passed, left, hsuffix, hleft, hloop, hvalue⟩
        refine ⟨c :: passed, left, by rw [hsuffix, cons_append], hleft, hloop, ?_⟩
        have hdivides : value.toNat = value.toNat / 1024 * 1024 := by
          have hnat := congrArg UInt64.toNat hmod
          simp only [UInt64.toNat_mod, UInt64.reduceToNat] at hnat
          omega
        rw [UInt64.toNat_div] at hvalue
        have hvalue' : value.toNat / 1024 =
            (divideSize (value / 1024) (next :: suffix)).1.toNat * 1024 ^ passed.length := hvalue
        rw [hdivides, hvalue', length_cons, pow_succ, Nat.mul_assoc]
      · exact ⟨[], c :: next :: suffix, rfl, by simp, rfl, by simp⟩

theorem sizeScale_suffix {passed left : Text} (hsplit : " KMGTPE".toList = passed ++ left) (hne : left ≠ []) :
    sizeScale (suffixText left) = some (1024 ^ passed.length : ℕ).toUInt64 ∧
      1024 ^ passed.length < 2 ^ 64 ∧ NoDigit (suffixText left) := by
  have hleft : left = " KMGTPE".toList.drop passed.length := by simp [hsplit]
  have hlength : passed.length < 7 := by
    have hall := congrArg List.length hsplit
    have hpos := length_pos_iff.mpr hne
    rw [length_append] at hall
    have hseven : " KMGTPE".toList.length = 7 := rfl
    omega
  rw [hleft]
  generalize passed.length = n at hlength
  interval_cases n <;> refine ⟨by decide, by decide, ?_⟩ <;> intro c hc <;>
    simp [suffixText] at hc <;> subst hc <;> decide

theorem parseSize_dumped (value old : UInt64) : parseSize (decimal (divideSize value " KMGTPE".toList).1 ++
      suffixText (divideSize value " KMGTPE".toList).2) old = (value, true) := by
  rcases divideSize_spec value " KMGTPE".toList (by decide) with
    ⟨passed, left, hsplit, hne, hleft, hvalue⟩
  rcases sizeScale_suffix hsplit hne with ⟨hscale, hfits, hdigit⟩
  set number := (divideSize value " KMGTPE".toList).1 with hnumber
  have hscaleNat : (1024 ^ passed.length : ℕ).toUInt64.toNat = 1024 ^ passed.length :=
    UInt64.toNat_ofNat_of_lt' hfits
  have hproduct : number * (1024 ^ passed.length : ℕ).toUInt64 = value := by
    apply UInt64.toNat_inj.mp
    rw [UInt64.toNat_mul, hscaleNat, ← hvalue]
    exact Nat.mod_eq_of_lt value.toNat_lt
  have hno : ¬ value < number := by
    rw [UInt64.lt_iff_toNat_lt, hvalue, not_lt]
    exact Nat.le_mul_of_pos_right _ (by positivity)
  rw [hleft, parseSize, parseUint64_decimal number hdigit]
  simp [hscale, hproduct, hno, ↓reduceIte]

theorem dumpSize_reads (value : UInt64) : Reads (decimal (divideSize value " KMGTPE".toList).1 ++
      suffixText (divideSize value " KMGTPE".toList).2) (decimal (divideSize value " KMGTPE".toList).1 ++
      suffixText (divideSize value " KMGTPE".toList).2) := by
  rcases divideSize_spec value " KMGTPE".toList (by decide) with ⟨passed, left, hsplit, -, hleft, -⟩
  refine (decimal_reads _).append (Reads.plain ?_)
  rw [hleft]
  intro c hc
  have hmem : c ∈ " KMGTPE".toList ∧ c ≠ ' ' := by
    rw [hsplit]
    cases left with
    | nil => simp [suffixText] at hc
    | cons d left =>
      by_cases hd : d = ' '
      · simp [suffixText, hd] at hc
      · have hcd : c = d := by simpa [suffixText, hd] using hc
        subst hcd
        exact ⟨by simp, hd⟩
  have hall : (" KMGTPE".toList.all fun c => c = ' ' || isPlain c) = true := by decide
  simpa [hmem.2] using all_eq_true.mp hall c hmem.1

/-! ## Sets -/

theorem trimString_of_noSpace {str : Text} (h : ∀ c ∈ str, isSpace c = false) : trimString str = str := by
  have hskip : skipSpaces str = str :=
    skipSpaces_of_head fun c hc => h c (mem_of_mem_head? hc)
  have hreverse : str.reverse.dropWhile isSpace = str.reverse :=
    skipSpaces_of_head fun c hc => h c (mem_reverse.mp (mem_of_mem_head? hc))
  rw [trimString, hskip, hreverse, reverse_reverse]

theorem bitsetEntries_joined {names : List Text}
    (h : ∀ name ∈ names, ∀ c ∈ name, isSeparator c = false ∧ isSpace c = false) :
    bitsetEntries ([','].intercalate names) = names.filter (· ≠ []) := by
  have htrim : ∀ names : List Text, (∀ name ∈ names, ∀ c ∈ name, isSeparator c = false ∧ isSpace c = false) →
      names.map trimString = names := by
    intro names h
    have hcongr : names.map trimString = names.map id :=
      map_congr_left fun name hname => trimString_of_noSpace fun c hc => (h name hname c hc).2
    rw [hcongr, map_id]
  have hsplit : ∀ names : List Text, ∀ first : Text,
      (∀ name ∈ first :: names, ∀ c ∈ name, isSeparator c = false ∧ isSpace c = false) →
      ([','].intercalate (first :: names)).splitOnP isSeparator = first :: names := by
    intro names
    induction names with
    | nil =>
      intro first h
      rw [intercalate_cons, flatMap_nil, append_nil]
      exact splitOnP_eq_singleton fun c hc => (h first (by simp) c hc).1
    | cons second names ih =>
      intro first h
      rw [intercalate_cons, flatMap_cons, cons_append,
        splitOnP_append_cons_of_forall_mem (fun c hc => (h first (by simp) c hc).1) ',' (by decide),
        ← intercalate_cons, ih second fun name hname => h name (by simp [mem_cons.mp hname])]
  cases names with
  | nil => rfl
  | cons first names =>
    rw [bitsetEntries, hsplit names first h]
    exact htrim _ fun name hname => h name (mem_of_mem_filter hname)

def entriesEffect (acceptedValues : List SetEntry) (names : List Text) (bitset : UInt64) : Option UInt64 :=
  names.foldlM (fun bitset name => applyEntry acceptedValues name bitset) bitset

variable {acceptedValues : List SetEntry}

theorem applyEntries_iff {names : List Text} {bitset v : UInt64} (hne : ∀ name ∈ names, name ≠ []) :
    applyEntries acceptedValues names bitset = (v, true) ↔
      entriesEffect acceptedValues names bitset = some v := by
  induction names generalizing bitset with
  | nil => simp [applyEntries, entriesEffect]
  | cons name names ih =>
    have hname := hne name (by simp)
    have hnames := fun bitset => @ih bitset fun other hother => hne other (by simp [hother])
    rw [applyEntries, if_neg hname]
    cases ha : applyEntry acceptedValues name bitset with
    | none => simp [entriesEffect, ha]
    | some bitset' =>
      simp [hnames, entriesEffect, ha]

def writtenNames (acceptedValues : List SetEntry) (v : UInt64) : List Text :=
  (firstFit acceptedValues v).map fun accepted => firstName accepted.name

def SetRecoverable (acceptedValues : List SetEntry) (v : UInt64) : Prop :=
  (∀ name, writtenNames acceptedValues v = [name] →
    equalIcaseString name "none".toList = false ∧ equalIcaseString name "no".toList = false) ∧
  entriesEffect acceptedValues ((writtenNames acceptedValues v).filter (· ≠ [])) 0 = some v

def OptionRecoverable (acceptedValues : List SetEntry) (v : UInt64) : Prop :=
  match acceptedValues.find? fun accepted => v == accepted.value with
  | none => v = 0
  | some accepted =>
    if trimString (firstName accepted.name) = [] then v = 0
    else (findAccepted (trimString (firstName accepted.name)) acceptedValues).map (·.value) = some v

def Recoverable : (type : ConfigType) → List SetEntry → type.Object → Prop
  | .string, _, _ | .path, _, _ | .bool, _, _ | .number, _, _ | .size, _, _ => True
  | .bitset, acceptedValues, v => SetRecoverable acceptedValues v
  | .optionset, acceptedValues, v => OptionRecoverable acceptedValues v

theorem equalIcase_upper {str1 str2 : Text} (h : equalIcaseString str1 str2 = true) :
    str1.map Char.toUpper = str2.map Char.toUpper := by
  simpa [equalIcaseString] using h

theorem equalIcase_joined {names : List Text} {word : Text} (hcomma : ',' ∉ word.map Char.toUpper)
    (hne : word ≠ []) : equalIcaseString ([','].intercalate names) word = true ↔
      ∃ name, names = [name] ∧ equalIcaseString name word = true := by
  cases names with
  | nil =>
    have hnil : equalIcaseString [] word = false := by
      cases word with
      | nil => exact absurd rfl hne
      | cons c word => simp [equalIcaseString]
    simpa [List.intercalate] using hnil
  | cons first names =>
    cases names with
    | nil => simp [List.intercalate]
    | cons second names =>
      have hmem : ',' ∈ ([','].intercalate (first :: second :: names)).map Char.toUpper := by
        rw [intercalate_cons]
        exact mem_map.mpr ⟨',', by simp, by decide⟩
      constructor
      · intro h
        rw [equalIcase_upper h] at hmem
        exact absurd hmem hcomma
      · rintro ⟨name, hname, -⟩
        simp at hname

theorem firstFit_mem {v : UInt64} {accepted : SetEntry} (h : accepted ∈ firstFit acceptedValues v) :
    accepted ∈ acceptedValues := by
  induction acceptedValues generalizing v with
  | nil => simp [firstFit] at h
  | cons first acceptedValues ih =>
    rw [firstFit] at h
    split at h
    · rcases mem_cons.mp h with rfl | h
      · simp
      · exact mem_cons_of_mem _ (ih h)
    · exact mem_cons_of_mem _ (ih h)

theorem firstFit_zero (h : ∀ accepted ∈ acceptedValues, accepted.value ≠ 0) :
    firstFit acceptedValues 0 = [] := by
  induction acceptedValues with
  | nil => rfl
  | cons first acceptedValues ih =>
    have hfirst : ¬ (0 &&& first.value = first.value) := by
      intro hzero
      exact h first (by simp) (by simpa using hzero.symm)
    rw [firstFit, if_neg hfirst]
    exact ih fun accepted haccepted => h accepted (by simp [haccepted])

theorem parseBitset_entries {value : Text} (hnone : equalIcaseString value "none".toList = false)
    (hno : equalIcaseString value "no".toList = false) (hne : ∀ entry ∈ bitsetEntries value, entry ≠ []) :
    parseBitset true value acceptedValues = some (applyEntries acceptedValues (bitsetEntries value) 0) := by
  rw [parseBitset, hnone, hno]
  cases hentries : bitsetEntries value with
  | nil => rfl
  | cons entry entries =>
    cases entry with
    | nil => exact absurd rfl (hne [] (by simp [hentries]))
    | cons c entry => rfl

theorem parseBitset_joined {v : UInt64} (hctx : Admissible .bitset acceptedValues) :
    parseBitset true ([','].intercalate (writtenNames acceptedValues v)) acceptedValues = some (v, true) ↔
      SetRecoverable acceptedValues v := by
  obtain ⟨hcheck, hfree⟩ := hctx rfl
  have hvalues : ∀ accepted ∈ acceptedValues, accepted.value ≠ 0 := by
    intro accepted haccepted
    have hall := all_eq_true.mp hcheck accepted haccepted
    simp only [Bool.and_eq_true, bne_iff_ne] at hall
    exact hall.1
  have hnames : ∀ name ∈ writtenNames acceptedValues v, ∀ c ∈ name,
      isSeparator c = false ∧ isSpace c = false := by
    intro name hname c hc
    rcases mem_map.mp hname with ⟨accepted, haccepted, rfl⟩
    exact hfree accepted (firstFit_mem haccepted) c ((takeWhile_sublist _).mem hc)
  by_cases hword : ∃ name, writtenNames acceptedValues v = [name] ∧
      (equalIcaseString name "none".toList = true ∨ equalIcaseString name "no".toList = true)
  · -- the one name is a word for the empty set, which is not what was written
    rcases hword with ⟨name, hname, hword⟩
    have hparse : parseBitset true ([','].intercalate (writtenNames acceptedValues v))
        acceptedValues = some (0, true) := by
      have hjoined : [','].intercalate [name] = name := by simp [List.intercalate]
      rw [hname, hjoined, parseBitset, if_pos (by simpa using hword)]
    rw [hparse]
    constructor
    · intro hv
      simp only [Option.some.injEq, Prod.mk.injEq, and_true] at hv
      subst hv
      simp [writtenNames, firstFit_zero hvalues] at hname
    · rintro ⟨hno, -⟩
      have hboth := hno name hname
      rcases hword with hword | hword
      · exact absurd (hword.symm.trans hboth.1) (by simp)
      · exact absurd (hword.symm.trans hboth.2) (by simp)
  · have hnot : ∀ word : Text, ',' ∉ word.map Char.toUpper → word ≠ [] →
        (∀ name, writtenNames acceptedValues v = [name] → equalIcaseString name word = false) →
        equalIcaseString ([','].intercalate (writtenNames acceptedValues v)) word = false := by
      intro word hcomma hne hno
      rw [Bool.eq_false_iff, ne_eq, equalIcase_joined hcomma hne]
      rintro ⟨name, hname, heq⟩
      exact absurd (heq.symm.trans (hno name hname)) (by simp)
    have hno : ∀ name, writtenNames acceptedValues v = [name] →
        equalIcaseString name "none".toList = false ∧ equalIcaseString name "no".toList = false := by
      intro name hname
      constructor
      · exact Bool.eq_false_iff.mpr fun heq => hword ⟨name, hname, .inl heq⟩
      · exact Bool.eq_false_iff.mpr fun heq => hword ⟨name, hname, .inr heq⟩
    have hne : ∀ name ∈ (writtenNames acceptedValues v).filter (· ≠ []), name ≠ [] := by
      intro name hname
      simpa using (mem_filter.mp hname).2
    rw [parseBitset_entries (hnot _ (by decide) (by decide) fun name hname => (hno name hname).1)
        (hnot _ (by decide) (by decide) fun name hname => (hno name hname).2)
        (by rw [bitsetEntries_joined hnames]; exact hne),
      bitsetEntries_joined hnames, Option.some.injEq, applyEntries_iff hne]
    exact (and_iff_right hno).symm

/-! ## All types -/

theorem roundTrips_of_reads {type : ConfigType} {v : type.Object} {text word : Text}
    (hdump : ∀ name, dumpValue true name type variableContext v = some (name ++ '=' :: text ++ ['\n']))
    (hreads : Reads text word) : RoundTrips type variableContext v ↔
      ∀ old, parseValue true word type variableContext old = some (v, true) := by
  constructor
  · intro h
    rcases h [] with ⟨text', word', hdump', hword', hparse⟩
    have htext : text' = text := by
      have hline := (hdump []).symm.trans hdump'
      simpa using hline.symm
    subst htext
    have hsame : word = word' := by
      rw [hreads.unquote_eq] at hword'
      exact Option.some.inj hword'
    rw [hsame]
    exact hparse
  · intro hparse name
    exact ⟨text, word, hdump name, hreads.unquote_eq, hparse⟩

theorem string_roundTrips {type : ConfigType} (htype : type = .string ∨ type = .path)
    {v : type.Object} (hv : Produced type variableContext v) : RoundTrips type variableContext v := by
  rcases hv with ⟨value, old, hvalue⟩
  rcases htype with rfl | rfl
  all_goals
    cases hvalue
    exact (roundTrips_of_reads (fun _ => rfl) (singleQuote_reads rfl)).mpr fun _ => rfl

theorem bool_roundTrips (variableContext : List SetEntry) (v : Bool) : RoundTrips .bool variableContext v := by
  cases v with
  | false => exact (roundTrips_of_reads (fun _ => rfl) (Reads.plain (by simp [isPlain]))).mpr fun _ => rfl
  | true => exact (roundTrips_of_reads (fun _ => rfl) (Reads.plain (by simp [isPlain]))).mpr fun _ => rfl

theorem parseOptionset_iff {value : Text} {v : UInt64} : parseOptionset true value acceptedValues = (v, true) ↔
      if trimString value = [] then v = 0
      else (findAccepted (trimString value) acceptedValues).map (·.value) = some v := by
  rw [parseOptionset, if_neg (by simp)]
  split
  · rw [Prod.mk.injEq, and_iff_left rfl]
    exact eq_comm
  · cases findAccepted (trimString value) acceptedValues with
    | none => simp
    | some found => simp

theorem optionset_roundTrips_iff (acceptedValues : List SetEntry) (v : UInt64) :
    RoundTrips .optionset acceptedValues v ↔ OptionRecoverable acceptedValues v := by
  cases hfind : acceptedValues.find? fun accepted => v == accepted.value with
  | none =>
    have hdump : ∀ name, dumpValue true name .optionset acceptedValues v =
        some (name ++ '=' :: [] ++ ['\n']) := by
      intro name
      simp [dumpValue, dumpOptionset, hfind]
    have hrecoverable : OptionRecoverable acceptedValues v ↔ v = 0 := by
      simp [OptionRecoverable, hfind]
    rw [roundTrips_of_reads hdump Reads.nil, hrecoverable]
    constructor
    · intro h
      have hzero : some ((0 : UInt64), true) = some (v, true) := h (0 : UInt64)
      cases hzero
      rfl
    · rintro rfl old
      rfl
  | some accepted =>
    have hdump : ∀ name, dumpValue true name .optionset acceptedValues v =
        some (name ++ '=' :: ('\'' :: escapeQuotes (firstName accepted.name) ++ ['\'']) ++ ['\n']) := by
      intro name
      simp [dumpValue, dumpOptionset, hfind, singleQuote]
    have hrecoverable : OptionRecoverable acceptedValues v ↔
        parseOptionset true (firstName accepted.name) acceptedValues = (v, true) := by
      rw [parseOptionset_iff]
      simp [OptionRecoverable, hfind]
    rw [roundTrips_of_reads hdump (singleQuote_reads rfl), hrecoverable]
    constructor
    · intro h
      exact Option.some.inj (h (0 : UInt64))
    · intro h old
      exact congrArg some h

theorem bitset_roundTrips_iff (hctx : Admissible .bitset acceptedValues) (v : UInt64) :
    RoundTrips .bitset acceptedValues v ↔ SetRecoverable acceptedValues v := by
  refine (roundTrips_of_reads (fun _ => rfl) (dumpEntries_reads_joined acceptedValues v)).trans ?_
  constructor
  · intro h
    exact (parseBitset_joined hctx).mp (h (0 : UInt64))
  · intro h old
    exact (parseBitset_joined hctx).mpr h

theorem roundTrips_iff (type : ConfigType) (variableContext : List SetEntry) (v : type.Object)
    (hctx : Admissible type variableContext) (hv : Produced type variableContext v) :
    RoundTrips type variableContext v ↔ Recoverable type variableContext v := by
  cases type with
  | string => exact iff_of_true (string_roundTrips (.inl rfl) hv) trivial
  | path => exact iff_of_true (string_roundTrips (.inr rfl) hv) trivial
  | bool => exact iff_of_true (bool_roundTrips variableContext v) trivial
  | number =>
    refine iff_of_true ((roundTrips_of_reads (fun _ => rfl) (decimal_reads v)).mpr fun old => ?_) trivial
    exact congrArg some (parseNumber_decimal v old)
  | size =>
    refine iff_of_true ((roundTrips_of_reads (fun _ => rfl) (dumpSize_reads v)).mpr fun old => ?_) trivial
    exact congrArg some (parseSize_dumped v old)
  | bitset => exact bitset_roundTrips_iff hctx v
  | optionset => exact optionset_roundTrips_iff variableContext v

theorem roundTrips_iff_disjoint :
    let acceptedValues : List SetEntry := [⟨"gamma/DELTA".toList, 4⟩, ⟨"alpha".toList, 3⟩]
    RoundTrips .bitset acceptedValues (7 : UInt64) ↔ Recoverable .bitset acceptedValues (7 : UInt64) := by
  intro acceptedValues
  apply roundTrips_iff .bitset acceptedValues (7 : UInt64)
  · exact admissible_of_checked (by decide) (by decide)
  · exact ⟨"alpha:delta".toList, (0 : UInt64), by decide⟩

/-- Two entries whose masks overlap: what is left of the set after the first one is not written. -/
theorem not_roundTrips_overlapping :
    ¬ ∀ type variableContext v, Admissible type variableContext → Produced type variableContext v →
      RoundTrips type variableContext v := by
  intro h
  let acceptedValues : List SetEntry := [⟨"beta".toList, 6⟩, ⟨"alpha".toList, 3⟩]
  have htrips := h .bitset acceptedValues (7 : UInt64) (admissible_of_checked (by decide) (by decide))
    ⟨"alpha,beta".toList, (0 : UInt64), by decide⟩
  rcases htrips [] with ⟨text, word, hdump, hword, hparse⟩
  have hline : dumpValue true [] .bitset acceptedValues (7 : UInt64) = some "='beta'\n".toList := by
    decide
  have htext : text = "'beta'".toList := by
    have hsame := hdump.symm.trans hline
    have hcancel : text ++ ['\n'] = "'beta'".toList ++ ['\n'] := by simpa using hsame
    exact append_cancel_right hcancel
  have hbeta : unquote "'beta'".toList = some "beta".toList := by decide
  rw [htext, hbeta] at hword
  cases hword
  exact absurd (hparse (0 : UInt64)) (by decide)

end ScoreP.Config
