import ScoreP.Config.Parsing
import ScoreP.Foundations.Shell

/-!
# Writing the values of config variables

Source: `SCOREP_Config.c`, `check_bitset` and from `single_quote_stringn` to `dump_value`. A writer
returns the line it appends to the file. `memory` tells whether the allocations for the quoted strings
succeed. `dumpValue` is `none` when a null pointer is read.

`singleQuote_reads` gives the meaning of a quoted string for the shell, `dumpEntries_reads` that of the
entries of a set.
-/

namespace ScoreP.Config

open Foundations

def checkBitset (acceptedValues : List SetEntry) : Bool :=
  acceptedValues.all fun acceptedValue =>
    acceptedValue.value != 0 && !(equalIcaseString acceptedValue.name "no".toList ||
      equalIcaseString acceptedValue.name "none".toList)

/-- The loop of `single_quote_stringn`. -/
def escapeQuotes : Text → Text
  | [] => []
  | c :: rest =>
    if c = '\'' ∨ c = '!' then '\'' :: '\\' :: c :: '\'' :: escapeQuotes rest
    else c :: escapeQuotes rest

/-- `single_quote_stringn`. -/
def singleQuote (memory : Bool) (str : Text) : Option Text :=
  if memory then some ('\'' :: escapeQuotes str ++ ['\'']) else none

def firstName (aliases : Text) : Text :=
  aliases.takeWhile (· ≠ '/')

/-- The loop of `dump_bitset`. -/
def dumpEntries (memory : Bool) : List SetEntry → UInt64 → Text → Text
  | [], _, _ => []
  | acceptedValue :: acceptedValues, bitmask, sep =>
    if bitmask &&& acceptedValue.value = acceptedValue.value then
      match singleQuote memory (firstName acceptedValue.name) with
      | none => []
      | some quotedString =>
        sep ++ quotedString ++ dumpEntries memory acceptedValues (bitmask &&& ~~~acceptedValue.value) [',']
    else dumpEntries memory acceptedValues bitmask sep

def dumpBitset (memory : Bool) (name : Text) (bitmask : UInt64) (acceptedValues : List SetEntry) : Text :=
  name ++ '=' :: dumpEntries memory acceptedValues bitmask [] ++ ['\n']

def dumpOptionset (memory : Bool) (name : Text) (option : UInt64) (acceptedValues : List SetEntry) : Text :=
  let written :=
    match acceptedValues.find? fun acceptedValue => option == acceptedValue.value with
    | none => []
    | some acceptedValue => (singleQuote memory (firstName acceptedValue.name)).getD []
  name ++ '=' :: written ++ ['\n']

/-- `PRIu64`. -/
def decimal (value : UInt64) : Text :=
  Nat.toDigits 10 value.toNat

/-- The loop of `dump_size`: the value is divided as long as it can be and there is another suffix. -/
def divideSize : UInt64 → Text → UInt64 × Text
  | value, c :: next :: suffix =>
    if value % 1024 = 0 then divideSize (value / 1024) (next :: suffix) else (value, c :: next :: suffix)
  | value, suffix => (value, suffix)

def suffixText (suffix : Text) : Text :=
  if suffix.head? = some ' ' then [] else suffix.take 1

def dumpSize (name : Text) (value : UInt64) : Text :=
  let (value, suffix) := divideSize value " KMGTPE".toList
  name ++ '=' :: (decimal value ++ suffixText suffix) ++ ['\n']

def dumpValue (memory : Bool) (name : Text) (type : ConfigType) (variableContext : List SetEntry)
    (object : type.Object) : Option Text :=
  match type with
  | .string | .path =>
    (object : Option Text).map fun str =>
      match singleQuote memory str with
      | none => []
      | some quotedValue => name ++ '=' :: quotedValue ++ ['\n']
  | .bool =>
    let value : Bool := object
    some (name ++ '=' :: (if value then "true" else "false").toList ++ ['\n'])
  | .number => some (name ++ '=' :: decimal object ++ ['\n'])
  | .size => some (dumpSize name object)
  | .bitset => some (dumpBitset memory name object variableContext)
  | .optionset => some (dumpOptionset memory name object variableContext)

/-! ## What the shell reads -/

theorem escapeQuotes_inside (str rest : Text) :
    unquoteFrom .inside (escapeQuotes str ++ rest) = (unquoteFrom .inside rest).map (str ++ ·) := by
  induction str with
  | nil => simp [escapeQuotes]
  | cons c str ih =>
    by_cases hc : c = '\'' ∨ c = '!'
    · -- the quotes are closed for the escaped character
      have hline : c ≠ '\n' := by
        rintro rfl
        exact absurd hc (by decide)
      simp only [escapeQuotes, hc, ↓reduceIte, List.cons_append, unquoteFrom, hline,
        show ('\\' = '\'') = False by decide, ih, Option.map_map]
      rfl
    · have hquote : c ≠ '\'' := fun h => hc (.inl h)
      rw [escapeQuotes, if_neg hc]
      simp only [List.cons_append, unquoteFrom, hquote, ↓reduceIte, ih, Option.map_map]
      rfl

theorem singleQuote_reads {str quotedString : Text} (h : singleQuote true str = some quotedString) :
    Reads quotedString str := by
  cases h
  intro rest
  simp [unquoteFrom, ↓reduceIte, escapeQuotes_inside]

theorem intercalate_cons (first : Text) (names : List Text) :
    [','].intercalate (first :: names) = first ++ names.flatMap fun name => ',' :: name := by
  induction names generalizing first with
  | nil => simp [List.intercalate]
  | cons second names ih =>
    have hrest := ih second
    simp only [List.intercalate, List.intersperse_cons_cons, List.flatten_cons] at hrest ⊢
    rw [hrest]
    simp

def firstFit : List SetEntry → UInt64 → List SetEntry
  | [], _ => []
  | acceptedValue :: acceptedValues, bitmask =>
    if bitmask &&& acceptedValue.value = acceptedValue.value then
      acceptedValue :: firstFit acceptedValues (bitmask &&& ~~~acceptedValue.value)
    else firstFit acceptedValues bitmask

theorem dumpEntries_reads (acceptedValues : List SetEntry) (bitmask : UInt64) :
    Reads (dumpEntries true acceptedValues bitmask [','])
      ((firstFit acceptedValues bitmask).flatMap fun accepted => ',' :: firstName accepted.name) := by
  induction acceptedValues generalizing bitmask with
  | nil => exact Reads.nil
  | cons acceptedValue acceptedValues ih =>
    rw [dumpEntries, firstFit]
    split
    · have hcomma : Reads [','] [','] := Reads.plain (by simp [isPlain])
      have hname : Reads ('\'' :: escapeQuotes (firstName acceptedValue.name) ++ ['\''])
          (firstName acceptedValue.name) := singleQuote_reads rfl
      exact (hcomma.append hname).append (ih _)
    · exact ih _

theorem dumpEntries_reads_joined (acceptedValues : List SetEntry) (bitmask : UInt64) :
    Reads (dumpEntries true acceptedValues bitmask [])
      ([','].intercalate ((firstFit acceptedValues bitmask).map fun accepted => firstName accepted.name)) := by
  induction acceptedValues generalizing bitmask with
  | nil => exact Reads.nil
  | cons acceptedValue acceptedValues ih =>
    rw [dumpEntries, firstFit]
    split
    · have hname : Reads ('\'' :: escapeQuotes (firstName acceptedValue.name) ++ ['\''])
          (firstName acceptedValue.name) := singleQuote_reads rfl
      have hread := hname.append (dumpEntries_reads acceptedValues (bitmask &&& ~~~acceptedValue.value))
      rw [List.map_cons, intercalate_cons, List.flatMap_map]
      exact hread
    · exact ih _

end ScoreP.Config
