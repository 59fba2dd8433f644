import Mathlib.Data.UInt

/-!
# Parsing the values of config variables

Source: `SCOREP_Config.c`, from `string_to_upper` to `parse_optionset`. A `char` is a `Char` of the C
locale, a C string is the list of its characters, a parser takes the old object behind the reference of
the variable and returns the new one with its result. `parseValue` is `none` when the call does not
return.

`memory` tells whether the allocation in a parser succeeds.
-/

namespace ScoreP.Config

abbrev Text := List Char

def isSpace (c : Char) : Bool :=
  c = ' ' || (9 ≤ c.toNat && c.toNat ≤ 13)

def skipSpaces (text : Text) : Text :=
  text.dropWhile isSpace

def equalIcaseString (str1 str2 : Text) : Bool :=
  str1.map Char.toUpper == str2.map Char.toUpper

def trimString (str : Text) : Text :=
  ((skipSpaces str).reverse.dropWhile isSpace).reverse

structure SetEntry where
  name : Text
  value : UInt64
deriving DecidableEq

inductive ConfigType where
  | string
  | path
  | bool
  | number
  | size
  | bitset
  | optionset
deriving DecidableEq

def ConfigType.Object : ConfigType → Type
  | .string | .path => Option Text
  | .bool => Bool
  | .number | .size | .bitset | .optionset => UInt64

instance (type : ConfigType) : DecidableEq type.Object :=
  match type with
  | .string | .path => inferInstanceAs (DecidableEq (Option Text))
  | .bool => inferInstanceAs (DecidableEq Bool)
  | .number | .size | .bitset | .optionset => inferInstanceAs (DecidableEq UInt64)

/-! ## Strings and numbers -/

def parseString (memory : Bool) (value : Text) : Option Text × Bool :=
  if memory then (some value, true) else (none, false)

/-- What `strtol` accepts after the sign: whether the number is zero, and the rest. -/
def strtolDigits (text : Text) : Option (Bool × Text) :=
  if text.takeWhile Char.isDigit = [] then none
  else some ((text.takeWhile Char.isDigit).all (· = '0'), text.dropWhile Char.isDigit)

/-- `strtol` with base 10, as far as the parser looks at its result. -/
def strtol (value : Text) : Option (Bool × Text) :=
  match skipSpaces value with
  | '+' :: digits | '-' :: digits => strtolDigits digits
  | digits => strtolDigits digits

def parseBool (value : Text) : Bool × Bool :=
  if equalIcaseString value "true".toList || equalIcaseString value "yes".toList ||
      equalIcaseString value "on".toList then (true, true)
  else
    match strtol value with
    | some (isZero, []) => (!isZero, true)
    | _ => (false, true)

inductive NumberError where
  | range
  | invalid
deriving DecidableEq

/-- The loop of `parse_uint64` over the digits; `consumed` tells whether there was one. -/
def parseDigits : Text → UInt64 → Bool → Except NumberError (UInt64 × Text)
  | [], number, consumed => if consumed then .ok (number, []) else .error .invalid
  | c :: rest, number, consumed =>
    if c.isDigit then
      let newNumber := 10 * number + (c.toNat - '0'.toNat).toUInt64
      if newNumber < number then .error .range else parseDigits rest newNumber true
    else if consumed then .ok (number, c :: rest)
    else .error .invalid

def parseUint64 (numberString : Text) : Except NumberError (UInt64 × Text) :=
  parseDigits (skipSpaces numberString) 0 false

def parseNumber (value : Text) (old : UInt64) : UInt64 × Bool :=
  match parseUint64 value with
  | .error _ => (old, false)
  | .ok (number, rest) => (number, skipSpaces rest = [])

def parseSuffix (value : Text) : Option (UInt64 × Text) :=
  let optionalByte (rest : Text) : Text :=
    match rest with
    | [] => []
    | c :: after => if c.toUpper = 'B' then after else c :: after
  match value with
  | [] => some (1, [])
  | c :: rest =>
    match c.toUpper with
    | 'E' => some (1024 * 1024 * 1024 * 1024 * 1024 * 1024, optionalByte rest)
    | 'P' => some (1024 * 1024 * 1024 * 1024 * 1024, optionalByte rest)
    | 'T' => some (1024 * 1024 * 1024 * 1024, optionalByte rest)
    | 'G' => some (1024 * 1024 * 1024, optionalByte rest)
    | 'M' => some (1024 * 1024, optionalByte rest)
    | 'K' => some (1024, optionalByte rest)
    | 'B' => some (1, rest)
    | _ => none

def sizeScale (rest : Text) : Option UInt64 :=
  match parseSuffix (skipSpaces rest) with
  | none => none
  | some (scaleFactor, after) => if skipSpaces after = [] then some scaleFactor else none

def parseSize (value : Text) (old : UInt64) : UInt64 × Bool :=
  match parseUint64 value with
  | .error _ => (old, false)
  | .ok (number, rest) =>
    match sizeScale rest with
    | none => (number, false)
    | some scaleFactor =>
      if number * scaleFactor < number then (number, false) else (number * scaleFactor, true)

/-! ## Sets -/

def stringInAliasList (value aliases : Text) : Bool :=
  (aliases.splitOn '/').any (equalIcaseString value)

def findAccepted (name : Text) (acceptedValues : List SetEntry) : Option SetEntry :=
  acceptedValues.find? fun acceptedValue => stringInAliasList name acceptedValue.name

def isSeparator (c : Char) : Bool :=
  c = ' ' || c = ',' || c = ':' || c = ';'

/-- What `strtok` returns for one value, trimmed. -/
def bitsetEntries (value : Text) : List Text :=
  ((value.splitOnP isSeparator).filter (· ≠ [])).map trimString

/-- The effect of one entry on the set, `none` when its name is not accepted. -/
def applyEntry (acceptedValues : List SetEntry) (entry : Text) (bitset : UInt64) : Option UInt64 :=
  match entry with
  | '~' :: name => (findAccepted name acceptedValues).map fun accepted => bitset &&& ~~~accepted.value
  | name => (findAccepted name acceptedValues).map fun accepted => bitset ||| accepted.value

/-- The loop of `parse_bitset` after its first entry; empty entries are skipped. -/
def applyEntries (acceptedValues : List SetEntry) : List Text → UInt64 → UInt64 × Bool
  | [], bitset => (bitset, true)
  | entry :: entries, bitset =>
    if entry = [] then applyEntries acceptedValues entries bitset
    else
      match applyEntry acceptedValues entry bitset with
      | none => (bitset, false)
      | some bitset => applyEntries acceptedValues entries bitset

def parseBitset (memory : Bool) (value : Text) (acceptedValues : List SetEntry) : Option (UInt64 × Bool) :=
  if equalIcaseString value "none".toList || equalIcaseString value "no".toList then some (0, true)
  else if memory = false then some (0, false)
  else
    match bitsetEntries value with
    | [] :: _ => none
    | entries => some (applyEntries acceptedValues entries 0)

def parseOptionset (memory : Bool) (value : Text) (acceptedValues : List SetEntry) : UInt64 × Bool :=
  if memory = false then (0, false)
  else if trimString value = [] then (0, true)
  else
    match findAccepted (trimString value) acceptedValues with
    | none => (0, false)
    | some acceptedValue => (acceptedValue.value, true)

/-- `parse_value`, for the object `old`. -/
def parseValue (memory : Bool) (value : Text) (type : ConfigType) (variableContext : List SetEntry)
    (old : type.Object) : Option (type.Object × Bool) :=
  match type with
  | .string | .path => some (parseString memory value)
  | .bool => some (parseBool value)
  | .number => some (parseNumber value old)
  | .size => some (parseSize value old)
  | .bitset => parseBitset memory value variableContext
  | .optionset => some (parseOptionset memory value variableContext)

end ScoreP.Config
