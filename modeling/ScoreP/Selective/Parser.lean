import Mathlib.Algebra.Group.Int.Defs
import Mathlib.Algebra.Group.Nat.Defs
import ScoreP.Filter.Parser
import ScoreP.Foundations.Bisection
import ScoreP.Foundations.Tokens

/-!
# The selective recording file

`parseFile` follows `parse_file` of the selective recording adapter: the lines are read with
`UTILS_IO_GetLine`, `strtok` takes them apart, and every interval is added to the intervals of its region
at the position that `SCOREP_Vector_LowerBound` finds. The comparison of two instance numbers is narrowed to
an `int8_t`.
-/

namespace ScoreP.Selective

open Filter (Text)
open Foundations

structure Interval where
  first : ℕ
  last : ℕ
deriving DecidableEq

structure SelectedRegion where
  regionName : Text
  intervals : List Interval
deriving DecidableEq

/-- A conversion to `int8_t`. -/
def narrow (n : ℤ) : ℤ := Int.bmod n (2 ^ 8)

/-- `compare_intervals`: the difference of two `uint64_t`, returned as an `int8_t`. -/
def compareIntervals (value : ℕ) (item : Interval) : ℤ :=
  narrow (((value : ℤ) - item.first) % 2 ^ 64)

def strcmp : Text → Text → ℤ
  | [], [] => 0
  | [], _ :: _ => -1
  | _ :: _, [] => 1
  | a :: as, b :: bs => if a = b then strcmp as bs else if a.toNat < b.toNat then -1 else 1

def compareRegions (value : Text) (item : SelectedRegion) : ℤ :=
  narrow (strcmp value item.regionName)

section Vector

variable {α β : Type} (compareFunc : β → α → ℤ) (items : List α) (value : β)

def vectorFind : Option ℕ :=
  items.findIdx? fun item => compareFunc value item = 0

/-- The position that `SCOREP_Vector_LowerBound` stores. -/
def lowerBound : ℕ :=
  bisect (fun i => (items[i]?).any fun item => decide (0 < compareFunc value item)) items.length 0 items.length

/-- The position that `SCOREP_Vector_UpperBound` stores. -/
def upperBound : ℕ :=
  bisect (fun i => (items[i]?).any fun item => decide (0 ≤ compareFunc value item)) items.length 0 items.length

/-- What `SCOREP_Vector_UpperBound` returns. -/
def upperBoundFound : Bool :=
  decide (0 < upperBound compareFunc items value) &&
    (items[upperBound compareFunc items value - 1]?).any fun item => decide (compareFunc value item = 0)

end Vector

/-! ## Regions and their intervals -/

/-- A conversion of an `int` to `uint64_t`. -/
def toUint64 (n : ℤ) : ℕ := (n % 2 ^ 64).toNat

def addInterval (intervals : List Interval) (first last : ℕ) : List Interval :=
  insertAt intervals (lowerBound compareIntervals intervals first) ⟨first, last⟩

def insertNewRegion (regions : List SelectedRegion) (region : Text) (first last : ℤ) (index : ℕ) :
    List SelectedRegion :=
  insertAt regions index ⟨region, addInterval [] (toUint64 first) (toUint64 last)⟩

def add (regions : List SelectedRegion) (name : Text) (first last : ℤ) : List SelectedRegion :=
  match vectorFind compareRegions regions name with
  | some index =>
    regions.modify index fun region =>
      { region with intervals := addInterval region.intervals (toUint64 first) (toUint64 last) }
  | none =>
    if upperBoundFound compareRegions regions name then
      insertNewRegion regions name first last (upperBound compareRegions regions name)
    else insertNewRegion regions name first last regions.length

def selectiveGetRegion (regions : List SelectedRegion) (name : Text) : Option SelectedRegion :=
  (vectorFind compareRegions regions name).bind fun index => regions[index]?

/-! ## Lines -/

def isDigit (c : Char) : Bool := '0' ≤ c && c ≤ '9'

def decimal (digits : Text) : ℕ :=
  digits.foldl (fun n c => 10 * n + (c.toNat - '0'.toNat)) 0

/-- `sscanf` with `%d` on a string that begins with neither a blank nor a sign; the number is converted from
`long` to `int`. The variable is left alone when there is no digit. -/
def scanInt (text : Text) : Option ℤ :=
  match text.takeWhile isDigit with
  | [] => none
  | c :: digits => some (Int.bmod (min (decimal (c :: digits)) (2 ^ 63 - 1) : ℕ) (2 ^ 32))

/-- `strtok`: the next token and what it leaves of the string. -/
def strtok (delimiters text : Text) : Option (Text × Text) :=
  nextToken delimiters.contains text

def nameDelimiters : Text := [' ', '\t', '\n']

def intervalDelimiters : Text := [' ', '\t', '\n', ',']

def processInterval (regions : List SelectedRegion) (regionName interval : Text) : List SelectedRegion :=
  if interval.all fun c => isDigit c || c = ':' then
    let pos := Filter.strcspn interval [':']
    if interval.length ≤ pos then
      let start := (scanInt interval).getD 0
      add regions regionName start start
    else
      add regions regionName ((scanInt (interval.take pos)).getD 0)
        ((scanInt (interval.drop (pos + 1))).getD (-1))
  else regions

def processIntervals (regionName : Text) : ℕ → Text → List SelectedRegion → List SelectedRegion
  | 0, _, regions => regions
  | fuel + 1, rest, regions =>
    match strtok intervalDelimiters rest with
    | none => regions
    | some (interval, rest) => processIntervals regionName fuel rest (processInterval regions regionName interval)

def processLine (regions : List SelectedRegion) (buffer : Text) : List SelectedRegion :=
  match strtok nameDelimiters buffer with
  | none => regions
  | some (regionName, rest) =>
    match strtok intervalDelimiters rest with
    | none => add regions regionName 0 (-1)
    | some _ => processIntervals regionName (rest.length + 1) rest regions

def parseFile (content : Text) : Option (List SelectedRegion) :=
  (Filter.parseLines (fun regions buffer => (processLine regions buffer, none)) (content.length + 2) 0
    ⟨content, false⟩ []).map Prod.fst

end ScoreP.Selective
