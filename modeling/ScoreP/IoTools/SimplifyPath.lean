import Mathlib.Data.Int.Notation
import Mathlib.Data.List.Basic

/-!
# Simplifying a path in place

Source: `UTILS_IO_SimplifyPath` in `src/common/utils/src/io/UTILS_IO_Tools.c`. The memory behind the
pointer is the list of its characters up to the terminator of the given string, so a write behind that is
answered with `none`. So are a loop that needs more rounds than its fuel and a `memmove` with a negative
number of characters. The integers of the code do not overflow.
-/

namespace ScoreP.IoTools

abbrev Memory := List Char

def nul : Char := '\x00'

/-- `path[ i ] = c` -/
def write (path : Memory) (i : ℤ) (c : Char) : Option Memory :=
  if 0 ≤ i ∧ i < path.length then some (path.set i.toNat c) else none

/-- `memmove( &path[ dst ], &path[ src ], count )` -/
def memmove (path : Memory) (dst src : ℕ) (count : ℤ) : Option Memory :=
  if 0 ≤ count ∧ dst + count ≤ path.length ∧ src + count ≤ path.length then
    some (path.take dst ++ (path.drop src).take count.toNat ++ path.drop (dst + count.toNat))
  else none

structure Squeezed where
  path : Memory
  len : ℕ
  level : ℕ
  hasSlashes : Bool

def squeeze : ℕ → Squeezed → Option Squeezed
  | 0, _ => none
  | fuel + 1, ⟨path, len, level, hasSlashes⟩ =>
    match path[len]? with
    | none => none
    | some c =>
      if c = nul then some ⟨path, len, level, hasSlashes⟩
      else do
        let path ← write path (len - level) c
        let hasSlashes := hasSlashes || path[len]? == some '/'
        let level := if path[len]? = some '/' ∧ path[len + 1]? = some '/' then level + 1 else level
        if path[len]? = some '/' ∧ path[len + 1]? = some '.' ∧ path[len + 2]? = some '/' then
          squeeze fuel ⟨path, len + 2, level + 2, hasSlashes⟩
        else squeeze fuel ⟨path, len + 1, level, hasSlashes⟩

structure Scan where
  path : Memory
  len : ℕ
  level : ℕ
  cutEnd : ℕ

/-- A /../ or /.. at the end of the path, whose last character stands at `pos`. -/
def IsUp (path : Memory) (pos : ℕ) : Prop :=
  3 ≤ pos ∧ (path[pos + 1]? = some '/' ∨ path[pos + 1]? = some nul) ∧ path[pos]? = some '.' ∧
    path[pos - 1]? = some '.' ∧ path[pos - 2]? = some '/'

instance (path : Memory) (pos : ℕ) : Decidable (IsUp path pos) :=
  inferInstanceAs (Decidable (_ ∧ _))

/-- Removes /.. structures; `pos + 1` characters are still to be looked at. -/
def removeUps : ℕ → Scan → ℕ → Option Scan
  | _, s, 0 => some s
  | 0, _, _ + 1 => none
  | fuel + 1, s, pos + 1 =>
    if IsUp s.path pos then
      removeUps fuel { s with
        cutEnd := if s.level = 0 then pos + 1 else s.cutEnd
        level := s.level + 1 } (pos - 2)
    else if s.path[pos]? = some '/' then
      if 0 < s.level then
        if s.level - 1 = 0 then do
          -- cut piece out
          let diff := s.cutEnd - pos
          let len := s.len - diff
          let path ← memmove s.path pos (pos + diff) (len - pos + 1)
          removeUps fuel ⟨path, len, 0, pos⟩ pos
        else removeUps fuel { s with level := s.level - 1 } pos
      else removeUps fuel { s with cutEnd := pos } pos
    else removeUps fuel s pos

/-- `level` times a leading ../ from `pos` on. -/
def writeUps : ℕ → ℕ → Memory → Option Memory
  | 0, _, path => some path
  | level + 1, pos, path => do
    let path ← write path pos '.'
    let path ← write path (pos + 1 : ℕ) '.'
    let path ← write path (pos + 2 : ℕ) '/'
    writeUps level (pos + 3) path

def firstLevel (path : Memory) (level : ℕ) : ℕ :=
  if path[0]? = some '.' ∧ path[1]? = some '.' ∧ path[2]? = some '/' then level + 1
  else if path[0]? ≠ some '.' ∨ path[1]? ≠ some '/' then level - 1
  else level

def processFirst (s : Scan) : Option (Memory × ℤ) :=
  if s.path[0]? ≠ some '/' ∧ 0 < s.level then do
    let level := firstLevel s.path s.level
    let path ← writeUps level 0 s.path
    let pos := level * 3
    -- cut piece out, omit leading slash
    let cutEnd := s.cutEnd + 1
    let len : ℤ := s.len - (cutEnd - pos)
    let path ← memmove path pos cutEnd (len - pos + 1)
    let path ← if len < 0 then write path 0 nul else some path
    return (path, len)
  else some (s.path, s.len)

def hasPath (path : Memory) : Bool :=
  (path.takeWhile (· ≠ nul)).contains '/'

def addTrailingSlash (path : Memory) (len : ℤ) : Option Memory := do
  let path ← write path len '/'
  write path (len + 1) nul

def simplifyPath (path : Memory) : Option Memory := do
  let hasStartingSlash := path[0]? == some '/'
  let s ← squeeze path.length ⟨path, 0, 0, false⟩
  -- determine string length and terminate string
  let len := s.len - s.level
  let hasTrailingSlash := decide (0 < len) && s.path[len - 1]? == some '/'
  let len := if hasTrailingSlash then len - 1 else len
  let path ← write s.path len nul
  let scan ← removeUps len ⟨path, len, 0, len⟩ len
  let (path, len) ← processFirst scan
  let path ← if hasTrailingSlash then addTrailingSlash path len else some path
  -- add starting slash if string empty
  let path ← if hasStartingSlash && path[0]? == some nul then addTrailingSlash path 0 else some path
  -- ensure it still has slashes if it had some before
  if s.hasSlashes && !hasPath path && path[0]? != some nul then do
    let path ← memmove path 2 0 (len + 1)
    let path ← write path 0 '.'
    write path 1 '/'
  else some path

end ScoreP.IoTools
