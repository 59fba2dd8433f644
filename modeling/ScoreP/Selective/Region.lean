import ScoreP.Selective.Parser

/-!
# Selective recording of user regions

`checkEnter` and `checkExit` follow `scorep_selective_check_enter` and `scorep_selective_check_exit`: a
region of the file counts its instances, switches recording on for an instance of its current interval, and
goes on to the next interval when it has switched recording off. `stepRegion` is an event of the thread; the
callers drop the values that the two functions return.
-/

namespace ScoreP.Selective

open Filter (Text)

/-- `SCOREP_User_Region` without the handle. `selection` is the intervals that it points to. -/
structure UserRegion where
  selection : Option (List Interval)
  currentIntervalIndex : ℕ
  currentInterval : Interval
  enters : ℕ
  exits : ℕ
  hasEnabled : Bool
deriving DecidableEq

def createRegion (regions : List SelectedRegion) (name : Text) : UserRegion :=
  match selectiveGetRegion regions name with
  | none => ⟨none, 0, ⟨0, 0⟩, 0, 0, false⟩
  | some region => ⟨some region.intervals, 0, region.intervals.headD ⟨0, 0⟩, 0, 0, false⟩

/-- `scorep_selective_check_enter`; the measurement system does not refuse to switch. -/
def checkEnter (region : UserRegion) (recordingEnabled : Bool) : UserRegion × Bool :=
  if region.selection = none then (region, recordingEnabled)
  else if region.hasEnabled then
    ({ region with enters := region.enters + 1, exits := region.exits + 1 }, recordingEnabled)
  else if recordingEnabled then ({ region with enters := region.enters + 1 }, true)
  else if region.currentInterval.first ≤ region.enters ∧ region.enters ≤ region.currentInterval.last then
    ({ region with enters := region.enters + 1, exits := 1, hasEnabled := true }, true)
  else ({ region with enters := region.enters + 1 }, false)

def nextInterval : List Interval → UserRegion → UserRegion
  | [], region =>
    if region.currentInterval.last < region.enters then { region with selection := none } else region
  | interval :: rest, region =>
    if region.currentInterval.last < region.enters then
      nextInterval rest { region with
        currentIntervalIndex := region.currentIntervalIndex + 1
        currentInterval := interval }
    else region

def checkExit (region : UserRegion) (recordingEnabled : Bool) : UserRegion × Bool :=
  if region.hasEnabled then
    if region.exits - 1 = 0 then
      (nextInterval ((region.selection.getD []).drop (region.currentIntervalIndex + 1))
        { region with exits := region.exits - 1, hasEnabled := false }, false)
    else ({ region with exits := region.exits - 1 }, recordingEnabled)
  else (region, recordingEnabled)

/-! ## Events of a thread -/

variable {R : Type} [DecidableEq R]

inductive Event (R : Type) where
  | enter (region : R)
  | exit (region : R)
deriving DecidableEq

structure State (R : Type) where
  regions : R → UserRegion
  recordingEnabled : Bool

def start (regions : List SelectedRegion) (name : R → Text) : State R :=
  ⟨fun region => createRegion regions (name region), false⟩

def stepRegion (s : State R) : Event R → State R
  | .enter region =>
    ⟨Function.update s.regions region (checkEnter (s.regions region) s.recordingEnabled).1,
      (checkEnter (s.regions region) s.recordingEnabled).2⟩
  | .exit region =>
    ⟨Function.update s.regions region (checkExit (s.regions region) s.recordingEnabled).1,
      (checkExit (s.regions region) s.recordingEnabled).2⟩

def runRegions (s : State R) (events : List (Event R)) : State R :=
  events.foldl stepRegion s

end ScoreP.Selective
