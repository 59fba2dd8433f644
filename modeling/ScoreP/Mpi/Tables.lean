import Mathlib.Algebra.Group.Int.Defs
import Mathlib.Logic.Function.Basic

/-!
# The tables of MPI handles

Source: `scorep_mpi_communicator.c` and `scorep_mpi_communicator_mgmt.c`, the arrays
`scorep_mpi_windows`, `scorep_mpi_comms`, `scorep_mpi_groups` and `scorep_mpi_epochs` with the counters
of their entries. An array has `capacity` slots with any content at first; a call is `none` when it reads
or writes outside of the array or when a 32-bit counter overflows. The handle of a new definition is an
argument of the call that makes it.
-/

namespace ScoreP.Mpi

inductive MpiError where
  | tooManyWindows
  | noWindow
  | tooManyComms
  | noComm
  | tooManyGroups
  | noGroup
  | tooManyEpochs
  | noEpoch
deriving DecidableEq

inductive Report where
  | error (code : MpiError) (message : String)
  | warning (message : String)
deriving DecidableEq

/-! ## Arrays -/

structure Table (K V : Type) where
  capacity : ℕ
  slots : ℕ → K × V
  last : ℤ

/-- `x++` for an `int32_t`. -/
def increment (x : ℤ) : Option ℤ :=
  if x < 2147483647 then some (x + 1) else none

/-- `x--` for an `int32_t`. -/
def decrement (x : ℤ) : Option ℤ :=
  if -2147483648 < x then some (x - 1) else none

namespace Table

variable {K V : Type} [DecidableEq K]

def read (t : Table K V) (i : ℤ) : Option (K × V) :=
  if 0 ≤ i ∧ i < t.capacity then some (t.slots i.toNat) else none

def write (t : Table K V) (i : ℤ) (slot : K × V) : Option (Table K V) :=
  if 0 ≤ i ∧ i < t.capacity then some { t with slots := Function.update t.slots i.toNat slot } else none

/-- The counter is converted to `uint64_t` for the comparison. -/
def isFull (t : Table K V) : Bool :=
  (t.capacity : ℤ) ≤ t.last % 2 ^ 64

def onlyHas (t : Table K V) (k : K) : Option Bool :=
  if t.last = 1 then (t.read 0).map (fun slot => decide (slot.1 = k)) else some false

/-- At most so many rounds of a loop from slot `i` to the first one with the key. -/
def scanFrom (t : Table K V) (k : K) : ℕ → ℕ → Option ℕ
  | 0, i => some i
  | rounds + 1, i => do
    let slot ← t.read i
    if slot.1 = k then some i else scanFrom t k rounds (i + 1)

/-- The loop over the entries: `last` when there is none with the key. -/
def search (t : Table K V) (k : K) : Option ℕ :=
  t.scanFrom k t.last.toNat 0

/-- The loop of the epochs, with `i <= last`: `last + 1` when there is none with the key. -/
def searchBeyond (t : Table K V) (k : K) : Option ℕ :=
  t.scanFrom k (t.last + 1).toNat 0

def enter (t : Table K V) (slot : K × V) : Option (Table K V) := do
  let t ← t.write t.last slot
  let last ← increment t.last
  some { t with last := last }

/-- The common body of `scorep_mpi_win_free` and `scorep_mpi_comm_free`. The counter is decremented by
the comparison, whether or not the key was found. -/
def free (t : Table K V) (k : K) (notFound empty : Report) : Option (Table K V × List Report) := do
  let only ← t.onlyHas k
  if only then some ({ t with last := 0 }, [])
  else if 1 < t.last then
    let i ← t.search k
    let found := decide (i < t.last)
    let last ← decrement t.last
    let t := { t with last := last }
    if found then
      let slot ← t.read t.last
      let t ← t.write i slot
      some (t, [])
    else some (t, [notFound])
  else some (t, [empty])

end Table

/-! ## Calls -/

def usedWindowText : String :=
  "You are using a window that was not tracked. Please contact the Score-P support team."

def usedCommText : String :=
  "You are using a communicator that was not tracked. Please contact the Score-P support team."

def nullCommText : String :=
  "It is not possible to track MPI_COMM_NULL. This error is likely due to an incorrect call to MPI"

def freedCommText : String :=
  "You are trying to free a communicator that was not tracked. Maybe you used a non-standard "
    ++ "MPI function call to create it."

inductive EpochType where
  | access
  | exposure
deriving DecidableEq

structure Setting (Comm Handle : Type) where
  commWorld : Comm
  commNull : Comm
  worldHandle : Handle
  invalidWindow : Handle
  invalidCommunicator : Handle
  invalidGroup : Handle

/-- `scorep_mpi_group_type` has a handle and a number of references for a group. -/
structure State (Win Comm Group Handle : Type) where
  windows : Table Win Handle
  comms : Table Comm Handle
  groups : Table Group (Handle × ℤ)
  epochs : Table (Win × EpochType) Handle
  commInitialized : Bool

structure Answer (Handle : Type) where
  value : Option Handle
  reports : List Report

section Calls

variable {Win Comm Group Handle : Type} [DecidableEq Win] [DecidableEq Comm] [DecidableEq Group]

def winFree (win : Win) (s : State Win Comm Group Handle) :
    Option (Answer Handle × State Win Comm Group Handle) := do
  let (windows, reports) ← s.windows.free win (.error .noWindow "") (.error .noWindow "")
  some (⟨none, reports⟩, { s with windows := windows })

def winHandle (setting : Setting Comm Handle) (win : Win) (s : State Win Comm Group Handle) :
    Option (Answer Handle × State Win Comm Group Handle) := do
  let i ← s.windows.search win
  if (i : ℤ) ≠ s.windows.last then
    let slot ← s.windows.read i
    some (⟨some slot.2, []⟩, s)
  else
    some (⟨some setting.invalidWindow, [.error .noWindow usedWindowText]⟩, s)

def commCreateFinalize (setting : Setting Comm Handle) (comm : Comm) (handle : Handle)
    (s : State Win Comm Group Handle) : Option (Answer Handle × State Win Comm Group Handle) :=
  if s.comms.isFull then
    some (⟨some setting.invalidCommunicator, [.error .tooManyComms
      "Hint: Increase SCOREP_MPI_MAX_COMMUNICATORS configuration variable"]⟩, s)
  else do
    let comms ← s.comms.enter (comm, handle)
    some (⟨some handle, []⟩, { s with comms := comms })

def commFree (comm : Comm) (s : State Win Comm Group Handle) :
    Option (Answer Handle × State Win Comm Group Handle) :=
  if s.commInitialized = false then
    some (⟨none, [.warning "Skipping attempt to free communicator outside init->finalize scope"]⟩, s)
  else do
    let (comms, reports) ← s.comms.free comm
      (.error .noComm ("scorep_mpi_comm_free1 " ++ freedCommText))
      (.error .noComm ("scorep_mpi_comm_free2 " ++ freedCommText))
    some (⟨none, reports⟩, { s with comms := comms })

def commHandle (setting : Setting Comm Handle) (comm : Comm)
    (s : State Win Comm Group Handle) : Option (Answer Handle × State Win Comm Group Handle) := do
  let i ← s.comms.search comm
  if (i : ℤ) ≠ s.comms.last then
    let slot ← s.comms.read i
    some (⟨some slot.2, []⟩, s)
  else if comm = setting.commWorld then
    some (⟨some setting.worldHandle, [.warning "This function SHOULD NOT be called with MPI_COMM_WORLD"]⟩, s)
  else if comm = setting.commNull then
    some (⟨some setting.invalidCommunicator, [.error .noComm nullCommText]⟩, s)
  else
    some (⟨some setting.invalidCommunicator, [.error .noComm usedCommText]⟩, s)

def mpiCommHandle (setting : Setting Comm Handle) (comm : Comm) (s : State Win Comm Group Handle) :
    Option (Answer Handle × State Win Comm Group Handle) :=
  if comm = setting.commWorld then some (⟨some setting.worldHandle, []⟩, s) else commHandle setting comm s

def winCreate (setting : Setting Comm Handle) (win : Win) (comm : Comm) (handle : Handle)
    (s : State Win Comm Group Handle) : Option (Answer Handle × State Win Comm Group Handle) := do
  let reports :=
    if s.windows.isFull then
      [.error .tooManyWindows "Hint: Increase SCOREP_MPI_MAX_WINDOWS configuration variable."]
    else []
  let (answer, s) ← mpiCommHandle setting comm s
  let windows ← s.windows.enter (win, handle)
  some (⟨some handle, reports ++ answer.reports⟩, { s with windows := windows })

/-- `scorep_mpi_group_search`: none stands for -1. -/
def groupSearch (group : Group) (s : State Win Comm Group Handle) : Option (Option ℕ) := do
  let i ← s.groups.search group
  if (i : ℤ) ≠ s.groups.last then some (some i) else some none

def groupCreate (group : Group) (handle : Handle) (s : State Win Comm Group Handle) :
    Option (Answer Handle × State Win Comm Group Handle) :=
  if s.commInitialized = false then
    some (⟨none, [.warning "Skipping attempt to create group outside init->finalize scope"]⟩, s)
  else do
    match ← groupSearch group s with
    | none =>
      if s.groups.isFull then
        some (⟨none, [.error .tooManyGroups
          "Hint: Increase SCOREP_MPI_MAX_GROUPS configuration variable."]⟩, s)
      else
        let groups ← s.groups.enter (group, (handle, 1))
        some (⟨none, []⟩, { s with groups := groups })
    | some i =>
      let slot ← s.groups.read i
      let refcnt ← increment slot.2.2
      let groups ← s.groups.write i (slot.1, (slot.2.1, refcnt))
      some (⟨none, []⟩, { s with groups := groups })

def groupFree (group : Group) (s : State Win Comm Group Handle) :
    Option (Answer Handle × State Win Comm Group Handle) :=
  if s.commInitialized = false then
    some (⟨none, [.warning "Skipping attempt to free group outside init->finalize scope"]⟩, s)
  else do
    let only ← s.groups.onlyHas group
    if only then
      let slot ← s.groups.read 0
      let refcnt ← decrement slot.2.2
      let groups ← s.groups.write 0 (slot.1, (slot.2.1, refcnt))
      if refcnt = 0 then
        let last ← decrement groups.last
        some (⟨none, []⟩, { s with groups := { groups with last := last } })
      else some (⟨none, []⟩, { s with groups := groups })
    else if 1 < s.groups.last then
      match ← groupSearch group s with
      | none => some (⟨none, [.error .noGroup ""]⟩, s)
      | some i =>
        let slot ← s.groups.read i
        let refcnt ← decrement slot.2.2
        let groups ← s.groups.write i (slot.1, (slot.2.1, refcnt))
        if refcnt = 0 then
          let last ← decrement groups.last
          let moved ← groups.read last
          let groups ← groups.write i moved
          some (⟨none, []⟩, { s with groups := { groups with last := last } })
        else some (⟨none, []⟩, { s with groups := groups })
    else some (⟨none, [.error .noGroup ""]⟩, s)

def groupHandle (setting : Setting Comm Handle) (group : Group) (s : State Win Comm Group Handle) :
    Option (Answer Handle × State Win Comm Group Handle) := do
  let i ← s.groups.search group
  if (i : ℤ) ≠ s.groups.last then
    let slot ← s.groups.read i
    some (⟨some slot.2.1, []⟩, s)
  else some (⟨some setting.invalidGroup, [.error .noGroup ""]⟩, s)

def epochStart (setting : Setting Comm Handle) (win : Win) (group : Group) (epochType : EpochType)
    (s : State Win Comm Group Handle) : Option (Answer Handle × State Win Comm Group Handle) := do
  let reports :=
    if s.epochs.isFull then
      [.error .tooManyEpochs "Hint: Increase SCOREP_MPI_MAX_EPOCHS configuration variable."]
    else []
  let (answer, s) ← groupHandle setting group s
  let epochs ← s.epochs.enter ((win, epochType), answer.value.getD setting.invalidGroup)
  some (⟨none, reports ++ answer.reports⟩, { s with epochs := epochs })

def epochEnd (win : Win) (epochType : EpochType) (s : State Win Comm Group Handle) :
    Option (Answer Handle × State Win Comm Group Handle) := do
  let only ← s.epochs.onlyHas (win, epochType)
  if only then
    let last ← decrement s.epochs.last
    some (⟨none, []⟩, { s with epochs := { s.epochs with last := last } })
  else
    let i ← s.epochs.searchBeyond (win, epochType)
    if (i : ℤ) ≠ s.epochs.last then
      let last ← decrement s.epochs.last
      let moved ← s.epochs.read last
      let epochs ← s.epochs.write i moved
      some (⟨none, []⟩, { s with epochs := { epochs with last := last } })
    else some (⟨none, [.error .noEpoch ""]⟩, s)

def epochGetGroupHandle (setting : Setting Comm Handle) (win : Win) (epochType : EpochType)
    (s : State Win Comm Group Handle) : Option (Answer Handle × State Win Comm Group Handle) := do
  let i ← s.epochs.searchBeyond (win, epochType)
  if (i : ℤ) ≠ s.epochs.last then
    let slot ← s.epochs.read i
    some (⟨some slot.2, []⟩, s)
  else some (⟨some setting.invalidGroup, [.error .noEpoch ""]⟩, s)

inductive Call (Win Comm Group Handle : Type) where
  | winCreate (win : Win) (comm : Comm) (handle : Handle)
  | winFree (win : Win)
  | winHandle (win : Win)
  | commCreate (comm : Comm) (handle : Handle)
  | commFree (comm : Comm)
  | commHandle (comm : Comm)
  | groupCreate (group : Group) (handle : Handle)
  | groupFree (group : Group)
  | groupHandle (group : Group)
  | epochStart (win : Win) (group : Group) (epochType : EpochType)
  | epochEnd (win : Win) (epochType : EpochType)
  | epochGetGroupHandle (win : Win) (epochType : EpochType)

def Call.step (setting : Setting Comm Handle) : Call Win Comm Group Handle → State Win Comm Group Handle →
      Option (Answer Handle × State Win Comm Group Handle)
  | .winCreate win comm handle => Mpi.winCreate setting win comm handle
  | .winFree win => Mpi.winFree win
  | .winHandle win => Mpi.winHandle setting win
  | .commCreate comm handle => commCreateFinalize setting comm handle
  | .commFree comm => Mpi.commFree comm
  | .commHandle comm => Mpi.commHandle setting comm
  | .groupCreate group handle => Mpi.groupCreate group handle
  | .groupFree group => Mpi.groupFree group
  | .groupHandle group => Mpi.groupHandle setting group
  | .epochStart win group epochType => Mpi.epochStart setting win group epochType
  | .epochEnd win epochType => Mpi.epochEnd win epochType
  | .epochGetGroupHandle win epochType => Mpi.epochGetGroupHandle setting win epochType

def run (setting : Setting Comm Handle) : List (Call Win Comm Group Handle) → State Win Comm Group Handle →
      Option (List (Answer Handle) × State Win Comm Group Handle)
  | [], s => some ([], s)
  | call :: calls, s => do
    let (answer, s) ← call.step setting s
    let (answers, s) ← run setting calls s
    some (answer :: answers, s)

def start (windows : Table Win Handle) (comms : Table Comm Handle) (groups : Table Group (Handle × ℤ))
    (epochs : Table (Win × EpochType) Handle) : State Win Comm Group Handle where
  windows := { windows with last := 0 }
  comms := { comms with last := 0 }
  groups := { groups with last := 0 }
  epochs := { epochs with last := 0 }
  commInitialized := true

end Calls

end ScoreP.Mpi
