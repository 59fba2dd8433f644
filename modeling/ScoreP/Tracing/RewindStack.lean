import Mathlib.Data.Nat.Notation
import Mathlib.Logic.Function.Basic

/-!
# The stack of rewind regions

Source: `scorep_rewind_stack_management.c`, and `store_rewind_point` and `exit_rewind_point` of
`SCOREP_Tracing_Events.c`. The stack and the list of unused items are singly linked through the member
`prev`. Items are named by numbers in the order of their allocation.

The `while` loops take a bound on their number of rounds. Running out of it and following a null pointer
are the faults, which the functions answer with `none`.
-/

namespace ScoreP.Tracing

inductive RewindParadigm where
  | mpi
  | threadForkJoin
  | threadCreateWait
  | threadLocking
deriving DecidableEq

/-- `scorep_rewind_stack` -/
structure RewindStackItem where
  id : ℕ
  entertimestamp : ℕ
  prev : Option ℕ
  paradigmAffected : RewindParadigm → Bool

/-- The members of an item that its users see. -/
structure RewindRegion where
  id : ℕ
  entertimestamp : ℕ
  paradigmAffected : RewindParadigm → Bool

/-- `SCOREP_TracingData` and the memory of the items. -/
structure TracingData where
  rewindStack : Option ℕ
  rewindFreeList : Option ℕ
  item : ℕ → RewindStackItem
  allocated : ℕ

namespace TracingData

variable (d : TracingData)

def prev (i : ℕ) : Option ℕ :=
  (d.item i).prev

def region (i : ℕ) : RewindRegion :=
  ⟨(d.item i).id, (d.item i).entertimestamp, (d.item i).paradigmAffected⟩

def setItem (i : ℕ) (value : RewindStackItem) : TracingData :=
  { d with item := Function.update d.item i value }

def setPrev (i : ℕ) (p : Option ℕ) : TracingData :=
  d.setItem i { d.item i with prev := p }

def setEntertimestamp (i entertimestamp : ℕ) : TracingData :=
  d.setItem i { d.item i with entertimestamp := entertimestamp }

def setAffected (i : ℕ) (paradigm : RewindParadigm) : TracingData :=
  d.setItem i
    { d.item i with paradigmAffected := Function.update (d.item i).paradigmAffected paradigm true }

/-! ## The functions of the stack -/

/-- `while ( stack_item && stack_item->id != id )`, with the item passed last. -/
def search (id : ℕ) : ℕ → Option ℕ → Option ℕ → Option (Option ℕ × Option ℕ)
  | 0, _, _ => none
  | _ + 1, lastStackItem, none => some (lastStackItem, none)
  | rounds + 1, lastStackItem, some stackItem =>
    if (d.item stackItem).id ≠ id then search id rounds (some stackItem) (d.prev stackItem)
    else some (lastStackItem, some stackItem)

def rewindStackFind (id : ℕ) : Option Bool := do
  match ← d.search id (d.allocated + 1) none d.rewindStack with
  | (_, some stackItem) => return (d.item stackItem).id = id
  | (_, none) => return false

def takeItem : ℕ × TracingData :=
  match d.rewindFreeList with
  | some stackItem => (stackItem, { d with rewindFreeList := d.prev stackItem })
  | none => (d.allocated, { d with allocated := d.allocated + 1 })

def rewindStackPush (id entertimestamp : ℕ) : Option TracingData := do
  let stackHead := d.rewindStack
  if ← d.rewindStackFind id then
    let (lastStackItem, stackItem) ← d.search id (d.allocated + 1) stackHead stackHead
    if lastStackItem ≠ stackHead then
      let lastStackItem ← lastStackItem
      let stackItem ← stackItem
      let d := d.setPrev lastStackItem (d.prev stackItem)
      let d := d.setPrev stackItem stackHead
      let d := d.setEntertimestamp stackItem entertimestamp
      return { d with rewindStack := some stackItem }
    else
      let head ← stackHead
      return { d.setEntertimestamp head entertimestamp with rewindStack := some head }
  else
    let (stackItem, d) := d.takeItem
    let d := d.setItem stackItem ⟨id, entertimestamp, stackHead, fun _ => false⟩
    return { d with rewindStack := some stackItem }

def release (stackHead : ℕ) : TracingData :=
  { d.setPrev stackHead d.rewindFreeList with
    rewindStack := d.prev stackHead
    rewindFreeList := some stackHead }

/-- `scorep_rewind_stack_pop`, with the values of the variables it stores to. -/
def rewindStackPop (outcome : RewindRegion) : RewindRegion × TracingData :=
  match d.rewindStack with
  | none => (outcome, d)
  | some stackHead => (d.region stackHead, d.release stackHead)

def rewindStackDelete : ℕ → TracingData → Option TracingData
  | 0, _ => none
  | rounds + 1, d =>
    match d.rewindStack with
    | none => some d
    | some stackHead => rewindStackDelete rounds (d.release stackHead)

/-- `scorep_rewind_set_affected_paradigm`, from an item on. -/
def setAffectedParadigm (paradigm : RewindParadigm) : ℕ → Option ℕ → TracingData → Option TracingData
  | 0, _, _ => none
  | _ + 1, none, d => some d
  | rounds + 1, some stackItem, d =>
    setAffectedParadigm paradigm rounds (d.prev stackItem) (d.setAffected stackItem paradigm)

end TracingData

/-! ## Rewind regions -/

inductive Property where
  | mpiCommunicationComplete
  | threadForkJoinEventComplete
  | threadCreateWaitEventComplete
  | threadLockEventComplete
deriving DecidableEq

def RewindParadigm.property : RewindParadigm → Property
  | .mpi => .mpiCommunicationComplete
  | .threadForkJoin => .threadForkJoinEventComplete
  | .threadCreateWait => .threadCreateWaitEventComplete
  | .threadLocking => .threadLockEventComplete

inductive Record where
  | storeRewindPoint (id : ℕ)
  | clearRewindPoint (id : ℕ)
  | rewind (id : ℕ)
  | measurementOff (timestamp : ℕ)
  | measurementOn (timestamp : ℕ)
  | invalidateProperty (property : Property)
  | warning
deriving DecidableEq

/-- `do { ... } while ( id != id_pop )` -/
def popRewindPoints (id : ℕ) :
    ℕ → RewindRegion → TracingData → Option (List Record × RewindRegion × TracingData)
  | 0, _, _ => none
  | rounds + 1, outcome, d =>
    let (popped, d) := d.rewindStackPop outcome
    if id ≠ popped.id then do
      let (records, last, d) ← popRewindPoints id rounds popped d
      return (.clearRewindPoint popped.id :: records, last, d)
    else some ([], popped, d)

def invalidations (paradigmAffected : RewindParadigm → Bool) : List Record :=
  let paradigms := [RewindParadigm.mpi, .threadForkJoin, .threadCreateWait, .threadLocking]
  (paradigms.filter paradigmAffected).map fun paradigm => .invalidateProperty paradigm.property

def storeRewindPoint (d : TracingData) (timestamp id : ℕ) : Option (List Record × TracingData) := do
  let d ← d.rewindStackPush id timestamp
  return ([.storeRewindPoint id], d)

def exitRewindPoint (d : TracingData) (id : ℕ) (doRewind : Bool) : Option (List Record × TracingData) := do
  if ← d.rewindStackFind id then
    let (cleared, popped, d) ← popRewindPoints id (d.allocated + 1) ⟨0, 0, fun _ => false⟩ d
    let rewound :=
      if doRewind then
        [.rewind id, .measurementOff popped.entertimestamp, .measurementOn popped.entertimestamp] ++
          invalidations popped.paradigmAffected
      else []
    return (cleared ++ rewound ++ [.clearRewindPoint id], d)
  else
    return ([.warning], d)

end ScoreP.Tracing
