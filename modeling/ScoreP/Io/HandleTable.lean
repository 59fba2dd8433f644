import ScoreP.Foundations.References

/-!
# The hash table of I/O handles

Source: `scorep_io_management.c`, the functions that work on the `handles` of one `io_mgmt_paradigm`. `N` is
the type of the native I/O handles of the paradigm and `T` the type of the threads; `jenkinsHash` is any hash
function. `SCOREP_INVALID_IO_HANDLE` is `none`. The definitions are numbered in the order in which
`SCOREP_Definitions_NewIoHandle` makes them. The `next` members of their payloads are, with the array
`handles`, the links of the table.

Each mutex section is one step, together with what the thread does before it to a definition that is not in
the table yet. `SCOREP_IoMgmt_GetIoHandle` reads `*handle_iterator` in a step of its own behind the section.
The handle that a completion takes from the stack of the thread is an argument. `none` is a `UTILS_BUG_ON` or a write through a
pointer that is not set.
-/

namespace ScoreP.Io

open Foundations Function

def handleHashtableMask : UInt32 := 63

structure Paradigm (T N : Type) where
  links : Links UInt32 ℕ
  /-- The members `hash` of the payloads. -/
  hash : ℕ → UInt32
  /-- The memory behind the payloads, `payload_get_handle`. -/
  native : ℕ → N
  defined : ℕ
  /-- The `handle_iterator` of the threads in `SCOREP_IoMgmt_GetIoHandle`. -/
  handleIterator : T → Option (Ref UInt32 ℕ)

namespace Paradigm

variable {T N : Type} [DecidableEq T] [DecidableEq N] (jenkinsHash : N → UInt32) (p : Paradigm T N)

def getHandleRef (ioHandle : N) (hash : UInt32) : Option (Ref UInt32 ℕ) :=
  let hash := if hash = 0 then jenkinsHash ioHandle else hash
  p.links.find (fun entry => decide (p.hash entry = hash ∧ p.native entry = ioHandle)) (p.defined + 1)
    (.root (hash &&& handleHashtableMask))

/-- `drop duplicate from hash table` -/
def dropDuplicate (handleIterator : Ref UInt32 ℕ) : Paradigm T N :=
  match p.links.read handleIterator with
  | none => p
  | some entry => { p with links := p.links.unlink handleIterator entry }

def pushHandle (handle : ℕ) : Paradigm T N :=
  { p with links := p.links.pushFront (p.hash handle &&& handleHashtableMask) handle }

def insertHandle (handle : ℕ) (ioHandle : N) (hash : UInt32) : Option (Paradigm T N) := do
  let handleIterator ← p.getHandleRef jenkinsHash ioHandle hash
  return (p.dropDuplicate handleIterator).pushHandle handle

/-- `SCOREP_Definitions_NewIoHandle` with the payload that its callers set. -/
def newIoHandle (hash : UInt32) : Paradigm T N :=
  { p with
    links := p.links.write (.next p.defined) none
    hash := update p.hash p.defined hash
    defined := p.defined + 1 }

def setNative (handle : ℕ) (ioHandle : N) : Paradigm T N :=
  { p with
    hash := update p.hash handle (jenkinsHash ioHandle)
    native := update p.native handle ioHandle }

/-- `SCOREP_IoMgmt_BeginHandleCreation` and `SCOREP_IoMgmt_BeginHandleDuplication` -/
def beginHandle : ℕ × Paradigm T N :=
  (p.defined, p.newIoHandle 0)

/-- `SCOREP_IoMgmt_CreatePreCreatedHandle`. A definition with the same data and a unify key is not made again,
then `payload` is not set. -/
def createPreCreatedHandle (ioHandle : N) (existing : Option ℕ) : Option (ℕ × Paradigm T N) :=
  match existing with
  | some _ => none
  | none => some (p.defined,
      ((p.newIoHandle 0).setNative jenkinsHash p.defined ioHandle).pushHandle p.defined)

/-- `SCOREP_IoMgmt_CompleteHandleCreation` and `SCOREP_IoMgmt_CompleteHandleDuplication` -/
def completeHandle (handle : ℕ) (ioHandle : N) : Option (Paradigm T N) :=
  let p := p.setNative jenkinsHash handle ioHandle
  p.insertHandle jenkinsHash handle (p.native handle) (p.hash handle)

def removeHandle (ioHandle : N) : Option (Option ℕ × Paradigm T N) := do
  let handleIterator ← p.getHandleRef jenkinsHash ioHandle 0
  match p.links.read handleIterator with
  | none => return (none, p)
  | some oldHandle => return (some oldHandle, { p with links := p.links.unlink handleIterator oldHandle })

def reinsertHandle (handle : ℕ) : Option (Paradigm T N) :=
  -- `Reinserted I/O handle without initialized hash value`
  if p.hash handle = 0 then none
  else p.insertHandle jenkinsHash handle (p.native handle) (p.hash handle)

/-- The mutex section of `SCOREP_IoMgmt_GetIoHandle`. -/
def getIoHandle (thread : T) (ioHandle : N) : Option (Paradigm T N) := do
  let handleIterator ← p.getHandleRef jenkinsHash ioHandle 0
  return { p with handleIterator := update p.handleIterator thread (some handleIterator) }

/-- The end of `SCOREP_IoMgmt_GetIoHandle`. -/
def returnHandle (thread : T) : Option (Option ℕ × Paradigm T N) :=
  match p.handleIterator thread with
  | none => none
  | some handleIterator => some (p.links.read handleIterator,
      { p with handleIterator := update p.handleIterator thread none })

end Paradigm

inductive TableCall (T N : Type) where
  | beginHandle (thread : T)
  | createPreCreatedHandle (thread : T) (ioHandle : N) (existing : Option ℕ)
  | completeHandle (thread : T) (handle : ℕ) (ioHandle : N)
  | removeHandle (thread : T) (ioHandle : N)
  | reinsertHandle (thread : T) (handle : ℕ)
  | getIoHandle (thread : T) (ioHandle : N)
  | returnHandle (thread : T)

def TableCall.thread {T N : Type} : TableCall T N → T
  | .beginHandle thread => thread
  | .createPreCreatedHandle thread _ _ => thread
  | .completeHandle thread _ _ => thread
  | .removeHandle thread _ => thread
  | .reinsertHandle thread _ => thread
  | .getIoHandle thread _ => thread
  | .returnHandle thread => thread

section Run

variable {T N : Type} [DecidableEq T] [DecidableEq N] (jenkinsHash : N → UInt32)

def TableCall.run (p : Paradigm T N) : TableCall T N → Option (Option ℕ × Paradigm T N)
  | .beginHandle _ => some (some p.beginHandle.1, p.beginHandle.2)
  | .createPreCreatedHandle _ ioHandle existing =>
    (p.createPreCreatedHandle jenkinsHash ioHandle existing).map fun (handle, p) => (some handle, p)
  | .completeHandle _ handle ioHandle =>
    (p.completeHandle jenkinsHash handle ioHandle).map fun p => (some handle, p)
  | .removeHandle _ ioHandle => p.removeHandle jenkinsHash ioHandle
  | .reinsertHandle _ handle => (p.reinsertHandle jenkinsHash handle).map fun p => (none, p)
  | .getIoHandle thread ioHandle => (p.getIoHandle jenkinsHash thread ioHandle).map fun p => (none, p)
  | .returnHandle thread => p.returnHandle thread

end Run

/-! ## The finite map -/

structure Directory (T N : Type) where
  map : N → Option ℕ
  /-- The native handles of completed definitions. -/
  native : ℕ → Option N
  incomplete : ℕ → Bool
  removed : ℕ → Bool
  /-- What was mapped at the mutex section of a `SCOREP_IoMgmt_GetIoHandle`. -/
  answers : T → Option (Option ℕ)

namespace Directory

variable {T N : Type} [DecidableEq T] [DecidableEq N] (dir : Directory T N)

def empty : Directory T N :=
  ⟨fun _ => none, fun _ => none, fun _ => false, fun _ => false, fun _ => none⟩

def begin (handle : ℕ) : Directory T N :=
  { dir with incomplete := update dir.incomplete handle true }

def setNative (handle : ℕ) (ioHandle : N) : Directory T N :=
  { dir with
    native := update dir.native handle (some ioHandle)
    incomplete := update dir.incomplete handle false }

def insert (handle : ℕ) (ioHandle : N) : Directory T N :=
  { dir with
    map := update dir.map ioHandle (some handle)
    removed := update dir.removed handle false }

omit [DecidableEq T] in
theorem map_insert (handle : ℕ) (ioHandle : N) : (dir.insert handle ioHandle).map ioHandle = some handle := by
  simp [insert]

omit [DecidableEq T] in
theorem map_insert_of_ne (handle : ℕ) {ioHandle other : N} (h : other ≠ ioHandle) :
    (dir.insert handle ioHandle).map other = dir.map other := by
  simp only [insert, update_of_ne h]

omit [DecidableEq T] in
theorem removed_insert (handle : ℕ) (ioHandle : N) : (dir.insert handle ioHandle).removed handle = false := by
  simp [insert]

omit [DecidableEq T] in
theorem removed_insert_of_ne {handle other : ℕ} (h : other ≠ handle) (ioHandle : N) :
    (dir.insert handle ioHandle).removed other = dir.removed other := by
  simp only [insert, update_of_ne h]

def remove (ioHandle : N) : Directory T N :=
  { dir with
    map := update dir.map ioHandle none
    removed := fun handle => if dir.map ioHandle = some handle then true else dir.removed handle }

def setAnswer (thread : T) (answer : Option (Option ℕ)) : Directory T N :=
  { dir with answers := update dir.answers thread answer }

def after : TableCall T N → Option ℕ → Directory T N
  | .beginHandle _, some handle => dir.begin handle
  | .createPreCreatedHandle _ ioHandle _, some handle => (dir.setNative handle ioHandle).insert handle ioHandle
  | .completeHandle _ handle ioHandle, _ => (dir.setNative handle ioHandle).insert handle ioHandle
  | .removeHandle _ ioHandle, _ => dir.remove ioHandle
  | .reinsertHandle _ handle, _ =>
    match dir.native handle with
    | none => dir
    | some ioHandle => dir.insert handle ioHandle
  | .getIoHandle thread ioHandle, _ => dir.setAnswer thread (some (dir.map ioHandle))
  | .returnHandle thread, _ => dir.setAnswer thread none
  | _, _ => dir

/-- A thread is in one call at a time, a completion ends what `beginHandle` has begun, and a handle is
reinserted when it was removed before. -/
def Legal (call : TableCall T N) : Prop :=
  match call with
  | .completeHandle thread handle _ => dir.answers thread = none ∧ dir.incomplete handle = true
  | .reinsertHandle thread handle => dir.answers thread = none ∧ dir.removed handle = true
  | .returnHandle thread => dir.answers thread ≠ none
  | call => dir.answers call.thread = none

def Right : TableCall T N → Option ℕ → Prop
  | .beginHandle _, result => ∃ handle, result = some handle ∧ dir.native handle = none
  | .createPreCreatedHandle _ _ _, result => ∃ handle, result = some handle ∧ dir.native handle = none
  | .completeHandle _ handle _, result => result = some handle
  | .removeHandle _ ioHandle, result => result = dir.map ioHandle
  | .returnHandle thread, result => dir.answers thread = some result
  | _, result => result = none

end Directory

/-! ## Calls that change what a lookup will read -/

section Fine

variable {T N : Type} (jenkinsHash : N → UInt32) (p : Paradigm T N) (dir : Directory T N)

/-- `index` -/
def handleIndex (ioHandle : N) : UInt32 :=
  jenkinsHash ioHandle &&& handleHashtableMask

def ChangedByDrop (ioHandle : N) (ref : Ref UInt32 ℕ) : Prop :=
  ∃ entry, dir.map ioHandle = some entry ∧
    (p.links.read ref = some entry ∨ ref = .next entry ∧ p.links.next entry ≠ none)

def Changes : TableCall T N → Ref UInt32 ℕ → Prop
  | .createPreCreatedHandle _ ioHandle _, ref => ref = .root (handleIndex jenkinsHash ioHandle)
  | .completeHandle _ _ ioHandle, ref =>
    ref = .root (handleIndex jenkinsHash ioHandle) ∨ ChangedByDrop p dir ioHandle ref
  | .removeHandle _ ioHandle, ref => ChangedByDrop p dir ioHandle ref
  | .reinsertHandle _ handle, ref => ∃ ioHandle, dir.native handle = some ioHandle ∧
    (ref = .root (handleIndex jenkinsHash ioHandle) ∨ ChangedByDrop p dir ioHandle ref ∨
      ref = .next handle ∧ ∃ first, p.links.root (handleIndex jenkinsHash ioHandle) = some first ∧
        (dir.map ioHandle = some first → p.links.next first ≠ none))
  | _, _ => False

/-- A pre-created handle is a definition of its own whose native handle is not mapped, the hash of a
reinserted handle is not 0, and no call changes a pointer through which another thread is about to return. -/
structure FineCall (call : TableCall T N) : Prop where
  preCreated : ∀ thread ioHandle existing, call = .createPreCreatedHandle thread ioHandle existing →
    existing = none ∧ dir.map ioHandle = none
  reinserted : ∀ thread handle, call = .reinsertHandle thread handle →
    ∀ ioHandle, dir.native handle = some ioHandle → jenkinsHash ioHandle ≠ 0
  unchanged : ∀ thread ref, p.handleIterator thread = some ref → ¬Changes jenkinsHash p dir call ref

end Fine

section Runs

variable {T N : Type} [DecidableEq T] [DecidableEq N] (jenkinsHash : N → UInt32)

/-- The table of the state `p` stores the map: each chain holds definitions of its index, each definition
is on one chain at most, and the mapped ones are those on a chain. -/
structure Stores (p : Paradigm T N) (dir : Directory T N) (chains : UInt32 → List ℕ) : Prop where
  holds : p.links.Holds chains
  chained : ∀ i, ∀ h ∈ chains i, ∃ n, dir.native h = some n ∧ dir.map n = some h ∧ handleIndex jenkinsHash n = i
  mapped : ∀ n h, dir.map n = some h → dir.native h = some n ∧ h ∈ chains (handleIndex jenkinsHash n)
  payload : ∀ h n, dir.native h = some n → p.native h = n ∧ p.hash h = jenkinsHash n ∧ h < p.defined
  incomplete : ∀ h, dir.incomplete h = true → dir.native h = none ∧ h < p.defined
  removed : ∀ h, dir.removed h = true → dir.native h ≠ none ∧ Unheld chains h ∧ p.links.next h = none

structure Answers (p : Paradigm T N) (dir : Directory T N) : Prop where
  read : ∀ t, dir.answers t = (p.handleIterator t).map p.links.read
  place : ∀ t h, p.handleIterator t = some (.next h) → dir.native h ≠ none

def RefinesDirectory (p : Paradigm T N) (dir : Directory T N) : Prop :=
  ∃ chains, Stores jenkinsHash p dir chains ∧ Answers p dir

def MeetsDirectory (p : Paradigm T N) (dir : Directory T N) : List (TableCall T N) → Prop
  | [] => RefinesDirectory jenkinsHash p dir
  | call :: calls => RefinesDirectory jenkinsHash p dir ∧
    ∃ result p', call.run jenkinsHash p = some (result, p') ∧ dir.Right call result ∧
      MeetsDirectory p' (dir.after call result) calls

def LegalTableCalls (p : Paradigm T N) (dir : Directory T N) : List (TableCall T N) → Prop
  | [] => True
  | call :: calls => dir.Legal call ∧ ∀ result p', call.run jenkinsHash p = some (result, p') →
    LegalTableCalls p' (dir.after call result) calls

def FineTableCalls (p : Paradigm T N) (dir : Directory T N) : List (TableCall T N) → Prop
  | [] => True
  | call :: calls => FineCall jenkinsHash p dir call ∧ ∀ result p', call.run jenkinsHash p = some (result, p') →
    FineTableCalls p' (dir.after call result) calls

/-- `SCOREP_IoMgmt_RegisterParadigm`, with anything in the memory to come. -/
def Paradigm.registered (next : ℕ → Option ℕ) (hash : ℕ → UInt32) (native : ℕ → N) : Paradigm T N where
  links := ⟨fun _ => none, next⟩
  hash := hash
  native := native
  defined := 0
  handleIterator := fun _ => none

end Runs

end ScoreP.Io
