import Mathlib.Algebra.Group.Nat.Defs
import Mathlib.Logic.Basic

/-!
# The stack of I/O handles of a location

Source: `scorep_io_management.c`, the part that works on `io_mgmt_location_data`. The entries of the stack
are a list from the top down. `ioParadigmType` is the member of the handle definitions, and the handle that
`SCOREP_Definitions_NewIoHandle` returns is an argument of the functions that begin a creation. The
functions answer a `UTILS_BUG_ON` with `none`.

`SCOREP_INVALID_IO_HANDLE` is 0. What a completion does to the hash table of its paradigm is not part of
this model.
-/

namespace ScoreP.Io

structure HandleStackEntry where
  handle : ℕ
  inCreation : Bool
  recursiveCreationCounter : ℕ
deriving DecidableEq

/-- The calls `SCOREP_CALL_SUBSTRATE_MGMT`. -/
inductive Callback (P : Type) where
  | ioParadigmEnter (paradigm : P)
  | ioParadigmLeave (paradigm : P)
deriving DecidableEq

structure LocationData (P : Type) where
  handleStack : List HandleStackEntry
  callbacks : List (Callback P)
deriving DecidableEq

def invalidIoHandle : ℕ := 0

section Operations

variable {P : Type} [DecidableEq P] (ioParadigmType : ℕ → P)

def handleStackTop (stack : List HandleStackEntry) : ℕ :=
  match stack with
  | [] => invalidIoHandle
  | top :: _ => top.handle

/-- `Check if we are in a recursive create`: the counter of the top is incremented, or the handle is
pushed. -/
def beginStack (paradigm : P) (handle : ℕ) (stack : List HandleStackEntry) : List HandleStackEntry :=
  match stack with
  | [] => [⟨handle, true, 0⟩]
  | top :: rest =>
    if top.inCreation = true ∧ ioParadigmType top.handle = paradigm then
      { top with recursiveCreationCounter := (top.recursiveCreationCounter + 1) % 2 ^ 32 } :: rest
    else ⟨handle, true, 0⟩ :: top :: rest

def Recursive (paradigm : P) (stack : List HandleStackEntry) : Prop :=
  ∃ top ∈ stack.head?, top.inCreation = true ∧ ioParadigmType top.handle = paradigm

instance (paradigm : P) (stack : List HandleStackEntry) : Decidable (Recursive ioParadigmType paradigm stack) :=
  match stack with
  | [] => isFalse (by simp [Recursive])
  | top :: rest =>
    decidable_of_iff (top.inCreation = true ∧ ioParadigmType top.handle = paradigm) (by simp [Recursive])

namespace LocationData

variable (data : LocationData P)

/-- `SCOREP_IoMgmt_BeginHandleCreation` and `SCOREP_IoMgmt_BeginHandleDuplication` -/
def beginHandle (paradigm : P) (handle : ℕ) : LocationData P where
  handleStack := beginStack ioParadigmType paradigm handle data.handleStack
  callbacks :=
    if Recursive ioParadigmType paradigm data.handleStack then data.callbacks
    else data.callbacks ++ [.ioParadigmEnter paradigm]

/-- `SCOREP_IoMgmt_CompleteHandleCreation` and `SCOREP_IoMgmt_CompleteHandleDuplication` -/
def completeHandle (paradigm : P) : Option (ℕ × LocationData P) :=
  let handle := handleStackTop data.handleStack
  if handle = invalidIoHandle then none
  else
    match data.handleStack with
    | [] => none
    | top :: rest =>
      if top.inCreation = true ∧ 0 < top.recursiveCreationCounter then
        some (invalidIoHandle, { data with
          handleStack := { top with recursiveCreationCounter := top.recursiveCreationCounter - 1 } :: rest })
      else some (handle, ⟨rest, data.callbacks ++ [.ioParadigmLeave paradigm]⟩)

def dropIncompleteHandle : Option (LocationData P) :=
  let handle := handleStackTop data.handleStack
  match data.handleStack with
  | [] => none
  | _ :: rest => some ⟨rest, data.callbacks ++ [.ioParadigmLeave (ioParadigmType handle)]⟩

def pushHandle (handle : ℕ) : LocationData P :=
  if handle ≠ invalidIoHandle then
    ⟨⟨handle, false, 0⟩ :: data.handleStack, data.callbacks ++ [.ioParadigmEnter (ioParadigmType handle)]⟩
  else data

/-- `SCOREP_IoMgmt_GetAndPushHandle`, when `SCOREP_IoMgmt_GetIoHandle` returns `handle`. -/
def getAndPushHandle (paradigm : P) (handle : ℕ) : LocationData P :=
  if handle ≠ invalidIoHandle then
    ⟨⟨handle, false, 0⟩ :: data.handleStack, data.callbacks ++ [.ioParadigmEnter paradigm]⟩
  else data

def popHandle (handle : ℕ) : Option (LocationData P) :=
  if handle ≠ invalidIoHandle then
    if handleStackTop data.handleStack ≠ handle then none
    else
      match data.handleStack with
      | [] => none
      | _ :: rest => some ⟨rest, data.callbacks ++ [.ioParadigmLeave (ioParadigmType handle)]⟩
  else some data

end LocationData

/-! ## Programs -/

inductive BeginCall (P : Type) where
  | creation (paradigm : P)
  | duplication (paradigm : P) (srcHandle : ℕ)
deriving DecidableEq

def BeginCall.paradigm : BeginCall P → P
  | .creation paradigm => paradigm
  | .duplication paradigm _ => paradigm

inductive PushCall (P : Type) where
  | pushHandle
  | getAndPushHandle (paradigm : P)
deriving DecidableEq

def PushCall.push (call : PushCall P) (handle : ℕ) (data : LocationData P) : LocationData P :=
  match call with
  | .pushHandle => data.pushHandle ioParadigmType handle
  | .getAndPushHandle paradigm => data.getAndPushHandle paradigm handle

/-- A well-nested sequence of calls: creations, which succeed or fail, and sections. -/
inductive Calls (P : Type) where
  | done
  | create (call : BeginCall P) (handle : ℕ) (body : Calls P) (success : Bool) (rest : Calls P)
  | within (call : PushCall P) (handle : ℕ) (body rest : Calls P)
deriving DecidableEq

def finish (paradigm : P) (success : Bool) (data : LocationData P) : Option (ℕ × LocationData P) :=
  if success then data.completeHandle paradigm
  else do
    let data ← data.dropIncompleteHandle ioParadigmType
    return (invalidIoHandle, data)

def Calls.run : Calls P → LocationData P → Option (LocationData P)
  | .done, data => some data
  | .create call handle body success rest, data => do
    let data ← body.run (data.beginHandle ioParadigmType call.paradigm handle)
    let (_, data) ← finish ioParadigmType call.paradigm success data
    rest.run data
  | .within call handle body rest, data => do
    let data ← body.run (call.push ioParadigmType handle data)
    let data ← data.popHandle ioParadigmType handle
    rest.run data

end Operations

end ScoreP.Io
