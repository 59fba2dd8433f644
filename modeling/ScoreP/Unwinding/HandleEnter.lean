import Mathlib.Data.List.Perm.Basic

/-!
# Unwinding the stack at a sample or an enter event

Source: `scorep_unwinding_cpu.c`, `scorep_unwinding_cpu_handle_enter` up to the point where a backtrace is
at hand, with the functions it calls there. libunwind is given by what it answers: a `Cursor` holds the
frame it is at and, for every further `unw_step`, the frame it moves to, or `none` where it stops or
fails. A frame carries what `get_region` finds for it; the table of known regions is not modelled.

Objects of the location are natural numbers, and `Pool` is the list `unused_objects` together with the
next object that `SCOREP_Location_AllocForMisc` hands out. `NULL` for no surrogates is `none`. How a
calling context is built from the surrogates and the stack is left out: `Enter.delivers` holds what it is
built from.
-/

namespace ScoreP.Unwinding

/-! ## The cursor -/

structure Region where
  start : ℕ
  stop : ℕ
  skip : Bool
  isMain : Bool
  isFork : Bool
deriving DecidableEq

/-- A frame of the stack. Its `ip` is 0 where `unw_get_reg` fails. -/
structure Frame where
  ip : ℕ
  isSignalFrame : Bool
  region : Option Region
deriving DecidableEq

structure Cursor where
  frame : Frame
  steps : List (Option Frame)
deriving DecidableEq

/-- Where a loop over the frames ends: `stepped` tells whether `ret` is still positive. -/
structure Walk (σ : Type) where
  state : σ
  cursor : Cursor
  stepped : Bool
deriving DecidableEq

section Walk

variable {σ : Type} (body : σ → Frame → σ × Bool)

/-- `for ( ret = 1; ret > 0; ret = unw_step( cursor ) )`. The body tells whether the loop breaks. -/
def walk : List (Option Frame) → Frame → σ → Walk σ
  | [], frame, state => ⟨(body state frame).1, ⟨frame, []⟩, (body state frame).2⟩
  | none :: steps, frame, state =>
    if (body state frame).2 then ⟨(body state frame).1, ⟨frame, none :: steps⟩, true⟩
    else ⟨(body state frame).1, ⟨frame, steps⟩, false⟩
  | some next :: steps, frame, state =>
    if (body state frame).2 then ⟨(body state frame).1, ⟨frame, some next :: steps⟩, true⟩
    else walk steps next (body state frame).1

def Cursor.walk (cursor : Cursor) (state : σ) : Walk σ :=
  Unwinding.walk body cursor.steps cursor.frame state

end Walk

namespace Cursor

def reached (cursor : Cursor) : List Frame :=
  cursor.frame :: (cursor.steps.takeWhile Option.isSome).reduceOption

def dropSignalContext (cursor : Cursor) : Cursor :=
  (cursor.walk (fun _ frame => ((), frame.isSignalFrame)) ()).cursor

def popSkippedFrames (cursor : Cursor) : Cursor :=
  (cursor.walk (fun _ frame => ((), frame.ip == 0 || frame.region.any (! ·.skip))) ()).cursor

end Cursor

/-! ## The data of a location -/

structure Pool where
  unusedObjects : List ℕ
  next : ℕ
deriving DecidableEq

namespace Pool

variable (pool : Pool)

def putUnused (object : ℕ) : Pool :=
  { pool with unusedObjects := object :: pool.unusedObjects }

def getUnused : ℕ × Pool :=
  match pool.unusedObjects with
  | object :: rest => (object, { pool with unusedObjects := rest })
  | [] => (pool.next, { pool with next := pool.next + 1 })

end Pool

@[ext] structure Wrapper where
  object : ℕ
  wrapperIp : ℕ
  nWrapperFrames : BitVec 64
  wrappeeHandle : ℕ
deriving DecidableEq

structure Surrogate where
  object : ℕ
  ip : ℕ
  regionHandle : ℕ
  isWrapped : Bool
deriving DecidableEq

/-- `scorep_unwinding_frame` -/
structure StackFrame where
  object : ℕ
  ip : ℕ
  region : Region
deriving DecidableEq

structure AugmentedFrame where
  object : ℕ
  ip : ℕ
  region : Region
  surrogates : List Surrogate
deriving DecidableEq

/-- `SCOREP_Unwinding_CpuLocationData` -/
structure UnwindData where
  pool : Pool
  unhandledWrappers : List Wrapper
  augmentedStack : List AugmentedFrame
  previousCallingContext : ℕ
deriving DecidableEq

/-- `augmented_stack && augmented_stack->surrogates->is_wrapped` -/
def UnwindData.insideWrapped (unwindData : UnwindData) : Bool :=
  (unwindData.augmentedStack.head?.bind (·.surrogates.head?)).any (·.isWrapped)

/-- One frame in the loop of `get_current_stack`. -/
def stackBody (current : Pool × List StackFrame) (frame : Frame) : (Pool × List StackFrame) × Bool :=
  if frame.ip = 0 then (current, true)
  else
    match frame.region with
    | none => (current, false)
    | some region =>
      if region.skip then (current, false)
      else
        let ip := if frame.isSignalFrame then frame.ip else frame.ip - 1
        ((current.1.getUnused.2, ⟨current.1.getUnused.1, ip, region⟩ :: current.2),
          region.isFork || region.isMain)

def getCurrentStack (pool : Pool) (cursor : Cursor) : Pool × List StackFrame :=
  (cursor.walk stackBody (pool, [])).state

/-! ## Unhandled wrappers -/

/-- `next_is_caller_ip` and `caller_ip` -/
structure Caller where
  nextIsCallerIp : Bool
  callerIp : ℕ
deriving DecidableEq

def searchBody (usePrevInstr wrapperIp : ℕ) (caller : Caller) (frame : Frame) : Caller × Bool :=
  if frame.ip = 0 then (caller, true)
  else
    (if caller.nextIsCallerIp then ⟨false, frame.ip - usePrevInstr⟩ else caller,
      frame.region.any fun region => decide (region.start ≤ wrapperIp ∧ wrapperIp < region.stop))

/-- One round of `while ( wrapper->n_wrapper_frames-- )`, which leaves at a count of 0. -/
def skipBody (nWrapperFrames : BitVec 64) (_ : Frame) : BitVec 64 × Bool :=
  (nWrapperFrames - 1, nWrapperFrames == 0)

def Wrapper.find (wrapper : Wrapper) (usePrevInstr : ℕ) (nextIsCallerIp : Bool) (cursor : Cursor) :
    Walk (Wrapper × ℕ) :=
  let search := cursor.walk (searchBody usePrevInstr wrapper.wrapperIp) ⟨nextIsCallerIp, 0⟩
  if search.stepped = true ∧ search.cursor.frame.ip ≠ 0 then
    let skip := search.cursor.walk skipBody wrapper.nWrapperFrames
    ⟨({ wrapper with nWrapperFrames := skip.state }, search.state.callerIp), skip.cursor, skip.stepped⟩
  else ⟨(wrapper, search.state.callerIp), search.cursor, search.stepped⟩

structure Resolution where
  pool : Pool
  wrappers : List Wrapper
  newSurrogates : Option (List Surrogate)
  cursor : Cursor
deriving DecidableEq

/-- The loop of `resolve_unhandled_wrappers` over the wrappers that are left, and what follows `out:`. -/
def resolveFrom (usePrevInstr : ℕ) : List Wrapper → Bool → Cursor → Pool → List Surrogate → Resolution
  | [], _, cursor, pool, newSurrogates => ⟨pool, [], some newSurrogates, cursor⟩
  | wrapper :: rest, nextIsCallerIp, cursor, pool, newSurrogates =>
    let found := wrapper.find usePrevInstr nextIsCallerIp cursor
    if found.stepped then
      let surrogate : Surrogate := ⟨pool.getUnused.1, found.state.2, wrapper.wrappeeHandle, true⟩
      let later := resolveFrom usePrevInstr rest true found.cursor pool.getUnused.2
        (surrogate :: newSurrogates)
      { later with wrappers := found.state.1 :: later.wrappers }
    else
      ⟨newSurrogates.foldl (fun pool surrogate => pool.putUnused surrogate.object) pool,
        found.state.1 :: rest, none, found.cursor⟩

def resolveUnhandledWrappers (inSignalContext : Bool) (unwindData : UnwindData) (cursor : Cursor) :
    Resolution :=
  resolveFrom (if inSignalContext then 0 else 1) unwindData.unhandledWrappers inSignalContext cursor
    unwindData.pool []

/-! ## Handling an enter -/

/-- The arguments of `scorep_unwinding_cpu_handle_enter` and its surroundings: `signalContext` tells whether
the cursor is made from `contextPtr`, and `start` is the cursor that libunwind makes, `none` if it fails. -/
structure Call where
  signalContext : Bool
  inSignalContext : Bool
  start : Option Cursor
  instrumentedRegionHandle : ℕ
deriving DecidableEq

/-- `SCOREP_INVALID_REGION`, the region of a sample. -/
def invalidRegion : ℕ := 0

inductive Enter where
  /-- `SCOREP_ERROR_PROCESSED_WITH_FAULTS` -/
  | error (unwindData : UnwindData)
  /-- `UTILS_BUG_ON` -/
  | bug
  /-- `SCOREP_SUCCESS` without a calling context -/
  | ignored (unwindData : UnwindData)
  /-- A calling context is made of the surrogates and the stack. -/
  | delivers (unwindData : UnwindData) (newSurrogates : Option (List Surrogate))
      (currentStack : List StackFrame)
deriving DecidableEq

def Call.prepare (call : Call) (cursor : Cursor) : Cursor :=
  if call.signalContext then cursor
  else if call.inSignalContext then cursor.dropSignalContext
  else cursor.popSkippedFrames

def enterStack (unwindData : UnwindData) (call : Call) (newSurrogates : Option (List Surrogate))
    (cursor : Cursor) : Enter :=
  if unwindData.insideWrapped then .delivers unwindData newSurrogates []
  else
    let current := getCurrentStack unwindData.pool cursor
    match current.2 with
    | [] =>
      if call.instrumentedRegionHandle ≠ invalidRegion then .bug
      else .ignored { unwindData with pool := current.1 }
    | currentStack => .delivers { unwindData with pool := current.1 } newSurrogates currentStack

def handleEnter (unwindData : UnwindData) (call : Call) : Enter :=
  match call.start with
  | none => .error unwindData
  | some start =>
    let cursor := call.prepare start
    match unwindData.unhandledWrappers with
    | [] => enterStack unwindData call none cursor
    | top :: _ =>
      if call.instrumentedRegionHandle ≠ invalidRegion ∧
          top.wrappeeHandle ≠ call.instrumentedRegionHandle then .bug
      else
        let resolution := resolveUnhandledWrappers call.inSignalContext unwindData cursor
        let unwindData := { unwindData with
          pool := resolution.pool, unhandledWrappers := resolution.wrappers }
        match resolution.newSurrogates with
        | none => if call.instrumentedRegionHandle ≠ invalidRegion then .bug else .ignored unwindData
        | some newSurrogates =>
          if unwindData.insideWrapped then .delivers unwindData (some newSurrogates) []
          else enterStack unwindData call (some newSurrogates) resolution.cursor

def Enter.undelivered : Enter → Option UnwindData
  | .error unwindData => some unwindData
  | .ignored unwindData => some unwindData
  | _ => none

end ScoreP.Unwinding
