import Mathlib.Algebra.GroupWithZero.Nat
import Mathlib.Data.List.Range

/-!
# The pool of CUPTI activity buffers

`get_free_buffer`, `mark_complete_buffer` with `get_buffer`, `scorep_cupti_activity_context_flush`
and the creation of contexts, as threads that run side by side. A thread is at a program counter
(`Pc`) and takes one access to the shared memory at a time: a buffer's state, its valid size, a
link of the list, or a section under the adapter's lock.

`use` is what CUPTI and the flush know of a buffer, beside the `state` that the code keeps: who has
it, and whether it holds records that no flush has processed. `faults` lists what must not happen.
-/

namespace ScoreP.Cuda.Buffers

open Function

/-! ## Shared memory -/

inductive BufferState where
  | free
  | committed
  | pending
deriving DecidableEq

inductive Use where
  | free
  | held
  | completing
  | waiting
deriving DecidableEq

/-- `scorep_cupti_activity_buffer_size`, `scorep_cupti_activity_buffer_chunk_size` and
`SCOREP_CUPTI_ACTIVITY_ALIGN_SIZE`. -/
structure Config where
  bufferSize : ℕ
  chunkSize : ℕ
  alignSize : ℕ

inductive Fault where
  | handedOut (buffer : ℕ)
  | assertFailed (buffer : ℕ)
  | nullActivity (context : ℕ)
  | notFound (buffer : ℕ)
  | overwritten (buffer : ℕ)
  | processedTwice (buffer : ℕ)
  | missed (context : ℕ)
deriving DecidableEq

/-- The program counters, with the local variables that are still needed. A thread that looks for a
buffer in the global queue has the contexts it still has to visit; a flush has the buffers that were
pending when it began. -/
inductive Pc where
  | idle
  -- `get_free_buffer`
  | scan (context current total : ℕ)
  | scanNext (context current total : ℕ)
  | commit (context buffer : ℕ)
  | grow (context : ℕ) (prev : Option ℕ) (total : ℕ)
  | link (context : ℕ) (prev : Option ℕ) (buffer : ℕ)
  | check (buffer : ℕ)
  -- `mark_complete_buffer`
  | find (current buffer validSize : ℕ)
  | findAny (contexts : List ℕ) (buffer validSize : ℕ)
  | findIn (current : ℕ) (contexts : List ℕ) (buffer validSize : ℕ)
  | setValid (buffer validSize : ℕ)
  | setState (buffer : ℕ)
  -- `scorep_cupti_activity_context_flush`
  | flush (context current : ℕ) (due : List ℕ)
  | handle (context current : ℕ) (due : List ℕ)
  | clear (context current : ℕ) (due : List ℕ)
  | release (context current : ℕ) (due : List ℕ)
  | flushNext (context current : ℕ) (due : List ℕ)
  -- `scorep_cupti_activity_context_setup`
  | setup (context : ℕ)
deriving DecidableEq

/-- `owner` is the context a buffer was allocated for, `lock` the thread in the flush. -/
structure State where
  contexts : List ℕ
  activity : ℕ → Bool
  head : ℕ → Option ℕ
  next : ℕ → Option ℕ
  size : ℕ → ℕ
  state : ℕ → BufferState
  validSize : ℕ → ℕ
  owner : ℕ → ℕ
  use : ℕ → Use
  allocated : ℕ
  lock : Option ℕ
  pcs : ℕ → Pc
  faults : List Fault

def initial : State where
  contexts := []
  activity := fun _ => false
  head := fun _ => none
  next := fun _ => none
  size := fun _ => 0
  state := fun _ => .free
  validSize := fun _ => 0
  owner := fun _ => 0
  use := fun _ => .free
  allocated := 0
  lock := none
  pcs := fun _ => .idle
  faults := []

namespace State

def goto (s : State) (thread : ℕ) (pc : Pc) : State :=
  { s with pcs := update s.pcs thread pc }

def fault (s : State) (f : Fault) : State :=
  { s with faults := s.faults ++ [f] }

/-- `f` is reported where the condition fails. -/
def require (s : State) (condition : Bool) (f : Fault) : State :=
  if condition then s else s.fault f

def setUse (s : State) (buffer : ℕ) (use : Use) : State :=
  { s with use := update s.use buffer use }

def setState (s : State) (buffer : ℕ) (state : BufferState) : State :=
  { s with state := update s.state buffer state }

def setValidSize (s : State) (buffer : ℕ) (validSize : ℕ) : State :=
  { s with validSize := update s.validSize buffer validSize }

def buffersOf (s : State) (context : ℕ) : List ℕ :=
  (List.range s.allocated).filter fun buffer => s.owner buffer = context

def sizeOf (s : State) (context : ℕ) : ℕ :=
  ((s.buffersOf context).map s.size).sum

def pendingOf (s : State) (context : ℕ) : List ℕ :=
  (s.buffersOf context).filter fun buffer => s.state buffer = .pending

end State

/-! ## The start of an operation -/

/-- `buffer_requested_callback` finds the context and looks at its buffers. -/
def request (thread context : ℕ) (s : State) : State :=
  if context ∈ s.contexts ∧ s.activity context = true then
    match s.head context with
    | some current => s.goto thread (.scan context current 0)
    | none => s.goto thread (.grow context none 0)
  else s

/-- `buffer_completed_callback` for the context of the buffer. -/
def complete (thread buffer validSize : ℕ) (s : State) : State :=
  let s := s.setUse buffer .completing
  if s.owner buffer ∈ s.contexts ∧ s.activity (s.owner buffer) = true then
    match s.head (s.owner buffer) with
    | some current => s.goto thread (.find current buffer validSize)
    | none => s.fault (.notFound buffer)
  else s.fault (.notFound buffer)

/-- `buffer_completed_callback` for the global queue. -/
def completeGlobal (thread buffer validSize : ℕ) (s : State) : State :=
  (s.setUse buffer .completing).goto thread (.findAny s.contexts buffer validSize)

/-- `scorep_cupti_activity_context_flush` takes the lock and looks at the first buffer. -/
def beginFlush (thread context : ℕ) (s : State) : State :=
  if s.activity context = true then
    match s.head context with
    | some current =>
      { s with lock := some thread }.goto thread (.flush context current (s.pendingOf context))
    | none => s.require (s.pendingOf context).isEmpty (.missed context)
  else s

/-- `scorep_cupti_context_get_create` for a new context; its activity part is set up next. -/
def create (thread context : ℕ) (s : State) : State :=
  { s with contexts := context :: s.contexts }.goto thread (.setup context)

/-! ## One access of a thread -/

def advance (cfg : Config) (thread : ℕ) (s : State) : State :=
  match s.pcs thread with
  | .idle => s
  | .scan context current total =>
    if s.state current = .free then s.goto thread (.commit context current)
    else s.goto thread (.scanNext context current (total + s.size current))
  | .scanNext context current total =>
    match s.next current with
    | some current' => s.goto thread (.scan context current' total)
    | none => s.goto thread (.grow context (some current) total)
  | .commit _ buffer => (s.setState buffer .committed).goto thread (.check buffer)
  | .grow context prev total =>
    if total + cfg.chunkSize + cfg.alignSize > cfg.bufferSize then s.goto thread .idle
    else
      let buffer := s.allocated
      { s with
        next := update s.next buffer none
        size := update s.size buffer cfg.chunkSize
        state := update s.state buffer .committed
        validSize := update s.validSize buffer 0
        owner := update s.owner buffer context
        use := update s.use buffer .free
        allocated := s.allocated + 1 }.goto thread (.link context prev buffer)
  | .link context prev buffer =>
    let s :=
      match prev with
      | some prev => { s with next := update s.next prev (some buffer) }
      | none => { s with head := update s.head context (some buffer) }
    s.goto thread (.check buffer)
  | .check buffer =>
    let s := s.require (s.validSize buffer = 0) (.assertFailed buffer)
    let s := s.require (s.use buffer = .free) (.handedOut buffer)
    (s.setUse buffer .held).goto thread .idle
  | .find current buffer validSize =>
    if current = buffer then s.goto thread (.setValid buffer validSize)
    else
      match s.next current with
      | some current' => s.goto thread (.find current' buffer validSize)
      | none => (s.fault (.notFound buffer)).goto thread .idle
  | .findAny [] buffer _ => (s.fault (.notFound buffer)).goto thread .idle
  | .findAny (context :: contexts) buffer validSize =>
    let s := s.require (s.activity context) (.nullActivity context)
    match s.head context with
    | some current => s.goto thread (.findIn current contexts buffer validSize)
    | none => s.goto thread (.findAny contexts buffer validSize)
  | .findIn current contexts buffer validSize =>
    if current = buffer then s.goto thread (.setValid buffer validSize)
    else
      match s.next current with
      | some current' => s.goto thread (.findIn current' contexts buffer validSize)
      | none => s.goto thread (.findAny contexts buffer validSize)
  | .setValid buffer validSize =>
    let s := s.require (s.validSize buffer = 0) (.overwritten buffer)
    (s.setValidSize buffer validSize).goto thread (.setState buffer)
  | .setState buffer =>
    if s.validSize buffer > 0 then
      ((s.setState buffer .pending).setUse buffer .waiting).goto thread .idle
    else ((s.setState buffer .free).setUse buffer .free).goto thread .idle
  | .flush context current due =>
    if s.state current = .pending then s.goto thread (.handle context current due)
    else s.goto thread (.flushNext context current due)
  | .handle context current due =>
    let s := s.require (s.use current = .waiting) (.processedTwice current)
    (s.setUse current .free).goto thread (.clear context current (due.filter (· ≠ current)))
  | .clear context current due =>
    (s.setValidSize current 0).goto thread (.release context current due)
  | .release context current due =>
    (s.setState current .free).goto thread (.flushNext context current due)
  | .flushNext context current due =>
    match s.next current with
    | some current' => s.goto thread (.flush context current' due)
    | none =>
      { s.require due.isEmpty (.missed context) with lock := none }.goto thread .idle
  | .setup context =>
    { s with activity := update s.activity context true }.goto thread .idle

/-! ## Steps -/

inductive Action where
  | request (thread context : ℕ)
  | complete (thread buffer validSize : ℕ)
  | completeGlobal (thread buffer validSize : ℕ)
  | flush (thread context : ℕ)
  | create (thread context : ℕ)
  | advance (thread : ℕ)

/-- CUPTI completes buffers that it holds, sections under the lock exclude each other, and a
context is created once. -/
def step (cfg : Config) (s : State) : Action → Option State
  | .request thread context =>
    if s.pcs thread = .idle then some (request thread context s) else none
  | .complete thread buffer validSize =>
    if s.pcs thread = .idle ∧ s.use buffer = .held then some (complete thread buffer validSize s)
    else none
  | .completeGlobal thread buffer validSize =>
    if s.pcs thread = .idle ∧ s.use buffer = .held then
      some (completeGlobal thread buffer validSize s)
    else none
  | .flush thread context =>
    if s.pcs thread = .idle ∧ s.lock = none then some (beginFlush thread context s) else none
  | .create thread context =>
    if s.pcs thread = .idle ∧ s.lock = none ∧ context ∉ s.contexts then
      some (create thread context s)
    else none
  | .advance thread => if s.pcs thread = .idle then none else some (advance cfg thread s)

end ScoreP.Cuda.Buffers
