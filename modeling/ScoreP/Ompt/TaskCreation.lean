import Mathlib.Data.List.Nodup
import ScoreP.Foundations.Fields

/-!
# Explicit tasks of the OMPT adapter

Source: `src/adapters/ompt/scorep_ompt_events_host.inc.c`. The callback for a created task packs its
region handle, the number of the creating thread in its team and a generation number into the 64 bits of
`new_task_data`, and the callback that schedules the task for the first time unpacks them.

What a task object and a parallel object hold for other purposes (tool-stack of regions, timestamps,
reference counts, leagues) is left out, and so are the events of resumed and completed tasks. A handle of
`get_region` is an argument of the call.
-/

namespace ScoreP.Ompt

open Foundations Function

/-- A failing `UTILS_BUG_ON`, or an access to memory that does not exist and a shift by the width of the
shifted type, for which C defines no behaviour. -/
inductive Failure
  | bugOn
  | undefined
  deriving DecidableEq

def invalidRegion : ℕ := 0

/-! ## Masks and shifts -/

def getMask (width shift : ℕ) : Except Failure Word :=
  if width = 0 ∨ 64 < width then .error .bugOn
  else if 63 < shift then .error .bugOn
  else if 64 < width + shift then .error .bugOn
  else .ok ((BitVec.allOnes 64 <<< (64 - width)) >>> (64 - width - shift))

structure Process where
  nbitsRegion : ℕ
  shiftRegion : ℕ
  shiftNewTask : ℕ
  maskRegion : Word
  maskNewTask : Word

/-- `complete_adapter_init`, with `SCOREP_Memory_GetDefinitionHandlesBitWidth`. -/
def completeAdapterInit (bitWidth : ℕ) : Except Failure Process := do
  let maskRegion ← getMask bitWidth (64 - bitWidth)
  let maskNewTask ← getMask 1 0
  return { nbitsRegion := bitWidth
           shiftRegion := 64 - bitWidth
           shiftNewTask := 0
           maskRegion := maskRegion
           maskNewTask := maskNewTask }

structure ParallelT where
  /-- `struct scorep_thread_private_data*`, a null pointer for the implicit parallel region. -/
  parent : Option ℕ
  region : ℕ
  teamSize : ℕ
  shiftRequestedParallelism : ℕ
  shiftTaskGenerationNumber : ℕ
  maxExplicitTasks : ℕ
  maskRequestedParallelism : Word
  maskTaskGenerationNumber : Word
  taskGenerationNumbers : Option (List ℕ)

/-- The object after `memset`. -/
def ParallelT.zero : ParallelT where
  parent := none
  region := 0
  teamSize := 0
  shiftRequestedParallelism := 0
  shiftTaskGenerationNumber := 0
  maxExplicitTasks := 0
  maskRequestedParallelism := 0
  maskTaskGenerationNumber := 0
  taskGenerationNumbers := none

/-- `get_parallel_region_from_pool`: an object that is used again keeps its array. -/
def getParallelRegionFromPool (old : ParallelT) : ParallelT :=
  { ParallelT.zero with taskGenerationNumbers := old.taskGenerationNumbers }

/-- `while ( ( team_size - 1 ) >> nbits ) nbits++`, with the rounds that are left for a `uint32_t`. -/
def countBits (number : ℕ) : ℕ → ℕ → Except Failure ℕ
  | 0, _ => .error .undefined
  | n + 1, nbits => if number >>> nbits = 0 then .ok nbits else countBits number n (nbits + 1)

def initParallelObj (process : Process) (parallel : ParallelT) (parent : Option ℕ)
    (requestedParallelism region : ℕ) : Except Failure ParallelT :=
  if requestedParallelism = 0 then .error .bugOn
  else
    match parent with
    | none =>
      .ok { parallel with parent := none, teamSize := requestedParallelism, region := region }
    | some parent => do
      let nbitsReqParallelism ← countBits (requestedParallelism - 1) 31 1
      if 64 ≤ process.nbitsRegion + nbitsReqParallelism + 1 then .error .bugOn
      else
        let nbitsRemaining := 64 - process.nbitsRegion - nbitsReqParallelism - 1
        let nbitsTaskGenNumber := if nbitsRemaining > 32 then 32 else nbitsRemaining
        let shiftRequestedParallelism := process.shiftRegion - nbitsReqParallelism
        let maskRequestedParallelism ← getMask nbitsReqParallelism shiftRequestedParallelism
        let shiftTaskGenerationNumber := shiftRequestedParallelism - nbitsTaskGenNumber
        let maskTaskGenerationNumber ← getMask nbitsTaskGenNumber shiftTaskGenerationNumber
        return { parent := some parent
                 region := region
                 teamSize := requestedParallelism
                 shiftRequestedParallelism := shiftRequestedParallelism
                 shiftTaskGenerationNumber := shiftTaskGenerationNumber
                 maxExplicitTasks := 2 ^ nbitsTaskGenNumber - 1
                 maskRequestedParallelism := maskRequestedParallelism
                 maskTaskGenerationNumber := maskTaskGenerationNumber
                 taskGenerationNumbers := some (List.replicate requestedParallelism 0) }

/-! ## Packing and unpacking -/

/-- `( uint64_t )task_region << shift_region | ...` -/
def packNewTask (process : Process) (parallel : ParallelT) (region threadNum generation : ℕ) : Word :=
  field region process.shiftRegion |||
    field threadNum parallel.shiftRequestedParallelism |||
    field generation parallel.shiftTaskGenerationNumber |||
    field 1 process.shiftNewTask

def packUndeferred (process : Process) : Word :=
  field invalidRegion process.shiftRegion ||| field 1 process.shiftNewTask

/-- The `uint32_t` in the bits of a mask. -/
def unpack (value mask : Word) (shift : ℕ) : ℕ :=
  ((value &&& mask) >>> shift).toNat % 2 ^ 32

structure Creation where
  region : ℕ
  threadNum : ℕ
  generation : ℕ
  deriving DecidableEq

def unpackRegion (process : Process) (value : Word) : ℕ :=
  unpack value process.maskRegion process.shiftRegion

def unpackNewTask (process : Process) (parallel : ParallelT) (value : Word) : Creation where
  region := unpackRegion process value
  threadNum := unpack value parallel.maskRequestedParallelism parallel.shiftRequestedParallelism
  generation := unpack value parallel.maskTaskGenerationNumber parallel.shiftTaskGenerationNumber

/-! ## The callbacks -/

/-- `task_t`, `explicit` says that its type has `ompt_task_explicit`. -/
structure TaskT where
  explicit : Bool
  parallelRegion : ℕ
  region : ℕ
  undeferredLevel : ℤ

inductive Phase
  | unused
  | generated (parallel : ℕ)
  | started (parallel : ℕ)
  | ended
  deriving DecidableEq

/-- A created task that is not undeferred: its number, the object of the region it was created in, what
`SCOREP_ThreadForkJoin_TaskCreate` got, and the value for `new_task_data`. -/
structure Created where
  task : ℕ
  parallel : ℕ
  creation : Creation
  value : Word

/-- Tasks are numbered by the runtime. `data` is what its `ompt_data_t` holds, the address of a task
object or a packed value. -/
structure State where
  objects : ℕ → ParallelT
  /-- The number of threads that the runtime has given the region of an object. -/
  size : ℕ → ℕ
  tasks : Word → Option TaskT
  data : ℕ → Word
  phase : ℕ → Phase
  created : List Created
  /-- The calls of `SCOREP_ThreadForkJoin_TaskBegin` with the number of the task. -/
  begun : List (ℕ × ℕ × Creation)

namespace State

variable (process : Process) (s : State)

def setData (task : ℕ) (value : Word) (phase : Phase) : State :=
  { s with data := update s.data task value, phase := update s.phase task phase }

def setTask (address : Word) (object : Option TaskT) : State :=
  { s with tasks := update s.tasks address object }

def regionOf (task : ℕ) : Option ℕ :=
  match s.phase task with
  | .generated p => some p
  | .started p => some p
  | .unused => none
  | .ended => none

end State

structure TaskFlags where
  merged : Bool
  taskwait : Bool
  undeferred : Bool
  untied : Bool
  deriving DecidableEq

def TaskFlags.deferred (flags : TaskFlags) : Bool :=
  !flags.merged && !flags.taskwait && !flags.undeferred

/-- The kinds of regions for which `scorep_ompt_cb_host_task_create` calls `get_region`. -/
inductive ToolEvent
  | task
  | taskUntied
  | taskwaitDepend
  | taskwaitDependNowait
  deriving DecidableEq

/-- `scorep_ompt_cb_host_parallel_begin`, for the object `p` from the pool or from the heap. -/
def parallelBegin (process : Process) (s : State) (p parent requestedParallelism actual region : ℕ) :
    Except Failure State := do
  let parallel ← initParallelObj process (getParallelRegionFromPool (s.objects p)) (some parent)
    requestedParallelism region
  return { s with
           objects := update s.objects p parallel
           size := update s.size p actual
           created := s.created.filter fun c => c.parallel ≠ p
           begun := s.begun.filter fun entry => entry.2.1 ≠ p }

/-- `scorep_ompt_cb_host_implicit_task`, with the address of the new task object. -/
def implicitTaskBegin (s : State) (task p index actualParallelism : ℕ) (address : Word) : State :=
  let object : TaskT :=
    { explicit := false, parallelRegion := p, region := invalidRegion, undeferredLevel := 0 }
  let objects := if index = 0 then
      update s.objects p { s.objects p with teamSize := actualParallelism }
    else s.objects
  ({ s with objects := objects }.setTask address (some object)).setData task address (.started p)

def implicitTaskEnd (s : State) (task : ℕ) : State :=
  { s.setTask (s.data task) none with phase := update s.phase task .ended }

def nextGeneration (parallel : ParallelT) (threadNum : ℕ) : Except Failure (ParallelT × ℕ) :=
  match parallel.taskGenerationNumbers with
  | none => .error .undefined
  | some numbers =>
    match numbers[threadNum]? with
    | none => .error .undefined
    | some number =>
      if parallel.maxExplicitTasks = number then .error .bugOn
      else
        let generation := (number + 1) % 2 ^ 32
        .ok ({ parallel with taskGenerationNumbers := some (numbers.set threadNum generation) }, generation)

/-- `scorep_ompt_cb_host_task_create`; the new task belongs to the region of the encountering one. -/
def taskCreate (process : Process) (s : State) (encountering newTask : ℕ) (flags : TaskFlags)
    (getRegion : ToolEvent → ℕ) (threadNum : ℕ) : Except Failure State :=
  match s.tasks (s.data encountering), s.regionOf encountering with
  | some task, some home =>
    if flags.merged then
      -- the merged task runs at once, without scheduling events
      .ok (s.setData newTask (s.data encountering) (.started home))
    else if flags.taskwait then
      let region := getRegion (if flags.undeferred then .taskwaitDepend else .taskwaitDependNowait)
      .ok (s.setData newTask (field region process.shiftRegion) .ended)
    else if flags.undeferred then
      .ok (s.setData newTask (packUndeferred process) (.generated home))
    else do
      let region := getRegion (if flags.untied then .taskUntied else .task)
      if region = invalidRegion then .error .bugOn
      else
        let (parallel, generation) ← nextGeneration (s.objects task.parallelRegion) threadNum
        let value := packNewTask process parallel region threadNum generation
        let creation : Creation :=
          { region := region, threadNum := threadNum, generation := generation }
        return { s.setData newTask value (.generated home) with
                 objects := update s.objects task.parallelRegion parallel
                 created := { task := newTask, parallel := home, creation := creation,
                              value := value } :: s.created }
  | _, _ => .error .undefined

/-- `ompt_task_status_t` -/
inductive TaskStatus
  | complete
  | yield
  | cancel
  | detach
  | earlyFulfill
  | lateFulfill
  | switch
  | taskwaitComplete
  deriving DecidableEq

def TaskStatus.ends : TaskStatus → Bool
  | .complete => true
  | .detach => true
  | _ => false

/-- `task_schedule_handle_prior_task`: the object of the prior task afterwards. -/
def handlePriorTask (prior : TaskT) (status : TaskStatus) : Except Failure TaskT :=
  match status with
  | .complete | .detach =>
    if prior.undeferredLevel = 0 ∧ prior.explicit = false then .error .bugOn
    else .ok { prior with undeferredLevel := prior.undeferredLevel - 1 }
  | .switch | .yield => .ok prior
  | _ => .error .bugOn

/-- `task_schedule_handle_next_task`; `fresh` is the address that `get_task_from_pool` returns. -/
def handleNextTask (process : Process) (s : State) (priorAddress : Word) (prior : TaskT) (nextTask : ℕ)
    (fresh : Word) : Except Failure State :=
  let value := s.data nextTask
  if value = 0 then .error .bugOn
  else if value &&& process.maskNewTask ≠ 0 then
    if unpackRegion process value = invalidRegion then
      .ok ((s.setTask priorAddress
        (some { prior with undeferredLevel := prior.undeferredLevel + 1 })).setData nextTask
          priorAddress (.started prior.parallelRegion))
    else
      let creation := unpackNewTask process (s.objects prior.parallelRegion) value
      let object : TaskT :=
        { explicit := true, parallelRegion := prior.parallelRegion, region := creation.region,
          undeferredLevel := 0 }
      .ok { (s.setTask fresh (some object)).setData nextTask fresh (.started prior.parallelRegion) with
            begun := (nextTask, prior.parallelRegion, creation) :: s.begun }
  else
    match s.tasks value with
    | none => .error .undefined
    | some _ => .ok s

def taskSchedule (process : Process) (s : State) (priorTask : ℕ) (status : TaskStatus) (nextTask : ℕ)
    (fresh : Word) : Except Failure State :=
  match status with
  | .earlyFulfill | .lateFulfill | .taskwaitComplete => .ok s
  | _ =>
    let address := s.data priorTask
    match s.tasks address with
    | none => .error .undefined
    | some prior => do
      let handled := if status = .cancel then .ok prior else handlePriorTask prior status
      let prior ← handled
      let s := s.setTask address (some prior)
      let s := if status.ends then { s with phase := update s.phase priorTask .ended } else s
      let s ← handleNextTask process s address prior nextTask fresh
      match s.tasks address with
      | none => .error .undefined
      | some prior =>
        -- `UNDEFERRED_TASK_TO_BE_FREED`
        if prior.undeferredLevel = -1 then .ok (s.setTask address none) else .ok s

inductive Action
  | parallelBegin (p parent requestedParallelism actual region : ℕ)
  | implicitTaskBegin (task p index : ℕ) (address : Word)
  | implicitTaskEnd (task : ℕ)
  | taskCreate (encountering newTask : ℕ) (flags : TaskFlags) (getRegion : ToolEvent → ℕ) (threadNum : ℕ)
  | taskSchedule (priorTask : ℕ) (status : TaskStatus) (nextTask : ℕ) (fresh : Word)
  | mergedEnd (task : ℕ)

def step (process : Process) (s : State) : Action → Except Failure State
  | .parallelBegin p parent requestedParallelism actual region =>
    Ompt.parallelBegin process s p parent requestedParallelism actual region
  | .implicitTaskBegin task p index address =>
    .ok (Ompt.implicitTaskBegin s task p index (s.size p) address)
  | .implicitTaskEnd task => .ok (Ompt.implicitTaskEnd s task)
  | .taskCreate encountering newTask flags getRegion threadNum =>
    Ompt.taskCreate process s encountering newTask flags getRegion threadNum
  | .taskSchedule priorTask status nextTask fresh =>
    Ompt.taskSchedule process s priorTask status nextTask fresh
  | .mergedEnd task => .ok { s with phase := update s.phase task .ended }

/-! ## What the runtime promises -/

def implicitParallel : ℕ := 0

def State.Free (s : State) (address : Word) : Prop :=
  address.getLsbD 0 = false ∧ address ≠ 0 ∧ s.tasks address = none

def State.Sole (s : State) (task : ℕ) : Prop :=
  ∀ other p, other ≠ task → s.phase other = .started p → s.data other ≠ s.data task

def State.MayEnd (s : State) (task : ℕ) : Prop :=
  ∀ object, s.tasks (s.data task) = some object → object.undeferredLevel = 0 → s.Sole task

/-- The definition handles that `get_region` returns. -/
def Process.Handle (process : Process) (handle : ℕ) : Prop :=
  handle ≠ invalidRegion ∧ handle < 2 ^ process.nbitsRegion ∧ handle < 2 ^ 32

/-- The calls that a runtime makes. A team has at most as many threads as requested, a task is scheduled
on a thread of the team that generated it, and a parallel region ends when its tasks have. -/
def Allowed (process : Process) (s : State) : Action → Prop
  | .parallelBegin p _ requestedParallelism actual _ =>
    p ≠ implicitParallel ∧ (∀ task, s.regionOf task ≠ some p) ∧ 1 ≤ actual ∧
      actual ≤ requestedParallelism ∧ requestedParallelism ≤ 2 ^ 31
  | .implicitTaskBegin task p index address =>
    s.phase task = .unused ∧ p ≠ implicitParallel ∧ index < s.size p ∧ s.Free address
  | .implicitTaskEnd task => (∃ p, s.phase task = .started p) ∧ s.Sole task
  | .taskCreate encountering newTask _ getRegion threadNum =>
    (∃ p, s.phase encountering = .started p ∧ threadNum < s.size p) ∧ s.phase newTask = .unused ∧
      ∀ event, process.Handle (getRegion event)
  | .taskSchedule priorTask status nextTask fresh =>
    priorTask ≠ nextTask ∧ s.Free fresh ∧ (∃ p, s.phase priorTask = .started p ∧
        (s.phase nextTask = .generated p ∨ s.phase nextTask = .started p)) ∧
      (status.ends → s.MayEnd priorTask)
  | .mergedEnd task => ∃ p, s.phase task = .started p

/-- The state after `on_initial_task`, with the address of `initial_task`. -/
def State.initial (process : Process) (address : Word) : Except Failure State := do
  let parallel ← initParallelObj process ParallelT.zero none 1 invalidRegion
  return { objects := fun p => if p = implicitParallel then parallel else ParallelT.zero
           size := fun p => if p = implicitParallel then 1 else 0
           tasks := fun a => if a = address then
               some { explicit := false, parallelRegion := implicitParallel, region := invalidRegion,
                      undeferredLevel := 0 }
             else none
           data := fun task => if task = 0 then address else 0
           phase := fun task => if task = 0 then .started implicitParallel else .unused
           created := []
           begun := [] }

inductive Reachable (process : Process) (address : Word) : State → Prop
  | initial {s : State} (h : State.initial process address = .ok s) : Reachable process address s
  | step {s s' : State} (a : Action) (h : Reachable process address s) (hallowed : Allowed process s a)
      (hstep : Ompt.step process s a = .ok s') : Reachable process address s'

end ScoreP.Ompt
