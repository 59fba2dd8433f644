import Mathlib.Algebra.Group.Nat.Defs
import Mathlib.Logic.Function.Basic

/-!
# Tasks and their region stacks

Source: `SCOREP_Task.c` and the fork hash of `scorep_thread_fork_join_generic.c`. Stack frames and task
objects are numbered in the order of their allocation by `SCOREP_Location_AllocForMisc`, and `frames` and
`tasks` are their memory. `jenkinsHash` hashes one word, its second argument is the initial value;
`hashValue` is the member of the region definition that a handle refers to.

The functions answer a `UTILS_BUG_ON` and the use of a handle that refers to no definition with `none`. The
loops along a stack take a bound on the number of its frames, `none` says that the bound was too small.
-/

namespace ScoreP.Tasks

open Function

abbrev RegionHandle := ℕ

def invalidRegion : RegionHandle := 0

def filteredRegion : RegionHandle := 2 ^ 32 - 1

def taskStackSize : ℕ := 30

structure StackFrame where
  regions : ℕ → RegionHandle
  prev : Option ℕ

structure Task where
  currentFrame : Option ℕ
  currentIndex : ℕ
  threadId : ℕ
  generationNumber : ℕ
  parentHashValue : UInt32
  next : Option ℕ
deriving DecidableEq

structure LocationTaskData where
  currentTask : Option ℕ
  recycledTasks : Option ℕ
  implicitTask : Option ℕ
  recycledFrames : Option ℕ
deriving DecidableEq

structure State where
  frames : ℕ → StackFrame
  tasks : ℕ → Task
  locations : ℕ → LocationTaskData
  lastForkHash : ℕ → UInt32
  framesAllocated : ℕ
  tasksAllocated : ℕ

namespace State

variable (s : State) (location task frame : ℕ)

def setFrame (data : StackFrame) : State :=
  { s with frames := update s.frames frame data }

def setTask (data : Task) : State :=
  { s with tasks := update s.tasks task data }

def setLocation (data : LocationTaskData) : State :=
  { s with locations := update s.locations location data }

@[simp] theorem frames_setFrame (data : StackFrame) : (s.setFrame frame data).frames frame = data := by
  simp [setFrame]

theorem frames_setFrame_of_ne {other : ℕ} (h : other ≠ frame) (data : StackFrame) :
    (s.setFrame frame data).frames other = s.frames other := by
  simp only [setFrame, update_of_ne h]

@[simp] theorem tasks_setTask (data : Task) : (s.setTask task data).tasks task = data := by
  simp [setTask]

theorem tasks_setTask_of_ne {other : ℕ} (h : other ≠ task) (data : Task) :
    (s.setTask task data).tasks other = s.tasks other := by
  simp only [setTask, update_of_ne h]

@[simp] theorem locations_setLocation (data : LocationTaskData) :
    (s.setLocation location data).locations location = data := by
  simp [setLocation]

@[simp] theorem tasks_setLocation (data : LocationTaskData) : (s.setLocation location data).tasks = s.tasks :=
  rfl

theorem locations_setLocation_of_ne {other : ℕ} (h : other ≠ location) (data : LocationTaskData) :
    (s.setLocation location data).locations other = s.locations other := by
  simp only [setLocation, update_of_ne h]

def recycleStackFrame : State :=
  (s.setFrame frame { s.frames frame with prev := (s.locations location).recycledFrames }).setLocation location
    { s.locations location with recycledFrames := some frame }

def recycleTask : State :=
  (s.setTask task { s.tasks task with next := (s.locations location).recycledTasks }).setLocation location
    { s.locations location with recycledTasks := some task }

def allocNewStackFrame : ℕ × State :=
  match (s.locations location).recycledFrames with
  | some newFrame =>
    (newFrame, s.setLocation location
      { s.locations location with recycledFrames := (s.frames newFrame).prev })
  | none => (s.framesAllocated, { s with framesAllocated := s.framesAllocated + 1 })

/-- The allocation in `scorep_task_create`. -/
def allocNewTask : ℕ × State :=
  match (s.locations location).recycledTasks with
  | some newTask =>
    (newTask, s.setLocation location { s.locations location with recycledTasks := (s.tasks newTask).next })
  | none => (s.tasksAllocated, { s with tasksAllocated := s.tasksAllocated + 1 })

def taskPopStack : Option State :=
  match (s.tasks task).currentFrame with
  | none => none
  | some oldFrame =>
    if (s.tasks task).currentIndex = 0 then
      some ((s.setTask task { s.tasks task with
        currentFrame := (s.frames oldFrame).prev
        currentIndex := taskStackSize - 1 }).recycleStackFrame location oldFrame)
    else
      some (s.setTask task { s.tasks task with currentIndex := (s.tasks task).currentIndex - 1 })

def getTopRegion : RegionHandle :=
  match (s.tasks task).currentFrame with
  | none => invalidRegion
  | some frame => (s.frames frame).regions (s.tasks task).currentIndex

/-- The loop of `SCOREP_Task_ClearStack`. -/
def clearFrames : ℕ → State → Option State
  | 0, _ => none
  | bound + 1, s =>
    match (s.tasks task).currentFrame with
    | none => some s
    | some oldFrame =>
      clearFrames bound ((s.setTask task { s.tasks task with
        currentFrame := (s.frames oldFrame).prev }).recycleStackFrame location oldFrame)

def clearStack : Option State := do
  let s ← clearFrames location task (s.framesAllocated + 1) s
  return s.setTask task { s.tasks task with currentIndex := taskStackSize - 1 }

def enter (region : RegionHandle) : Option State :=
  match (s.locations location).currentTask with
  | none => none
  | some task =>
    if (s.tasks task).currentIndex < taskStackSize - 1 then
      match (s.tasks task).currentFrame with
      | none => none
      | some frame =>
        let index := (s.tasks task).currentIndex + 1
        some ((s.setTask task { s.tasks task with currentIndex := index }).setFrame frame
          { s.frames frame with regions := update (s.frames frame).regions index region })
    else
      let (newFrame, s) := s.allocNewStackFrame location
      some ((s.setFrame newFrame {
          regions := update (s.frames newFrame).regions 0 region
          prev := (s.tasks task).currentFrame }).setTask task
        { s.tasks task with currentFrame := some newFrame, currentIndex := 0 })

def exit : Option State :=
  match (s.locations location).currentTask with
  | none => none
  | some task => s.taskPopStack location task

def taskSwitch : State :=
  s.setLocation location { s.locations location with currentTask := some task }

def taskComplete : State :=
  s.recycleTask location task

end State

section Hashes

variable (jenkinsHash : UInt32 → UInt32 → UInt32) (hashValue : RegionHandle → UInt32)

/-- `SCOREP_LOCAL_HANDLE_DEREF( region, Region )->hash_value` -/
def regionHash (region : RegionHandle) : Option UInt32 :=
  if region = filteredRegion then none else some (hashValue region)

/-- The loop of `stack_frame_aggregation` over the regions of one frame. -/
def aggregateRegions (aggregated : UInt32) (regions : List RegionHandle) : Option UInt32 :=
  regions.foldlM (fun aggregated region => do
    let regionHash ← regionHash hashValue region
    return jenkinsHash regionHash aggregated) aggregated

def stackFrameAggregation (frames : ℕ → StackFrame) (parentHashValue : UInt32) :
    ℕ → Option ℕ → ℕ → Option UInt32
  | 0, _, _ => none
  | _ + 1, none, _ => some parentHashValue
  | bound + 1, some frame, frameSize => do
    -- All previous frames are full.
    let aggregated ←
      stackFrameAggregation frames parentHashValue bound (frames frame).prev (taskStackSize - 1)
    aggregateRegions jenkinsHash hashValue aggregated
      ((List.range (frameSize + 1)).map (frames frame).regions)

def getRegionStackHash (s : State) (task : ℕ) : Option UInt32 :=
  match (s.tasks task).currentFrame with
  | none => some 0
  | some frame =>
    stackFrameAggregation jenkinsHash hashValue s.frames (s.tasks task).parentHashValue
      (s.framesAllocated + 1) (some frame) (s.tasks task).currentIndex

def taskCreate (s : State) (location threadId generationNumber : ℕ) : Option (ℕ × State) := do
  let (newTask, s) := s.allocNewTask location
  let s := s.setTask newTask { s.tasks newTask with
    currentFrame := none
    currentIndex := taskStackSize - 1
    threadId := threadId
    generationNumber := generationNumber }
  match (s.locations location).currentTask with
  | none => return (newTask, s)
  | some currentTask =>
    let parentHashValue ← getRegionStackHash jenkinsHash hashValue s currentTask
    return (newTask, s.setTask newTask { s.tasks newTask with parentHashValue := parentHashValue })

def getLastForkHash (s : State) : Option ℕ → UInt32
  | none => 0
  | some location => s.lastForkHash location

/-- `task_subsystem_init_location`, the thread id is `SCOREP_Location_GetId( location )` -/
def initLocation (s : State) (location : ℕ) (parent : Option ℕ) (threadId : ℕ) : Option (ℕ × State) := do
  let s := s.setLocation location ⟨none, none, none, none⟩
  let (newTask, s) ← taskCreate jenkinsHash hashValue s location threadId 0
  let s := s.setLocation location
    { s.locations location with currentTask := some newTask, implicitTask := some newTask }
  return (newTask, s.setTask newTask { s.tasks newTask with parentHashValue := getLastForkHash s parent })

/-- The part of `SCOREP_ThreadForkJoin_Fork` that keeps the hash of the forking task. -/
def fork (s : State) (location : ℕ) : Option State := do
  let parentTask ← (s.locations location).currentTask
  let hash ← getRegionStackHash jenkinsHash hashValue s parentTask
  return { s with lastForkHash := update s.lastForkHash location hash }

inductive Call where
  | initLocation (location : ℕ) (parent : Option ℕ) (threadId : ℕ)
  | enter (location : ℕ) (region : RegionHandle)
  | exit (location : ℕ)
  | create (location threadId generationNumber : ℕ)
  | switch (location task : ℕ)
  | complete (location task : ℕ)
  | clearStack (location task : ℕ)
  | fork (location : ℕ)
  | getTopRegion (task : ℕ)
  | getRegionStackHash (task : ℕ)

inductive Result where
  | done
  | task (task : ℕ)
  | region (region : RegionHandle)
  | hash (hash : UInt32)
deriving DecidableEq

def Call.run (s : State) : Call → Option (Result × State)
  | .initLocation location parent threadId =>
    (Tasks.initLocation jenkinsHash hashValue s location parent threadId).map fun (t, s) => (.task t, s)
  | .enter location region => (s.enter location region).map (.done, ·)
  | .exit location => (s.exit location).map (.done, ·)
  | .create location threadId generationNumber =>
    (taskCreate jenkinsHash hashValue s location threadId generationNumber).map fun (t, s) => (.task t, s)
  | .switch location task => some (.done, s.taskSwitch location task)
  | .complete location task => some (.done, s.taskComplete location task)
  | .clearStack location task => (s.clearStack location task).map (.done, ·)
  | .fork location => (Tasks.fork jenkinsHash hashValue s location).map (.done, ·)
  | .getTopRegion task => some (.region (s.getTopRegion task), s)
  | .getRegionStackHash task =>
    (Tasks.getRegionStackHash jenkinsHash hashValue s task).map fun hash => (.hash hash, s)

end Hashes

end ScoreP.Tasks
