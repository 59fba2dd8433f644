import ScoreP.Foundations.Chain
import ScoreP.Foundations.Holdings
import ScoreP.Tasks.TaskStack

/-!
# The call paths of tasks

The task subsystem stands for a `CallTree`: each task in use has a plain list of open regions, the innermost
one first, and the path of the task it was created in, or of the last fork of the location that created its
thread. The hash of a path is the fold `pathHash` of `jenkins_hash` from the start of the program to the
innermost region.

`Refines` says how a state of the subsystem stores a call tree: which frames each task and each location
keeps, what the frames hold, and which hashes are stored. `Meets` says of a sequence of calls that each one
returns what the call tree says and that each state on the way refines its call tree.
-/

namespace ScoreP.Tasks

open Foundations Function

/-! ## The logical call paths -/

structure LogicalTask where
  parentPath : List RegionHandle
  regions : List RegionHandle

def LogicalTask.path (task : LogicalTask) : List RegionHandle :=
  task.parentPath ++ task.regions.reverse

structure CallTree where
  tasks : ℕ → Option LogicalTask
  /-- A location whose task has completed has no task until the next switch. -/
  current : ℕ → Option ℕ
  forkPath : ℕ → List RegionHandle
  initialized : ℕ → Bool

namespace CallTree

variable (tree : CallTree)

def start : CallTree :=
  ⟨fun _ => none, fun _ => none, fun _ => [], fun _ => false⟩

def InUse (task : ℕ) : Prop :=
  ∃ data, tree.tasks task = some data

def currentPath (location : ℕ) : List RegionHandle :=
  (((tree.current location).bind tree.tasks).map LogicalTask.path).getD []

def setRegions (task : ℕ) (change : List RegionHandle → List RegionHandle) : CallTree :=
  { tree with
    tasks := update tree.tasks task
      ((tree.tasks task).map fun data => { data with regions := change data.regions }) }

theorem tasks_setRegions (task : ℕ) (change : List RegionHandle → List RegionHandle) :
    (tree.setRegions task change).tasks task =
      (tree.tasks task).map fun data => { data with regions := change data.regions } := by
  simp [setRegions]

theorem tasks_setRegions_of_ne {task other : ℕ} (h : other ≠ task)
    (change : List RegionHandle → List RegionHandle) :
    (tree.setRegions task change).tasks other = tree.tasks other := by
  simp only [setRegions, update_of_ne h]

def setCurrentRegions (location : ℕ) (change : List RegionHandle → List RegionHandle) : CallTree :=
  match tree.current location with
  | none => tree
  | some task => tree.setRegions task change

def newTask (task : ℕ) (parentPath : List RegionHandle) : CallTree :=
  { tree with tasks := update tree.tasks task (some ⟨parentPath, []⟩) }

def newLocation (location : ℕ) (parent : Option ℕ) (task : ℕ) : CallTree :=
  { tree.newTask task ((parent.map tree.forkPath).getD []) with
    current := update tree.current location (some task)
    initialized := update tree.initialized location true }

def switch (location task : ℕ) : CallTree :=
  { tree with current := update tree.current location (some task) }

def complete (task : ℕ) : CallTree :=
  { tree with
    tasks := update tree.tasks task none
    current := fun location => if tree.current location = some task then none else tree.current location }

def fork (location : ℕ) : CallTree :=
  { tree with forkPath := update tree.forkPath location (tree.currentPath location) }

/-- The call tree behind a call that returned `result`. -/
def after : Call → Result → CallTree
  | .initLocation location parent _, .task task => tree.newLocation location parent task
  | .enter location region, _ => tree.setCurrentRegions location (region :: ·)
  | .exit location, _ => tree.setCurrentRegions location List.tail
  | .create location _ _, .task task => tree.newTask task (tree.currentPath location)
  | .switch location task, _ => tree.switch location task
  | .complete _ task, _ => tree.complete task
  | .clearStack _ task, _ => tree.setRegions task fun _ => []
  | .fork location, _ => tree.fork location
  | _, _ => tree

/-- The documented use: a location is initialized once and before anything else happens on it, a completed
task is not used any more, and each exit belongs to an enter. -/
def Legal : Call → Prop
  | .initLocation location parent _ =>
    tree.initialized location = false ∧ ∀ p ∈ parent, tree.initialized p = true
  | .enter location _ => ∃ task, tree.current location = some task
  | .exit location =>
    ∃ task data, tree.current location = some task ∧ tree.tasks task = some data ∧ data.regions ≠ []
  | .create location _ _ => tree.initialized location = true
  | .switch location task => tree.initialized location = true ∧ tree.InUse task
  | .complete location task => tree.initialized location = true ∧ tree.InUse task
  | .clearStack location task => tree.initialized location = true ∧ tree.InUse task
  | .fork location => tree.initialized location = true
  | .getTopRegion task => tree.InUse task
  | .getRegionStackHash task => tree.InUse task

end CallTree

section Meaning

variable (jenkinsHash : UInt32 → UInt32 → UInt32) (hashValue : RegionHandle → UInt32)

def pathHash (path : List RegionHandle) : UInt32 :=
  path.foldl (fun hash region => jenkinsHash (hashValue region) hash) 0

def Right (tree : CallTree) : Call → Result → Prop
  | .initLocation _ _ _, result => ∃ task, result = .task task ∧ tree.tasks task = none
  | .create _ _ _, result => ∃ task, result = .task task ∧ tree.tasks task = none
  | .getTopRegion task, result =>
    ∃ data, tree.tasks task = some data ∧ result = .region (data.regions.head?.getD invalidRegion)
  | .getRegionStackHash task, result =>
    ∃ data, tree.tasks task = some data ∧ result = .hash (pathHash jenkinsHash hashValue data.path)
  | _, result => result = .done

/-- The tasks whose hash is computed: no region of the task is filtered, and when it has no region then the
hash of its parent is 0. -/
structure Hashable (task : LogicalTask) : Prop where
  not_filtered : ∀ region ∈ task.regions, region ≠ filteredRegion
  empty : task.regions = [] → pathHash jenkinsHash hashValue task.parentPath = 0

def Fine (tree : CallTree) : Call → Prop
  | .create location _ _ => ∃ task data,
    tree.current location = some task ∧ tree.tasks task = some data ∧ Hashable jenkinsHash hashValue data
  | .fork location => ∃ task data,
    tree.current location = some task ∧ tree.tasks task = some data ∧ Hashable jenkinsHash hashValue data
  | .getRegionStackHash task => ∀ data, tree.tasks task = some data → Hashable jenkinsHash hashValue data
  | _ => True

end Meaning

/-! ## How a call tree is stored -/

inductive Holder where
  | task (task : ℕ)
  | location (location : ℕ)
deriving DecidableEq

def contents (frames : ℕ → StackFrame) : List ℕ → ℕ → List RegionHandle
  | [], _ => []
  | f :: fs, index =>
    ((List.range (index + 1)).map (frames f).regions).reverse ++ contents frames fs (taskStackSize - 1)

structure Filled (frames : ℕ → StackFrame) (index : ℕ) (fs : List ℕ) (regions : List RegionHandle) :
    Prop where
  index_lt : index < taskStackSize
  empty : fs = [] → index = taskStackSize - 1
  contents : contents frames fs index = regions

/-- The frames that tasks and locations keep. -/
structure FrameLayout (s : State) (tree : CallTree) (held : Holder → List ℕ) : Prop where
  apart : Apart held
  allocated : ∀ i, ∀ f ∈ held i, f < s.framesAllocated
  recycled : ∀ l, Chain (fun f => (s.frames f).prev) (s.locations l).recycledFrames (held (.location l))
  chains : ∀ t, tree.InUse t → Chain (fun f => (s.frames f).prev) (s.tasks t).currentFrame (held (.task t))
  idle : ∀ t, ¬tree.InUse t → held (.task t) = []

structure TaskLayout (s : State) (tree : CallTree) (free : ℕ → List ℕ) : Prop where
  apart : Apart free
  allocated : ∀ l, ∀ t ∈ free l, t < s.tasksAllocated
  recycled : ∀ l, Chain (fun t => (s.tasks t).next) (s.locations l).recycledTasks (free l)
  used : ∀ t, tree.InUse t → t < s.tasksAllocated ∧ Unheld free t

section Refinement

variable (jenkinsHash : UInt32 → UInt32 → UInt32) (hashValue : RegionHandle → UInt32)

structure PathLayout (s : State) (tree : CallTree) : Prop where
  current : ∀ l t, tree.current l = some t → (s.locations l).currentTask = some t
  executed : ∀ l t, tree.current l = some t → tree.InUse t ∧ tree.initialized l = true
  fresh : ∀ l, tree.initialized l = false → s.locations l = ⟨none, none, none, none⟩
  parents : ∀ t data, tree.tasks t = some data →
    (s.tasks t).parentHashValue = pathHash jenkinsHash hashValue data.parentPath
  forks : ∀ l, s.lastForkHash l = pathHash jenkinsHash hashValue (tree.forkPath l)

structure Layout (s : State) (tree : CallTree) (held : Holder → List ℕ) (free : ℕ → List ℕ) : Prop where
  frames : FrameLayout s tree held
  filled : ∀ t data, tree.tasks t = some data →
    Filled s.frames (s.tasks t).currentIndex (held (.task t)) data.regions
  tasks : TaskLayout s tree free
  paths : PathLayout jenkinsHash hashValue s tree

def Refines (s : State) (tree : CallTree) : Prop :=
  ∃ held free, Layout jenkinsHash hashValue s tree held free

def Meets (s : State) (tree : CallTree) : List Call → Prop
  | [] => Refines jenkinsHash hashValue s tree
  | call :: calls =>
    Refines jenkinsHash hashValue s tree ∧ ∃ result s', call.run jenkinsHash hashValue s = some (result, s') ∧
        Right jenkinsHash hashValue tree call result ∧ Meets s' (tree.after call result) calls

def LegalCalls (s : State) (tree : CallTree) : List Call → Prop
  | [] => True
  | call :: calls => tree.Legal call ∧ ∀ result s',
    call.run jenkinsHash hashValue s = some (result, s') → LegalCalls s' (tree.after call result) calls

def FineCalls (s : State) (tree : CallTree) : List Call → Prop
  | [] => True
  | call :: calls => Fine jenkinsHash hashValue tree call ∧ ∀ result s',
    call.run jenkinsHash hashValue s = some (result, s') → FineCalls s' (tree.after call result) calls

end Refinement

def State.start (frames : ℕ → StackFrame) (tasks : ℕ → Task) : State where
  frames := frames
  tasks := tasks
  locations := fun _ => ⟨none, none, none, none⟩
  lastForkHash := fun _ => 0
  framesAllocated := 0
  tasksAllocated := 0

end ScoreP.Tasks
