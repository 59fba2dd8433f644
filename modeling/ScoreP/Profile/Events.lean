import ScoreP.Profile.Store

/-!
# The events of the profile

Source: `scorep_profile_event_base.c`, `scorep_profile_task_switch.c`, `SCOREP_Profile.c` and
`SCOREP_Profile_Tasking.c`. A `State` holds the call trees and what is known of every location and of
every task. A task is named by the number of its handle; that the records of finished tasks are used
again is not part of the model, neither are the number of created tasks, the clustering of dynamic
regions and the fork lists of the locations.

`none` is where the profile reports an error and stops itself (`SCOREP_PROFILE_STOP`), where an
assertion fails or a null pointer is dereferenced.
-/

namespace ScoreP.Profile

open Function

/-- The values of `SCOREP_RegionType` that the profile tells apart. -/
inductive RegionType where
  | dynamic
  | dynamicPhase
  | dynamicLoop
  | dynamicFunction
  | dynamicLoopPhase
  | parallel
  | taskUntied
  | other
deriving DecidableEq

def RegionType.isDynamic : RegionType → Bool
  | .dynamic | .dynamicPhase | .dynamicLoop | .dynamicFunction | .dynamicLoopPhase => true
  | .parallel | .taskUntied | .other => false

structure Config where
  maxCallpathDepth : UInt64
  taskExchangeNum : UInt64
  regionType : ℕ → RegionType
  paramInstance : ℕ
  migrationLossMetric : ℕ
  migrationWinMetric : ℕ

/-- `SCOREP_Profile_LocationData`. -/
structure Location where
  rootNode : Option ℕ
  currentTaskNode : Option ℕ
  currentImplicitNode : Option ℕ
  currentDepth : UInt32
  implicitDepth : UInt32
  currentTask : Option ℕ
  implicitTask : Option ℕ
  migrationSum : UInt64
  migrationWin : UInt64
deriving DecidableEq

structure Task where
  currentNode : Option ℕ
  rootNode : Option ℕ
  depth : UInt32
  canMigrate : Bool
  lastLocation : Option ℕ
deriving DecidableEq

structure State (n : ℕ) (D : Type) where
  store : Store n D
  location : ℕ → Location
  task : ℕ → Task
  hasCollapseNode : Bool
  reachedDepth : UInt64

namespace State

variable {n : ℕ} {D : Type}

def setLocation (s : State n D) (l : ℕ) (location : Location) : State n D :=
  { s with location := update s.location l location }

def setTask (s : State n D) (t : ℕ) (task : Task) : State n D :=
  { s with task := update s.task t task }

def setStore (s : State n D) (store : Store n D) : State n D :=
  { s with store := store }

def setCurrentNode (s : State n D) (l : ℕ) (node : Option ℕ) : State n D :=
  s.setLocation l { s.location l with currentTaskNode := node }

def setCurrentDepth (s : State n D) (l : ℕ) (depth : UInt32) : State n D :=
  s.setLocation l { s.location l with currentDepth := depth }

def setCurrentImplicitNode (s : State n D) (l : ℕ) (node : Option ℕ) : State n D :=
  s.setLocation l { s.location l with currentImplicitNode := node }

/-! ## Enter and exit -/

def reachDepth (s : State n D) (depth : UInt32) : State n D :=
  { s with reachedDepth := if s.reachedDepth < depth.toUInt64 then depth.toUInt64 else s.reachedDepth }

def enter (cfg : Config) (s : State n D) (l : ℕ) (currentNode : Option ℕ) (region : ℕ)
    (timestamp : UInt64) (metrics : Metrics n) : Option (ℕ × State n D) :=
  match currentNode with
  | none => none
  | some current =>
    let depth := (s.location l).currentDepth
    if (s.store.node current).nodeType = .collapse then some (current, s.reachDepth depth)
    else
      let tooDeep := depth.toUInt64 > cfg.maxCallpathDepth
      let s := if tooDeep then { s.reachDepth depth with hasCollapseNode := true } else s
      let (node, store) :=
        if tooDeep then s.store.findCreateChild l current .collapse ⟨0, depth.toNat⟩ timestamp
        else s.store.findCreateChild l current .regularRegion ⟨region, 0⟩ timestamp
      let data := (store.node node).toNodeData
      let data := { data with count := data.count + 1 }
      some (node, s.setStore (store.setData node (data.onMetrics .start timestamp (readMetric metrics))))

/-- The loop of `scorep_profile_exit`: the last node that is exited and the depth then. -/
def exitNodes (timestamp : UInt64) (metrics : Metrics n) :
    ℕ → ℕ → UInt32 → Store n D → Option (ℕ × UInt32 × Store n D)
  | 0, _, _, _ => none
  | bound + 1, node, depth, σ =>
    let data := { (σ.node node).toNodeData with lastExitTime := timestamp }
    let σ := σ.setData node (data.onMetrics .update timestamp (readMetric metrics))
    match (σ.node node).parent with
    | none => some (node, depth - 1, σ)
    | some parent =>
      if data.nodeType = .regularRegion ∨ data.nodeType = .collapse then some (node, depth - 1, σ)
      else exitNodes timestamp metrics bound parent (depth - 1) σ

def exit (s : State n D) (l : ℕ) (currentNode : Option ℕ) (region : ℕ) (timestamp : UInt64)
    (metrics : Metrics n) : Option (Option ℕ × State n D) :=
  match currentNode with
  | none => none
  | some current =>
    let depth := (s.location l).currentDepth
    let data := (s.store.node current).toNodeData
    if data.nodeType = .collapse ∧ depth.toNat > data.typeSpecificData.value then
      some (some current, s.setCurrentDepth l (depth - 1))
    else do
      let (node, depth, store) ← exitNodes timestamp metrics (s.store.allocated + 1) current depth s.store
      let s := (s.setStore store).setCurrentDepth l depth
      let data := (store.node node).toNodeData
      if data.nodeType = .regularRegion ∧ data.typeSpecificData.handle ≠ region then none
      else some ((store.node node).parent, s)

section Triggers

variable [SparseValue D]

def triggerInt64 (s : State n D) (metric : ℕ) (value : UInt64) (node : ℕ) (scheme : UpdateScheme) :
    Option (State n D) := do
  let data := (s.store.node node).toNodeData
  let list ← triggerSparse metric value scheme data.firstIntSparse
  some (s.setStore (s.store.setData node { data with firstIntSparse := list }))

def triggerDouble (s : State n D) (metric : ℕ) (value : D) (node : ℕ) (scheme : UpdateScheme) :
    Option (State n D) := do
  let data := (s.store.node node).toNodeData
  let list ← triggerSparse metric value scheme data.firstDoubleSparse
  some (s.setStore (s.store.setData node { data with firstDoubleSparse := list }))

def updateTaskMetrics (cfg : Config) (s : State n D) (l : ℕ) : Option (State n D) := do
  let location := s.location l
  if location.migrationSum ≠ 0 ∨ location.migrationWin ≠ 0 then
    let loss := location.migrationWin - location.migrationSum
    let node ← location.currentTaskNode
    let s ← s.triggerInt64 cfg.migrationLossMetric loss node .valueAsIs
    let s ← s.triggerInt64 cfg.migrationWinMetric location.migrationWin node .valueAsIs
    some (s.setLocation l { location with migrationSum := 0, migrationWin := 0 })
  else some s

end Triggers

/-! ## Parameters -/

def setupStartFromParent (σ : Store n D) (node : ℕ) : Option (Store n D) :=
  let data := (σ.node node).toNodeData
  match (σ.node node).parent with
  | none =>
    if data.firstEnterTime = 0xFFFFFFFFFFFFFFFF then none
    else some (σ.setData node { data with count := data.count + 1 })
  | some parent =>
    let outer := (σ.node parent).toNodeData
    let firstEnterTime :=
      if data.firstEnterTime = 0xFFFFFFFFFFFFFFFF then outer.inclusiveTime.startValue
      else data.firstEnterTime
    let data := { data with firstEnterTime := firstEnterTime, count := data.count + 1 }
    some (σ.setData node (data.onMetrics .start outer.inclusiveTime.startValue
      fun i => (outer.denseMetrics i).startValue))

/-- `parameter_uint64`. A parameter "instance" always gets a new node. -/
def parameterUint64 (cfg : Config) (s : State n D) (l : ℕ) (param : ℕ) (value : UInt64) : Option (State n D) :=
  let depth := (s.location l).currentDepth
  if depth.toUInt64 ≥ cfg.maxCallpathDepth then some s
  else do
    let s := s.setCurrentDepth l (depth + 1)
    let parent ← (s.location l).currentTaskNode
    let data : TypeData := ⟨param, value.toNat⟩
    let (node, store) :=
      if param = cfg.paramInstance then
        let (node, store) := s.store.createNode l (some parent) .parameterInteger data
          0xFFFFFFFFFFFFFFFF (s.store.node parent).inUntiedTask
        (node, store.setChildren parent (node :: (store.node parent).children))
      else s.store.findCreateChild l parent .parameterInteger data 0xFFFFFFFFFFFFFFFF
    let store ← setupStartFromParent store node
    some ((s.setStore store).setCurrentNode l (some node))

def parameterString (cfg : Config) (s : State n D) (l : ℕ) (param string : ℕ) : Option (State n D) :=
  let depth := (s.location l).currentDepth
  if depth.toUInt64 ≥ cfg.maxCallpathDepth then some s
  else do
    let s := s.setCurrentDepth l (depth + 1)
    let parent ← (s.location l).currentTaskNode
    let (node, store) :=
      s.store.findCreateChild l parent .parameterString ⟨param, string⟩ 0xFFFFFFFFFFFFFFFF
    let store ← setupStartFromParent store node
    some ((s.setStore store).setCurrentNode l (some node))

/-! ## Call path events -/

def profileEnter (cfg : Config) (s : State n D) (l : ℕ) (timestamp : UInt64) (region : ℕ)
    (metrics : Metrics n) : Option (State n D) := do
  let s := s.setCurrentDepth l ((s.location l).currentDepth + 1)
  let (node, s) ← s.enter cfg l (s.location l).currentTaskNode region timestamp metrics
  let s := s.setCurrentNode l (some node)
  if (cfg.regionType region).isDynamic then
    s.parameterUint64 cfg l cfg.paramInstance (s.store.node node).count
  else some s

def profileExit [SparseValue D] (cfg : Config) (s : State n D) (l : ℕ) (timestamp : UInt64)
    (region : ℕ) (metrics : Metrics n) : Option (State n D) := do
  let s ← if cfg.regionType region = .parallel then s.updateTaskMetrics cfg l else some s
  let (parent, s) ← s.exit l (s.location l).currentTaskNode region timestamp metrics
  some (s.setCurrentNode l parent)

/-! ## Suspending and resuming tasks -/

def updatePath (op : DenseMetric → UInt64 → DenseMetric) (timestamp : UInt64)
    (values : Fin n → UInt64) : ℕ → Option ℕ → Store n D → Option (Store n D)
  | _, none, σ => some σ
  | 0, some _, _ => none
  | bound + 1, some node, σ =>
    let σ := σ.setData node ((σ.node node).toNodeData.onMetrics op timestamp values)
    updatePath op timestamp values bound (σ.node node).parent σ

/-- `scorep_profile_copy_callpath`: the copies of the node and of its root. -/
def copyCallpath (l : ℕ) : ℕ → ℕ → Store n D → Option (ℕ × ℕ × Store n D)
  | 0, _, _ => none
  | bound + 1, callpath, σ =>
    let parent := (σ.node callpath).parent
    let (copied, σ) := σ.copyNode l callpath
    let data := (σ.node copied).toNodeData
    let σ := σ.setData copied
      { data with
        inclusiveTime := data.inclusiveTime.copyOnUntiedSuspend
        denseMetrics := fun i => (data.denseMetrics i).copyOnUntiedSuspend }
    match parent with
    | none => some (copied, copied, σ)
    | some parent => do
      let (parent, root, σ) ← copyCallpath l bound parent σ
      some (copied, root, σ.addChild parent copied)

section Tasks

variable [SparseValue D]

/-- The tree below `taskRoot` becomes a child of `rootNode` or is merged with one. -/
def addOrMerge (cfg : Config) (l rootNode taskRoot : ℕ) (σ : Store n D) : Option (Store n D) :=
  match σ.findChild rootNode taskRoot with
  | none => some (σ.addChild rootNode taskRoot)
  | some found => σ.mergeSubtree cfg.taskExchangeNum (σ.allocated + 1) l found taskRoot

def addTaskTree (cfg : Config) (s : State n D) (l t : ℕ) : Option (State n D) :=
  let task := s.task t
  match task.currentNode with
  | none => some s
  | some currentNode => do
    let rootNode ← (s.location l).rootNode
    let taskRoot ← task.rootNode
    let (currentNode, newTask, store) ← copyCallpath l (s.store.allocated + 1) currentNode s.store
    let store ← addOrMerge cfg l rootNode taskRoot store
    some ((s.setStore store).setTask t
      { task with currentNode := some currentNode, rootNode := some newTask })

def updateOnSuspend (cfg : Config) (s : State n D) (l t : ℕ) (timestamp : UInt64)
    (values : Fin n → UInt64) : Option (State n D) := do
  let task := s.task t
  let bound := s.store.allocated + 1
  if task.canMigrate then
    let store ← updatePath .suspendUntied timestamp values bound task.currentNode s.store
    (s.setStore store).addTaskTree cfg l t
  else
    let store ← updatePath .suspendTied timestamp values bound task.currentNode s.store
    some (s.setStore store)

def updateOnResume (s : State n D) (node : Option ℕ) (timestamp : UInt64) (values : Fin n → UInt64) :
    Option (State n D) := do
  let store ← updatePath .start timestamp values (s.store.allocated + 1) node s.store
  some (s.setStore store)

/-- `scorep_profile_enter_task_pointer`. The depth of the location is that of the implicit task for
the time of the call. -/
def enterTaskPointer (cfg : Config) (s : State n D) (l t : ℕ) (timestamp : UInt64)
    (values : Fin n → UInt64) : Option (State n D) := do
  let taskDepth := (s.location l).currentDepth
  let s := s.setCurrentDepth l (s.location l).implicitDepth
  let root ← (s.task t).rootNode
  let region := (s.store.node root).typeSpecificData.handle
  if region = 0 then none
  else
    let (node, s) ← s.enter cfg l (s.location l).currentImplicitNode region timestamp (some values)
    some ((s.setCurrentImplicitNode l (some node)).setCurrentDepth l taskDepth)

def exitTaskPointer (s : State n D) (l : ℕ) (timestamp : UInt64) (values : Fin n → UInt64) :
    Option (State n D) := do
  let current ← (s.location l).currentImplicitNode
  let region := (s.store.node current).typeSpecificData.handle
  let taskDepth := (s.location l).currentDepth
  let s := s.setCurrentDepth l (s.location l).implicitDepth
  let (node, s) ← s.exit l (some current) region timestamp (some values)
  if node = none then none
  else some ((s.setCurrentImplicitNode l node).setCurrentDepth l taskDepth)

def storeTask (s : State n D) (l : ℕ) : Option (State n D) :=
  let location := s.location l
  if location.currentTask = location.implicitTask then
    some (s.setLocation l { location with
      implicitDepth := location.currentDepth
      currentImplicitNode := location.currentTaskNode })
  else do
    let t ← location.currentTask
    some (s.setTask t { s.task t with
      depth := location.currentDepth
      currentNode := location.currentTaskNode })

def restoreTask (s : State n D) (l : ℕ) : Option (State n D) :=
  let location := s.location l
  if location.currentTask = location.implicitTask then
    some (s.setLocation l { location with
      currentDepth := location.implicitDepth
      currentTaskNode := location.currentImplicitNode })
  else do
    let t ← location.currentTask
    some (s.setLocation l { location with
      currentDepth := (s.task t).depth
      currentTaskNode := (s.task t).currentNode })

def taskSuspend (cfg : Config) (s : State n D) (l : ℕ) (timestamp : UInt64)
    (values : Fin n → UInt64) : Option (State n D) := do
  let s ← s.storeTask l
  if (s.location l).currentTask = (s.location l).implicitTask then some s
  else
    let s ← s.exitTaskPointer l timestamp values
    let t ← (s.location l).currentTask
    s.updateOnSuspend cfg l t timestamp values

/-- `location->current_task = task`, and `scorep_profile_restore_task`. -/
def activateTask (s : State n D) (l t : ℕ) : Option (State n D) :=
  (s.setLocation l { s.location l with currentTask := some t }).restoreTask l

def taskSwitchStart (cfg : Config) (s : State n D) (l t : ℕ) (timestamp : UInt64)
    (values : Fin n → UInt64) : Option (State n D) := do
  let s ← s.taskSuspend cfg l timestamp values
  let s ← s.activateTask l t
  let s ← s.updateOnResume (s.location l).currentTaskNode timestamp values
  s.enterTaskPointer cfg l t timestamp values

def taskSwitch (cfg : Config) (s : State n D) (l t : ℕ) (timestamp : UInt64)
    (values : Fin n → UInt64) : Option (State n D) := do
  let s ← s.taskSuspend cfg l timestamp values
  let s ← s.activateTask l t
  if some t = (s.location l).implicitTask then some s
  else
    let s ← s.updateOnResume (s.location l).currentTaskNode timestamp values
    let s ← s.enterTaskPointer cfg l t timestamp values
    if (s.task t).lastLocation = some l then some s
    else
      let location := s.location l
      let s := s.setLocation l { location with migrationWin := location.migrationWin + 1 }
      some (s.setTask t { s.task t with lastLocation := some l })

/-! ## Task events -/

/-- `SCOREP_Profile_CreateTaskData`; the generation number of an implicit task is `0`. -/
def createTaskData (s : State n D) (l t : ℕ) (isImplicit : Bool) : State n D :=
  let s := s.setTask t
    { currentNode := none, rootNode := none, depth := 0, canMigrate := true, lastLocation := some l }
  let location := { s.location l with migrationSum := (s.location l).migrationSum - 1 }
  s.setLocation l <|
    if isImplicit then { location with implicitTask := some t, currentTask := some t } else location

def freeTaskData (s : State n D) (l : ℕ) : State n D :=
  s.setLocation l { s.location l with migrationSum := (s.location l).migrationSum + 1 }

def createTaskRoot (s : State n D) (l region : ℕ) (timestamp : UInt64) (values : Fin n → UInt64)
    (untied : Bool) : Option (ℕ × State n D) := do
  let (node, store) := s.store.createNode l none .taskRoot ⟨region, 0⟩ timestamp untied
  let s := s.setStore (store.setData node { (store.node node).toNodeData with inUntiedTask := untied })
  let s ← s.updateOnResume (some node) timestamp values
  some (node, s.setStore (s.store.setData node { (s.store.node node).toNodeData with count := 1 }))

def taskBegin (cfg : Config) (s : State n D) (l t : ℕ) (timestamp : UInt64) (region : ℕ)
    (values : Fin n → UInt64) : Option (State n D) := do
  let canMigrate := decide (cfg.regionType region = .taskUntied)
  let s := s.setTask t { s.task t with canMigrate := canMigrate }
  let (taskRoot, s) ← s.createTaskRoot l region timestamp values canMigrate
  let s := s.setTask t { s.task t with currentNode := some taskRoot, rootNode := some taskRoot, depth := 1 }
  s.taskSwitchStart cfg l t timestamp values

def taskEnd (cfg : Config) (s : State n D) (l : ℕ) (timestamp : UInt64) (region : ℕ)
    (values : Fin n → UInt64) : Option (State n D) := do
  let t ← (s.location l).currentTask
  let rootNode ← (s.location l).rootNode
  let s ← s.profileExit cfg l timestamp region (some values)
  let implicitTask ← (s.location l).implicitTask
  let s ← s.taskSwitch cfg l implicitTask timestamp values
  let taskRoot ← (s.task t).rootNode
  let store ← addOrMerge cfg l rootNode taskRoot s.store
  some (s.setStore store)

end Tasks

end State

end ScoreP.Profile
