import ScoreP.Foundations.Siblings
import ScoreP.Recycling.Pools

/-!
# Calls that release and recycle

Source: `scorep_profile_node.c` and `scorep_profile_location.c`. `L` is the type of the locations. A call of a
location is a sequence of steps that end where a mutex section begins, and each mutex section is a step of its
own; what follows it and concerns only the location belongs to it. The loops over a list have come to their end
in the step they belong to. The recursion of `scorep_profile_release_subtree` is a stack of callers, each with
the child it waits for.

The program writes to the objects it has in use, but for those it is just releasing, and releases trees and
chains of such objects only. What is in use, and what a call has yet to release, are ghost members.
-/

namespace ScoreP.Recycling

open Foundations Profile Function

inductive Activity
  | idle (result : Option ℕ)
  -- `scorep_profile_recycle_stub`, called by `scorep_profile_alloc_node` or not
  | recycle (alloc : Bool)
  | takeStubs (alloc : Bool)
  | takenStubs (alloc : Bool)
  -- the rest of `scorep_profile_alloc_node`
  | newNode
  -- `scorep_profile_release_subtree`
  | loop (root : ℕ) (child : Option ℕ) (callers : List (ℕ × ℕ))
  | metrics (k : Sparse) (root : ℕ) (callers : List (ℕ × ℕ))
  | node (root : ℕ) (callers : List (ℕ × ℕ))
  | returned (callers : List (ℕ × ℕ))
  -- `scorep_profile_release_stubs`
  | stubs (root leaf : ℕ) (num : UInt32) (localObjects : Bool) (callers : List (ℕ × ℕ))
  | exchangeStubs (root current : ℕ) (callers : List (ℕ × ℕ))
  -- `scorep_profile_recycle_task` and `scorep_profile_release_task`
  | takeTasks
  | exchangeTasks (task current : ℕ)
  deriving DecidableEq

structure State (L : Type) where
  nodes : Pool (NodeList L) Node
  /-- A record is its `next_metric`. -/
  metrics : Sparse → Pool L (Option ℕ)
  tasks : Pool (TaskList L) (Task L)
  numForeignStubs : L → UInt32
  numForeignTasks : L → UInt32
  activities : L → Activity
  /-- The nodes that a call has yet to release, in this order. -/
  releasing : L → List ℕ
  releasingMetrics : L → Sparse → List ℕ

def initialNodeHeads {L : Type} (misc : L → LocationData) : NodeList L → Option ℕ
  | .freeNodes l => (createLocationData (misc l)).freeNodes
  | .freeStubs l => (createLocationData (misc l)).freeStubs
  | .foreignStubs l => (createLocationData (misc l)).foreignStubs
  | .exchange => none

def initialTaskHeads {L : Type} (misc : L → LocationData) : TaskList L → Option ℕ
  | .freeTasks l => (createLocationData (misc l)).freeTasks
  | .foreignTasks l => (createLocationData (misc l)).foreignTasks
  | .exchange => none

/-- The locations are created in the memory `misc`. -/
def initial {L : Type} (misc : L → LocationData) (creator : L) : State L where
  nodes := ⟨fun _ => emptyNode, 0, [], initialNodeHeads misc⟩
  metrics k := ⟨fun _ => none, 0, [], fun l => (createLocationData (misc l)).freeMetrics k⟩
  tasks := ⟨fun _ => ⟨none, creator⟩, 0, [], initialTaskHeads misc⟩
  numForeignStubs l := (createLocationData (misc l)).numForeignStubs
  numForeignTasks l := (createLocationData (misc l)).numForeignTasks
  activities _ := .idle none
  releasing _ := []
  releasingMetrics _ _ := []

/-- What follows a `scorep_profile_recycle_stub` that returns NULL. -/
def afterRecycle : Bool → Activity
  | true => .newNode
  | false => .idle none

def afterMetrics (root : ℕ) (callers : List (ℕ × ℕ)) : Sparse → Activity
  | .int => .metrics .double root callers
  | .double => .node root callers

namespace State

variable {L : Type} [DecidableEq L] (s : State L)

def goOn (l : L) (activity : Activity) : State L :=
  { s with activities := update s.activities l activity }

def takeNode (l : L) (list : NodeList L) (first : ℕ) : State L :=
  { s.goOn l (.idle (some first)) with
    nodes := s.nodes.take list first (s.nodes.objects first).firstChild }

def takeTask (l : L) (list : TaskList L) (first : ℕ) : State L :=
  { s.goOn l (.idle (some first)) with tasks := s.tasks.take list first (s.tasks.objects first).next }

/-- Stubs go to `free_stubs` or to `foreign_stubs`. -/
def stubList (l : L) (localObjects : Bool) : NodeList L :=
  if localObjects then .freeStubs l else .foreignStubs l

/-- `scorep_profile_release_stubs` before the number of foreign stubs is checked. -/
def storeStubs (l : L) (root leaf : ℕ) (num : UInt32) (localObjects : Bool) : State L :=
  let list := stubList l localObjects
  { s with
    nodes :=
      ({ s.nodes with objects := addList s.nodes.objects leaf (s.nodes.heads list) }.setHead list
        (some root)).release ((s.releasing l).take num.toNat)
    numForeignStubs :=
      if localObjects then s.numForeignStubs
      else update s.numForeignStubs l (s.numForeignStubs l + num)
    releasing := update s.releasing l ((s.releasing l).drop num.toNat) }

def storeMetrics (l : L) (k : Sparse) (first : ℕ) (records : List ℕ) (last : ℕ) : State L :=
  { s with
    metrics :=
      update s.metrics k
        ((((s.metrics k).setObject last ((s.metrics k).heads l)).setHead l (some first)).release
          (records ++ [last]))
    releasingMetrics :=
      update s.releasingMetrics l
        (update (s.releasingMetrics l) k
          ((s.releasingMetrics l k).drop (records ++ [last]).length)) }

def storeNode (l : L) (root : ℕ) : State L :=
  { s with
    nodes :=
      ((s.nodes.setObject root
        { s.nodes.objects root with firstChild := s.nodes.heads (.freeNodes l) }).setHead (.freeNodes l)
          (some root)).release [root]
    releasing := update s.releasing l (s.releasing l).tail }

def taskList (l : L) (task : ℕ) : TaskList L :=
  if (s.tasks.objects task).creator = l then .freeTasks l else .foreignTasks l

/-- `scorep_profile_release_task` before the number of foreign tasks is checked. -/
def storeTask (l : L) (task : ℕ) : State L :=
  { s with
    tasks :=
      ((s.tasks.setObject task
        { s.tasks.objects task with next := s.tasks.heads (s.taskList l task) }).setHead (s.taskList l task)
          (some task)).release [task]
    numForeignTasks :=
      if (s.tasks.objects task).creator = l then s.numForeignTasks
      else update s.numForeignTasks l (s.numForeignTasks l + 1) }

/-- The mutex section of `scorep_profile_release_stubs` and what follows it. -/
def exchangeStubs (l : L) (root current : ℕ) (callers : List (ℕ × ℕ)) : State L :=
  { s.goOn l (.returned callers) with
    nodes :=
      ({ s.nodes with
          objects := addList s.nodes.objects current (s.nodes.heads .exchange) }.setHead .exchange
        (some root)).setHead (.foreignStubs l) none
    numForeignStubs := update s.numForeignStubs l 0 }

/-- The mutex section of `scorep_profile_release_task` and what follows it. -/
def exchangeTasks (l : L) (task current : ℕ) : State L :=
  { s.goOn l (.idle none) with
    tasks :=
      ((s.tasks.setObject current
        { s.tasks.objects current with next := s.tasks.heads .exchange }).setHead .exchange
          (some task)).setHead (.foreignTasks l) none
    numForeignTasks := update s.numForeignTasks l 0 }

def Writable (a : ℕ) : Prop :=
  a ∈ s.nodes.inUse ∧ ∀ l, a ∉ s.releasing l

def WritableMetric (k : Sparse) (a : ℕ) : Prop :=
  a ∈ (s.metrics k).inUse ∧ ∀ l, a ∉ s.releasingMetrics l k

def firstChild (a : ℕ) : Option ℕ :=
  (s.nodes.objects a).firstChild

def nextSibling (a : ℕ) : Option ℕ :=
  (s.nodes.objects a).nextSibling

def nextTask (a : ℕ) : Option ℕ :=
  (s.tasks.objects a).next

end State

/-! ## Steps -/

inductive Action (L : Type)
  | allocNode (l : L) (type : NodeType) (context : TaskContext)
  | recycleStub (l : L)
  | releaseSubtree (l : L) (root : ℕ)
  | releaseStubs (l : L) (root leaf : ℕ) (num : UInt32) (localObjects : Bool)
  | recycleTask (l : L)
  | releaseTask (l : L) (task : ℕ)
  /-- `scorep_profile_alloc_sparse_int` or `scorep_profile_alloc_sparse_double` -/
  | allocSparse (l : L) (k : Sparse)
  | allocNewTask (task : Task L)
  | write (nodes : ℕ → Node) (metrics : Sparse → ℕ → Option ℕ) (tasks : ℕ → Task L)
  | go (l : L)

variable {L : Type} [DecidableEq L]

inductive Step (taskExchangeNum : UInt64) (s : State L) : Action L → State L → Prop
  -- `scorep_profile_alloc_node`
  | allocFree (l : L) (type : NodeType) (first : ℕ) (result : Option ℕ) (hidle : s.activities l = .idle result)
      (htype : type ≠ .threadRoot) (hfree : s.nodes.heads (.freeNodes l) = some first) :
      Step taskExchangeNum s (.allocNode l type .tied) (s.takeNode l (.freeNodes l) first)
  | allocRecycle (l : L) (type : NodeType) (context : TaskContext) (result : Option ℕ)
      (hidle : s.activities l = .idle result) (htype : type ≠ .threadRoot)
      (hfree : context = .untied ∨ s.nodes.heads (.freeNodes l) = none) :
      Step taskExchangeNum s (.allocNode l type context) (s.goOn l (.recycle true))
  | allocRoot (l : L) (context : TaskContext) (result : Option ℕ) (hidle : s.activities l = .idle result) :
      Step taskExchangeNum s (.allocNode l .threadRoot context) (s.goOn l .newNode)
  | newNode (l : L) (hl : s.activities l = .newNode) : Step taskExchangeNum s (.go l)
        { s.goOn l (.idle (some s.nodes.created)) with nodes := s.nodes.create emptyNode }
  -- `scorep_profile_recycle_stub`
  | recycleStub (l : L) (result : Option ℕ) (hidle : s.activities l = .idle result) :
      Step taskExchangeNum s (.recycleStub l) (s.goOn l (.recycle false))
  | recycleFree (l : L) (alloc : Bool) (first : ℕ) (hl : s.activities l = .recycle alloc)
      (hfree : s.nodes.heads (.freeStubs l) = some first) :
      Step taskExchangeNum s (.go l) (s.takeNode l (.freeStubs l) first)
  | recycleForeign (l : L) (alloc : Bool) (first : ℕ) (hl : s.activities l = .recycle alloc)
      (hfree : s.nodes.heads (.freeStubs l) = none) (hforeign : s.nodes.heads (.foreignStubs l) = some first) :
      Step taskExchangeNum s (.go l)
        { s.takeNode l (.foreignStubs l) first with
          numForeignStubs := update s.numForeignStubs l (s.numForeignStubs l - 1) }
  | recycleNone (l : L) (alloc : Bool) (hl : s.activities l = .recycle alloc)
      (hfree : s.nodes.heads (.freeStubs l) = none) (hforeign : s.nodes.heads (.foreignStubs l) = none)
      (hexchange : s.nodes.heads .exchange = none) :
      Step taskExchangeNum s (.go l) (s.goOn l (afterRecycle alloc))
  | recycleExchange (l : L) (alloc : Bool) (hl : s.activities l = .recycle alloc)
      (hfree : s.nodes.heads (.freeStubs l) = none) (hforeign : s.nodes.heads (.foreignStubs l) = none)
      (hexchange : s.nodes.heads .exchange ≠ none) :
      Step taskExchangeNum s (.go l) (s.goOn l (.takeStubs alloc))
  | takeStubs (l : L) (alloc : Bool) (hl : s.activities l = .takeStubs alloc)
      (hexchange : s.nodes.heads .exchange ≠ none) :
      Step taskExchangeNum s (.go l)
        { s.goOn l (.takenStubs alloc) with
          nodes := (s.nodes.setHead (.freeStubs l) (s.nodes.heads .exchange)).setHead .exchange none }
  | takeNoStubs (l : L) (alloc : Bool) (hl : s.activities l = .takeStubs alloc)
      (hexchange : s.nodes.heads .exchange = none) :
      Step taskExchangeNum s (.go l) (s.goOn l (.takenStubs alloc))
  | takenStub (l : L) (alloc : Bool) (first : ℕ) (hl : s.activities l = .takenStubs alloc)
      (hfree : s.nodes.heads (.freeStubs l) = some first) :
      Step taskExchangeNum s (.go l) (s.takeNode l (.freeStubs l) first)
  | takenNone (l : L) (alloc : Bool) (hl : s.activities l = .takenStubs alloc)
      (hfree : s.nodes.heads (.freeStubs l) = none) :
      Step taskExchangeNum s (.go l) (s.goOn l (afterRecycle alloc))
  -- `scorep_profile_release_subtree`, for a tree in use and its records
  | releaseSubtree (l : L) (root : ℕ) (children : Siblings ℕ) (records : Sparse → List ℕ) (result : Option ℕ)
      (hidle : s.activities l = .idle result)
      (hstored : children.Stored s.firstChild s.nextSibling (s.firstChild root))
      (hnodup : (children.postorder ++ [root]).Nodup) (huse : ∀ a ∈ children.postorder ++ [root], s.Writable a)
      (hmetrics : ∀ k, Chains (s.metrics k).objects
        ((children.postorder ++ [root]).map fun a => (s.nodes.objects a).firstSparse k) (records k))
      (hrecords : ∀ k, (records k).Nodup) (hmetricsUse : ∀ k, ∀ a ∈ records k, s.WritableMetric k a) :
      Step taskExchangeNum s (.releaseSubtree l root)
        { s.goOn l (.loop root (s.firstChild root) []) with
          releasing := update s.releasing l (children.postorder ++ [root])
          releasingMetrics := update s.releasingMetrics l records }
  | visit (l : L) (root child : ℕ) (callers : List (ℕ × ℕ)) (hl : s.activities l = .loop root (some child) callers) :
      Step taskExchangeNum s (.go l) (s.goOn l (.loop child (s.firstChild child) ((root, child) :: callers)))
  | visited (l : L) (root : ℕ) (callers : List (ℕ × ℕ)) (hl : s.activities l = .loop root none callers) :
      Step taskExchangeNum s (.go l) (s.goOn l (.metrics .int root callers))
  | noMetrics (l : L) (k : Sparse) (root : ℕ) (callers : List (ℕ × ℕ))
      (hl : s.activities l = .metrics k root callers) (hfirst : (s.nodes.objects root).firstSparse k = none) :
      Step taskExchangeNum s (.go l) (s.goOn l (afterMetrics root callers k))
  | metrics (l : L) (k : Sparse) (root first last : ℕ) (records : List ℕ) (callers : List (ℕ × ℕ))
      (hl : s.activities l = .metrics k root callers) (hfirst : (s.nodes.objects root).firstSparse k = some first)
      (hchain : Chain (s.metrics k).objects (some first) (records ++ [last])) :
      Step taskExchangeNum s (.go l) ((s.storeMetrics l k first records last).goOn l (afterMetrics root callers k))
  | tied (l : L) (root : ℕ) (callers : List (ℕ × ℕ)) (hl : s.activities l = .node root callers)
      (hcontext : (s.nodes.objects root).context = .tied) :
      Step taskExchangeNum s (.go l) ((s.storeNode l root).goOn l (.returned callers))
  | untied (l : L) (root : ℕ) (callers : List (ℕ × ℕ)) (hl : s.activities l = .node root callers)
      (hcontext : (s.nodes.objects root).context = .untied) :
      Step taskExchangeNum s (.go l) (s.goOn l (.stubs root root 1 false callers))
  | next (l : L) (caller child : ℕ) (callers : List (ℕ × ℕ))
      (hl : s.activities l = .returned ((caller, child) :: callers)) :
      Step taskExchangeNum s (.go l) (s.goOn l (.loop caller (s.nextSibling child) callers))
  | finished (l : L) (hl : s.activities l = .returned []) : Step taskExchangeNum s (.go l) (s.goOn l (.idle none))
  -- `scorep_profile_release_stubs`, for a chain in use
  | releaseStubs (l : L) (root leaf : ℕ) (num : UInt32) (localObjects : Bool) (above : List ℕ) (result : Option ℕ)
      (hidle : s.activities l = .idle result) (hchain : Segment s.firstChild (some root) above (some leaf))
      (hnum : num.toNat = (above ++ [leaf]).length) (hnodup : (above ++ [leaf]).Nodup)
      (huse : ∀ a ∈ above ++ [leaf], s.Writable a) :
      Step taskExchangeNum s (.releaseStubs l root leaf num localObjects)
        { s.goOn l (.stubs root leaf num localObjects []) with
          releasing := update s.releasing l (above ++ [leaf]) }
  | stored (l : L) (root leaf : ℕ) (num : UInt32) (localObjects : Bool) (callers : List (ℕ × ℕ))
      (hl : s.activities l = .stubs root leaf num localObjects callers)
      (hfew : localObjects = false →
        ((s.storeStubs l root leaf num localObjects).numForeignStubs l).toNat ≤ taskExchangeNum.toNat) :
      Step taskExchangeNum s (.go l)
        ((s.storeStubs l root leaf num localObjects).goOn l (.returned callers))
  | tooMany (l : L) (root leaf current : ℕ) (num : UInt32) (passed : List ℕ) (callers : List (ℕ × ℕ))
      (hl : s.activities l = .stubs root leaf num false callers)
      (hmany : taskExchangeNum.toNat < ((s.storeStubs l root leaf num false).numForeignStubs l).toNat)
      (hlast : Chain (s.storeStubs l root leaf num false).firstChild (some leaf) (passed ++ [current])) :
      Step taskExchangeNum s (.go l)
        ((s.storeStubs l root leaf num false).goOn l (.exchangeStubs root current callers))
  | exchangeStubs (l : L) (root current : ℕ) (callers : List (ℕ × ℕ))
      (hl : s.activities l = .exchangeStubs root current callers) :
      Step taskExchangeNum s (.go l) (s.exchangeStubs l root current callers)
  -- `scorep_profile_recycle_task`
  | recycleFreeTask (l : L) (first : ℕ) (result : Option ℕ) (hidle : s.activities l = .idle result)
      (hfree : s.tasks.heads (.freeTasks l) = some first) :
      Step taskExchangeNum s (.recycleTask l) (s.takeTask l (.freeTasks l) first)
  | recycleForeignTask (l : L) (first : ℕ) (result : Option ℕ) (hidle : s.activities l = .idle result)
      (hfree : s.tasks.heads (.freeTasks l) = none) (hforeign : s.tasks.heads (.foreignTasks l) = some first) :
      Step taskExchangeNum s (.recycleTask l)
        { s.takeTask l (.foreignTasks l) first with
          numForeignTasks := update s.numForeignTasks l (s.numForeignTasks l - 1) }
  | recycleNoTask (l : L) (result : Option ℕ) (hidle : s.activities l = .idle result)
      (hfree : s.tasks.heads (.freeTasks l) = none) (hforeign : s.tasks.heads (.foreignTasks l) = none)
      (hexchange : s.tasks.heads .exchange = none) :
      Step taskExchangeNum s (.recycleTask l) (s.goOn l (.idle none))
  | recycleExchangeTask (l : L) (result : Option ℕ) (hidle : s.activities l = .idle result)
      (hfree : s.tasks.heads (.freeTasks l) = none) (hforeign : s.tasks.heads (.foreignTasks l) = none)
      (hexchange : s.tasks.heads .exchange ≠ none) :
      Step taskExchangeNum s (.recycleTask l) (s.goOn l .takeTasks)
  | takeTasks (l : L) (first : ℕ) (hl : s.activities l = .takeTasks)
      (hexchange : s.tasks.heads .exchange = some first) :
      Step taskExchangeNum s (.go l)
        ({ s with tasks := s.tasks.setHead .exchange none }.takeTask l (.freeTasks l) first)
  | takeNoTasks (l : L) (hl : s.activities l = .takeTasks) (hexchange : s.tasks.heads .exchange = none) :
      Step taskExchangeNum s (.go l) (s.goOn l (.idle none))
  -- `scorep_profile_release_task`, for a task in use
  | releaseTask (l : L) (task : ℕ) (result : Option ℕ) (hidle : s.activities l = .idle result)
      (huse : task ∈ s.tasks.inUse)
      (hfew : (s.tasks.objects task).creator ≠ l →
        ((s.storeTask l task).numForeignTasks l).toNat ≤ taskExchangeNum.toNat) :
      Step taskExchangeNum s (.releaseTask l task) ((s.storeTask l task).goOn l (.idle none))
  | tooManyTasks (l : L) (task current : ℕ) (passed : List ℕ) (result : Option ℕ)
      (hidle : s.activities l = .idle result) (huse : task ∈ s.tasks.inUse)
      (hcreator : (s.tasks.objects task).creator ≠ l)
      (hmany : taskExchangeNum.toNat < ((s.storeTask l task).numForeignTasks l).toNat)
      (hlast : Chain (s.storeTask l task).nextTask (some task) (passed ++ [current])) :
      Step taskExchangeNum s (.releaseTask l task) ((s.storeTask l task).goOn l (.exchangeTasks task current))
  | exchangeTasks (l : L) (task current : ℕ) (hl : s.activities l = .exchangeTasks task current) :
      Step taskExchangeNum s (.go l) (s.exchangeTasks l task current)
  -- the rest of the program
  | allocFreeSparse (l : L) (k : Sparse) (first : ℕ) (result : Option ℕ) (hidle : s.activities l = .idle result)
      (hfree : (s.metrics k).heads l = some first) :
      Step taskExchangeNum s (.allocSparse l k)
        { s.goOn l (.idle (some first)) with
          metrics := update s.metrics k ((s.metrics k).take l first ((s.metrics k).objects first)) }
  | allocNewSparse (l : L) (k : Sparse) (next result : Option ℕ) (hidle : s.activities l = .idle result)
      (hfree : (s.metrics k).heads l = none) :
      Step taskExchangeNum s (.allocSparse l k)
        { s.goOn l (.idle (some (s.metrics k).created)) with
          metrics := update s.metrics k ((s.metrics k).create next) }
  | allocNewTask (task : Task L) : Step taskExchangeNum s (.allocNewTask task) { s with tasks := s.tasks.create task }
  | write (nodes : ℕ → Node) (metrics : Sparse → ℕ → Option ℕ) (tasks : ℕ → Task L)
      (hnodes : ∀ a, ¬s.Writable a → nodes a = s.nodes.objects a)
      (hmetrics : ∀ k a, ¬s.WritableMetric k a → metrics k a = (s.metrics k).objects a)
      (htasks : ∀ a, a ∉ s.tasks.inUse → tasks a = s.tasks.objects a) :
      Step taskExchangeNum s (.write nodes metrics tasks)
        { s with
          nodes := { s.nodes with objects := nodes }
          metrics := fun k => { s.metrics k with objects := metrics k }
          tasks := { s.tasks with objects := tasks } }

end ScoreP.Recycling
