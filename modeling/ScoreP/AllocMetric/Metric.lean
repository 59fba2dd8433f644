import Mathlib.Data.BitVec
import ScoreP.AllocMetric.Splay

/-!
# Tracking allocations

Source: `src/utils/alloc_metric/SCOREP_AllocMetric.c`. A metric holds the splay tree of the tracked
allocations, the items that can be used again and the sum of the allocated sizes.

`insertMemoryAllocation` has three branches. In the third one the address is already the root of
the splayed tree; the source reports a warning and then, as in the other two, makes the new item
the root, whose links are `NULL`.

The substrates' callbacks and the metric location are not part of the model.
-/

namespace ScoreP.AllocMetric

open BinaryTree Foundations.SearchTree

/-- `struct SCOREP_AllocMetric`. -/
structure Metric where
  allocations : BinaryTree Item
  freeList : List Item
  totalAllocatedMemory : BitVec 64

def newScoped : Metric where
  allocations := nil
  freeList := []
  totalAllocatedMemory := 0

/-- The links of `allocation` are `NULL`: the item is new or was removed from the tree. -/
def Metric.insertMemoryAllocation (m : Metric) (allocation : Item) : Metric :=
  match splay m.allocations allocation.address with
  | nil => { m with allocations := node allocation nil nil }
  | node root left right =>
    if allocation.address < root.address then
      { m with allocations := node allocation left (node root nil right) }
    else if allocation.address > root.address then
      { m with allocations := node allocation (node root left nil) right }
    else
      -- Allocation already known
      { m with allocations := node allocation nil nil }

def Metric.addMemoryAllocation (m : Metric) (addr : ℕ) (size : BitVec 64) : Metric :=
  let newItem : Item := { address := addr, size := size }
  { m with freeList := m.freeList.tail }.insertMemoryAllocation newItem

def Metric.findMemoryAllocation (m : Metric) (addr : ℕ) : Metric × Option Item :=
  match splay m.allocations addr with
  | nil => (m, none)
  | node root left right =>
    ({ m with allocations := node root left right }, if addr = root.address then some root else none)

def Metric.removeMemoryAllocation (m : Metric) (allocation : Item) : Metric :=
  match m.allocations with
  | nil => m
  | node root left right =>
    if root ≠ allocation then m
    else
      match left with
      | nil => { m with allocations := right }
      | node a l r =>
        match splay (node a l r) allocation.address with
        | nil => { m with allocations := right }
        | node b bl _ => { m with allocations := node b bl right }

def Metric.freeMemoryAllocation (m : Metric) (allocation : Item) : Metric :=
  { m with freeList := allocation :: m.freeList }

/-! ## The interface -/

/-- `SCOREP_AllocMetric_AcquireAlloc`; `none` where `UTILS_BUG_ON` aborts. -/
def Metric.acquireAlloc (m : Metric) (addr : ℕ) : Option (Metric × Option Item) :=
  if addr = 0 then none
  else
    match m.findMemoryAllocation addr with
    | (m', some allocation) => some (m'.removeMemoryAllocation allocation, some allocation)
    | (m', none) => some (m', none)

def Metric.addrExists (m : Metric) (addr : ℕ) : Metric × Bool :=
  let (m', allocation) := m.findMemoryAllocation addr
  (m', allocation.isSome)

/-- A metric and `process_allocated_memory`, which all metrics of the process share. -/
structure Process where
  metric : Metric
  processAllocatedMemory : BitVec 64

def Process.handleAlloc (p : Process) (resultAddr : ℕ) (size : BitVec 64) : Process where
  processAllocatedMemory := p.processAllocatedMemory + size
  metric :=
    { p.metric with
      totalAllocatedMemory := p.metric.totalAllocatedMemory + size }.addMemoryAllocation resultAddr size

/-- `SCOREP_AllocMetric_HandleRealloc`, with the size reported through `prevSize`. -/
def Process.handleRealloc (p : Process) (resultAddr : ℕ) (size : BitVec 64)
    (prevAllocation : Option Item) : Process × BitVec 64 :=
  match prevAllocation with
  | some allocation =>
    if allocation.address = resultAddr then
      ({ processAllocatedMemory := p.processAllocatedMemory + (size - allocation.size)
         metric :=
          { p.metric with
            totalAllocatedMemory := p.metric.totalAllocatedMemory + (size - allocation.size)
          }.insertMemoryAllocation { allocation with size := size } }, allocation.size)
    else
      ({ processAllocatedMemory := p.processAllocatedMemory + size - allocation.size
         metric :=
          { p.metric with
            totalAllocatedMemory := p.metric.totalAllocatedMemory + size - allocation.size
          }.insertMemoryAllocation { allocation with address := resultAddr, size := size } },
        allocation.size)
  | none =>
    ({ processAllocatedMemory := p.processAllocatedMemory + size
       metric :=
        { p.metric with
          totalAllocatedMemory := p.metric.totalAllocatedMemory + size }.addMemoryAllocation
            resultAddr size }, 0)

/-- `SCOREP_AllocMetric_HandleFree`, with the size reported through `size`. -/
def Process.handleFree (p : Process) (allocation : Option Item) : Process × BitVec 64 :=
  match allocation with
  | none => (p, 0)
  | some allocation =>
    ({ processAllocatedMemory := p.processAllocatedMemory - allocation.size
       metric :=
        { p.metric with
          totalAllocatedMemory := p.metric.totalAllocatedMemory - allocation.size
        }.freeMemoryAllocation allocation }, allocation.size)

/-! ## Sessions -/

/-- The calls on a metric. An acquired allocation is named by its position in the list of the
acquired ones, and `none` stands for `NULL`. -/
inductive Op
  | handleAlloc (resultAddr : ℕ) (size : BitVec 64)
  | acquireAlloc (addr : ℕ)
  | handleRealloc (resultAddr : ℕ) (size : BitVec 64) (prevAllocation : Option ℕ)
  | handleFree (allocation : Option ℕ)
  | addrExists (addr : ℕ)

structure Session where
  process : Process
  acquired : List Item

def Session.init : Session where
  process := { metric := newScoped, processAllocatedMemory := 0 }
  acquired := []

def handBack (acquired : List Item) : Option ℕ → Option (Option Item × List Item)
  | none => some (none, acquired)
  | some i => acquired[i]?.map fun item => (some item, acquired.eraseIdx i)

/-- A call; `none` where the caller hands back what it has not acquired, or the call aborts. -/
def Session.step (s : Session) : Op → Option Session
  | .handleAlloc resultAddr size =>
    some { s with process := s.process.handleAlloc resultAddr size }
  | .acquireAlloc addr =>
    (s.process.metric.acquireAlloc addr).map fun r =>
      { process := { s.process with metric := r.1 }, acquired := s.acquired ++ r.2.toList }
  | .handleRealloc resultAddr size prevAllocation =>
    (handBack s.acquired prevAllocation).map fun r =>
      { process := (s.process.handleRealloc resultAddr size r.1).1, acquired := r.2 }
  | .handleFree allocation =>
    (handBack s.acquired allocation).map fun r =>
      { process := (s.process.handleFree r.1).1, acquired := r.2 }
  | .addrExists addr =>
    some { s with process := { s.process with metric := (s.process.metric.addrExists addr).1 } }

end ScoreP.AllocMetric
