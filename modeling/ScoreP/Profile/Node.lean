import ScoreP.Profile.Metrics
import ScoreP.Profile.NodeType

/-!
# Call-tree nodes

Source: `scorep_profile_node.h`, `scorep_profile_node.c`. `NodeData` is a node without its links;
`Node` adds the parent and the list of children that starts at `first_child`. Nodes are named by
numbers. The number of strictly synchronous metrics is `n`, `D` stands for the type of doubles.

The handle of the call path of a node, which is set after the measurement, is not part of the model.
-/

namespace ScoreP.Profile

structure NodeData (n : ℕ) (D : Type) where
  nodeType : NodeType
  typeSpecificData : TypeData
  count : UInt64
  hits : UInt64
  firstEnterTime : UInt64
  lastExitTime : UInt64
  inclusiveTime : DenseMetric
  denseMetrics : Fin n → DenseMetric
  firstIntSparse : List (SparseMetric UInt64)
  firstDoubleSparse : List (SparseMetric D)
  mpiInSubtree : Bool
  isForkNode : Bool
  inUntiedTask : Bool

structure Node (n : ℕ) (D : Type) extends NodeData n D where
  parent : Option ℕ
  children : List ℕ

variable {n : ℕ} {D : Type}

/-- The values of the strictly synchronous metrics that an event passes, `none` for a null pointer. -/
abbrev Metrics (n : ℕ) : Type := Option (Fin n → UInt64)

/-- `metrics ? metrics[ i ] : 0`. -/
def readMetric (metrics : Metrics n) (i : Fin n) : UInt64 :=
  match metrics with
  | none => 0
  | some values => values i

namespace NodeData

/-- The values that `scorep_profile_create_node` sets. -/
def create (type : NodeType) (data : TypeData) (timestamp : UInt64) : NodeData n D where
  nodeType := type
  typeSpecificData := data
  count := 0
  hits := 0
  firstEnterTime := timestamp
  lastExitTime := timestamp
  inclusiveTime := initDenseMetric
  denseMetrics := fun _ => initDenseMetric
  firstIntSparse := []
  firstDoubleSparse := []
  mpiInSubtree := false
  isForkNode := false
  inUntiedTask := false

/-- What `scorep_profile_compare_nodes` compares. -/
def key (node : NodeData n D) : NodeType × TypeData :=
  typeKey node.nodeType node.typeSpecificData

/-- The same operation on the inclusive time, with the timestamp, and on each dense metric, with its
value. -/
def onMetrics (node : NodeData n D) (op : DenseMetric → UInt64 → DenseMetric) (timestamp : UInt64)
    (values : Fin n → UInt64) : NodeData n D :=
  { node with
    inclusiveTime := op node.inclusiveTime timestamp
    denseMetrics := fun i => op (node.denseMetrics i) (values i) }

/-- What `scorep_profile_copy_node` makes of a node that it has created with the type and the data of
`source`. The copied entries of a list of sparse metrics are pushed to its front one after another. -/
def copy (source : NodeData n D) : NodeData n D :=
  let node : NodeData n D := create source.nodeType source.typeSpecificData 0
  { node with
    mpiInSubtree := source.mpiInSubtree
    isForkNode := source.isForkNode
    inUntiedTask := source.inUntiedTask
    count := source.count
    firstEnterTime := source.firstEnterTime
    lastExitTime := source.lastExitTime
    inclusiveTime := node.inclusiveTime.copy source.inclusiveTime
    denseMetrics := fun i => (node.denseMetrics i).copy (source.denseMetrics i)
    firstIntSparse := source.firstIntSparse.reverse
    firstDoubleSparse := source.firstDoubleSparse.reverse }

/-- `scorep_profile_merge_node_inclusive`. -/
def mergeInclusive (destination source : NodeData n D) : NodeData n D :=
  { destination with
    firstEnterTime :=
      if destination.firstEnterTime > source.firstEnterTime then source.firstEnterTime
      else destination.firstEnterTime
    lastExitTime :=
      if destination.lastExitTime < source.lastExitTime then source.lastExitTime
      else destination.lastExitTime
    inclusiveTime := destination.inclusiveTime.merge source.inclusiveTime
    denseMetrics := fun i => (destination.denseMetrics i).merge (source.denseMetrics i) }

/-- `scorep_profile_merge_node_dense`. -/
def mergeDense (destination source : NodeData n D) : NodeData n D :=
  { destination with count := destination.count + source.count }.mergeInclusive source

/-- `scorep_profile_merge_node_sparse`. -/
def mergeSparse [SparseValue D] (destination source : NodeData n D) : NodeData n D :=
  { destination with
    firstIntSparse := source.firstIntSparse.foldl Profile.mergeSparse destination.firstIntSparse
    firstDoubleSparse :=
      source.firstDoubleSparse.foldl Profile.mergeSparse destination.firstDoubleSparse }

/-- What `scorep_profile_merge_subtree` does to the data of its destination. -/
def merge [SparseValue D] (destination source : NodeData n D) : NodeData n D :=
  let merged := (destination.mergeDense source).mergeSparse source
  { merged with
    mpiInSubtree := destination.mpiInSubtree || source.mpiInSubtree
    isForkNode := destination.isForkNode || source.isForkNode
    inUntiedTask := destination.inUntiedTask || source.inUntiedTask }

end NodeData

end ScoreP.Profile
