import Mathlib.Data.UInt

/-!
# Metrics of call-tree nodes

Source: `scorep_profile_metric.c`. A dense metric is the inclusive time or a strictly synchronous
metric: `startValue` is its reading at the enter or at the last resume, `intermediateSum` what the
executing task has collected before its last suspension. A sparse metric is triggered with values; it
is the same code for integers and for doubles, a type of values with the operations that the code uses.

`none` is an abort by `UTILS_BUG_ON`.
-/

namespace ScoreP.Profile

/-! ## Dense metrics -/

structure DenseMetric where
  sum : UInt64
  min : UInt64
  max : UInt64
  squares : UInt64
  startValue : UInt64
  intermediateSum : UInt64
deriving DecidableEq

def initDenseMetric : DenseMetric where
  sum := 0
  min := 0xFFFFFFFFFFFFFFFF
  max := 0
  squares := 0
  startValue := 0
  intermediateSum := 0

namespace DenseMetric

/-- `diff` is added to the statistics. -/
def add (metric : DenseMetric) (diff : UInt64) : DenseMetric :=
  { metric with
    sum := metric.sum + diff
    min := if metric.min > diff then diff else metric.min
    max := if metric.max < diff then diff else metric.max
    squares := metric.squares + diff * diff }

/-- `scorep_profile_update_dense_metric`. -/
def update (metric : DenseMetric) (endValue : UInt64) : DenseMetric :=
  let diff := endValue - metric.startValue + metric.intermediateSum
  { metric with intermediateSum := 0 }.add diff

/-- `scorep_profile_copy_dense_metric`. The start value is not copied. -/
def copy (destination source : DenseMetric) : DenseMetric :=
  { destination with
    sum := source.sum
    min := source.min
    max := source.max
    squares := source.squares
    intermediateSum := source.intermediateSum }

/-- `scorep_profile_merge_dense_metric`. -/
def merge (destination source : DenseMetric) : DenseMetric :=
  { destination with
    sum := destination.sum + source.sum
    min := if destination.min > source.min then source.min else destination.min
    max := if destination.max < source.max then source.max else destination.max
    squares := destination.squares + source.squares
    intermediateSum := destination.intermediateSum + source.intermediateSum }

/-- `metric->start_value = value`, at an enter and in `scorep_profile_update_dense_on_resume`. -/
def start (metric : DenseMetric) (value : UInt64) : DenseMetric :=
  { metric with startValue := value }

/-- `scorep_profile_update_untied_on_suspend`. -/
def suspendUntied (metric : DenseMetric) (endValue : UInt64) : DenseMetric :=
  { metric with
    sum := metric.sum + (endValue - metric.startValue)
    intermediateSum := metric.intermediateSum + (endValue - metric.startValue) }

/-- `scorep_profile_update_tied_on_suspend`. -/
def suspendTied (metric : DenseMetric) (endValue : UInt64) : DenseMetric :=
  { metric with intermediateSum := metric.intermediateSum + (endValue - metric.startValue) }

def copyOnUntiedSuspend (metric : DenseMetric) : DenseMetric :=
  { metric with sum := -metric.intermediateSum }

end DenseMetric

/-! ## Sparse metrics -/

/-- The operations on `uint64_t` or `double` that sparse metrics use; `limit` is `UINT64_MAX` as such
a value. -/
class SparseValue (V : Type) where
  zero : V
  limit : V
  add : V → V → V
  sub : V → V → V
  mul : V → V → V
  less : V → V → Bool
  isZero : V → Bool

instance : SparseValue UInt64 where
  zero := 0
  limit := 0xFFFFFFFFFFFFFFFF
  add := (· + ·)
  sub := (· - ·)
  mul := (· * ·)
  less a b := decide (a < b)
  isZero a := a == 0

inductive UpdateScheme where
  | beginValue
  | endValue
  | valueAsIs
deriving DecidableEq

structure SparseMetric (V : Type) where
  metric : ℕ
  startValueSet : Bool
  count : UInt64
  startValue : V
  sum : V
  min : V
  max : V
  squares : V
deriving DecidableEq

section Sparse

variable {V : Type} [SparseValue V]

open SparseValue

/-- `scorep_profile_create_sparse_int` and `scorep_profile_create_sparse_double`. -/
def createSparse (metric : ℕ) (value : V) : UpdateScheme → Option (SparseMetric V)
  | .beginValue => some
      { metric := metric, startValueSet := true, startValue := value, count := 0, sum := zero,
        min := limit, max := zero, squares := zero }
  | .endValue => none
  | .valueAsIs => some
      { metric := metric, startValueSet := false, startValue := zero, count := 1, sum := value,
        min := value, max := value, squares := mul value value }

namespace SparseMetric

def add (m : SparseMetric V) (value : V) : SparseMetric V :=
  { m with
    count := m.count + 1
    sum := SparseValue.add m.sum value
    min := if less value m.min then value else m.min
    max := if less m.max value then value else m.max
    squares := SparseValue.add m.squares (mul value value) }

/-- `scorep_profile_update_sparse_int` and `scorep_profile_update_sparse_double`. -/
def update (m : SparseMetric V) (value : V) : UpdateScheme → Option (SparseMetric V)
  | .beginValue =>
    if m.startValueSet then none else some { m with startValueSet := true, startValue := value }
  | .endValue =>
    if m.startValueSet = false ∨ less value m.startValue then none
    else some ({ m with startValueSet := false }.add (sub value m.startValue))
  | .valueAsIs =>
    if m.startValueSet ∨ isZero m.startValue = false then none else some (m.add value)

/-- `scorep_profile_merge_sparse_metric_int` and `scorep_profile_merge_sparse_metric_double`. -/
def merge (destination source : SparseMetric V) : SparseMetric V :=
  { destination with
    count := destination.count + source.count
    sum := SparseValue.add destination.sum source.sum
    min := if less source.min destination.min then source.min else destination.min
    max := if less destination.max source.max then source.max else destination.max
    squares := SparseValue.add destination.squares source.squares }

end SparseMetric

/-- `scorep_profile_trigger_int64` and `scorep_profile_trigger_double`, on the list of a node: the
entry of the metric is updated, or a new one is appended. -/
def triggerSparse (metric : ℕ) (value : V) (scheme : UpdateScheme) :
    List (SparseMetric V) → Option (List (SparseMetric V))
  | [] => (createSparse metric value scheme).map ([·])
  | current :: rest =>
    if current.metric = metric then (current.update value scheme).map (· :: rest)
    else (triggerSparse metric value scheme rest).map (current :: ·)

/-- The first entry of the metric takes the values of `source`. -/
def mergeIntoEntry (source : SparseMetric V) : List (SparseMetric V) → Option (List (SparseMetric V))
  | [] => none
  | dest :: rest =>
    if dest.metric = source.metric then some (dest.merge source :: rest)
    else (mergeIntoEntry source rest).map (dest :: ·)

/-- One round of the loop in `scorep_profile_merge_node_sparse`: without an entry of the metric a copy
of `source` becomes the head of the list. -/
def mergeSparse (destination : List (SparseMetric V)) (source : SparseMetric V) : List (SparseMetric V) :=
  (mergeIntoEntry source destination).getD (source :: destination)

end Sparse

end ScoreP.Profile
