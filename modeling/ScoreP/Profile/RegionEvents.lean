import ScoreP.Foundations.Transition
import ScoreP.Profile.Events

/-!
# Synchronous metrics at enter and exit

Source: `enter_region`, `exit_region`, `write_sparse_metrics_enter` and `write_sparse_metrics_exit` in
`SCOREP_Profile.c`. One integer metric delivers a value at each enter and each exit of a region. The
profile takes the first for the start value of a node, the second ends it. `Consistent` says that the
start values are those of the open regions and that the sums are those of the visits.
-/

namespace ScoreP.Profile

open Foundations

/-- `SCOREP_METRIC_VALUE_INT64` and `SCOREP_METRIC_VALUE_UINT64`. -/
inductive ValueType where
  | int64
  | uint64
deriving DecidableEq

/-- The order of the values. Both types are handed on as `uint64_t`. -/
def ValueType.le : ValueType → UInt64 → UInt64 → Prop
  | .int64, a, b => a.toInt64 ≤ b.toInt64
  | .uint64, a, b => a ≤ b

instance (type : ValueType) (a b : UInt64) : Decidable (type.le a b) := by
  cases type
  · exact inferInstanceAs (Decidable (a.toInt64 ≤ b.toInt64))
  · exact inferInstanceAs (Decidable (a ≤ b))

/-- The profile stops itself, or a check of the sparse metrics fails. -/
inductive Fault where
  | stopped
  | bug
deriving DecidableEq

def orFault {α : Type} (fault : Fault) : Option α → Except Fault α
  | none => .error fault
  | some a => .ok a

/-- The metric, and the location that has the events. -/
structure Probe where
  location : ℕ
  metric : ℕ
  valueType : ValueType

namespace State

variable {n : ℕ} {D : Type} [SparseValue D]

def writeSparseMetricsEnter (p : Probe) (s : State n D) (value : UInt64) : Except Fault (State n D) := do
  let node ← orFault .stopped (s.location p.location).currentTaskNode
  orFault .bug (s.triggerInt64 p.metric value node .beginValue)

def writeSparseMetricsExit (p : Probe) (s : State n D) (value : UInt64) : Except Fault (State n D) := do
  let node ← orFault .stopped (s.location p.location).currentTaskNode
  orFault .bug (s.triggerInt64 p.metric value node .endValue)

def enterRegion (cfg : Config) (p : Probe) (s : State n D) (timestamp : UInt64) (region : ℕ)
    (metrics : Metrics n) (value : UInt64) : Except Fault (State n D) := do
  let s ← orFault .stopped (s.profileEnter cfg p.location timestamp region metrics)
  s.writeSparseMetricsEnter p value

def exitRegion (cfg : Config) (p : Probe) (s : State n D) (timestamp : UInt64) (region : ℕ)
    (metrics : Metrics n) (value : UInt64) : Except Fault (State n D) := do
  let s ← s.writeSparseMetricsExit p value
  orFault .stopped (s.profileExit cfg p.location timestamp region metrics)

end State

inductive RegionEvent (n : ℕ) where
  | enter (timestamp : UInt64) (region : ℕ) (metrics : Metrics n) (value : UInt64)
  | exit (timestamp : UInt64) (region : ℕ) (metrics : Metrics n) (value : UInt64)
  | parameterInteger (param : ℕ) (value : UInt64)
  | parameterString (param string : ℕ)

/-- An open region: where its start value was written. -/
structure Visit where
  region : ℕ
  node : ℕ
  value : UInt64
deriving DecidableEq

structure Tracked (n : ℕ) (D : Type) where
  state : State n D
  opens : List Visit
  last : Option UInt64
  visits : List (ℕ × UInt64)

def openValue (metric : ℕ) (list : List (SparseMetric UInt64)) : Option UInt64 :=
  (list.find? (·.metric == metric)).bind fun entry =>
    if entry.startValueSet then some entry.startValue else none

def sumOf (metric : ℕ) (list : List (SparseMetric UInt64)) : UInt64 :=
  ((list.find? (·.metric == metric)).map SparseMetric.sum).getD 0

namespace Tracked

variable {n : ℕ} {D : Type} [SparseValue D]

def current (t : Tracked n D) (p : Probe) : Option ℕ :=
  (t.state.location p.location).currentTaskNode

def step (cfg : Config) (p : Probe) (t : Tracked n D) : RegionEvent n → Except Fault (Tracked n D)
  | .enter timestamp region metrics value => do
    let s ← t.state.enterRegion cfg p timestamp region metrics value
    let node ← orFault .stopped (s.location p.location).currentTaskNode
    return { t with state := s, opens := ⟨region, node, value⟩ :: t.opens, last := some value }
  | .exit timestamp region metrics value => do
    let s ← t.state.exitRegion cfg p timestamp region metrics value
    match t.opens with
    | [] => .error .stopped
    | visit :: opens =>
      return ⟨s, opens, some value, (visit.node, value - visit.value) :: t.visits⟩
  | .parameterInteger param value => do
    let s ← orFault .stopped (t.state.parameterUint64 cfg p.location param value)
    return { t with state := s }
  | .parameterString param string => do
    let s ← orFault .stopped (t.state.parameterString cfg p.location param string)
    return { t with state := s }

def Legal (p : Probe) (t : Tracked n D) : RegionEvent n → Prop
  | .enter _ _ _ value => ∀ last ∈ t.last, p.valueType.le last value
  | .exit _ region _ value =>
    t.opens.head?.map Visit.region = some region ∧ ∀ last ∈ t.last, p.valueType.le last value
  | .parameterInteger _ _ | .parameterString _ _ => True

def startValue (t : Tracked n D) (p : Probe) (node : ℕ) : Option UInt64 :=
  openValue p.metric (t.state.store.node node).firstIntSparse

def sum (t : Tracked n D) (p : Probe) (node : ℕ) : UInt64 :=
  sumOf p.metric (t.state.store.node node).firstIntSparse

structure Consistent (p : Probe) (t : Tracked n D) : Prop where
  current : ∀ visit ∈ t.opens.head?, t.current p = some visit.node
  started : ∀ node value, t.startValue p node = some value ↔
    ∃ visit ∈ t.opens, visit.node = node ∧ visit.value = value
  sums : ∀ node, t.sum p node = ((t.visits.filter (·.1 == node)).map Prod.snd).sum

/-- What goes wrong is left out: a parameter takes effect while a region is open, a region is entered in a
collapse node, or a value that is compared as an unsigned one gets its sign changed in a visit. -/
def Avoids (cfg : Config) (p : Probe) (t : Tracked n D) : RegionEvent n → Prop
  | .enter _ _ _ _ => ∀ node ∈ t.current p, (t.state.store.node node).nodeType ≠ .collapse
  | .exit _ _ _ value => p.valueType = .int64 → ∀ visit ∈ t.opens.head?,
    ¬(visit.value.toInt64 < 0 ∧ 0 ≤ value.toInt64)
  | .parameterInteger _ _ | .parameterString _ _ =>
    t.opens = [] ∨ cfg.maxCallpathDepth ≤ (t.state.location p.location).currentDepth.toUInt64

def Fine (cfg : Config) (p : Probe) (t : Tracked n D) : Prop :=
  ∀ event, t.Legal p event → ∃ t', t.step cfg p event = .ok t'

end Tracked

def activated (n : ℕ) (D : Type) (l : ℕ) (depth : UInt32) : Tracked n D where
  state :=
    { store :=
        { node := fun i =>
            if i = 0 then
              { toNodeData := .create .threadRoot ⟨l, l⟩ 0, parent := none, children := [1] }
            else
              { toNodeData := .create .threadStart ⟨forkHandle none, 0⟩ 0, parent := some 0, children := [] }
          allocated := 2
          free := fun _ => []
          numForeignStubs := fun _ => 0
          rootNodes := [0] }
      location := fun k =>
        { rootNode := if k = l then some 0 else none
          currentTaskNode := if k = l then some 1 else none
          currentImplicitNode := none
          currentDepth := if k = l then depth else 0
          implicitDepth := 0
          currentTask := none
          implicitTask := none
          migrationSum := 0
          migrationWin := 0 }
      task := fun _ =>
        { currentNode := none, rootNode := none, depth := 0, canMigrate := false, lastLocation := none }
      hasCollapseNode := false
      reachedDepth := 0 }
  opens := []
  last := none
  visits := []

end ScoreP.Profile
