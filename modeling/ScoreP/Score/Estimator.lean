import Mathlib.Algebra.BigOperators.Group.Finset.Basic
import Mathlib.Algebra.Group.Pi.Basic
import ScoreP.Score.Events

/-!
# The trace buffer estimate

`visitNode` is the call-tree visitor of the estimator: it charges the bytes, the visits and the hits of a
node of the call tree to its group, to the group of all regions, to its region, and with a filter to the
filtered groups. `calculate` runs it over the call tree for every process.
-/

namespace ScoreP.Score

open Function

structure Group (processes : ℕ) where
  /-- The bytes of each process. -/
  maxBuf : Fin processes → ℕ
  totalBuf : ℕ
  visits : ℕ
  hits : ℕ
  filter : FilterState

variable {regions processes : ℕ}

namespace Group

def new : Group processes := ⟨0, 0, 0, 0, .unspecified⟩

def updateProcess (group : Group processes) (process : Fin processes) (bytes numberOfVisits numberOfHits : ℕ) :
    Group processes :=
  { group with
    totalBuf := group.totalBuf + bytes
    maxBuf := update group.maxBuf process (group.maxBuf process + bytes)
    visits := group.visits + numberOfVisits
    hits := group.hits + numberOfHits }

def doFilter (group : Group processes) (filter : FilterState) : Group processes :=
  { group with filter }

def getMaxTraceBufferSize (group : Group processes) : ℕ :=
  (List.finRange processes).foldl (fun largest process => max largest (group.maxBuf process)) 0

end Group

/-- What the estimator is set up with: the profile and the output of `otf2-estimator`, and for the filter
whether `SCOREP_Filter_Match` filters each region. -/
structure Setup where
  profile : Profile
  denseNum : ℕ
  output : EstimatorOutput
  showRegions : Bool
  filter : Option (Fin profile.numberOfRegions → Bool)

structure Estimator (regions processes : ℕ) where
  groups : ScoreType → Group processes
  regions : Fin regions → Group processes
  filtered : ScoreType → Group processes

namespace Setup

variable (setup : Setup)

def matchFilter (doFilter : Fin setup.profile.numberOfRegions → Bool)
    (region : Fin setup.profile.numberOfRegions) : Bool :=
  setup.profile.getRegionParadigm region ≠ "sampling" && doFilter region &&
    getFilterState (setup.profile.getGroup region) ≠ .no

abbrev Visit := Profile.Visit setup.profile.numberOfRegions setup.profile.numberOfProcesses

abbrev State := Estimator setup.profile.numberOfRegions setup.profile.numberOfProcesses

def updateGroups {processes : ℕ} (groups : ScoreType → Group processes) (group : ScoreType)
    (process : Fin processes) (bytes visits hits : ℕ) : ScoreType → Group processes :=
  let groups := update groups group ((groups group).updateProcess process bytes visits hits)
  update groups .all ((groups .all).updateProcess process bytes visits hits)

/-- `operator()` -/
def visitNode (state : setup.State) (node : setup.Visit) : setup.State :=
  if node.visits = 0 ∧ node.hits = 0 then state
  else
    let group := setup.profile.getGroup node.region
    match (if setup.profile.isDynamicRegion node.region then node.parentRegion else none) with
    | some parentRegion =>
      -- only the parent contributes and can be filtered
      let bytes := node.visits * bytesPerVisits setup.profile setup.denseNum setup.output parentRegion
      { state with
        groups := updateGroups state.groups group node.process bytes node.visits 0
        regions := if setup.showRegions then
            update state.regions parentRegion
              ((state.regions parentRegion).updateProcess node.process bytes node.visits 0)
          else state.regions }
    | none =>
      let bytes := node.visits * (bytesPerVisits setup.profile setup.denseNum setup.output node.region +
          node.numParameters * bytesPerNumParameter setup.profile setup.denseNum setup.output +
          node.strParameters * bytesPerStrParameter setup.profile setup.denseNum setup.output) +
        node.hits * bytesPerHit setup.profile setup.denseNum setup.output
      let state := { state with
        groups := updateGroups state.groups group node.process bytes node.visits node.hits
        regions := if setup.showRegions then
            update state.regions node.region
              ((state.regions node.region).updateProcess node.process bytes node.visits node.hits)
          else state.regions }
      match setup.filter with
      | none => state
      | some doFilter =>
        let filters := setup.matchFilter doFilter node.region
        { state with
          regions := if setup.showRegions then
              update state.regions node.region
                ((state.regions node.region).doFilter (if filters then .yes else .no))
            else state.regions
          filtered := if filters then
              update state.filtered .flt
                ((state.filtered .flt).updateProcess node.process bytes node.visits node.hits)
            else updateGroups state.filtered group node.process bytes node.visits node.hits }

/-- The groups as the constructor, `initializeFilter` and `initialize_regions` leave them. -/
def start : setup.State where
  groups := fun _ => Group.new.doFilter (if setup.filter.isSome then .no else .unspecified)
  regions := fun _ => Group.new
  filtered := fun type => Group.new.doFilter (getFilterState type)

def calculate : setup.State :=
  (List.finRange setup.profile.numberOfProcesses).foldl
    (fun state process => setup.profile.iterateCalltree setup.visitNode process state) setup.start

/-- `m_max_buf` of `printGroups` -/
def maxBuf : ℕ :=
  if setup.filter.isSome then (setup.calculate.filtered .all).getMaxTraceBufferSize
  else (setup.calculate.groups .all).getMaxTraceBufferSize

end Setup

end ScoreP.Score
