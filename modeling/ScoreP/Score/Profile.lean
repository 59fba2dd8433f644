import Mathlib.Data.Finset.Insert

/-!
# The profile that is scored

`Profile` is what the estimator reads of a call-path profile: the regions, and the call tree with the visits
and hits of every process. `getDefinitionType` and `calculateCalltreeTypes` give each region its group, and
`iterateCalltree` hands the nodes of the call tree to a visitor. No region is in the group of all regions or
in the group of the filtered ones (`isGroup_getDefinitionType`).
-/

namespace ScoreP.Score

/-- `SCOREP_Score_Type`, in the order of the source. -/
inductive ScoreType where
  | all | flt | usr | scorep | com | mpi | omp | shmem | pthread | cuda | opencl | openacc | memory | io
  | kokkos | hip | lib | unknown
deriving DecidableEq

def ScoreType.IsGroup (type : ScoreType) : Prop := type ≠ .all ∧ type ≠ .flt

instance (type : ScoreType) : Decidable type.IsGroup :=
  inferInstanceAs (Decidable (_ ∧ _))

def groupTypes : Finset ScoreType :=
  {.usr, .scorep, .com, .mpi, .omp, .shmem, .pthread, .cuda, .opencl, .openacc, .memory, .io, .kokkos, .hip,
    .lib, .unknown}

theorem mem_groupTypes {type : ScoreType} : type ∈ groupTypes ↔ type.IsGroup := by
  cases type <;> decide

inductive FilterState where
  | unspecified | yes | no | possible
deriving DecidableEq

/-- The second column of `SCOREP_SCORE_TYPES`. -/
def getFilterState : ScoreType → FilterState
  | .flt => .yes
  | .all | .usr | .com | .cuda | .kokkos | .hip | .lib => .possible
  | .scorep | .mpi | .omp | .shmem | .pthread | .opencl | .openacc | .memory | .io | .unknown => .no

structure Region where
  name : String
  paradigm : String
  descr : String
  /-- The attribute `Score-P::ProgramArguments::numberOfArguments`. -/
  numberOfArguments : Option ℤ

/-- A node of the call tree with its subtree. The visits and the hits are those of each process, without
the ones of the children. -/
inductive Cnode (regions processes : ℕ) where
  | node (callee : Fin regions) (visits hits : Fin processes → ℕ) (numParameters strParameters : ℕ)
      (children : List (Cnode regions processes))

def Cnode.callee {regions processes : ℕ} : Cnode regions processes → Fin regions
  | .node callee _ _ _ _ _ => callee

structure Profile where
  numberOfRegions : ℕ
  numberOfProcesses : ℕ
  regions : Fin numberOfRegions → Region
  roots : List (Cnode numberOfRegions numberOfProcesses)
  /-- There is a metric `hits`. -/
  hasHits : Bool

/-- `name.substr( 0, length ) == prefix` with the length of the prefix. -/
def startsWith (name start : String) : Bool :=
  name.toList.take start.toList.length = start.toList

def hasPrefixThenUpper (str start : String) : Bool :=
  startsWith str start && ((str.toList[start.toList.length]?).any Char.isUpper)

namespace Profile

variable (profile : Profile)

def getRegionName (region : Fin profile.numberOfRegions) : String :=
  (profile.regions region).name

def getRegionParadigm (region : Fin profile.numberOfRegions) : String :=
  if (profile.regions region).paradigm = "unknown" then (profile.regions region).descr
  else (profile.regions region).paradigm

/-! ## Special regions -/

def isDynamicRegion (region : Fin profile.numberOfRegions) : Bool :=
  profile.getRegionParadigm region = "user" && profile.getRegionName region ≠ "MEASUREMENT OFF" &&
    (startsWith (profile.getRegionName region) "instance=" ||
      startsWith (profile.getRegionName region) "iteration=")

def omitInTraceEnterLeaveEvents (region : Fin profile.numberOfRegions) : Bool :=
  profile.getRegionParadigm region = "measurement" ||
    (profile.getRegionParadigm region = "user" && profile.getRegionName region = "MEASUREMENT OFF") ||
      profile.isDynamicRegion region

def isRootRegion (region : Fin profile.numberOfRegions) : Bool :=
  profile.roots.any fun root => root.callee = region

/-- `m_num_arguments` is the largest number of arguments, or -1 when no region has one. -/
def getNumberOfProgramArguments : ℤ :=
  (List.finRange profile.numberOfRegions).foldl (fun numArguments region =>
      match (profile.regions region).numberOfArguments with
      | some n => max numArguments n
      | none => numArguments) (-1)

/-! ## Groups -/

def getDefinitionType (region : Fin profile.numberOfRegions) : ScoreType :=
  let paradigm := profile.getRegionParadigm region
  let name := profile.getRegionName region
  if paradigm = "mpi" then .mpi
  else if paradigm = "shmem" then .shmem
  else if paradigm = "openmp" then .omp
  else if paradigm = "pthread" then .pthread
  else if paradigm = "cuda" then .cuda
  else if paradigm = "opencl" then .opencl
  else if paradigm = "openacc" then .openacc
  else if paradigm = "memory" then .memory
  else if paradigm = "measurement" then .scorep
  else if startsWith paradigm "libwrap:" then .lib
  else if startsWith paradigm "kokkos:" then .kokkos
  else if paradigm = "hip" ∨ startsWith paradigm "hip:" then .hip
  else if paradigm = "io" then .io
  else if paradigm = "unknown" then
    -- the detection from before there were paradigms
    if startsWith name "MPI_" then .mpi
    else if startsWith name "shmem_" then .shmem
    else if startsWith name "!$omp " ∨ startsWith name "omp_" then .omp
    else if startsWith name "pthread_" then .pthread
    else if hasPrefixThenUpper name "cu" ∨ hasPrefixThenUpper name "cuda" then .cuda
    else if hasPrefixThenUpper name "cl" then .opencl
    else .usr
  else .usr

variable {regions processes : ℕ}

mutual

/-- A region of the user with a child on a path to another group than the user's is in the group `COM`. -/
def calculateCalltreeTypes (node : Cnode regions processes) (types : Fin regions → ScoreType) :
    Bool × (Fin regions → ScoreType) :=
  match node with
  | .node callee _ _ _ _ children =>
    let below := calculateChildTypes children types
    let type := below.2 callee
    (below.1 || decide (ScoreType.com.ctorIdx < type.ctorIdx),
      if below.1 && decide (type = .usr) then Function.update below.2 callee .com else below.2)

def calculateChildTypes (children : List (Cnode regions processes)) (types : Fin regions → ScoreType) :
    Bool × (Fin regions → ScoreType) :=
  match children with
  | [] => (false, types)
  | child :: children =>
    let first := calculateCalltreeTypes child types
    let others := calculateChildTypes children first.2
    (first.1 || others.1, others.2)

end

/-- `m_region_types` after the constructor. -/
def regionTypes : Fin profile.numberOfRegions → ScoreType :=
  (calculateChildTypes profile.roots profile.getDefinitionType).2

def getGroup (region : Fin profile.numberOfRegions) : ScoreType :=
  profile.regionTypes region

theorem isGroup_getDefinitionType (region : Fin profile.numberOfRegions) :
    (profile.getDefinitionType region).IsGroup := by
  rw [getDefinitionType]
  repeat' apply iteInduction <;> intro _
  all_goals decide

/-! ## Call-tree visitors -/

/-- What a visitor is called with; a root has no parent region, which is -1 in the source. -/
structure Visit (regions processes : ℕ) where
  process : Fin processes
  region : Fin regions
  parentRegion : Option (Fin regions)
  visits : ℕ
  hits : ℕ
  numParameters : ℕ
  strParameters : ℕ

variable {σ : Type}

def visit (hasHits : Bool) (process : Fin processes) (parentRegion : Option (Fin regions)) :
    Cnode regions processes → Visit regions processes
  | .node callee visits hits numParameters strParameters _ =>
    { process, region := callee, parentRegion, visits := visits process,
      hits := if hasHits then hits process else 0, numParameters, strParameters }

mutual

def iterateCalltreeRec (visitor : σ → Visit regions processes → σ) (hasHits : Bool)
    (process : Fin processes) (parentRegion : Option (Fin regions)) (node : Cnode regions processes)
    (s : σ) : σ :=
  match node with
  | .node callee visits hits numParameters strParameters children =>
    iterateChildren visitor hasHits process (some callee) children
      (visitor s (visit hasHits process parentRegion
        (.node callee visits hits numParameters strParameters children)))

def iterateChildren (visitor : σ → Visit regions processes → σ) (hasHits : Bool)
    (process : Fin processes) (parentRegion : Option (Fin regions))
    (children : List (Cnode regions processes)) (s : σ) : σ :=
  match children with
  | [] => s
  | child :: children =>
    iterateChildren visitor hasHits process parentRegion children
      (iterateCalltreeRec visitor hasHits process parentRegion child s)

end

/-- `iterateCalltree`: the roots in their order. -/
def iterateCalltree (visitor : σ → Visit profile.numberOfRegions profile.numberOfProcesses → σ)
    (process : Fin profile.numberOfProcesses) (s : σ) : σ :=
  iterateChildren visitor profile.hasHits process none profile.roots s

mutual

def subtreeVisits (hasHits : Bool) (process : Fin processes) (parentRegion : Option (Fin regions))
    (node : Cnode regions processes) : List (Visit regions processes) :=
  match node with
  | .node callee visits hits numParameters strParameters children =>
    visit hasHits process parentRegion (.node callee visits hits numParameters strParameters children) ::
      childVisits hasHits process (some callee) children

def childVisits (hasHits : Bool) (process : Fin processes) (parentRegion : Option (Fin regions))
    (children : List (Cnode regions processes)) : List (Visit regions processes) :=
  match children with
  | [] => []
  | child :: children =>
    subtreeVisits hasHits process parentRegion child ++ childVisits hasHits process parentRegion children

end

def visitsOf (process : Fin profile.numberOfProcesses) :
    List (Visit profile.numberOfRegions profile.numberOfProcesses) :=
  childVisits profile.hasHits process none profile.roots

section Fold

variable (visitor : σ → Visit regions processes → σ) (hasHits : Bool) (process : Fin processes)

mutual

theorem iterateCalltreeRec_eq_foldl (parentRegion : Option (Fin regions)) (node : Cnode regions processes)
    (s : σ) : iterateCalltreeRec visitor hasHits process parentRegion node s =
      (subtreeVisits hasHits process parentRegion node).foldl visitor s := by
  cases node with
  | node callee visits hits numParameters strParameters children =>
    rw [iterateCalltreeRec, subtreeVisits, List.foldl_cons, iterateChildren_eq_foldl]

theorem iterateChildren_eq_foldl (parentRegion : Option (Fin regions))
    (children : List (Cnode regions processes)) (s : σ) :
    iterateChildren visitor hasHits process parentRegion children s =
      (childVisits hasHits process parentRegion children).foldl visitor s := by
  cases children with
  | nil => rw [iterateChildren, childVisits, List.foldl_nil]
  | cons child children =>
    rw [iterateChildren, childVisits, List.foldl_append, iterateCalltreeRec_eq_foldl,
      iterateChildren_eq_foldl]

end

end Fold

theorem iterateCalltree_eq_foldl (visitor : σ → Visit profile.numberOfRegions profile.numberOfProcesses → σ)
    (process : Fin profile.numberOfProcesses) (s : σ) :
    profile.iterateCalltree visitor process s = (profile.visitsOf process).foldl visitor s :=
  iterateChildren_eq_foldl visitor profile.hasHits process none profile.roots s

end Profile

end ScoreP.Score
