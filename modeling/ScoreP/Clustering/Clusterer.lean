import ScoreP.Foundations.Minimum

/-!
# The clusterer

The definitions follow `add_iter_to_clustering` and what it calls. Clusters, clustered iterations,
equivalence lists and distances are named by numbers that stand for their addresses; a linked list is
the list of its members, and `none` is a NULL pointer that is dereferenced.

What the clusterer asks of call trees, metric values and floating point numbers is a parameter
(`Profile`). A distance is a number of some linear order, `DBL_MAX` is the value `⊤` above all of them.
Each distance entry also carries the two clusters its value was last calculated from.
-/

namespace ScoreP.Clustering

open Foundations Function

abbrev Metrics (n : ℕ) := Fin n → UInt64

/-- Call trees and numbers. `W` is the state of the call trees, `R` a root node in them. -/
structure Profile (W R F D : Type) (n : ℕ) where
  /-- `init_cluster`: sorts the subtree and gives its hash and metrics. -/
  initCluster : W → R → W × UInt32 × Metrics n
  /-- Whether `compare_call_trees` gives 0 for two roots with these iteration counts. -/
  compareCallTrees : W → R → R → ℕ → ℕ → Bool
  /-- `scorep_profile_remove_node` of the second root and `scorep_profile_merge_subtree`. -/
  mergeSubtree : W → R → R → W
  newReference : F
  updateReferenceValues : F → Metrics n → F
  calculateClusterDistance : Metrics n → ℕ → Metrics n → ℕ → F → D

/-! ## Data -/

/-- `scorep_cluster_distance_t`, with the clusters it was calculated from. -/
structure Distance (D : Type) where
  name : ℕ
  value : WithTop D
  source : ℕ
  target : ℕ

structure ClusteredIteration where
  cluster : ℕ
  iterationId : ℕ
  rank : ℕ
  parent : Option ℕ

structure Cluster (R D : Type) (n : ℕ) where
  root : R
  clusterId : ℕ
  hash : UInt32
  d : List (Distance D)
  minVal : WithTop D
  minPos : Option ℕ
  iterationCount : ℕ
  metsSum : Metrics n
  metsAvg : Metrics n
  disjointSet : ℕ

structure EquivClusterList (D : Type) where
  name : ℕ
  clusters : List ℕ
  minVal : WithTop D
  minPos : Option ℕ

structure EquivClusterListSet (D : Type) where
  lists : List (EquivClusterList D)
  minVal : WithTop D
  minPos : Option ℕ

/-- The memory behind the pointers and the fields of `scorep_clusterer_t`. The clustered iterations are
numbered in the order of their list. -/
structure Clusterer (W R F D : Type) (n : ℕ) where
  trees : W
  cluster : ℕ → Cluster R D n
  iteration : ℕ → ClusteredIteration
  maxClCount : ℕ
  clCount : ℕ
  clItCount : ℕ
  eqClLtSet : EquivClusterListSet D
  refVals : F
  freeClusterDistances : List ℕ
  allocatedDistances : ℕ
  freeClusters : List ℕ
  allocatedClusters : ℕ
  allocatedLists : ℕ

variable {W R F D : Type} {n : ℕ}

/-- `memory` is what stands where clusters will be. -/
def newClusterer (P : Profile W R F D n) (trees : W) (memory : ℕ → Cluster R D n) (maxClusterCount : ℕ) :
    Clusterer W R F D n where
  trees := trees
  cluster := memory
  iteration := fun _ => ⟨0, 0, 0, none⟩
  maxClCount := maxClusterCount
  clCount := 0
  clItCount := 0
  eqClLtSet := ⟨[], ⊤, none⟩
  refVals := P.newReference
  freeClusterDistances := []
  allocatedDistances := 0
  freeClusters := []
  allocatedClusters := 0
  allocatedLists := 0

/-! ## Disjoint sets -/

/-- The recursion of `disjoint_set_get_root`; `none` when the rounds do not suffice. -/
def disjointSetGetRoot : ℕ → (ℕ → ClusteredIteration) → ℕ → Option (ℕ × (ℕ → ClusteredIteration))
  | 0, _, _ => none
  | fuel + 1, iteration, i =>
    match (iteration i).parent with
    | none => some (i, iteration)
    | some p =>
      match disjointSetGetRoot fuel iteration p with
      | none => none
      | some (r, iteration) =>
        some (r, update iteration i { iteration i with parent := some r })

/-- The root `b` points to the root `a`, which belongs to the cluster. -/
def linkRoots (iteration : ℕ → ClusteredIteration) (a b cluster : ℕ) : ℕ → ClusteredIteration :=
  let iteration := update iteration b { iteration b with parent := some a }
  update iteration a { iteration a with cluster := cluster }

/-- What `disjoint_set_merge` does with the two roots; also gives the root of both. -/
def disjointSetLink (iteration : ℕ → ClusteredIteration) (a b cluster : ℕ) : ℕ × (ℕ → ClusteredIteration) :=
  if (iteration a).rank < (iteration b).rank then (b, linkRoots iteration b a cluster)
  else if (iteration a).rank = (iteration b).rank then
    (a, linkRoots (update iteration a
      { iteration a with rank := (iteration a).rank + 1 }) a b cluster)
  else (a, linkRoots iteration a b cluster)

namespace Clusterer

variable (P : Profile W R F D n) (c : Clusterer W R F D n)

def setCluster (k : ℕ) (cluster : Cluster R D n) : Clusterer W R F D n :=
  { c with cluster := update c.cluster k cluster }

def newClusterDistance : ℕ × Clusterer W R F D n :=
  match c.freeClusterDistances with
  | [] => (c.allocatedDistances, { c with allocatedDistances := c.allocatedDistances + 1 })
  | name :: free => (name, { c with freeClusterDistances := free })

def deleteClusterDistance (name : ℕ) : Clusterer W R F D n :=
  { c with freeClusterDistances := name :: c.freeClusterDistances }

def takeCluster : ℕ × Clusterer W R F D n :=
  match c.freeClusters with
  | [] => (c.allocatedClusters, { c with allocatedClusters := c.allocatedClusters + 1 })
  | k :: free => (k, { c with freeClusters := free })

/-- `new_cluster` and `init_cluster` for the next clustered iteration. -/
def newCluster (root : R) : ℕ × Clusterer W R F D n :=
  let (k, c) := c.takeCluster
  let (trees, hash, mets) := P.initCluster c.trees root
  let cluster : Cluster R D n := {
    root := root
    clusterId := c.clItCount + 1
    hash := hash
    d := []
    minVal := ⊤
    minPos := none
    iterationCount := 1
    metsSum := mets
    metsAvg := mets
    disjointSet := c.clItCount }
  let iteration : ClusteredIteration := ⟨k, c.clItCount + 1, 0, none⟩
  (k, { c with
    trees := trees
    cluster := update c.cluster k cluster
    iteration := update c.iteration c.clItCount iteration })

/-! ## Distances -/

/-- `calculate_cluster_distance` of two clusters. -/
def clusterDistance (a b : ℕ) : D :=
  P.calculateClusterDistance (c.cluster a).metsAvg (c.cluster a).iterationCount
    (c.cluster b).metsAvg (c.cluster b).iterationCount c.refVals

/-- The distances from `k` to the clusters after it. -/
def fillDistances (k : ℕ) : List ℕ → Clusterer W R F D n → List (Distance D) × Clusterer W R F D n
  | [], c => ([], c)
  | cl :: later, c =>
    let (name, c) := c.newClusterDistance
    let (entries, c') := fillDistances k later c
    (⟨name, (clusterDistance P c k cl : D), k, cl⟩ :: entries, c')

/-- The clusters that `next` leads to from `k` on. -/
def nextClusters (k : ℕ) (clusters : List ℕ) : List ℕ :=
  (clusters.dropWhile (· != k)).tail

def noteMinimum (lt k : ℕ) (minVal : WithTop D) [LinearOrder D] (set : EquivClusterListSet D) :
    EquivClusterListSet D :=
  match set.lists.find? fun list => list.name = lt with
  | none => set
  | some list =>
    if minVal < list.minVal then
      let lists := set.lists.map fun list =>
        if list.name = lt then { list with minVal := minVal, minPos := some k } else list
      if minVal < set.minVal then ⟨lists, minVal, some lt⟩ else { set with lists := lists }
    else set

variable [LinearOrder D]

def calculateDistancesForNewCluster (k lt : ℕ) (c : Clusterer W R F D n) : Clusterer W R F D n :=
  match c.eqClLtSet.lists.find? fun list => list.name = lt with
  | none => c
  | some list =>
    let (entries, c) := fillDistances P k (nextClusters k list.clusters) c
    let cluster := c.cluster k
    let least := scanMinimum Distance.value Distance.name entries (cluster.minVal, cluster.minPos)
    let c := c.setCluster k { cluster with
      d := if entries.isEmpty then cluster.d else entries
      minVal := least.1
      minPos := least.2 }
    { c with eqClLtSet := noteMinimum lt k least.1 c.eqClLtSet }

def calculateDistances (c : Clusterer W R F D n) : Clusterer W R F D n :=
  c.eqClLtSet.lists.foldl (fun c lt =>
    lt.clusters.foldl (fun c k => calculateDistancesForNewCluster P k lt.name c) c) c

/-! ## Inserting a cluster -/

/-- The second loop of `insert_cluster` and what follows it: `new` is the list to insert when no list
of this hash has an equal call tree. Also gives the name of the list that took the cluster. -/
def insertEqual (k : ℕ) (new : EquivClusterList D) :
    List (EquivClusterList D) → Option (ℕ × List (EquivClusterList D))
  | [] => some (new.name, [new])
  | list :: lists =>
    match list.clusters with
    | [] => none
    | head :: _ =>
      if (c.cluster head).hash = (c.cluster k).hash then
        if P.compareCallTrees c.trees (c.cluster head).root (c.cluster k).root
            (c.cluster head).iterationCount (c.cluster k).iterationCount then
          some (list.name, { list with clusters := k :: list.clusters } :: lists)
        else (insertEqual k new lists).map fun (lt, lists) => (lt, list :: lists)
      else some (new.name, new :: list :: lists)

def insertSorted (k : ℕ) (new : EquivClusterList D) :
    List (EquivClusterList D) → Option (ℕ × List (EquivClusterList D))
  | [] => insertEqual P c k new []
  | list :: lists =>
    match list.clusters with
    | [] => none
    | head :: _ =>
      if (c.cluster head).hash < (c.cluster k).hash then
        (insertSorted k new lists).map fun (lt, lists) => (lt, list :: lists)
      else insertEqual P c k new (list :: lists)

def insertCluster (k : ℕ) : Option (ℕ × Clusterer W R F D n) :=
  match insertSorted P c k ⟨c.allocatedLists, [k], ⊤, none⟩ c.eqClLtSet.lists with
  | none => none
  | some (lt, lists) =>
    some (lt, { c with
      eqClLtSet := { c.eqClLtSet with lists := lists }
      allocatedLists := c.allocatedLists + 1 })

/-- The part of `add_iter_to_clustering` before a merge. -/
def insertIteration (path : R) : Option (Clusterer W R F D n) :=
  let (k, c) := c.newCluster P path
  match insertCluster P c k with
  | none => none
  | some (lt, c) =>
    let c := { c with
      refVals := P.updateReferenceValues c.refVals (c.cluster k).metsAvg
      clItCount := c.clItCount + 1 }
    let c :=
      if c.maxClCount < c.clItCount then
        if c.clItCount = c.maxClCount + 1 then calculateDistances P c
        else calculateDistancesForNewCluster P k lt c
      else c
    some { c with clCount := c.clCount + 1 }

end Clusterer

/-! ## Changing the distances of a cluster -/

namespace Cluster

variable [LinearOrder D] (cl : Cluster R D n)

def rescan : Cluster R D n :=
  let least := scanMinimum Distance.value Distance.name cl.d (⊤, cl.minPos)
  { cl with minVal := least.1, minPos := least.2 }

def updateDistance (pos : ℕ) (value : D) (source target : ℕ) : Option (Cluster R D n) :=
  match cl.d[pos]? with
  | none => none
  | some e =>
    let cl' := { cl with d := cl.d.set pos ⟨e.name, value, source, target⟩ }
    some (if (value : WithTop D) < cl.minVal then
        { cl' with minVal := value, minPos := some e.name }
      else if cl.minPos = some e.name then cl'.rescan
      else cl')

def dropDistance (pos : ℕ) : Option (ℕ × Cluster R D n) :=
  match cl.d[pos]? with
  | none => none
  | some e =>
    let cl' :=
      if cl.minPos = some e.name then
        rescan { cl with d := cl.d.set pos { e with value := ⊤ } }
      else cl
    some (e.name, { cl' with d := cl'.d.eraseIdx pos })

end Cluster

namespace Clusterer

variable (P : Profile W R F D n) (c : Clusterer W R F D n)

def walkTo (shortest : ℕ) : List (Distance D) → List ℕ → Option (ℕ × ℕ)
  | e :: entries, cl :: later =>
    if e.name = shortest then some (cl, 1)
    else (walkTo shortest entries later).map fun (b, diff) => (b, diff + 1)
  | _, _ => none

/-- The metric values of `cl_b` are added to those of `cl_a`. -/
def addMetrics (clA clB : Cluster R D n) : Cluster R D n :=
  let count := clA.iterationCount + clB.iterationCount
  let sum : Metrics n := fun mr => clA.metsSum mr + clB.metsSum mr
  { clA with
    iterationCount := count
    metsSum := sum
    metsAvg := fun mr => sum mr / UInt64.ofNat count }

/-- `cl_b` is added to `cl_a`: metric values, call trees and disjoint sets. -/
def addUp (a b : ℕ) : Option (Clusterer W R F D n) :=
  let clA := addMetrics (c.cluster a) (c.cluster b)
  match disjointSetGetRoot (c.clItCount + 1) c.iteration clA.disjointSet with
  | none => none
  | some (rootA, iteration) =>
    match disjointSetGetRoot (c.clItCount + 1) iteration (c.cluster b).disjointSet with
    | none => none
    | some (rootB, iteration) =>
      let (root, iteration) := disjointSetLink iteration rootA rootB a
      some { c with
        trees := P.mergeSubtree c.trees clA.root (c.cluster b).root
        cluster := update c.cluster a { clA with disjointSet := root }
        iteration := iteration }

variable [LinearOrder D]

/-- The loop over the clusters before `cl_a`, from the one that is counted `ctrCl` on. -/
def updateBefore (a ctrA ctrDiff : ℕ) : List ℕ → ℕ → Clusterer W R F D n → Option (Clusterer W R F D n)
  | [], _, c => some c
  | cl :: before, ctrCl, c =>
    match (c.cluster cl).updateDistance (ctrA - ctrCl) (clusterDistance P c cl a) cl a with
    | none => none
    | some updated =>
      match updated.dropDistance (ctrA - ctrCl + ctrDiff) with
      | none => none
      | some (name, dropped) =>
        updateBefore a ctrA ctrDiff before (ctrCl + 1)
          ((c.setCluster cl dropped).deleteClusterDistance name)

/-- The loop over the clusters from `cl_a` to the one before `cl_b`. -/
def dropBetween (ctrDiff : ℕ) : List ℕ → ℕ → Clusterer W R F D n → Option (Clusterer W R F D n)
  | [], _, c => some c
  | cl :: between, ctrCl, c =>
    match (c.cluster cl).dropDistance (ctrDiff - ctrCl) with
    | none => none
    | some (name, dropped) =>
      dropBetween ctrDiff between (ctrCl + 1) ((c.setCluster cl dropped).deleteClusterDistance name)

/-- `delete_cluster`, and `cl_b` is unlinked from its list. -/
def deleteCluster (lt b : ℕ) : Clusterer W R F D n :=
  let free := (c.cluster b).d.foldl (fun free e => e.name :: free) c.freeClusterDistances
  { c with
    cluster := update c.cluster b { c.cluster b with d := [] }
    freeClusterDistances := free
    freeClusters := b :: c.freeClusters
    eqClLtSet := { c.eqClLtSet with
      lists := c.eqClLtSet.lists.map fun list =>
        if list.name = lt then { list with clusters := list.clusters.erase b } else list } }

/-- The distances of `cl_a` to the clusters after it. -/
def recalculate (a : ℕ) : List (Distance D) → List ℕ → Option (List (Distance D))
  | [], _ => some []
  | _ :: _, [] => none
  | e :: entries, cl :: later =>
    (recalculate a entries later).map fun entries =>
      ⟨e.name, (clusterDistance P c a cl : D), a, cl⟩ :: entries

def refreshDistances (a : ℕ) (later : List ℕ) : Option (Clusterer W R F D n) :=
  match recalculate P c a (c.cluster a).d later with
  | none => none
  | some entries => some (c.setCluster a { c.cluster a with d := entries }.rescan)

def refreshMinima (lt : ℕ) : Clusterer W R F D n :=
  let lists := c.eqClLtSet.lists.map fun list =>
    if list.name = lt then
      let least := scanMinimum (fun k => (c.cluster k).minVal) id list.clusters (⊤, list.minPos)
      { list with minVal := least.1, minPos := least.2 }
    else list
  let least := scanMinimum EquivClusterList.minVal EquivClusterList.name lists (⊤, c.eqClLtSet.minPos)
  { c with eqClLtSet := ⟨lists, least.1, least.2⟩ }

/-- Merges `cl_b`, which stands `ctrDiff` places after `cl_a` in its list, into `cl_a`. -/
def mergeClusters (lt a b ctrDiff : ℕ) (clusters : List ℕ) : Option (Clusterer W R F D n) :=
  let before := clusters.takeWhile (· != a)
  let between := (clusters.dropWhile (· != a)).takeWhile (· != b)
  match addUp P c a b with
  | none => none
  | some c =>
    match updateBefore P a before.length ctrDiff before 1 c with
    | none => none
    | some c =>
      match dropBetween ctrDiff between 1 c with
      | none => none
      | some c =>
        let c := c.deleteCluster lt b
        match refreshDistances P c a (nextClusters a (clusters.erase b)) with
        | none => none
        | some c =>
          let c := c.refreshMinima lt
          some { c with clCount := c.clCount - 1 }

def mergeClosest : Option (ℕ × ℕ × Clusterer W R F D n) :=
  match c.eqClLtSet.lists.find? fun list => some list.name = c.eqClLtSet.minPos with
  | none => none
  | some list =>
    match list.minPos with
    | none => none
    | some a =>
      match (c.cluster a).minPos with
      | none => none
      | some shortest =>
        match walkTo shortest (c.cluster a).d (nextClusters a list.clusters) with
        | none => none
        | some (b, ctrDiff) =>
          (mergeClusters P c list.name a b ctrDiff list.clusters).map fun c => (a, b, c)

/-- The part of `add_iter_to_clustering` after the insertion. -/
def reduceClusters : Option (Clusterer W R F D n) :=
  if c.maxClCount < c.clCount then
    if c.eqClLtSet.minVal = ⊤ then some { c with maxClCount := c.maxClCount + 1 }
    else (mergeClosest P c).map fun (_, _, c) => c
  else some c

def addIterToClustering (path : R) : Option (Clusterer W R F D n) :=
  match insertIteration P c path with
  | none => none
  | some c => reduceClusters P c

def addIterations : List R → Clusterer W R F D n → Option (Clusterer W R F D n)
  | [], c => some c
  | path :: paths, c =>
    match addIterToClustering P c path with
    | none => none
    | some c => addIterations paths c

end Clusterer

end ScoreP.Clustering
