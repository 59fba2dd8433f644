import ScoreP.Clustering.HashOrder
import ScoreP.Profile.CallTreeHash

/-!
# Matching iterations

The clusterer with the call trees of `ScoreP.Profile`: `init_cluster` sorts and hashes the tree of an
iteration, `compare_call_trees` looks at the hashed trees. Iterations with matching call trees have equal
hashes, so `insert_cluster` finds a list for an iteration when there is one that matches.
-/

namespace ScoreP.Clustering

open Clusterer Function
open ScoreP.Profile (CallTree ClusterMode Iteration NodeData NodeType Regions)

variable {F D E : Type} {n m : ℕ} [LinearOrder D]

def callTreeProfile (regions : Regions) (mode : ClusterMode) (sortSubtree : CallTree m E → CallTree m E)
    (P : Profile (ℕ → CallTree m E) ℕ F D n) : Profile (ℕ → CallTree m E) ℕ F D n :=
  { P with
    initCluster := fun trees root =>
      let tree := sortSubtree (trees root)
      (update trees root (tree.hashed regions mode), tree.subtreeHash regions mode,
        (P.initCluster trees root).2.2)
    compareCallTrees := fun trees a b itCntA itCntB =>
      CallTree.compareCallTrees regions mode (UInt32.ofNat itCntA) (UInt32.ofNat itCntB) (trees a)
        (trees b) == 0 }

variable (regions : Regions) (mode : ClusterMode) (sortSubtree : CallTree m E → CallTree m E)
  (P : Profile (ℕ → CallTree m E) ℕ F D n)

omit [LinearOrder D] in
theorem newCluster_callTrees (c : Clusterer (ℕ → CallTree m E) ℕ F D n) (path : ℕ) :
    let s := c.newCluster (callTreeProfile regions mode sortSubtree P) path
    let tree := sortSubtree (c.trees path)
    s.2.trees = update c.trees path (tree.hashed regions mode) ∧
      (s.2.cluster s.1).root = path ∧ (s.2.cluster s.1).iterationCount = 1 ∧
      s.2.hash s.1 = tree.subtreeHash regions mode := by
  have htrees : c.takeCluster.2.trees = c.trees := by
    unfold takeCluster
    split <;> rfl
  unfold newCluster Clusterer.hash
  dsimp only [callTreeProfile]
  rw [update_self, htrees]
  exact ⟨rfl, rfl, rfl, rfl⟩

section Example

def visited (type : NodeType) (handle value : ℕ) (count : UInt64) (fork : Bool) : NodeData 0 Unit :=
  { NodeData.create type ⟨handle, value⟩ 0 with count := count, isForkNode := fork }

def forking (value : ℕ) : Iteration 0 Unit where
  tree := .node (visited .parameterInteger 1 value 1 true) [.node (visited .regularRegion 7 0 2 false) [] []]
    [none, some (.node (visited .threadStart value 0 0 false)
      [.node (visited .regularRegion 7 0 3 false) [] []] [])]
  instanceNode := rfl
  count := rfl
  unvisited := fun x hx => by
    rw [List.mem_singleton.1 hx]
    exact ⟨rfl, rfl⟩

def exampleRegions : Regions where
  isMpi handle := handle == 7
  name _ := "MPI_Send"

def exampleProfile : Profile (ℕ → CallTree 0 Unit) ℕ Unit ℕ 0 where
  initCluster trees _ := (trees, 0, fun _ => 0)
  compareCallTrees _ _ _ _ _ := false
  mergeSubtree trees _ _ := trees
  newReference := ()
  updateReferenceValues _ _ := ()
  calculateClusterDistance _ _ _ _ _ := 0

def exampleMemory (_ : ℕ) : Cluster ℕ ℕ 0 :=
  ⟨0, 0, 0, [], ⊤, none, 0, fun _ => 0, fun _ => 0, 0⟩

end Example

end ScoreP.Clustering
