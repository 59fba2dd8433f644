import ScoreP.Foundations.Exchange
import ScoreP.Mpi.Coll

/-!
# The byte counts of all ranks

Source: `scorep_mpi_coll.inc.c`. `Intra` and `Inter` are the rules of MPI on the arguments of the ranks of
one operation: a block that one rank hands to another has the same type signature on both sides. Each
`…_exchange` gives what the ranks hand to each other, with the counts as its rows and columns;
`balanced_iff` is the balance of an operation.
-/

namespace ScoreP.Mpi.Coll

open Finset Foundations List

/-! ## Operations -/

def intraComm {n : ℕ} (topology : Fin n → Topology) (i : Fin n) : Comm :=
  ⟨false, i, n, 0, topology i⟩

/-- A rank of a group of `m` ranks, connected with a group of `n` ranks. -/
def interComm (m n : ℕ) (i : Fin m) : Comm :=
  ⟨true, i, m, n, .undefined 0 0⟩

def cartNeighbors : ℕ → List (Option ℕ × Option ℕ) → List (ℕ × ℕ)
  | _, [] => []
  | dim, neighborRanks :: dims =>
    neighborRanks.1.toList.map (·, 2 * dim) ++ neighborRanks.2.toList.map (·, 2 * dim + 1) ++
      cartNeighbors (dim + 1) dims

namespace Topology

def IsDefined : Topology → Prop
  | undefined _ _ => False
  | _ => True

def sources : Topology → List (ℕ × ℕ)
  | graph neighbors => neighbors.zipIdx
  | cart neighborRanks => cartNeighbors 0 neighborRanks
  | distGraph sources _ => sources.zipIdx
  | undefined _ _ => []

def destinations : Topology → List (ℕ × ℕ)
  | graph neighbors => neighbors.zipIdx
  | cart neighborRanks => cartNeighbors 0 neighborRanks
  | distGraph _ destinations => destinations.zipIdx
  | undefined _ _ => []

end Topology

def messages (neighbors : List (ℕ × ℕ)) (blockbytes : ℕ → ℤ) : List (ℕ × ℤ) :=
  neighbors.map fun neighbor => (neighbor.1, blockbytes neighbor.2)

structure Neighborly {n : ℕ} (topology : Fin n → Topology) (outgoing incoming : Fin n → ℕ → ℤ) :
    Prop where
  defined : ∀ i, (topology i).IsDefined
  destinations_lt : ∀ i, ∀ neighbor ∈ (topology i).destinations, neighbor.1 < n
  sources_lt : ∀ i, ∀ neighbor ∈ (topology i).sources, neighbor.1 < n
  matching : ∀ i j : Fin n, (amountsOf (messages (topology i).destinations (outgoing i)) j.val).Perm
    (amountsOf (messages (topology j).sources (incoming j)) i.val)

section

variable {Datatype : Type} (typeSize : Datatype → ℤ)

inductive Intra {n : ℕ} (topology : Fin n → Topology) : (Fin n → Call Datatype) → Prop
  | barrier : Intra topology fun _ => .barrier
  | gather (root : Fin n) (sendcount : Fin n → ℤ) (sendtype : Fin n → Datatype)
      (recvcount : Fin n → ℤ) (recvtype : Fin n → Datatype) (inplace : Fin n → Bool)
      (h : ∀ i, i ≠ root ∨ inplace i = false →
        sendcount i * typeSize (sendtype i) = recvcount root * typeSize (recvtype root)) :
      Intra topology fun i =>
        .gather (sendcount i) (sendtype i) (recvcount i) (recvtype i) (.rank root) (inplace i)
  | reduce (root : Fin n) (count : Fin n → ℤ) (datatype : Fin n → Datatype) (inplace : Fin n → Bool)
      (h : ∀ i, count i * typeSize (datatype i) = count root * typeSize (datatype root)) :
      Intra topology fun i => .reduce (count i) (datatype i) (.rank root) (inplace i)
  | gatherv (root : Fin n) (sendcount : Fin n → ℤ) (sendtype : Fin n → Datatype)
      (recvcounts : Fin n → ℕ → ℤ) (recvtype : Fin n → Datatype) (inplace : Fin n → Bool)
      (h : ∀ i, i ≠ root ∨ inplace i = false →
        sendcount i * typeSize (sendtype i) = recvcounts root i * typeSize (recvtype root)) :
      Intra topology fun i =>
        .gatherv (sendcount i) (sendtype i) (recvcounts i) (recvtype i) (.rank root) (inplace i)
  | bcast (root : Fin n) (count : Fin n → ℤ) (datatype : Fin n → Datatype)
      (h : ∀ i, count i * typeSize (datatype i) = count root * typeSize (datatype root)) :
      Intra topology fun i => .bcast (count i) (datatype i) (.rank root)
  | scatter (root : Fin n) (sendcount : Fin n → ℤ) (sendtype : Fin n → Datatype)
      (recvcount : Fin n → ℤ) (recvtype : Fin n → Datatype) (inplace : Fin n → Bool)
      (h : ∀ i, i ≠ root ∨ inplace i = false →
        recvcount i * typeSize (recvtype i) = sendcount root * typeSize (sendtype root)) :
      Intra topology fun i =>
        .scatter (sendcount i) (sendtype i) (recvcount i) (recvtype i) (.rank root) (inplace i)
  | scatterv (root : Fin n) (sendcounts : Fin n → ℕ → ℤ) (sendtype : Fin n → Datatype)
      (recvcount : Fin n → ℤ) (recvtype : Fin n → Datatype) (inplace : Fin n → Bool)
      (h : ∀ i, i ≠ root ∨ inplace i = false →
        recvcount i * typeSize (recvtype i) = sendcounts root i * typeSize (sendtype root)) :
      Intra topology fun i =>
        .scatterv (sendcounts i) (sendtype i) (recvcount i) (recvtype i) (.rank root) (inplace i)
  | alltoall (sendcount : Fin n → ℤ) (sendtype : Fin n → Datatype) (recvcount : Fin n → ℤ)
      (recvtype : Fin n → Datatype) (inplace : Fin n → Bool)
      (h : ∀ i j, (if inplace i then recvcount i * typeSize (recvtype i)
        else sendcount i * typeSize (sendtype i)) = recvcount j * typeSize (recvtype j)) :
      Intra topology fun i =>
        .alltoall (sendcount i) (sendtype i) (recvcount i) (recvtype i) (inplace i)
  | alltoallv (sendcounts : Fin n → ℕ → ℤ) (sendtype : Fin n → Datatype) (recvcounts : Fin n → ℕ → ℤ)
      (recvtype : Fin n → Datatype) (inplace : Fin n → Bool)
      (h : ∀ i j : Fin n, (if inplace i then recvcounts i j * typeSize (recvtype i)
        else sendcounts i j * typeSize (sendtype i)) = recvcounts j i * typeSize (recvtype j)) :
      Intra topology fun i =>
        .alltoallv (sendcounts i) (sendtype i) (recvcounts i) (recvtype i) (inplace i)
  | alltoallw (sendcounts : Fin n → ℕ → ℤ) (sendtypes : Fin n → ℕ → Datatype)
      (recvcounts : Fin n → ℕ → ℤ) (recvtypes : Fin n → ℕ → Datatype) (inplace : Fin n → Bool)
      (h : ∀ i j : Fin n, (if inplace i then recvcounts i j * typeSize (recvtypes i j)
        else sendcounts i j * typeSize (sendtypes i j)) = recvcounts j i * typeSize (recvtypes j i)) :
      Intra topology fun i =>
        .alltoallw (sendcounts i) (sendtypes i) (recvcounts i) (recvtypes i) (inplace i)
  | allgather (sendcount : Fin n → ℤ) (sendtype : Fin n → Datatype) (recvcount : Fin n → ℤ)
      (recvtype : Fin n → Datatype) (inplace : Fin n → Bool)
      (h : ∀ i j, (if inplace i then recvcount i * typeSize (recvtype i)
        else sendcount i * typeSize (sendtype i)) = recvcount j * typeSize (recvtype j)) :
      Intra topology fun i =>
        .allgather (sendcount i) (sendtype i) (recvcount i) (recvtype i) (inplace i)
  | allgatherv (sendcount : Fin n → ℤ) (sendtype : Fin n → Datatype) (recvcounts : Fin n → ℕ → ℤ)
      (recvtype : Fin n → Datatype) (inplace : Fin n → Bool)
      (h : ∀ i j : Fin n, (if inplace i then recvcounts i i * typeSize (recvtype i)
        else sendcount i * typeSize (sendtype i)) = recvcounts j i * typeSize (recvtype j)) :
      Intra topology fun i =>
        .allgatherv (sendcount i) (sendtype i) (recvcounts i) (recvtype i) (inplace i)
  | allreduce (count : Fin n → ℤ) (datatype : Fin n → Datatype) (inplace : Fin n → Bool)
      (h : ∀ i j, count i * typeSize (datatype i) = count j * typeSize (datatype j)) :
      Intra topology fun i => .allreduce (count i) (datatype i) (inplace i)
  | reduceScatterBlock (recvcount : Fin n → ℤ) (datatype : Fin n → Datatype) (inplace : Fin n → Bool)
      (h : ∀ i j, recvcount i * typeSize (datatype i) = recvcount j * typeSize (datatype j)) :
      Intra topology fun i => .reduceScatterBlock (recvcount i) (datatype i) (inplace i)
  | reduceScatter (recvcounts : Fin n → ℕ → ℤ) (datatype : Fin n → Datatype) (inplace : Fin n → Bool)
      (h : ∀ i j k : Fin n, recvcounts i k * typeSize (datatype i) = recvcounts j k * typeSize (datatype j)) :
      Intra topology fun i => .reduceScatter (recvcounts i) (datatype i) (inplace i)
  | scan (count : Fin n → ℤ) (datatype : Fin n → Datatype) (inplace : Fin n → Bool)
      (h : ∀ i j, count i * typeSize (datatype i) = count j * typeSize (datatype j)) :
      Intra topology fun i => .scan (count i) (datatype i) (inplace i)
  | exscan (count : Fin n → ℤ) (datatype : Fin n → Datatype)
      (h : ∀ i j, count i * typeSize (datatype i) = count j * typeSize (datatype j)) :
      Intra topology fun i => .exscan (count i) (datatype i)
  | neighborAlltoall (sendcount : Fin n → ℤ) (sendtype : Fin n → Datatype) (recvcount : Fin n → ℤ)
      (recvtype : Fin n → Datatype)
      (h : Neighborly topology (fun i _ => sendcount i * typeSize (sendtype i))
        (fun i _ => recvcount i * typeSize (recvtype i))) :
      Intra topology fun i =>
        .neighborAlltoall (sendcount i) (sendtype i) (recvcount i) (recvtype i)
  | neighborAlltoallv (sendcounts : Fin n → ℕ → ℤ) (sendtype : Fin n → Datatype)
      (recvcounts : Fin n → ℕ → ℤ) (recvtype : Fin n → Datatype)
      (h : Neighborly topology (fun i k => sendcounts i k * typeSize (sendtype i))
        (fun i k => recvcounts i k * typeSize (recvtype i))) :
      Intra topology fun i =>
        .neighborAlltoallv (sendcounts i) (sendtype i) (recvcounts i) (recvtype i)
  | neighborAlltoallw (sendcounts : Fin n → ℕ → ℤ) (sendtypes : Fin n → ℕ → Datatype)
      (recvcounts : Fin n → ℕ → ℤ) (recvtypes : Fin n → ℕ → Datatype)
      (h : Neighborly topology (fun i k => sendcounts i k * typeSize (sendtypes i k))
        (fun i k => recvcounts i k * typeSize (recvtypes i k))) :
      Intra topology fun i =>
        .neighborAlltoallw (sendcounts i) (sendtypes i) (recvcounts i) (recvtypes i)
  | neighborAllgather (sendcount : Fin n → ℤ) (sendtype : Fin n → Datatype) (recvcount : Fin n → ℤ)
      (recvtype : Fin n → Datatype)
      (h : Neighborly topology (fun i _ => sendcount i * typeSize (sendtype i))
        (fun i _ => recvcount i * typeSize (recvtype i))) :
      Intra topology fun i =>
        .neighborAllgather (sendcount i) (sendtype i) (recvcount i) (recvtype i)
  | neighborAllgatherv (sendcount : Fin n → ℤ) (sendtype : Fin n → Datatype)
      (recvcounts : Fin n → ℕ → ℤ) (recvtype : Fin n → Datatype)
      (h : Neighborly topology (fun i _ => sendcount i * typeSize (sendtype i))
        (fun i k => recvcounts i k * typeSize (recvtype i))) :
      Intra topology fun i =>
        .neighborAllgatherv (sendcount i) (sendtype i) (recvcounts i) (recvtype i)

/-- The argument `root` in the group of the root. -/
def ownRoot {m : ℕ} (root i : Fin m) : Root :=
  if i = root then .mpiRoot else .procNull

inductive Rooted {m n : ℕ} : (Fin m → Call Datatype) → (Fin n → Call Datatype) → Prop
  | gather (root : Fin m) (sendcount : Fin m → ℤ) (sendtype : Fin m → Datatype)
      (recvcount : Fin m → ℤ) (recvtype : Fin m → Datatype) (inplace : Fin m → Bool)
      (sendcount' : Fin n → ℤ) (sendtype' : Fin n → Datatype)
      (recvcount' : Fin n → ℤ) (recvtype' : Fin n → Datatype) (inplace' : Fin n → Bool)
      (h : ∀ j, sendcount' j * typeSize (sendtype' j) = recvcount root * typeSize (recvtype root)) :
      Rooted (fun i => .gather (sendcount i) (sendtype i) (recvcount i) (recvtype i) (ownRoot root i)
          (inplace i))
        (fun j => .gather (sendcount' j) (sendtype' j) (recvcount' j) (recvtype' j) (.rank root)
          (inplace' j))
  | reduce (root : Fin m) (count : Fin m → ℤ) (datatype : Fin m → Datatype) (inplace : Fin m → Bool)
      (count' : Fin n → ℤ) (datatype' : Fin n → Datatype) (inplace' : Fin n → Bool)
      (h : ∀ j, count' j * typeSize (datatype' j) = count root * typeSize (datatype root)) :
      Rooted (fun i => .reduce (count i) (datatype i) (ownRoot root i) (inplace i))
        (fun j => .reduce (count' j) (datatype' j) (.rank root) (inplace' j))
  | gatherv (root : Fin m) (sendcount : Fin m → ℤ) (sendtype : Fin m → Datatype)
      (recvcounts : Fin m → ℕ → ℤ) (recvtype : Fin m → Datatype) (inplace : Fin m → Bool)
      (sendcount' : Fin n → ℤ) (sendtype' : Fin n → Datatype)
      (recvcounts' : Fin n → ℕ → ℤ) (recvtype' : Fin n → Datatype) (inplace' : Fin n → Bool)
      (h : ∀ j : Fin n,
        sendcount' j * typeSize (sendtype' j) = recvcounts root j * typeSize (recvtype root)) :
      Rooted (fun i => .gatherv (sendcount i) (sendtype i) (recvcounts i) (recvtype i) (ownRoot root i)
          (inplace i))
        (fun j => .gatherv (sendcount' j) (sendtype' j) (recvcounts' j) (recvtype' j) (.rank root)
          (inplace' j))
  | bcast (root : Fin m) (count : Fin m → ℤ) (datatype : Fin m → Datatype)
      (count' : Fin n → ℤ) (datatype' : Fin n → Datatype)
      (h : ∀ j, count' j * typeSize (datatype' j) = count root * typeSize (datatype root)) :
      Rooted (fun i => .bcast (count i) (datatype i) (ownRoot root i))
        (fun j => .bcast (count' j) (datatype' j) (.rank root))
  | scatter (root : Fin m) (sendcount : Fin m → ℤ) (sendtype : Fin m → Datatype)
      (recvcount : Fin m → ℤ) (recvtype : Fin m → Datatype) (inplace : Fin m → Bool)
      (sendcount' : Fin n → ℤ) (sendtype' : Fin n → Datatype)
      (recvcount' : Fin n → ℤ) (recvtype' : Fin n → Datatype) (inplace' : Fin n → Bool)
      (h : ∀ j, recvcount' j * typeSize (recvtype' j) = sendcount root * typeSize (sendtype root)) :
      Rooted (fun i => .scatter (sendcount i) (sendtype i) (recvcount i) (recvtype i) (ownRoot root i)
          (inplace i))
        (fun j => .scatter (sendcount' j) (sendtype' j) (recvcount' j) (recvtype' j) (.rank root)
          (inplace' j))
  | scatterv (root : Fin m) (sendcounts : Fin m → ℕ → ℤ) (sendtype : Fin m → Datatype)
      (recvcount : Fin m → ℤ) (recvtype : Fin m → Datatype) (inplace : Fin m → Bool)
      (sendcounts' : Fin n → ℕ → ℤ) (sendtype' : Fin n → Datatype)
      (recvcount' : Fin n → ℤ) (recvtype' : Fin n → Datatype) (inplace' : Fin n → Bool)
      (h : ∀ j : Fin n,
        recvcount' j * typeSize (recvtype' j) = sendcounts root j * typeSize (sendtype root)) :
      Rooted (fun i => .scatterv (sendcounts i) (sendtype i) (recvcount i) (recvtype i) (ownRoot root i)
          (inplace i))
        (fun j => .scatterv (sendcounts' j) (sendtype' j) (recvcount' j) (recvtype' j) (.rank root)
          (inplace' j))

inductive Mutual {m n : ℕ} : (Fin m → Call Datatype) → (Fin n → Call Datatype) → Prop
  | barrier : Mutual (fun _ => .barrier) (fun _ => .barrier)
  | alltoall (sendcount : Fin m → ℤ) (sendtype : Fin m → Datatype)
      (recvcount : Fin m → ℤ) (recvtype : Fin m → Datatype)
      (sendcount' : Fin n → ℤ) (sendtype' : Fin n → Datatype)
      (recvcount' : Fin n → ℤ) (recvtype' : Fin n → Datatype)
      (h : ∀ i j, sendcount i * typeSize (sendtype i) = recvcount' j * typeSize (recvtype' j))
      (h' : ∀ j i, sendcount' j * typeSize (sendtype' j) = recvcount i * typeSize (recvtype i)) :
      Mutual (fun i => .alltoall (sendcount i) (sendtype i) (recvcount i) (recvtype i) false)
        (fun j => .alltoall (sendcount' j) (sendtype' j) (recvcount' j) (recvtype' j) false)
  | alltoallv (sendcounts : Fin m → ℕ → ℤ) (sendtype : Fin m → Datatype)
      (recvcounts : Fin m → ℕ → ℤ) (recvtype : Fin m → Datatype)
      (sendcounts' : Fin n → ℕ → ℤ) (sendtype' : Fin n → Datatype)
      (recvcounts' : Fin n → ℕ → ℤ) (recvtype' : Fin n → Datatype)
      (h : ∀ (i : Fin m) (j : Fin n),
        sendcounts i j * typeSize (sendtype i) = recvcounts' j i * typeSize (recvtype' j))
      (h' : ∀ (j : Fin n) (i : Fin m),
        sendcounts' j i * typeSize (sendtype' j) = recvcounts i j * typeSize (recvtype i)) :
      Mutual (fun i => .alltoallv (sendcounts i) (sendtype i) (recvcounts i) (recvtype i) false)
        (fun j => .alltoallv (sendcounts' j) (sendtype' j) (recvcounts' j) (recvtype' j) false)
  | alltoallw (sendcounts : Fin m → ℕ → ℤ) (sendtypes : Fin m → ℕ → Datatype)
      (recvcounts : Fin m → ℕ → ℤ) (recvtypes : Fin m → ℕ → Datatype)
      (sendcounts' : Fin n → ℕ → ℤ) (sendtypes' : Fin n → ℕ → Datatype)
      (recvcounts' : Fin n → ℕ → ℤ) (recvtypes' : Fin n → ℕ → Datatype)
      (h : ∀ (i : Fin m) (j : Fin n),
        sendcounts i j * typeSize (sendtypes i j) = recvcounts' j i * typeSize (recvtypes' j i))
      (h' : ∀ (j : Fin n) (i : Fin m),
        sendcounts' j i * typeSize (sendtypes' j i) = recvcounts i j * typeSize (recvtypes i j)) :
      Mutual (fun i => .alltoallw (sendcounts i) (sendtypes i) (recvcounts i) (recvtypes i) false)
        (fun j => .alltoallw (sendcounts' j) (sendtypes' j) (recvcounts' j) (recvtypes' j) false)
  | allgather (sendcount : Fin m → ℤ) (sendtype : Fin m → Datatype)
      (recvcount : Fin m → ℤ) (recvtype : Fin m → Datatype)
      (sendcount' : Fin n → ℤ) (sendtype' : Fin n → Datatype)
      (recvcount' : Fin n → ℤ) (recvtype' : Fin n → Datatype)
      (h : ∀ i j, sendcount i * typeSize (sendtype i) = recvcount' j * typeSize (recvtype' j))
      (h' : ∀ j i, sendcount' j * typeSize (sendtype' j) = recvcount i * typeSize (recvtype i)) :
      Mutual (fun i => .allgather (sendcount i) (sendtype i) (recvcount i) (recvtype i) false)
        (fun j => .allgather (sendcount' j) (sendtype' j) (recvcount' j) (recvtype' j) false)
  | allgatherv (sendcount : Fin m → ℤ) (sendtype : Fin m → Datatype)
      (recvcounts : Fin m → ℕ → ℤ) (recvtype : Fin m → Datatype)
      (sendcount' : Fin n → ℤ) (sendtype' : Fin n → Datatype)
      (recvcounts' : Fin n → ℕ → ℤ) (recvtype' : Fin n → Datatype)
      (h : ∀ (i : Fin m) (j : Fin n),
        sendcount i * typeSize (sendtype i) = recvcounts' j i * typeSize (recvtype' j))
      (h' : ∀ (j : Fin n) (i : Fin m),
        sendcount' j * typeSize (sendtype' j) = recvcounts i j * typeSize (recvtype i)) :
      Mutual (fun i => .allgatherv (sendcount i) (sendtype i) (recvcounts i) (recvtype i) false)
        (fun j => .allgatherv (sendcount' j) (sendtype' j) (recvcounts' j) (recvtype' j) false)
  | allreduce (count : Fin m → ℤ) (datatype : Fin m → Datatype)
      (count' : Fin n → ℤ) (datatype' : Fin n → Datatype)
      (h : ∀ i j, count i * typeSize (datatype i) = count' j * typeSize (datatype' j)) :
      Mutual (fun i => .allreduce (count i) (datatype i) false)
        (fun j => .allreduce (count' j) (datatype' j) false)
  /-- Each group scatters the vector of the other one among its ranks. -/
  | reduceScatterBlock (recvcount : Fin m → ℤ) (datatype : Fin m → Datatype)
      (recvcount' : Fin n → ℤ) (datatype' : Fin n → Datatype)
      (h : ∀ i k, recvcount i * typeSize (datatype i) = recvcount k * typeSize (datatype k))
      (h' : ∀ j k, recvcount' j * typeSize (datatype' j) = recvcount' k * typeSize (datatype' k))
      (hvector : ∀ i j,
        m * (recvcount i * typeSize (datatype i)) = n * (recvcount' j * typeSize (datatype' j))) :
      Mutual (fun i => .reduceScatterBlock (recvcount i) (datatype i) false)
        (fun j => .reduceScatterBlock (recvcount' j) (datatype' j) false)
  | reduceScatter (recvcounts : Fin m → ℕ → ℤ) (datatype : Fin m → Datatype) (inplace : Fin m → Bool)
      (recvcounts' : Fin n → ℕ → ℤ) (datatype' : Fin n → Datatype) (inplace' : Fin n → Bool)
      (h : ∀ i j k : Fin m, recvcounts i k * typeSize (datatype i) = recvcounts j k * typeSize (datatype j))
      (h' : ∀ i j k : Fin n,
        recvcounts' i k * typeSize (datatype' i) = recvcounts' j k * typeSize (datatype' j))
      (hvector : ∀ i j, (∑ k : Fin m, recvcounts i k * typeSize (datatype i)) =
        ∑ k : Fin n, recvcounts' j k * typeSize (datatype' j)) :
      Mutual (fun i => .reduceScatter (recvcounts i) (datatype i) (inplace i))
        (fun j => .reduceScatter (recvcounts' j) (datatype' j) (inplace' j))

/-! ## Loops -/

theorem addUp_succ (n : ℕ) (amount : ℕ → ℤ) : addUp (n + 1) amount = addUp n amount + amount n := by
  rw [addUp, range_succ, foldl_append]
  rfl

theorem addUp_eq (n : ℕ) (amount : ℕ → ℤ) : addUp n amount = ∑ i : Fin n, amount i := by
  induction n with
  | zero => rfl
  | succ n ih =>
    rw [addUp_succ, ih, Fin.sum_univ_castSucc]
    rfl

theorem cartIter_eq {α : Type} (code : α → ℕ → α) (dim : ℕ) (dims : List (Option ℕ × Option ℕ)) (a : α) :
    cartIter code dim dims a = (cartNeighbors dim dims).foldl (fun a neighbor => code a neighbor.2) a := by
  induction dims generalizing dim a with
  | nil => rfl
  | cons neighborRanks dims ih =>
    rcases neighborRanks with ⟨source, dest⟩
    rw [cartIter, ih, cartNeighbors, foldl_append, foldl_append]
    cases source <;> cases dest <;> rfl

/-! ## Operations with a root -/

section

variable {n : ℕ} (topology : Fin n → Topology) {sendcount : Fin n → ℤ} {sendtype : Fin n → Datatype}
  {recvcounts : Fin n → ℕ → ℤ} {recvtype : Fin n → Datatype} {inplace : Fin n → Bool}

theorem allToOne_eq (sendcount : ℤ) (sendtype : Datatype) (recvcount : ℤ) (recvtype : Datatype)
    (root : Root) (inplace : Bool) (comm : Comm) :
    allToOne typeSize sendcount sendtype recvcount recvtype root inplace comm =
      gatherv typeSize sendcount sendtype (fun _ => recvcount) recvtype root inplace comm := by
  simp [allToOne, gatherv, addUp_eq, sub_mul, mul_assoc]

theorem gatherv_exchange {root : Fin n} (h : ∀ i, i ≠ root ∨ inplace i = false →
      sendcount i * typeSize (sendtype i) = recvcounts root i * typeSize (recvtype root)) :
    Exchange (fun i j => if i = j ∧ inplace i = true then 0 else
        if j = root then recvcounts root i * typeSize (recvtype root) else 0)
      (fun i => (gatherv typeSize (sendcount i) (sendtype i) (recvcounts i) (recvtype i) (.rank root)
        (inplace i) (intraComm topology i)).sendbytes)
      (fun i => (gatherv typeSize (sendcount i) (sendtype i) (recvcounts i) (recvtype i) (.rank root)
        (inplace i) (intraComm topology i)).recvbytes) := by
  apply ((exchange_toOne root fun i : Fin n => recvcounts root i * typeSize (recvtype root)).keepOwn
    inplace).congr
  · intro i
    by_cases hi : i = root
    · subst hi
      cases inplace i <;> simp [gatherv, intraComm, isIntracomm]
    · have hsend := h i (.inl hi)
      have hrank : i.val ≠ root.val := fun heq => hi (Fin.ext heq)
      simp [gatherv, intraComm, isIntracomm, hi, hrank, hsend]
  · intro i
    by_cases hi : i = root
    · subst hi
      cases inplace i <;> simp [gatherv, intraComm, isIntracomm, addUp_eq]
    · have hrank : i.val ≠ root.val := fun heq => hi (Fin.ext heq)
      simp [gatherv, intraComm, isIntracomm, hi, hrank]

/-! ## Operations of all with all -/

theorem alltoallv_eq (sendcounts : ℕ → ℤ) (sendtype : Datatype) (recvcounts : ℕ → ℤ)
    (recvtype : Datatype) (inplace : Bool) (comm : Comm) :
    alltoallv typeSize sendcounts sendtype recvcounts recvtype inplace comm =
      alltoallw typeSize sendcounts (fun _ => sendtype) recvcounts (fun _ => recvtype) inplace comm :=
  rfl

theorem alltoall_eq (sendcount : ℤ) (sendtype : Datatype) (recvcount : ℤ) (recvtype : Datatype)
    (inplace : Bool) (comm : Comm) : alltoall typeSize sendcount sendtype recvcount recvtype inplace comm =
      alltoallw typeSize (fun _ => sendcount) (fun _ => sendtype) (fun _ => recvcount)
        (fun _ => recvtype) inplace comm := by
  cases inplace with
  | false => simp [alltoall, alltoallw, addUp_eq, mul_assoc]
  | true => simp [alltoall, alltoallw, addUp_eq, mul_assoc, sub_mul]

theorem allgatherv_eq (sendcount : ℤ) (sendtype : Datatype) (recvcounts : ℕ → ℤ)
    (recvtype : Datatype) (comm : Comm) :
    allgatherv typeSize sendcount sendtype recvcounts recvtype false comm =
      alltoallw typeSize (fun _ => sendcount) (fun _ => sendtype) recvcounts (fun _ => recvtype)
        false comm := by
  simp [allgatherv, alltoallw, addUp_eq]

theorem reduceScatterBlock_eq (recvcount : ℤ) (datatype : Datatype) (inplace : Bool) (i : Fin n) :
    reduceScatterBlock typeSize recvcount datatype inplace (intraComm topology i) =
      alltoall typeSize recvcount datatype recvcount datatype inplace (intraComm topology i) := by
  cases inplace <;> rfl

theorem alltoallw_exchange {sendcounts : Fin n → ℕ → ℤ} {sendtypes : Fin n → ℕ → Datatype}
    {recvtypes : Fin n → ℕ → Datatype}
    (h : ∀ i j : Fin n, (if inplace i then recvcounts i j * typeSize (recvtypes i j)
      else sendcounts i j * typeSize (sendtypes i j)) = recvcounts j i * typeSize (recvtypes j i)) :
    Exchange (fun i j => if i = j ∧ inplace i = true then 0 else recvcounts j i * typeSize (recvtypes j i))
      (fun i => (alltoallw typeSize (sendcounts i) (sendtypes i) (recvcounts i) (recvtypes i)
        (inplace i) (intraComm topology i)).sendbytes)
      (fun i => (alltoallw typeSize (sendcounts i) (sendtypes i) (recvcounts i) (recvtypes i)
        (inplace i) (intraComm topology i)).recvbytes) := by
  apply ((exchange_rows fun i j : Fin n => recvcounts j i * typeSize (recvtypes j i)).keepOwn inplace).congr
  · intro i
    rw [← sum_congr rfl fun j _ => h i j]
    cases inplace i <;> simp [alltoallw, intraComm, numPeers, isIntracomm, addUp_eq]
  · intro i
    cases inplace i <;> simp [alltoallw, intraComm, numPeers, isIntracomm, addUp_eq]

theorem allgatherv_exchange (h : ∀ i j : Fin n, (if inplace i then recvcounts i i * typeSize (recvtype i)
      else sendcount i * typeSize (sendtype i)) = recvcounts j i * typeSize (recvtype j)) :
    Exchange (fun i j => if i = j ∧ inplace i = true then 0 else recvcounts j i * typeSize (recvtype j))
      (fun i => (allgatherv typeSize (sendcount i) (sendtype i) (recvcounts i) (recvtype i)
        (inplace i) (intraComm topology i)).sendbytes)
      (fun i => (allgatherv typeSize (sendcount i) (sendtype i) (recvcounts i) (recvtype i)
        (inplace i) (intraComm topology i)).recvbytes) := by
  apply ((exchange_rows fun i j : Fin n => recvcounts j i * typeSize (recvtype j)).keepOwn inplace).congr
  · intro i
    rw [← sum_congr rfl fun j _ => h i j]
    cases inplace i <;> simp [allgatherv, intraComm, numPeers, isIntracomm, sub_mul]
  · intro i
    cases inplace i <;> simp [allgatherv, intraComm, numPeers, isIntracomm, addUp_eq]

theorem reduceScatter_exchange {datatype : Fin n → Datatype} (h : ∀ i j k : Fin n,
      recvcounts i k * typeSize (datatype i) = recvcounts j k * typeSize (datatype j)) :
    Exchange (fun i j => if i = j ∧ inplace i = true then 0 else recvcounts j j * typeSize (datatype j))
      (fun i => (reduceScatter typeSize (recvcounts i) (datatype i) (inplace i)
        (intraComm topology i)).sendbytes)
      (fun i => (reduceScatter typeSize (recvcounts i) (datatype i) (inplace i)
        (intraComm topology i)).recvbytes) := by
  apply ((exchange_rows fun _ j : Fin n => recvcounts j j * typeSize (datatype j)).keepOwn inplace).congr
  · intro i
    rw [sum_congr rfl fun j _ => h j i j, ← sum_mul]
    cases inplace i <;> simp [reduceScatter, intraComm, isIntracomm, addUp_eq, sub_mul]
  · intro i
    cases inplace i <;> simp [reduceScatter, intraComm, isIntracomm, sub_mul, mul_assoc]

/-! ## Scan -/

theorem sum_from (i : Fin n) (b : ℤ) : (∑ j : Fin n, if i ≤ j then b else 0) = (n - i) * b := by
  rw [← sum_filter, filter_le_eq_Ici, sum_const, Fin.card_Ici]
  simp [Nat.cast_sub i.isLt.le]

theorem sum_upto (j : Fin n) (b : ℤ) : (∑ i : Fin n, if i ≤ j then b else 0) = (j + 1) * b := by
  rw [← sum_filter, filter_ge_eq_Iic, sum_const, Fin.card_Iic]
  simp

theorem scan_exchange {count : Fin n → ℤ} {datatype : Fin n → Datatype}
    (h : ∀ i j, count i * typeSize (datatype i) = count j * typeSize (datatype j)) :
    Exchange (fun i j => if i = j ∧ inplace i = true then 0 else
        if i ≤ j then count i * typeSize (datatype i) else 0)
      (fun i => (scan typeSize (count i) (datatype i) (inplace i) (intraComm topology i)).sendbytes)
      (fun i => (scan typeSize (count i) (datatype i) (inplace i) (intraComm topology i)).recvbytes) := by
  apply ((exchange_rows fun i j : Fin n =>
    if i ≤ j then count i * typeSize (datatype i) else 0).keepOwn inplace).congr
  · intro i
    rw [sum_from]
    cases inplace i <;> simp [scan, intraComm, sub_mul]
  · intro i
    rw [sum_congr rfl fun j _ => by rw [h j i], sum_upto]
    cases inplace i <;> simp [scan, intraComm, add_mul]

/-! ## Neighborhoods -/

theorem foldl_bytes (out back : ℕ → ℤ) (neighbors : List (ℕ × ℕ)) (bytes : Bytes) :
    neighbors.foldl (fun bytes neighbor =>
        ⟨bytes.sendbytes + out neighbor.2, bytes.recvbytes + back neighbor.2⟩) bytes =
      (⟨bytes.sendbytes + ((messages neighbors out).map Prod.snd).sum,
        bytes.recvbytes + ((messages neighbors back).map Prod.snd).sum⟩ : Bytes) := by
  induction neighbors generalizing bytes with
  | nil => simp [messages]
  | cons neighbor neighbors ih =>
    rw [foldl_cons, ih]
    simp [messages, add_assoc]

theorem addUp_eq_sum (n : ℕ) (amount : ℕ → ℤ) : addUp n amount = ((List.range n).map amount).sum := by
  induction n with
  | zero => rfl
  | succ n ih => rw [addUp_succ, ih, List.range_succ, List.map_append, List.sum_append, List.map_singleton,
      List.sum_singleton]

theorem addUp_zipIdx (ranks : List ℕ) (amount : ℕ → ℤ) :
    addUp ranks.length amount = ((messages ranks.zipIdx amount).map Prod.snd).sum := by
  have hindices : (messages ranks.zipIdx amount).map Prod.snd = (ranks.zipIdx.map Prod.snd).map amount := by
    rw [messages, List.map_map, List.map_map]
    rfl
  rw [hindices, zipIdx_map_snd, ← range_eq_range', addUp_eq_sum]

theorem neighborAlltoallw_eq {comm : Comm} (hdefined : comm.topology.IsDefined) (sendcounts : ℕ → ℤ)
    (sendtypes : ℕ → Datatype) (recvcounts : ℕ → ℤ) (recvtypes : ℕ → Datatype) :
    neighborAlltoallw typeSize sendcounts sendtypes recvcounts recvtypes comm =
      ⟨((messages comm.topology.destinations fun k => sendcounts k * typeSize (sendtypes k)).map Prod.snd).sum,
        ((messages comm.topology.sources fun k =>
          recvcounts k * typeSize (recvtypes k)).map Prod.snd).sum⟩ := by
  rw [neighborAlltoallw]
  cases htopology : comm.topology with
  | graph neighbors => simp [topoNumNeighbors, Topology.destinations, Topology.sources, addUp_zipIdx]
  | cart neighborRanks =>
    simp [Topology.destinations, Topology.sources, cartIter_eq,
      foldl_bytes (fun k => sendcounts k * typeSize (sendtypes k))
        (fun k => recvcounts k * typeSize (recvtypes k))]
  | distGraph sources destinations =>
    simp [topoNumNeighbors, Topology.destinations, Topology.sources, addUp_zipIdx]
  | undefined indegree outdegree => simp [htopology, Topology.IsDefined] at hdefined

theorem neighborAlltoall_eq (sendcount : ℤ) (sendtype : Datatype) (recvcount : ℤ)
    (recvtype : Datatype) (comm : Comm) : neighborAlltoall typeSize sendcount sendtype recvcount recvtype comm =
      neighborAlltoallw typeSize (fun _ => sendcount) (fun _ => sendtype) (fun _ => recvcount)
        (fun _ => recvtype) comm := by
  rw [neighborAlltoall, neighborAlltoallw]
  cases comm.topology with
  | cart neighborRanks =>
    have hcount : ∀ (neighbors : List (ℕ × ℕ)) (count : ℕ),
        neighbors.foldl (fun nneighbors _ => nneighbors + 1) count = count + neighbors.length := by
      intro neighbors
      induction neighbors with
      | nil => simp
      | cons neighbor neighbors ih =>
        intro count
        rw [foldl_cons, ih, length_cons]
        omega
    have hconst : ∀ (neighbors : List (ℕ × ℕ)) (amount : ℤ),
        ((messages neighbors fun _ => amount).map Prod.snd).sum = neighbors.length * amount := by
      intro neighbors amount
      simp [messages, Function.comp_def]
    simp [cartIter_eq, foldl_bytes (fun _ => sendcount * typeSize sendtype)
      (fun _ => recvcount * typeSize recvtype), hcount, hconst, mul_assoc]
  | _ => simp [topoNumNeighbors, addUp_eq, mul_assoc]

theorem neighborAllgatherv_eq (sendcount : ℤ) (sendtype : Datatype) (recvcounts : ℕ → ℤ)
    (recvtype : Datatype) (comm : Comm) :
    neighborAllgatherv typeSize sendcount sendtype recvcounts recvtype comm =
      neighborAlltoallw typeSize (fun _ => sendcount) (fun _ => sendtype) recvcounts
        (fun _ => recvtype) comm := by
  rw [neighborAllgatherv, neighborAlltoallw]
  cases comm.topology with
  | cart neighborRanks => rfl
  | _ => simp [topoNumNeighbors, addUp_eq, mul_assoc]

theorem neighborAlltoallw_exchange {sendcounts : Fin n → ℕ → ℤ} {sendtypes : Fin n → ℕ → Datatype}
    {recvtypes : Fin n → ℕ → Datatype}
    (h : Neighborly topology (fun i k => sendcounts i k * typeSize (sendtypes i k))
      (fun i k => recvcounts i k * typeSize (recvtypes i k))) :
    Exchange (fun i j => (amountsOf (messages (topology i).destinations fun k =>
        sendcounts i k * typeSize (sendtypes i k)) j.val).sum)
      (fun i => (neighborAlltoallw typeSize (sendcounts i) (sendtypes i) (recvcounts i) (recvtypes i)
        (intraComm topology i)).sendbytes)
      (fun i => (neighborAlltoallw typeSize (sendcounts i) (sendtypes i) (recvcounts i) (recvtypes i)
        (intraComm topology i)).recvbytes) := by
  have hrank : ∀ (neighbors : List (ℕ × ℕ)) (blockbytes : ℕ → ℤ), (∀ neighbor ∈ neighbors, neighbor.1 < n) →
      ∀ message ∈ messages neighbors blockbytes, ∃ r : Fin n, r.val = message.1 := by
    intro neighbors blockbytes hlt message hmessage
    rcases mem_map.mp hmessage with ⟨neighbor, hneighbor, rfl⟩
    exact ⟨⟨neighbor.1, hlt neighbor hneighbor⟩, rfl⟩
  apply (exchange_of_messages Fin.val_injective Fin.val_injective _ _
    (fun i => hrank _ _ (h.destinations_lt i)) (fun j => hrank _ _ (h.sources_lt j)) h.matching).congr
  · intro i
    rw [neighborAlltoallw_eq typeSize (h.defined i)]
    rfl
  · intro j
    rw [neighborAlltoallw_eq typeSize (h.defined j)]
    rfl

end

/-! ## Inter-communicators -/

section

variable {m n : ℕ} {sendtype : Fin m → Datatype} {sendcount : Fin m → ℤ}
  {recvtype : Fin m → Datatype} {recvcounts : Fin m → ℕ → ℤ} {inplace : Fin m → Bool}
  {sendtype' : Fin n → Datatype} {sendcount' : Fin n → ℤ} {recvtype' : Fin n → Datatype}
  {recvcounts' : Fin n → ℕ → ℤ} {inplace' : Fin n → Bool} {root : Fin m}

theorem gatherv_exchange_inter (h : ∀ j : Fin n,
      sendcount' j * typeSize (sendtype' j) = recvcounts root j * typeSize (recvtype root)) :
    Exchange (fun j i => if i = root then sendcount' j * typeSize (sendtype' j) else 0)
      (fun j => (gatherv typeSize (sendcount' j) (sendtype' j) (recvcounts' j) (recvtype' j)
        (.rank root) (inplace' j) (interComm n m j)).sendbytes)
      (fun i => (gatherv typeSize (sendcount i) (sendtype i) (recvcounts i) (recvtype i)
        (ownRoot root i) (inplace i) (interComm m n i)).recvbytes) := by
  apply (exchange_toOne root fun j => sendcount' j * typeSize (sendtype' j)).congr
  · intro j
    simp [gatherv, interComm, isIntracomm]
  · intro i
    rw [sum_congr rfl fun j _ => h j]
    by_cases hi : i = root
    · simp [gatherv, interComm, isIntracomm, ownRoot, hi, addUp_eq]
    · simp [gatherv, interComm, isIntracomm, ownRoot, hi]

theorem gatherv_exchange_back : Exchange (fun _ _ => 0)
      (fun i => (gatherv typeSize (sendcount i) (sendtype i) (recvcounts i) (recvtype i)
        (ownRoot root i) (inplace i) (interComm m n i)).sendbytes)
      (fun j => (gatherv typeSize (sendcount' j) (sendtype' j) (recvcounts' j) (recvtype' j)
        (.rank root) (inplace' j) (interComm n m j)).recvbytes) := by
  constructor
  · intro i
    by_cases hi : i = root
    · simp [gatherv, interComm, isIntracomm, ownRoot, hi]
    · simp [gatherv, interComm, isIntracomm, ownRoot, hi]
  · intro j
    simp [gatherv, interComm, isIntracomm]

theorem alltoallw_exchange_inter {sendcounts : Fin m → ℕ → ℤ} {sendtypes : Fin m → ℕ → Datatype}
    {recvtypes : Fin m → ℕ → Datatype} {sendcounts' : Fin n → ℕ → ℤ}
    {sendtypes' : Fin n → ℕ → Datatype} {recvtypes' : Fin n → ℕ → Datatype} (h : ∀ (i : Fin m) (j : Fin n),
      sendcounts i j * typeSize (sendtypes i j) = recvcounts' j i * typeSize (recvtypes' j i)) :
    Exchange (fun (i : Fin m) (j : Fin n) => recvcounts' j i * typeSize (recvtypes' j i))
      (fun i : Fin m => (alltoallw typeSize (sendcounts i) (sendtypes i) (recvcounts i) (recvtypes i)
        false (interComm m n i)).sendbytes)
      (fun j : Fin n => (alltoallw typeSize (sendcounts' j) (sendtypes' j) (recvcounts' j) (recvtypes' j)
        false (interComm n m j)).recvbytes) := by
  apply (exchange_rows fun (i : Fin m) (j : Fin n) => recvcounts' j i * typeSize (recvtypes' j i)).congr
  · intro i
    rw [← sum_congr rfl fun j _ => h i j]
    simp [alltoallw, interComm, numPeers, isIntracomm, addUp_eq]
  · intro j
    simp [alltoallw, interComm, numPeers, isIntracomm, addUp_eq]

theorem reduceScatter_exchange_inter {datatype : Fin m → Datatype} {datatype' : Fin n → Datatype}
    (hn : 0 < n) (h' : ∀ i j k : Fin n,
      recvcounts' i k * typeSize (datatype' i) = recvcounts' j k * typeSize (datatype' j))
    (hvector : ∀ i j, (∑ k : Fin m, recvcounts i k * typeSize (datatype i)) =
      ∑ k : Fin n, recvcounts' j k * typeSize (datatype' j)) :
    Exchange (fun _ j => recvcounts' j j * typeSize (datatype' j))
      (fun i => (reduceScatter typeSize (recvcounts i) (datatype i) (inplace i) (interComm m n i)).sendbytes)
      (fun j => (reduceScatter typeSize (recvcounts' j) (datatype' j) (inplace' j)
        (interComm n m j)).recvbytes) := by
  apply (exchange_rows fun (_ : Fin m) (j : Fin n) => recvcounts' j j * typeSize (datatype' j)).congr
  · intro i
    rw [sum_congr rfl fun j _ => h' j ⟨0, hn⟩ j, ← hvector i ⟨0, hn⟩, ← sum_mul]
    simp [reduceScatter, interComm, isIntracomm, addUp_eq]
  · intro j
    simp [reduceScatter, interComm, isIntracomm, mul_assoc]

end

/-! ## Balance -/

def sent {n : ℕ} (comm : Fin n → Comm) (calls : Fin n → Call Datatype) (i : Fin n) : ℤ :=
  (bytes typeSize (comm i) (calls i)).sendbytes

def received {n : ℕ} (comm : Fin n → Comm) (calls : Fin n → Call Datatype) (i : Fin n) : ℤ :=
  (bytes typeSize (comm i) (calls i)).recvbytes

variable (Datatype) in
inductive Operation where
  | intra {n : ℕ} (topology : Fin n → Topology) (calls : Fin n → Call Datatype)
  | inter {m n : ℕ} (calls : Fin m → Call Datatype) (calls' : Fin n → Call Datatype)

def Transfers {m n : ℕ} (calls : Fin m → Call Datatype) (calls' : Fin n → Call Datatype) : Prop :=
  ∑ i, sent typeSize (interComm m n) calls i = ∑ j, received typeSize (interComm n m) calls' j

def scatteredBlock : Call Datatype → ℤ
  | .reduceScatterBlock recvcount datatype _ => recvcount * typeSize datatype
  | _ => 0

namespace Operation

def Conforming : Operation Datatype → Prop
  | intra topology calls => Intra typeSize topology calls
  | @inter _ m n calls calls' => 0 < m ∧ 0 < n ∧
    (Rooted typeSize calls calls' ∨ Rooted typeSize calls' calls ∨ Mutual typeSize calls calls')

def Balanced : Operation Datatype → Prop
  | intra topology calls => ∑ i, sent typeSize (intraComm topology) calls i =
      ∑ i, received typeSize (intraComm topology) calls i
  | @inter _ m n calls calls' =>
    (∑ i, sent typeSize (interComm m n) calls i + ∑ j, sent typeSize (interComm n m) calls' j =
      ∑ i, received typeSize (interComm m n) calls i + ∑ j, received typeSize (interComm n m) calls' j) ∧
    Transfers typeSize calls calls' ∧ Transfers typeSize calls' calls

def EvenBlocks : Operation Datatype → Prop
  | intra _ _ => True
  | @inter _ m n calls _ => m = n ∨ ∀ i, scatteredBlock typeSize (calls i) = 0

end Operation

theorem Intra.balanced {n : ℕ} {topology : Fin n → Topology} {calls : Fin n → Call Datatype}
    (h : Intra typeSize topology calls) : ∑ i, sent typeSize (intraComm topology) calls i =
      ∑ i, received typeSize (intraComm topology) calls i := by
  cases h with
  | barrier => rfl
  | gather _ _ _ _ _ _ h =>
    simp only [sent, received, bytes, Coll.gather, allToOne_eq]
    exact (gatherv_exchange typeSize topology h).balanced
  | reduce _ _ _ _ h =>
    simp only [sent, received, bytes, Coll.reduce, allToOne_eq]
    exact (gatherv_exchange typeSize topology fun i _ => h i).balanced
  | gatherv _ _ _ _ _ _ h =>
    exact (gatherv_exchange typeSize topology h).balanced
  | bcast _ _ _ h =>
    simp only [sent, received, bytes, Coll.bcast, oneToAll, allToOne_eq]
    exact (gatherv_exchange typeSize topology fun i _ => h i).balanced.symm
  | scatter _ _ _ _ _ _ h =>
    simp only [sent, received, bytes, Coll.scatter, oneToAll, allToOne_eq]
    exact (gatherv_exchange typeSize topology h).balanced.symm
  | scatterv _ _ _ _ _ _ h =>
    exact (gatherv_exchange typeSize topology h).balanced.symm
  | alltoall _ _ _ _ _ h =>
    simp only [sent, received, bytes, alltoall_eq]
    exact (alltoallw_exchange typeSize topology h).balanced
  | alltoallv _ _ _ _ _ h =>
    exact (alltoallw_exchange typeSize topology h).balanced
  | alltoallw _ _ _ _ _ h =>
    exact (alltoallw_exchange typeSize topology h).balanced
  | allgather _ _ _ _ _ h =>
    simp only [sent, received, bytes, Coll.allgather, alltoall_eq]
    exact (alltoallw_exchange typeSize topology h).balanced
  | allgatherv _ _ _ _ _ h =>
    exact (allgatherv_exchange typeSize topology h).balanced
  | allreduce _ _ _ h =>
    simp only [sent, received, bytes, Coll.allreduce, alltoall_eq]
    exact (alltoallw_exchange typeSize topology fun i j => (ite_self _).trans (h i j)).balanced
  | reduceScatterBlock _ _ _ h =>
    simp only [sent, received, bytes, reduceScatterBlock_eq, alltoall_eq]
    exact (alltoallw_exchange typeSize topology fun i j => (ite_self _).trans (h i j)).balanced
  | reduceScatter _ _ _ h =>
    exact (reduceScatter_exchange typeSize topology h).balanced
  | scan _ _ _ h => exact (scan_exchange typeSize topology h).balanced
  | exscan _ _ h =>
    simp only [sent, received, bytes, Coll.exscan]
    exact (scan_exchange typeSize topology h).balanced
  | neighborAlltoall _ _ _ _ h =>
    simp only [sent, received, bytes, neighborAlltoall_eq]
    exact (neighborAlltoallw_exchange typeSize topology h).balanced
  | neighborAlltoallv _ _ _ _ h =>
    exact (neighborAlltoallw_exchange typeSize topology h).balanced
  | neighborAlltoallw _ _ _ _ h =>
    exact (neighborAlltoallw_exchange typeSize topology h).balanced
  | neighborAllgather _ _ _ _ h =>
    unfold sent received
    simp only [bytes]
    unfold Coll.neighborAllgather
    simp only [neighborAlltoall_eq]
    exact (neighborAlltoallw_exchange typeSize topology h).balanced
  | neighborAllgatherv _ _ _ _ h =>
    simp only [sent, received, bytes, neighborAllgatherv_eq]
    exact (neighborAlltoallw_exchange typeSize topology h).balanced

theorem Rooted.transfers {m n : ℕ} {calls : Fin m → Call Datatype} {calls' : Fin n → Call Datatype}
    (h : Rooted typeSize calls calls') : Transfers typeSize calls calls' ∧ Transfers typeSize calls' calls := by
  cases h with
  | gather _ _ _ _ _ _ _ _ _ _ _ h =>
    simp only [Transfers, sent, received, bytes, Coll.gather, allToOne_eq]
    exact ⟨(gatherv_exchange_back typeSize).balanced, (gatherv_exchange_inter typeSize h).balanced⟩
  | reduce _ _ _ _ _ _ _ h =>
    simp only [Transfers, sent, received, bytes, Coll.reduce, allToOne_eq]
    exact ⟨(gatherv_exchange_back typeSize).balanced, (gatherv_exchange_inter typeSize h).balanced⟩
  | gatherv _ _ _ _ _ _ _ _ _ _ _ h =>
    exact ⟨(gatherv_exchange_back typeSize).balanced, (gatherv_exchange_inter typeSize h).balanced⟩
  | bcast _ _ _ _ _ h =>
    simp only [Transfers, sent, received, bytes, Coll.bcast, oneToAll, Bytes.swap, allToOne_eq]
    exact ⟨(gatherv_exchange_inter typeSize h).balanced.symm, (gatherv_exchange_back typeSize).balanced.symm⟩
  | scatter _ _ _ _ _ _ _ _ _ _ _ h =>
    simp only [Transfers, sent, received, bytes, Coll.scatter, oneToAll, Bytes.swap, allToOne_eq]
    exact ⟨(gatherv_exchange_inter typeSize h).balanced.symm, (gatherv_exchange_back typeSize).balanced.symm⟩
  | scatterv _ _ _ _ _ _ _ _ _ _ _ h =>
    simp only [Transfers, sent, received, bytes, Coll.scatterv, Bytes.swap]
    exact ⟨(gatherv_exchange_inter typeSize h).balanced.symm, (gatherv_exchange_back typeSize).balanced.symm⟩

theorem sum_blocks {m : ℕ} {recvcount : Fin m → ℤ} {datatype : Fin m → Datatype} (k : Fin m)
    (h : ∀ i k, recvcount i * typeSize (datatype i) = recvcount k * typeSize (datatype k)) :
    ∑ i, m * recvcount i * typeSize (datatype i) = m * (m * (recvcount k * typeSize (datatype k))) := by
  rw [sum_congr rfl fun i _ => by rw [mul_assoc, h i k]]
  simp

theorem reduceScatterBlock_transfers_iff {m n : ℕ} {recvcount : Fin m → ℤ} {datatype : Fin m → Datatype}
    {recvcount' : Fin n → ℤ} {datatype' : Fin n → Datatype} (i : Fin m) (j : Fin n)
    (h : ∀ i k, recvcount i * typeSize (datatype i) = recvcount k * typeSize (datatype k))
    (h' : ∀ j k, recvcount' j * typeSize (datatype' j) = recvcount' k * typeSize (datatype' k))
    (hvector : m * (recvcount i * typeSize (datatype i)) = n * (recvcount' j * typeSize (datatype' j))) :
    Transfers typeSize (fun i => .reduceScatterBlock (recvcount i) (datatype i) false)
        (fun j => .reduceScatterBlock (recvcount' j) (datatype' j) false) ↔
      m = n ∨ recvcount i * typeSize (datatype i) = 0 := by
  have hm : (m : ℤ) ≠ 0 := by
    have := i.pos
    omega
  have hsent := sum_blocks typeSize i h
  have hreceived := sum_blocks typeSize j h'
  change ∑ i, m * recvcount i * typeSize (datatype i) = ∑ j, n * recvcount' j * typeSize (datatype' j) ↔ _
  rw [hsent, hreceived, ← hvector]
  constructor
  · intro heq
    have hcancel : ((m : ℤ) - n) * (m * (recvcount i * typeSize (datatype i))) = 0 := by
      rw [sub_mul, heq, sub_self]
    rcases mul_eq_zero.mp hcancel with hsize | hblock
    · exact .inl (by omega)
    · exact .inr ((mul_eq_zero.mp hblock).resolve_left hm)
  · rintro (rfl | hblock)
    · rfl
    · rw [hblock]
      simp

theorem Mutual.transfers_iff {m n : ℕ} {calls : Fin m → Call Datatype} {calls' : Fin n → Call Datatype}
    (hm : 0 < m) (hn : 0 < n) (h : Mutual typeSize calls calls') :
    Transfers typeSize calls calls' ∧ Transfers typeSize calls' calls ↔
      m = n ∨ ∀ i, scatteredBlock typeSize (calls i) = 0 := by
  cases h with
  | barrier =>
    refine iff_of_true ?_ (.inr fun _ => rfl)
    simp [Transfers, sent, received, bytes, Coll.barrier]
  | alltoall _ _ _ _ _ _ _ _ h h' =>
    refine iff_of_true ?_ (.inr fun _ => rfl)
    simp only [Transfers, sent, received, bytes, alltoall_eq]
    exact ⟨(alltoallw_exchange_inter typeSize h).balanced, (alltoallw_exchange_inter typeSize h').balanced⟩
  | alltoallv _ _ _ _ _ _ _ _ h h' =>
    refine iff_of_true ?_ (.inr fun _ => rfl)
    simp only [Transfers, sent, received, bytes, alltoallv_eq]
    exact ⟨(alltoallw_exchange_inter typeSize h).balanced, (alltoallw_exchange_inter typeSize h').balanced⟩
  | alltoallw _ _ _ _ _ _ _ _ h h' =>
    refine iff_of_true ?_ (.inr fun _ => rfl)
    exact ⟨(alltoallw_exchange_inter typeSize h).balanced, (alltoallw_exchange_inter typeSize h').balanced⟩
  | allgather _ _ _ _ _ _ _ _ h h' =>
    refine iff_of_true ?_ (.inr fun _ => rfl)
    simp only [Transfers, sent, received, bytes, Coll.allgather, alltoall_eq]
    exact ⟨(alltoallw_exchange_inter typeSize h).balanced, (alltoallw_exchange_inter typeSize h').balanced⟩
  | allgatherv _ _ _ _ _ _ _ _ h h' =>
    refine iff_of_true ?_ (.inr fun _ => rfl)
    simp only [Transfers, sent, received, bytes, allgatherv_eq]
    exact ⟨(alltoallw_exchange_inter typeSize h).balanced, (alltoallw_exchange_inter typeSize h').balanced⟩
  | allreduce _ _ _ _ h =>
    refine iff_of_true ?_ (.inr fun _ => rfl)
    simp only [Transfers, sent, received, bytes, Coll.allreduce, alltoall_eq]
    exact ⟨(alltoallw_exchange_inter typeSize h).balanced,
      (alltoallw_exchange_inter typeSize fun j i => (h i j).symm).balanced⟩
  | reduceScatterBlock recvcount datatype recvcount' datatype' h h' hvector =>
    have hzero : (∀ i, recvcount i * typeSize (datatype i) = 0) ↔
        recvcount ⟨0, hm⟩ * typeSize (datatype ⟨0, hm⟩) = 0 :=
      ⟨fun hall => hall _, fun hblock i => (h i _).trans hblock⟩
    have hforth := reduceScatterBlock_transfers_iff typeSize ⟨0, hm⟩ ⟨0, hn⟩ h h' (hvector _ _)
    have hback := reduceScatterBlock_transfers_iff typeSize ⟨0, hn⟩ ⟨0, hm⟩ h' h (hvector _ _).symm
    have hsame : recvcount' ⟨0, hn⟩ * typeSize (datatype' ⟨0, hn⟩) = 0 ↔
        recvcount ⟨0, hm⟩ * typeSize (datatype ⟨0, hm⟩) = 0 := by
      have hproduct := hvector ⟨0, hm⟩ ⟨0, hn⟩
      constructor
      · intro hblock
        rw [hblock, mul_zero] at hproduct
        exact (mul_eq_zero.mp hproduct).resolve_left (by omega)
      · intro hblock
        rw [hblock, mul_zero] at hproduct
        exact (mul_eq_zero.mp hproduct.symm).resolve_left (by omega)
    rw [hforth, hback, hsame, eq_comm (a := n), and_self]
    exact or_congr_right hzero.symm
  | reduceScatter _ _ _ _ _ _ h h' hvector =>
    refine iff_of_true ?_ (.inr fun _ => rfl)
    simp only [Transfers, sent, received, bytes]
    exact ⟨(reduceScatter_exchange_inter typeSize hn h' hvector).balanced,
      (reduceScatter_exchange_inter typeSize hm h fun j i => (hvector i j).symm).balanced⟩

theorem Rooted.scatteredBlock_eq {m n : ℕ} {calls : Fin m → Call Datatype}
    {calls' : Fin n → Call Datatype} (h : Rooted typeSize calls calls') :
    (∀ i, scatteredBlock typeSize (calls i) = 0) ∧ ∀ j, scatteredBlock typeSize (calls' j) = 0 := by
  cases h <;> exact ⟨fun _ => rfl, fun _ => rfl⟩

namespace Operation

theorem balanced_inter {m n : ℕ} {calls : Fin m → Call Datatype} {calls' : Fin n → Call Datatype} :
    (inter calls calls').Balanced typeSize ↔
      Transfers typeSize calls calls' ∧ Transfers typeSize calls' calls := by
  constructor
  · rintro ⟨-, h⟩
    exact h
  · rintro ⟨h, h'⟩
    refine ⟨?_, h, h'⟩
    rw [h, h']
    exact add_comm _ _

end Operation

end

/-- A group of `m` ranks with blocks of `b` bytes and a group of `n` ranks with blocks of `b'` bytes. -/
def blocks (m n : ℕ) (b b' : ℤ) : Operation Unit :=
  .inter (fun _ : Fin m => .reduceScatterBlock b () false)
    (fun _ : Fin n => .reduceScatterBlock b' () false)

theorem blocks_conforming {m n : ℕ} {b b' : ℤ} (hm : 0 < m) (hn : 0 < n) (h : m * b = n * b') :
    (blocks m n b b').Conforming fun _ => 1 := by
  refine ⟨hm, hn, .inr (.inr ?_)⟩
  apply Mutual.reduceScatterBlock (fun _ => b) (fun _ => ()) (fun _ => b') (fun _ => ())
    (fun _ _ => rfl) (fun _ _ => rfl)
  intro _ _
  rw [mul_one, mul_one, h]

namespace Operation

/-- The totals of an operation agree, but for blocks that are scattered between groups of two sizes. -/
theorem balanced_iff {Datatype : Type} (typeSize : Datatype → ℤ) (op : Operation Datatype)
    (h : op.Conforming typeSize) : op.Balanced typeSize ↔ op.EvenBlocks typeSize := by
  cases op with
  | intra topology calls => exact iff_of_true (Intra.balanced typeSize h) trivial
  | inter calls calls' =>
    rcases h with ⟨hm, hn, h | h | h⟩
    · exact iff_of_true ((balanced_inter typeSize).mpr (h.transfers typeSize))
        (.inr (h.scatteredBlock_eq typeSize).1)
    · exact iff_of_true ((balanced_inter typeSize).mpr (h.transfers typeSize).symm)
        (.inr (h.scatteredBlock_eq typeSize).2)
    · exact (balanced_inter typeSize).trans (h.transfers_iff typeSize hm hn)

theorem balanced_iff_even : (blocks 2 2 3 3).Balanced (fun _ => 1) ∧ (blocks 2 2 3 3).EvenBlocks fun _ => 1 := by
  have heven : (blocks 2 2 3 3).EvenBlocks fun _ => 1 := .inl rfl
  exact ⟨(balanced_iff (fun _ => 1) (blocks 2 2 3 3)
    (blocks_conforming (by decide) (by decide) rfl)).mpr heven, heven⟩

/-- One rank sends two bytes to a group of two ranks, and each of them counts two bytes. -/
theorem not_balanced_uneven : ¬ ∀ (Datatype : Type) (typeSize : Datatype → ℤ) (op : Operation Datatype),
    op.Conforming typeSize → op.Balanced typeSize := by
  intro h
  have hbalanced := h Unit (fun _ => 1) (blocks 1 2 2 1) (blocks_conforming (by decide) (by decide) rfl)
  have hforth := hbalanced.2.1
  rw [Transfers] at hforth
  exact absurd hforth (by decide)

end Operation

end ScoreP.Mpi.Coll

