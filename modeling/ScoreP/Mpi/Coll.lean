import Mathlib.Data.Int.Notation
import Mathlib.Data.Nat.Notation

/-!
# Byte counts of collective operations

Source: `scorep_mpi_coll.c`, `scorep_mpi_coll.inc.c` and `scorep_mpi_topo_num_neighbors` of
`scorep_mpi_coll.h`. Every function computes what the calling rank sends and receives, from its own
arguments and from what the MPI library tells it about the communicator. Counts and bytes are exact
integers; `typeSize` is `TYPE_SIZE_FUN`.
-/

namespace ScoreP.Mpi.Coll

/-- The argument `root`. -/
inductive Root where
  | mpiRoot
  | procNull
  | rank (rank : ℕ)
deriving DecidableEq

inductive Topology where
  | graph (neighbors : List ℕ)
  /-- For every dimension the two results of `PMPI_Cart_shift`, `none` for `MPI_PROC_NULL`. -/
  | cart (neighborRanks : List (Option ℕ × Option ℕ))
  | distGraph (sources destinations : List ℕ)
  /-- The two variables of the caller keep their values. -/
  | undefined (indegree outdegree : ℕ)

structure Comm where
  inter : Bool
  rank : ℕ
  size : ℕ
  remoteSize : ℕ
  topology : Topology

structure Bytes where
  sendbytes : ℤ
  recvbytes : ℤ
deriving DecidableEq

def Bytes.swap (bytes : Bytes) : Bytes :=
  ⟨bytes.recvbytes, bytes.sendbytes⟩

def isIntracomm (comm : Comm) : Bool :=
  !comm.inter

/-- `for ( int rank = 0; rank < num_ranks; ++rank ) { total += amount( rank ) }`. -/
def addUp (numRanks : ℕ) (amount : ℕ → ℤ) : ℤ :=
  (List.range numRanks).foldl (fun total rank => total + amount rank) 0

def barrier : Bytes :=
  ⟨0, 0⟩

section

variable {Datatype : Type} (typeSize : Datatype → ℤ)

/-! ## All to one -/

def allToOne (sendcount : ℤ) (sendtype : Datatype) (recvcount : ℤ) (recvtype : Datatype) (root : Root)
    (inplace : Bool) (comm : Comm) : Bytes :=
  if isIntracomm comm then
    let me := comm.rank
    if .rank me = root then
      let numRanks := comm.size
      let blockbytes := recvcount * typeSize recvtype
      if inplace then ⟨0, (numRanks - 1) * blockbytes⟩ else ⟨blockbytes, numRanks * blockbytes⟩
    else ⟨sendcount * typeSize sendtype, 0⟩
  else if root = .mpiRoot then
    let numRemoteRanks := comm.remoteSize
    ⟨0, numRemoteRanks * recvcount * typeSize recvtype⟩
  else if root ≠ .procNull then ⟨1 * sendcount * typeSize sendtype, 0⟩
  else ⟨0, 0⟩

def gather (sendcount : ℤ) (sendtype : Datatype) (recvcount : ℤ) (recvtype : Datatype) (root : Root)
    (inplace : Bool) (comm : Comm) : Bytes :=
  allToOne typeSize sendcount sendtype recvcount recvtype root inplace comm

def reduce (count : ℤ) (datatype : Datatype) (root : Root) (inplace : Bool) (comm : Comm) : Bytes :=
  allToOne typeSize count datatype count datatype root inplace comm

def gatherv (sendcount : ℤ) (sendtype : Datatype) (recvcounts : ℕ → ℤ) (recvtype : Datatype)
    (root : Root) (inplace : Bool) (comm : Comm) : Bytes :=
  if isIntracomm comm then
    let me := comm.rank
    if .rank me = root then
      let recvsize := typeSize recvtype
      let recvbytes := addUp comm.size fun rank => recvcounts rank * recvsize
      if inplace then ⟨0, recvbytes - recvcounts me * recvsize⟩ else ⟨recvcounts me * recvsize, recvbytes⟩
    else ⟨sendcount * typeSize sendtype, 0⟩
  else if root = .mpiRoot then
    ⟨0, addUp comm.remoteSize fun rank => recvcounts rank * typeSize recvtype⟩
  else if root ≠ .procNull then ⟨1 * sendcount * typeSize sendtype, 0⟩
  else ⟨0, 0⟩

/-! ## One to all -/

def oneToAll (sendcount : ℤ) (sendtype : Datatype) (recvcount : ℤ) (recvtype : Datatype) (root : Root)
    (inplace : Bool) (comm : Comm) : Bytes :=
  (allToOne typeSize recvcount recvtype sendcount sendtype root inplace comm).swap

def bcast (count : ℤ) (datatype : Datatype) (root : Root) (comm : Comm) : Bytes :=
  oneToAll typeSize count datatype count datatype root false comm

def scatter (sendcount : ℤ) (sendtype : Datatype) (recvcount : ℤ) (recvtype : Datatype) (root : Root)
    (inplace : Bool) (comm : Comm) : Bytes :=
  oneToAll typeSize sendcount sendtype recvcount recvtype root inplace comm

def scatterv (sendcounts : ℕ → ℤ) (sendtype : Datatype) (recvcount : ℤ) (recvtype : Datatype)
    (root : Root) (inplace : Bool) (comm : Comm) : Bytes :=
  (gatherv typeSize recvcount recvtype sendcounts sendtype root inplace comm).swap

/-! ## All to all -/

def numPeers (comm : Comm) : ℕ :=
  if isIntracomm comm then comm.size else comm.remoteSize

def alltoall (sendcount : ℤ) (sendtype : Datatype) (recvcount : ℤ) (recvtype : Datatype)
    (inplace : Bool) (comm : Comm) : Bytes :=
  let numRanks := numPeers comm
  let recvsize := typeSize recvtype
  if inplace then
    let sendbytes := (numRanks - 1) * recvcount * recvsize
    ⟨sendbytes, sendbytes⟩
  else ⟨numRanks * sendcount * typeSize sendtype, numRanks * recvcount * recvsize⟩

def alltoallv (sendcounts : ℕ → ℤ) (sendtype : Datatype) (recvcounts : ℕ → ℤ) (recvtype : Datatype)
    (inplace : Bool) (comm : Comm) : Bytes :=
  let numRanks := numPeers comm
  let recvsize := typeSize recvtype
  if inplace then
    let me := comm.rank
    let recvbytes := addUp numRanks (fun rank => recvcounts rank * recvsize) - recvcounts me * recvsize
    ⟨recvbytes, recvbytes⟩
  else
    ⟨addUp numRanks fun rank => sendcounts rank * typeSize sendtype,
      addUp numRanks fun rank => recvcounts rank * recvsize⟩

def alltoallw (sendcounts : ℕ → ℤ) (sendtypes : ℕ → Datatype) (recvcounts : ℕ → ℤ)
    (recvtypes : ℕ → Datatype) (inplace : Bool) (comm : Comm) : Bytes :=
  let numRanks := numPeers comm
  if inplace then
    let me := comm.rank
    let recvbytes := addUp numRanks (fun rank => recvcounts rank * typeSize (recvtypes rank)) -
      recvcounts me * typeSize (recvtypes me)
    ⟨recvbytes, recvbytes⟩
  else
    ⟨addUp numRanks fun rank => sendcounts rank * typeSize (sendtypes rank),
      addUp numRanks fun rank => recvcounts rank * typeSize (recvtypes rank)⟩

def allgather (sendcount : ℤ) (sendtype : Datatype) (recvcount : ℤ) (recvtype : Datatype)
    (inplace : Bool) (comm : Comm) : Bytes :=
  alltoall typeSize sendcount sendtype recvcount recvtype inplace comm

def allgatherv (sendcount : ℤ) (sendtype : Datatype) (recvcounts : ℕ → ℤ) (recvtype : Datatype)
    (inplace : Bool) (comm : Comm) : Bytes :=
  let numRanks := numPeers comm
  let recvsize := typeSize recvtype
  let recvbytes := addUp numRanks fun rank => recvcounts rank * recvsize
  if inplace then
    let me := comm.rank
    ⟨(numRanks - 1) * (recvcounts me * recvsize), recvbytes - recvcounts me * recvsize⟩
  else ⟨numRanks * (sendcount * typeSize sendtype), recvbytes⟩

def allreduce (count : ℤ) (datatype : Datatype) (inplace : Bool) (comm : Comm) : Bytes :=
  alltoall typeSize count datatype count datatype inplace comm

def reduceScatterBlock (recvcount : ℤ) (datatype : Datatype) (inplace : Bool) (comm : Comm) : Bytes :=
  let numLocalRanks := comm.size
  let typesize := typeSize datatype
  if inplace then
    let sendbytes := (numLocalRanks - 1) * recvcount * typesize
    ⟨sendbytes, sendbytes⟩
  else
    let sendbytes := numLocalRanks * recvcount * typesize
    ⟨sendbytes, sendbytes⟩

def reduceScatter (recvcounts : ℕ → ℤ) (datatype : Datatype) (inplace : Bool) (comm : Comm) : Bytes :=
  let numLocalRanks := comm.size
  let typesize := typeSize datatype
  let me := comm.rank
  let sendcount := addUp numLocalRanks recvcounts
  if isIntracomm comm then
    if inplace then
      ⟨(sendcount - recvcounts me) * typesize, (numLocalRanks - 1) * recvcounts me * typesize⟩
    else ⟨sendcount * typesize, numLocalRanks * recvcounts me * typesize⟩
  else
    let numRemoteRanks := comm.remoteSize
    ⟨sendcount * typesize, numRemoteRanks * recvcounts me * typesize⟩

def scan (count : ℤ) (datatype : Datatype) (inplace : Bool) (comm : Comm) : Bytes :=
  let me := comm.rank
  let numRanks := comm.size
  let blockbytes := count * typeSize datatype
  if inplace then ⟨(numRanks - me - 1) * blockbytes, me * blockbytes⟩
  else ⟨(numRanks - me) * blockbytes, (me + 1) * blockbytes⟩

def exscan (count : ℤ) (datatype : Datatype) (comm : Comm) : Bytes :=
  scan typeSize count datatype true comm

/-! ## Neighborhoods -/

/-- `scorep_mpi_topo_num_neighbors`: the indegree and the outdegree. -/
def topoNumNeighbors : Topology → ℕ × ℕ
  | .graph neighbors => (neighbors.length, neighbors.length)
  | .cart neighborRanks => (2 * neighborRanks.length, 2 * neighborRanks.length)
  | .distGraph sources destinations => (sources.length, destinations.length)
  | .undefined indegree outdegree => (indegree, outdegree)

/-- `CART_ITER_NON_NULL_NEIGHBORS`: the code runs on the index of every neighbor that exists. -/
def cartIter {α : Type} (code : α → ℕ → α) : ℕ → List (Option ℕ × Option ℕ) → α → α
  | _, [], a => a
  | dim, neighborRanks :: dims, a =>
    let a := if neighborRanks.1 ≠ none then code a (2 * dim) else a
    let a := if neighborRanks.2 ≠ none then code a (2 * dim + 1) else a
    cartIter code (dim + 1) dims a

def neighborAlltoall (sendcount : ℤ) (sendtype : Datatype) (recvcount : ℤ) (recvtype : Datatype)
    (comm : Comm) : Bytes :=
  let (numSources, numDestinations) : ℕ × ℕ :=
    match comm.topology with
    | .cart neighborRanks =>
      let nneighbors := cartIter (fun nneighbors _ => nneighbors + 1) 0 neighborRanks 0
      (nneighbors, nneighbors)
    | topology => topoNumNeighbors topology
  ⟨numDestinations * sendcount * typeSize sendtype, numSources * recvcount * typeSize recvtype⟩

def neighborAlltoallv (sendcounts : ℕ → ℤ) (sendtype : Datatype) (recvcounts : ℕ → ℤ)
    (recvtype : Datatype) (comm : Comm) : Bytes :=
  let sendsize := typeSize sendtype
  let recvsize := typeSize recvtype
  match comm.topology with
  | .cart neighborRanks =>
    cartIter (fun bytes index =>
      ⟨bytes.sendbytes + sendcounts index * sendsize, bytes.recvbytes + recvcounts index * recvsize⟩)
      0 neighborRanks ⟨0, 0⟩
  | topology =>
    let (indegree, outdegree) := topoNumNeighbors topology
    ⟨addUp outdegree fun i => sendcounts i * sendsize, addUp indegree fun i => recvcounts i * recvsize⟩

def neighborAlltoallw (sendcounts : ℕ → ℤ) (sendtypes : ℕ → Datatype) (recvcounts : ℕ → ℤ)
    (recvtypes : ℕ → Datatype) (comm : Comm) : Bytes :=
  match comm.topology with
  | .cart neighborRanks =>
    cartIter (fun bytes index =>
      ⟨bytes.sendbytes + sendcounts index * typeSize (sendtypes index),
        bytes.recvbytes + recvcounts index * typeSize (recvtypes index)⟩)
      0 neighborRanks ⟨0, 0⟩
  | topology =>
    let (indegree, outdegree) := topoNumNeighbors topology
    ⟨addUp outdegree fun i => sendcounts i * typeSize (sendtypes i),
      addUp indegree fun i => recvcounts i * typeSize (recvtypes i)⟩

def neighborAllgather (sendcount : ℤ) (sendtype : Datatype) (recvcount : ℤ) (recvtype : Datatype)
    (comm : Comm) : Bytes :=
  neighborAlltoall typeSize sendcount sendtype recvcount recvtype comm

def neighborAllgatherv (sendcount : ℤ) (sendtype : Datatype) (recvcounts : ℕ → ℤ)
    (recvtype : Datatype) (comm : Comm) : Bytes :=
  let sendsize := typeSize sendtype
  let recvsize := typeSize recvtype
  match comm.topology with
  | .cart neighborRanks =>
    cartIter (fun bytes index =>
      ⟨bytes.sendbytes + sendcount * sendsize, bytes.recvbytes + recvcounts index * recvsize⟩)
      0 neighborRanks ⟨0, 0⟩
  | topology =>
    let (indegree, outdegree) := topoNumNeighbors topology
    ⟨outdegree * sendcount * sendsize, addUp indegree fun i => recvcounts i * recvsize⟩

end

/-! ## Calls -/

inductive Call (Datatype : Type) where
  | barrier
  | gather (sendcount : ℤ) (sendtype : Datatype) (recvcount : ℤ) (recvtype : Datatype) (root : Root)
      (inplace : Bool)
  | reduce (count : ℤ) (datatype : Datatype) (root : Root) (inplace : Bool)
  | gatherv (sendcount : ℤ) (sendtype : Datatype) (recvcounts : ℕ → ℤ) (recvtype : Datatype)
      (root : Root) (inplace : Bool)
  | bcast (count : ℤ) (datatype : Datatype) (root : Root)
  | scatter (sendcount : ℤ) (sendtype : Datatype) (recvcount : ℤ) (recvtype : Datatype) (root : Root)
      (inplace : Bool)
  | scatterv (sendcounts : ℕ → ℤ) (sendtype : Datatype) (recvcount : ℤ) (recvtype : Datatype)
      (root : Root) (inplace : Bool)
  | alltoall (sendcount : ℤ) (sendtype : Datatype) (recvcount : ℤ) (recvtype : Datatype) (inplace : Bool)
  | alltoallv (sendcounts : ℕ → ℤ) (sendtype : Datatype) (recvcounts : ℕ → ℤ) (recvtype : Datatype)
      (inplace : Bool)
  | alltoallw (sendcounts : ℕ → ℤ) (sendtypes : ℕ → Datatype) (recvcounts : ℕ → ℤ)
      (recvtypes : ℕ → Datatype) (inplace : Bool)
  | allgather (sendcount : ℤ) (sendtype : Datatype) (recvcount : ℤ) (recvtype : Datatype) (inplace : Bool)
  | allgatherv (sendcount : ℤ) (sendtype : Datatype) (recvcounts : ℕ → ℤ) (recvtype : Datatype)
      (inplace : Bool)
  | allreduce (count : ℤ) (datatype : Datatype) (inplace : Bool)
  | reduceScatterBlock (recvcount : ℤ) (datatype : Datatype) (inplace : Bool)
  | reduceScatter (recvcounts : ℕ → ℤ) (datatype : Datatype) (inplace : Bool)
  | scan (count : ℤ) (datatype : Datatype) (inplace : Bool)
  | exscan (count : ℤ) (datatype : Datatype)
  | neighborAlltoall (sendcount : ℤ) (sendtype : Datatype) (recvcount : ℤ) (recvtype : Datatype)
  | neighborAlltoallv (sendcounts : ℕ → ℤ) (sendtype : Datatype) (recvcounts : ℕ → ℤ) (recvtype : Datatype)
  | neighborAlltoallw (sendcounts : ℕ → ℤ) (sendtypes : ℕ → Datatype) (recvcounts : ℕ → ℤ)
      (recvtypes : ℕ → Datatype)
  | neighborAllgather (sendcount : ℤ) (sendtype : Datatype) (recvcount : ℤ) (recvtype : Datatype)
  | neighborAllgatherv (sendcount : ℤ) (sendtype : Datatype) (recvcounts : ℕ → ℤ) (recvtype : Datatype)

def bytes {Datatype : Type} (typeSize : Datatype → ℤ) (comm : Comm) : Call Datatype → Bytes
  | .barrier => barrier
  | .gather sendcount sendtype recvcount recvtype root inplace =>
    gather typeSize sendcount sendtype recvcount recvtype root inplace comm
  | .reduce count datatype root inplace => reduce typeSize count datatype root inplace comm
  | .gatherv sendcount sendtype recvcounts recvtype root inplace =>
    gatherv typeSize sendcount sendtype recvcounts recvtype root inplace comm
  | .bcast count datatype root => bcast typeSize count datatype root comm
  | .scatter sendcount sendtype recvcount recvtype root inplace =>
    scatter typeSize sendcount sendtype recvcount recvtype root inplace comm
  | .scatterv sendcounts sendtype recvcount recvtype root inplace =>
    scatterv typeSize sendcounts sendtype recvcount recvtype root inplace comm
  | .alltoall sendcount sendtype recvcount recvtype inplace =>
    alltoall typeSize sendcount sendtype recvcount recvtype inplace comm
  | .alltoallv sendcounts sendtype recvcounts recvtype inplace =>
    alltoallv typeSize sendcounts sendtype recvcounts recvtype inplace comm
  | .alltoallw sendcounts sendtypes recvcounts recvtypes inplace =>
    alltoallw typeSize sendcounts sendtypes recvcounts recvtypes inplace comm
  | .allgather sendcount sendtype recvcount recvtype inplace =>
    allgather typeSize sendcount sendtype recvcount recvtype inplace comm
  | .allgatherv sendcount sendtype recvcounts recvtype inplace =>
    allgatherv typeSize sendcount sendtype recvcounts recvtype inplace comm
  | .allreduce count datatype inplace => allreduce typeSize count datatype inplace comm
  | .reduceScatterBlock recvcount datatype inplace =>
    reduceScatterBlock typeSize recvcount datatype inplace comm
  | .reduceScatter recvcounts datatype inplace => reduceScatter typeSize recvcounts datatype inplace comm
  | .scan count datatype inplace => scan typeSize count datatype inplace comm
  | .exscan count datatype => exscan typeSize count datatype comm
  | .neighborAlltoall sendcount sendtype recvcount recvtype =>
    neighborAlltoall typeSize sendcount sendtype recvcount recvtype comm
  | .neighborAlltoallv sendcounts sendtype recvcounts recvtype =>
    neighborAlltoallv typeSize sendcounts sendtype recvcounts recvtype comm
  | .neighborAlltoallw sendcounts sendtypes recvcounts recvtypes =>
    neighborAlltoallw typeSize sendcounts sendtypes recvcounts recvtypes comm
  | .neighborAllgather sendcount sendtype recvcount recvtype =>
    neighborAllgather typeSize sendcount sendtype recvcount recvtype comm
  | .neighborAllgatherv sendcount sendtype recvcounts recvtype =>
    neighborAllgatherv typeSize sendcount sendtype recvcounts recvtype comm

end ScoreP.Mpi.Coll
