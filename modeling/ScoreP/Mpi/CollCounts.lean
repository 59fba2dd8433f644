import Mathlib.Data.BitVec
import ScoreP.Foundations.Definedness
import ScoreP.Mpi.Coll

/-!
# Byte counts in the arithmetic of the machine

Source: `scorep_mpi_coll.inc.c`, which `scorep_mpi_coll.c` includes once with `int` and once with
`MPI_Count` of 64 bits for `COUNT_T`. The products of counts, type sizes and numbers of ranks are formed in
`COUNT_T`, in the order of the source; one that `COUNT_T` does not represent is undefined. The results are
numbers of 64 bits without a sign, in which all else is calculated.
-/

namespace ScoreP.Mpi.Coll.Counts

open Foundations

/-- `COUNT_T`. -/
inductive CountType
  | int
  | mpiCount
deriving DecidableEq

namespace CountType

def bits : CountType → ℕ
  | int => 32
  | mpiCount => 64

def Represents (t : CountType) (v : ℤ) : Prop :=
  -2 ^ (t.bits - 1) ≤ v ∧ v < 2 ^ (t.bits - 1)

instance (t : CountType) (v : ℤ) : Decidable (t.Represents v) :=
  inferInstanceAs (Decidable (_ ∧ _))

def product (t : CountType) (a b : ℤ) : Option ℤ :=
  if t.Represents (a * b) then some (a * b) else none

/-- `a * b * c`. -/
def product₃ (t : CountType) (a b c : ℤ) : Option ℤ := do
  t.product (← t.product a b) c

/-- Both products of `a * b * c` have a value. -/
def Represents₃ (t : CountType) (a b c : ℤ) : Prop :=
  t.Represents (a * b) ∧ t.Represents (a * b * c)

end CountType

/-- The conversion to `uint64_t`. -/
def word (v : ℤ) : BitVec 64 :=
  BitVec.ofInt 64 v

@[ext]
structure Words where
  sendbytes : BitVec 64
  recvbytes : BitVec 64
deriving DecidableEq

def Words.swap (words : Words) : Words :=
  ⟨words.recvbytes, words.sendbytes⟩

/-- `for ( int rank = 0; rank < num_ranks; ++rank ) { total += amount( rank ) }`. -/
def addUp (numRanks : ℕ) (amount : ℕ → Option ℤ) : Option (BitVec 64) :=
  (List.range numRanks).foldlM (fun total rank => do return total + word (← amount rank)) 0

section

variable {Datatype : Type} (t : CountType) (typeSize : Datatype → ℤ)

/-! ## All to one -/

def allToOne (sendcount : ℤ) (sendtype : Datatype) (recvcount : ℤ) (recvtype : Datatype) (root : Root)
    (inplace : Bool) (comm : Comm) : Option Words :=
  if isIntracomm comm then
    let me := comm.rank
    if .rank me = root then do
      let numRanks := comm.size
      let blockbytes := word (← t.product recvcount (typeSize recvtype))
      if inplace then return ⟨0, word (numRanks - 1) * blockbytes⟩
      else return ⟨blockbytes, word numRanks * blockbytes⟩
    else do return ⟨word (← t.product sendcount (typeSize sendtype)), 0⟩
  else if root = .mpiRoot then do
    let numRemoteRanks := comm.remoteSize
    return ⟨0, word (← t.product₃ numRemoteRanks recvcount (typeSize recvtype))⟩
  else if root ≠ .procNull then do
    return ⟨word (← t.product₃ 1 sendcount (typeSize sendtype)), 0⟩
  else some ⟨0, 0⟩

def gather (sendcount : ℤ) (sendtype : Datatype) (recvcount : ℤ) (recvtype : Datatype) (root : Root)
    (inplace : Bool) (comm : Comm) : Option Words :=
  allToOne t typeSize sendcount sendtype recvcount recvtype root inplace comm

def reduce (count : ℤ) (datatype : Datatype) (root : Root) (inplace : Bool) (comm : Comm) : Option Words :=
  allToOne t typeSize count datatype count datatype root inplace comm

def gatherv (sendcount : ℤ) (sendtype : Datatype) (recvcounts : ℕ → ℤ) (recvtype : Datatype)
    (root : Root) (inplace : Bool) (comm : Comm) : Option Words :=
  if isIntracomm comm then
    let me := comm.rank
    if .rank me = root then do
      let recvsize := typeSize recvtype
      let recvbytes ← addUp comm.size fun rank => t.product (recvcounts rank) recvsize
      let own := word (← t.product (recvcounts me) recvsize)
      if inplace then return ⟨0, recvbytes - own⟩ else return ⟨own, recvbytes⟩
    else do return ⟨word (← t.product sendcount (typeSize sendtype)), 0⟩
  else if root = .mpiRoot then do
    return ⟨0, ← addUp comm.remoteSize fun rank => t.product (recvcounts rank) (typeSize recvtype)⟩
  else if root ≠ .procNull then do
    return ⟨word (← t.product₃ 1 sendcount (typeSize sendtype)), 0⟩
  else some ⟨0, 0⟩

/-! ## One to all -/

def oneToAll (sendcount : ℤ) (sendtype : Datatype) (recvcount : ℤ) (recvtype : Datatype) (root : Root)
    (inplace : Bool) (comm : Comm) : Option Words :=
  (allToOne t typeSize recvcount recvtype sendcount sendtype root inplace comm).map Words.swap

def bcast (count : ℤ) (datatype : Datatype) (root : Root) (comm : Comm) : Option Words :=
  oneToAll t typeSize count datatype count datatype root false comm

def scatter (sendcount : ℤ) (sendtype : Datatype) (recvcount : ℤ) (recvtype : Datatype) (root : Root)
    (inplace : Bool) (comm : Comm) : Option Words :=
  oneToAll t typeSize sendcount sendtype recvcount recvtype root inplace comm

def scatterv (sendcounts : ℕ → ℤ) (sendtype : Datatype) (recvcount : ℤ) (recvtype : Datatype)
    (root : Root) (inplace : Bool) (comm : Comm) : Option Words :=
  (gatherv t typeSize recvcount recvtype sendcounts sendtype root inplace comm).map Words.swap

/-! ## All to all -/

def alltoall (sendcount : ℤ) (sendtype : Datatype) (recvcount : ℤ) (recvtype : Datatype)
    (inplace : Bool) (comm : Comm) : Option Words := do
  let numRanks := numPeers comm
  let recvsize := typeSize recvtype
  if inplace then
    let sendbytes := word (← t.product₃ (numRanks - 1) recvcount recvsize)
    return ⟨sendbytes, sendbytes⟩
  else
    return ⟨word (← t.product₃ numRanks sendcount (typeSize sendtype)),
      word (← t.product₃ numRanks recvcount recvsize)⟩

def alltoallw (sendcounts : ℕ → ℤ) (sendtypes : ℕ → Datatype) (recvcounts : ℕ → ℤ)
    (recvtypes : ℕ → Datatype) (inplace : Bool) (comm : Comm) : Option Words := do
  let numRanks := numPeers comm
  let received := fun rank => t.product (recvcounts rank) (typeSize (recvtypes rank))
  if inplace then
    let recvbytes := (← addUp numRanks received) - word (← received comm.rank)
    return ⟨recvbytes, recvbytes⟩
  else
    return ⟨← addUp numRanks fun rank => t.product (sendcounts rank) (typeSize (sendtypes rank)),
      ← addUp numRanks received⟩

/-- The loops of `alltoallw`, with the sizes of the two types taken before. -/
def alltoallv (sendcounts : ℕ → ℤ) (sendtype : Datatype) (recvcounts : ℕ → ℤ) (recvtype : Datatype)
    (inplace : Bool) (comm : Comm) : Option Words := do
  let numRanks := numPeers comm
  let recvsize := typeSize recvtype
  let received := fun rank => t.product (recvcounts rank) recvsize
  if inplace then
    let recvbytes := (← addUp numRanks received) - word (← received comm.rank)
    return ⟨recvbytes, recvbytes⟩
  else
    let sendsize := typeSize sendtype
    return ⟨← addUp numRanks fun rank => t.product (sendcounts rank) sendsize, ← addUp numRanks received⟩

def allgather (sendcount : ℤ) (sendtype : Datatype) (recvcount : ℤ) (recvtype : Datatype)
    (inplace : Bool) (comm : Comm) : Option Words :=
  alltoall t typeSize sendcount sendtype recvcount recvtype inplace comm

def allgatherv (sendcount : ℤ) (sendtype : Datatype) (recvcounts : ℕ → ℤ) (recvtype : Datatype)
    (inplace : Bool) (comm : Comm) : Option Words := do
  let numRanks := numPeers comm
  let recvsize := typeSize recvtype
  let recvbytes ← addUp numRanks fun rank => t.product (recvcounts rank) recvsize
  if inplace then
    let own ← t.product (recvcounts comm.rank) recvsize
    return ⟨word (← t.product (numRanks - 1) own), recvbytes - word own⟩
  else
    let block ← t.product sendcount (typeSize sendtype)
    return ⟨word (← t.product numRanks block), recvbytes⟩

def allreduce (count : ℤ) (datatype : Datatype) (inplace : Bool) (comm : Comm) : Option Words :=
  alltoall t typeSize count datatype count datatype inplace comm

def reduceScatterBlock (recvcount : ℤ) (datatype : Datatype) (inplace : Bool) (comm : Comm) :
    Option Words := do
  let numLocalRanks := comm.size
  let typesize := typeSize datatype
  let sendbytes := word (← if inplace then t.product₃ (numLocalRanks - 1) recvcount typesize
    else t.product₃ numLocalRanks recvcount typesize)
  return ⟨sendbytes, sendbytes⟩

def reduceScatter (recvcounts : ℕ → ℤ) (datatype : Datatype) (inplace : Bool) (comm : Comm) :
    Option Words := do
  let numLocalRanks := comm.size
  let typesize := typeSize datatype
  let own := recvcounts comm.rank
  let sendcount ← addUp numLocalRanks fun rank => some (recvcounts rank)
  if isIntracomm comm then
    if inplace then
      return ⟨(sendcount - word own) * word typesize, word (← t.product₃ (numLocalRanks - 1) own typesize)⟩
    else return ⟨sendcount * word typesize, word (← t.product₃ numLocalRanks own typesize)⟩
  else
    let numRemoteRanks := comm.remoteSize
    return ⟨sendcount * word typesize, word (← t.product₃ numRemoteRanks own typesize)⟩

def scan (count : ℤ) (datatype : Datatype) (inplace : Bool) (comm : Comm) : Option Words := do
  let me := comm.rank
  let numRanks := comm.size
  let blockbytes := word (← t.product count (typeSize datatype))
  if inplace then return ⟨word (numRanks - me - 1) * blockbytes, word me * blockbytes⟩
  else return ⟨word (numRanks - me) * blockbytes, word (me + 1) * blockbytes⟩

def exscan (count : ℤ) (datatype : Datatype) (comm : Comm) : Option Words :=
  scan t typeSize count datatype true comm

/-! ## Neighborhoods -/

/-- `CART_ITER_NON_NULL_NEIGHBORS` with the code that adds up what is sent and what is received. -/
def cartAddUp (sent received : ℕ → Option ℤ) (neighborRanks : List (Option ℕ × Option ℕ)) : Option Words :=
  cartIter (fun total index => do
    let bytes ← total
    return ⟨bytes.sendbytes + word (← sent index), bytes.recvbytes + word (← received index)⟩)
    0 neighborRanks (some ⟨0, 0⟩)

def neighborAddUp (sent received : ℕ → Option ℤ) (topology : Topology) : Option Words :=
  match topology with
  | .cart neighborRanks => cartAddUp sent received neighborRanks
  | topology => do
    let (indegree, outdegree) := topoNumNeighbors topology
    return ⟨← addUp outdegree sent, ← addUp indegree received⟩

def numNeighbors : Topology → ℕ × ℕ
  | .cart neighborRanks =>
    let nneighbors := cartIter (fun nneighbors _ => nneighbors + 1) 0 neighborRanks 0
    (nneighbors, nneighbors)
  | topology => topoNumNeighbors topology

def neighborAlltoall (sendcount : ℤ) (sendtype : Datatype) (recvcount : ℤ) (recvtype : Datatype)
    (comm : Comm) : Option Words := do
  let (numSources, numDestinations) := numNeighbors comm.topology
  return ⟨word (← t.product₃ numDestinations sendcount (typeSize sendtype)),
    word (← t.product₃ numSources recvcount (typeSize recvtype))⟩

def neighborAlltoallv (sendcounts : ℕ → ℤ) (sendtype : Datatype) (recvcounts : ℕ → ℤ)
    (recvtype : Datatype) (comm : Comm) : Option Words :=
  let sendsize := typeSize sendtype
  let recvsize := typeSize recvtype
  neighborAddUp (fun i => t.product (sendcounts i) sendsize) (fun i => t.product (recvcounts i) recvsize)
    comm.topology

def neighborAlltoallw (sendcounts : ℕ → ℤ) (sendtypes : ℕ → Datatype) (recvcounts : ℕ → ℤ)
    (recvtypes : ℕ → Datatype) (comm : Comm) : Option Words :=
  neighborAddUp (fun i => t.product (sendcounts i) (typeSize (sendtypes i)))
    (fun i => t.product (recvcounts i) (typeSize (recvtypes i))) comm.topology

/-- The implicit conversion of an argument to `int`. -/
def narrow (count : ℤ) : ℤ :=
  (BitVec.ofInt 32 count).toInt

/-- `PMPI_Type_size`, which answers `MPI_UNDEFINED` if the size does not fit. -/
def intTypeSize (mpiUndefined : ℤ) (datatype : Datatype) : ℤ :=
  if CountType.int.Represents (typeSize datatype) then typeSize datatype else mpiUndefined

/-- In both instantiations the call is of the function that has `int` for `COUNT_T`. -/
def neighborAllgather (mpiUndefined sendcount : ℤ) (sendtype : Datatype) (recvcount : ℤ)
    (recvtype : Datatype) (comm : Comm) : Option Words :=
  neighborAlltoall .int (intTypeSize typeSize mpiUndefined) (narrow sendcount) sendtype
    (narrow recvcount) recvtype comm

def neighborAllgatherv (sendcount : ℤ) (sendtype : Datatype) (recvcounts : ℕ → ℤ)
    (recvtype : Datatype) (comm : Comm) : Option Words :=
  let sendsize := typeSize sendtype
  let received := fun i => t.product (recvcounts i) (typeSize recvtype)
  match comm.topology with
  | .cart neighborRanks => cartAddUp (fun _ => t.product sendcount sendsize) received neighborRanks
  | topology => do
    let (indegree, outdegree) := topoNumNeighbors topology
    return ⟨word (← t.product₃ outdegree sendcount sendsize), ← addUp indegree received⟩

end

/-! ## Calls -/

def bytes {Datatype : Type} (t : CountType) (typeSize : Datatype → ℤ) (mpiUndefined : ℤ) (comm : Comm) :
    Call Datatype → Option Words
  | .barrier => some ⟨0, 0⟩
  | .gather sendcount sendtype recvcount recvtype root inplace =>
    gather t typeSize sendcount sendtype recvcount recvtype root inplace comm
  | .reduce count datatype root inplace => reduce t typeSize count datatype root inplace comm
  | .gatherv sendcount sendtype recvcounts recvtype root inplace =>
    gatherv t typeSize sendcount sendtype recvcounts recvtype root inplace comm
  | .bcast count datatype root => bcast t typeSize count datatype root comm
  | .scatter sendcount sendtype recvcount recvtype root inplace =>
    scatter t typeSize sendcount sendtype recvcount recvtype root inplace comm
  | .scatterv sendcounts sendtype recvcount recvtype root inplace =>
    scatterv t typeSize sendcounts sendtype recvcount recvtype root inplace comm
  | .alltoall sendcount sendtype recvcount recvtype inplace =>
    alltoall t typeSize sendcount sendtype recvcount recvtype inplace comm
  | .alltoallv sendcounts sendtype recvcounts recvtype inplace =>
    alltoallv t typeSize sendcounts sendtype recvcounts recvtype inplace comm
  | .alltoallw sendcounts sendtypes recvcounts recvtypes inplace =>
    alltoallw t typeSize sendcounts sendtypes recvcounts recvtypes inplace comm
  | .allgather sendcount sendtype recvcount recvtype inplace =>
    allgather t typeSize sendcount sendtype recvcount recvtype inplace comm
  | .allgatherv sendcount sendtype recvcounts recvtype inplace =>
    allgatherv t typeSize sendcount sendtype recvcounts recvtype inplace comm
  | .allreduce count datatype inplace => allreduce t typeSize count datatype inplace comm
  | .reduceScatterBlock recvcount datatype inplace =>
    reduceScatterBlock t typeSize recvcount datatype inplace comm
  | .reduceScatter recvcounts datatype inplace =>
    reduceScatter t typeSize recvcounts datatype inplace comm
  | .scan count datatype inplace => scan t typeSize count datatype inplace comm
  | .exscan count datatype => exscan t typeSize count datatype comm
  | .neighborAlltoall sendcount sendtype recvcount recvtype =>
    neighborAlltoall t typeSize sendcount sendtype recvcount recvtype comm
  | .neighborAlltoallv sendcounts sendtype recvcounts recvtype =>
    neighborAlltoallv t typeSize sendcounts sendtype recvcounts recvtype comm
  | .neighborAlltoallw sendcounts sendtypes recvcounts recvtypes =>
    neighborAlltoallw t typeSize sendcounts sendtypes recvcounts recvtypes comm
  | .neighborAllgather sendcount sendtype recvcount recvtype =>
    neighborAllgather typeSize mpiUndefined sendcount sendtype recvcount recvtype comm
  | .neighborAllgatherv sendcount sendtype recvcounts recvtype =>
    neighborAllgatherv t typeSize sendcount sendtype recvcounts recvtype comm

end ScoreP.Mpi.Coll.Counts
