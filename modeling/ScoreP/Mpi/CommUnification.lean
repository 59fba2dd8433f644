import Mathlib.Algebra.Group.Nat.Defs
import Mathlib.Data.Fintype.EquivFin

/-!
# The communicators of all processes

Source: `scorep_mpi_unify_communicators` of `scorep_ipc_mpi_unify_communicators.c`,
`scorep_mpi_comm_create_finalize` and `scorep_mpi_setup_world` of `scorep_mpi_communicator_mgmt.c`. One
`iteration` of the loop depends on what all ranks announced; `after` is the state of all ranks after a
number of rounds, in each of which all ranks take part in the Allgather. `createFinalize_announce` says what
the members of a communicator announce.
-/

namespace ScoreP.Mpi.Unification

/-! ## Payloads -/

structure Payload where
  commSize : ℕ
  localRank : ℕ
  remoteCommSize : ℕ
  globalRootRank : ℕ
  rootId : ℕ
deriving DecidableEq

def payloadBelongsToCommSelf (payload : Payload) : Bool :=
  payload.commSize = 1 && payload.remoteCommSize = 0

section Create

variable {worldSize : ℕ}

/-- `PMPI_Group_translate_ranks` of rank 0 to a rank of the world. -/
def rootWorldRank (group : List (Fin worldSize)) : ℕ :=
  (group.map Fin.val).headD 0

/-- The payload on a process of `localGroup`. `root` and `id` come from `scorep_mpi_comm_create_id`. -/
def createFinalize (root id : ℕ) (rank : Fin worldSize) (localGroup : List (Fin worldSize))
    (remoteGroup : Option (List (Fin worldSize))) : Payload where
  commSize := localGroup.length
  localRank := localGroup.idxOf rank
  remoteCommSize :=
    match remoteGroup with
    | none => 0
    | some remoteGroup =>
      let high := if rootWorldRank localGroup > rootWorldRank remoteGroup then 1 else 0
      remoteGroup.length ||| high <<< 31
  globalRootRank := root
  rootId := id

/-- The payload of `MPI_COMM_WORLD`. -/
def setupWorld (rank : Fin worldSize) : Payload where
  commSize := worldSize
  localRank := rank
  remoteCommSize := 0
  globalRootRank := 0
  rootId := 0

end Create

/-! ## The loop -/

/-- `SCOREP_InterimCommunicatorDef`, without what the loop writes. `parent` is a place in the list. -/
structure InterimCommunicatorDef (Name : Type) where
  paradigmMpi : Bool
  payload : Payload
  parent : Option ℕ
  name : Name

def uint32Max : ℕ :=
  2 ^ 32 - 1

/-- `next_interim_comm_def` -/
structure Announcement where
  globalRootRank : ℕ
  rootId : ℕ
  localRank : ℕ
  high : ℕ
deriving DecidableEq

def nothingLeft : Announcement :=
  ⟨uint32Max, uint32Max, uint32Max, uint32Max⟩

structure Next where
  announcement : Announcement
  commSize : ℕ
  remoteCommSize : ℕ
  combinedSize : ℕ
deriving DecidableEq

def highBit (remoteCommSize : ℕ) : ℕ :=
  (remoteCommSize >>> 31) &&& 1

def extractedRemoteSize (remoteCommSize : ℕ) : ℕ :=
  remoteCommSize &&& (uint32Max - 2 ^ 31)

def announce (worldSize : ℕ) (payload : Option Payload) : Next :=
  match payload with
  | none => ⟨nothingLeft, worldSize, worldSize, worldSize⟩
  | some payload =>
    ⟨⟨payload.globalRootRank, payload.rootId, payload.localRank, highBit payload.remoteCommSize⟩,
      payload.commSize, extractedRemoteSize payload.remoteCommSize,
      (payload.commSize + extractedRemoteSize payload.remoteCommSize) % 2 ^ 32⟩

inductive Group where
  | mpiSelf
  | mpiGroup (ranks : List ℕ)
deriving DecidableEq

/-- The arguments of `SCOREP_Definitions_NewCommunicator`, and with a second group those of
`SCOREP_Definitions_NewInterCommunicator`. -/
structure Arguments (Name H : Type) where
  groupA : Group
  groupB : Option Group
  name : Name
  parent : Option H
  unifyKey : ℕ
deriving DecidableEq

/-- A communicator that was defined for the interim communicator at a place. -/
structure Call (Name H : Type) where
  place : ℕ
  arguments : Arguments Name H
  handle : H
deriving DecidableEq

structure LoopState (Name H : Type) where
  interimCommDefsProcessed : ℕ
  groupARanks : List ℕ
  groupBRanks : List ℕ
  /-- The field `unified` of every interim communicator. -/
  unified : List (Option H)
  calls : List (Call Name H)
deriving DecidableEq

section Loop

variable {worldSize : ℕ} {Name H : Type} (newCommunicator : List (Arguments Name H) → Arguments Name H → H)

/-- `local_interim_comm_defs`, with the places of the definitions. -/
def localInterimCommDefs (definitions : List (InterimCommunicatorDef Name)) :
    List (InterimCommunicatorDef Name × ℕ) :=
  definitions.zipIdx.filter fun entry =>
    entry.1.paradigmMpi && !payloadBelongsToCommSelf entry.1.payload

def next (definitions : List (InterimCommunicatorDef Name)) (state : LoopState Name H) : Next :=
  announce worldSize
    ((localInterimCommDefs definitions)[state.interimCommDefsProcessed]?.map fun entry => entry.1.payload)

def sameComm (announcement other : Announcement) : Bool :=
  other.globalRootRank = announcement.globalRootRank && other.rootId = announcement.rootId

def ranksParticipating (all : Fin worldSize → Announcement) (announcement : Announcement) : ℕ :=
  (List.finRange worldSize).countP fun i => sameComm announcement (all i)

def addRank (all : Fin worldSize → Announcement) (announcement : Announcement)
    (ranks : List ℕ × List ℕ) (i : Fin worldSize) : List ℕ × List ℕ :=
  if sameComm announcement (all i) then
    if (all i).high = 0 then (ranks.1.set (all i).localRank i, ranks.2)
    else (ranks.1, ranks.2.set (all i).localRank i)
  else ranks

def groupRanks (all : Fin worldSize → Announcement) (announcement : Announcement)
    (ranks : List ℕ × List ℕ) : List ℕ × List ℕ :=
  (List.finRange worldSize).foldl (addRank all announcement) ranks

def unifiedParentHandle (state : LoopState Name H) (parent : Option ℕ) : Option H :=
  parent.bind fun place => state.unified[place]?.join

/-- A definition call, and its result as the field `unified`. -/
def LoopState.define (state : LoopState Name H) (place : ℕ) (arguments : Arguments Name H) : LoopState Name H :=
  let handle := newCommunicator (state.calls.map Call.arguments) arguments
  { state with
    unified := state.unified.set place (some handle)
    calls := state.calls ++ [⟨place, arguments, handle⟩] }

def loopArguments (next : Next) (definition : InterimCommunicatorDef Name) (state : LoopState Name H)
    (ranks : List ℕ × List ℕ) : Arguments Name H :=
  let outputSizeA := if next.announcement.high ≠ 1 then next.commSize else next.remoteCommSize
  let outputSizeB := if next.announcement.high ≠ 1 then next.remoteCommSize else next.commSize
  { groupA := .mpiGroup (ranks.1.take outputSizeA)
    groupB := if outputSizeB > 0 then some (.mpiGroup (ranks.2.take outputSizeB)) else none
    name := definition.name
    parent := unifiedParentHandle state definition.parent
    unifyKey := definition.payload.rootId }

/-- One iteration after the Allgather; `none` is `break`. -/
def iteration (definitions : List (InterimCommunicatorDef Name)) (all : Fin worldSize → Announcement)
    (state : LoopState Name H) : Option (LoopState Name H) :=
  let next := @next worldSize _ _ definitions state
  if ranksParticipating all next.announcement ≠ next.combinedSize then some state
  else if next.announcement.globalRootRank = uint32Max then none
  else
    match (localInterimCommDefs definitions)[state.interimCommDefsProcessed]? with
    | none => none
    | some (definition, place) =>
      let ranks := groupRanks all next.announcement (state.groupARanks, state.groupBRanks)
      let defined := state.define newCommunicator place (loopArguments next definition state ranks)
      some
        { defined with
          interimCommDefsProcessed := state.interimCommDefsProcessed + 1
          groupARanks := ranks.1
          groupBRanks := ranks.2 }

def start (worldSize : ℕ) (definitions : List (InterimCommunicatorDef Name)) : LoopState Name H where
  interimCommDefsProcessed := 0
  groupARanks := List.replicate worldSize 0
  groupBRanks := List.replicate worldSize 0
  unified := List.replicate definitions.length none
  calls := []

def allNext (definitions : Fin worldSize → List (InterimCommunicatorDef Name))
    (states : Fin worldSize → LoopState Name H) (i : Fin worldSize) : Announcement :=
  (@next worldSize _ _ (definitions i) (states i)).announcement

/-- The state of all ranks after a number of rounds without `break`. -/
def after (definitions : Fin worldSize → List (InterimCommunicatorDef Name)) :
    ℕ → Fin worldSize → LoopState Name H
  | 0, rank => start worldSize (definitions rank)
  | round + 1, rank =>
    let states := after definitions round
    (iteration newCommunicator (definitions rank) (allNext definitions states) (states rank)).getD
      (states rank)

def BreaksIn (definitions : Fin worldSize → List (InterimCommunicatorDef Name)) (round : ℕ)
    (rank : Fin worldSize) : Prop :=
  let states := after newCommunicator definitions round
  iteration newCommunicator (definitions rank) (allNext definitions states) (states rank) = none

def defineSelfs (definitions : List (InterimCommunicatorDef Name)) (state : LoopState Name H) :
    LoopState Name H :=
  (definitions.zipIdx.filter fun entry =>
    entry.1.paradigmMpi && payloadBelongsToCommSelf entry.1.payload).foldl
    (fun state entry => state.define newCommunicator entry.2
      ⟨.mpiSelf, none, entry.1.name, none, entry.1.payload.rootId⟩) state

end Loop

end ScoreP.Mpi.Unification
