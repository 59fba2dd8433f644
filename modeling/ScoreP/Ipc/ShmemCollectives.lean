import ScoreP.Foundations.Regions

/-!
# Collective operations over SHMEM

Source: `SCOREP_IpcGroup_Bcast`, `_Gather`, `_Gatherv`, `_Allgather`, `_Scatter` and `_Scatterv` of
`scorep_ipc_shmem.c`. A call is the call of all `size` processing elements of the world group, whose numbers
start at 0: what they do between two barriers is done for each of them, and the routines of the SHMEM
library work on the memories of all. An array over the processing elements is a function of their number.

The bytes of `char*` and the elements of the `BROKEN_SHMEM_COLLECT` padding are cells of any type with a
zero. Byte counts are natural numbers. The functions answer a `UTILS_BUG_ON` with `none`.
-/

namespace ScoreP.Ipc

open Foundations.Region Function

inductive Datatype where
  | byte
  | char
  | unsignedChar
  | int
  | unsigned
  | int32T
  | uint32T
  | int64T
  | uint64T
  | double
deriving DecidableEq

/-- `sizeof_ipc_datatypes` -/
def Datatype.sizeof : Datatype → ℕ
  | .byte | .char | .unsignedChar => 1
  | .int | .unsigned | .int32T | .uint32T => 4
  | .int64T | .uint64T | .double => 8

def Datatype.isOneByte (datatype : Datatype) : Bool :=
  datatype = .byte || datatype = .char || datatype = .unsignedChar

theorem sizeof_of_isOneByte {datatype : Datatype} (h : datatype.isOneByte = true) : datatype.sizeof = 1 := by
  cases datatype <;> first | rfl | exact absurd h Bool.false_ne_true

def ceil (a b : ℕ) : ℕ :=
  a / b + if a % b > 0 then 1 else 0

def roundUpTo (a b : ℕ) : ℕ :=
  ceil a b * b

def bufferSize : ℕ :=
  8 * 1024

section

variable (β : Type)

structure SymmetricBuffers where
  symmetricBufferA : ℕ → β
  symmetricBufferB : ℕ → β

/-- The routines of the SHMEM library. `wordSize` is the size of an element, 4 for the routines that end in
32 and 8 for those that end in 64; `target` and `source` are the memories of all processing elements. -/
structure Library where
  putmem (target source : ℕ → β) (sourceOffset len : ℕ) : ℕ → β
  broadcast (wordSize nelems root size : ℕ) (target source : ℕ → ℕ → β) : ℕ → ℕ → β
  fcollect (wordSize nelems size : ℕ) (target source : ℕ → ℕ → β) : ℕ → ℕ → β
  collect (wordSize : ℕ) (nelems : ℕ → ℕ) (size : ℕ) (target source : ℕ → ℕ → β) : ℕ → ℕ → β

end

variable {β : Type}

structure Library.Specified (library : Library β) : Prop where
  putmem : ∀ target source sourceOffset len,
    library.putmem target source sourceOffset len = write target 0 (read source sourceOffset len)
  broadcast : ∀ wordSize nelems root size target source pe,
    library.broadcast wordSize nelems root size target source pe =
      if pe = root then target pe else write (target pe) 0 (read (source root) 0 (nelems * wordSize))
  fcollect : ∀ wordSize nelems size target source pe, library.fcollect wordSize nelems size target source pe =
      write (target pe) 0 ((List.range size).flatMap fun i => read (source i) 0 (nelems * wordSize))
  collect : ∀ wordSize nelems size target source pe, library.collect wordSize nelems size target source pe =
      write (target pe) 0 ((List.range size).flatMap fun i => read (source i) 0 (nelems i * wordSize))

def memcpy (target : ℕ → β) (targetOffset : ℕ) (source : ℕ → β) (sourceOffset len : ℕ) : ℕ → β :=
  write target targetOffset (read source sourceOffset len)

section Functions

variable (library : Library β) (size : ℕ) (datatype : Datatype) (sendbuf recvbuf : ℕ → ℕ → β)
  (buffers : ℕ → SymmetricBuffers β)

abbrev Result (β : Type) := (ℕ → ℕ → β) × (ℕ → SymmetricBuffers β)

/-- `SCOREP_IpcGroup_Bcast`, where `recvbuf` is `buf`. -/
def bcast (count root : ℕ) : Option (Result β) :=
  let numElements := if datatype.isOneByte then roundUpTo count 4 else count
  if numElements * datatype.sizeof > bufferSize then none
  else
    let a := fun pe =>
      if root = pe then memcpy (buffers pe).symmetricBufferA 0 (recvbuf pe) 0 (count * datatype.sizeof)
      else (buffers pe).symmetricBufferA
    let a' :=
      match datatype with
      | .byte | .char | .unsignedChar => library.broadcast 4 (ceil count 4) root size a a
      | .int | .unsigned | .int32T | .uint32T => library.broadcast 4 count root size a a
      | .int64T | .uint64T | .double => library.broadcast 8 count root size a a
    some (fun pe =>
        if root ≠ pe then memcpy (recvbuf pe) 0 (a' pe) 0 (count * datatype.sizeof) else recvbuf pe,
      fun pe => ⟨a' pe, (buffers pe).symmetricBufferB⟩)

/-- The `fcollect` of `SCOREP_IpcGroup_Gather` and `SCOREP_IpcGroup_Allgather`. -/
def fcollectBlocks (count : ℕ) (b a : ℕ → ℕ → β) : ℕ → ℕ → β :=
  match datatype with
  | .byte | .char | .unsignedChar => library.fcollect 4 (ceil count 4) size b a
  | .int | .unsigned | .int32T | .uint32T => library.fcollect 4 count size b a
  | .int64T | .uint64T | .double => library.fcollect 8 count size b a

/-- The copy of `SCOREP_IpcGroup_Gather` and `SCOREP_IpcGroup_Allgather` from `symmetric_buffer_b`. -/
def unpackBlocks (count : ℕ) (recvbuf b : ℕ → β) : ℕ → β :=
  if datatype.isOneByte then
    ((List.range size).foldl (fun state i =>
        (List.range count).foldl (fun (state : (ℕ → β) × ℕ) j =>
            (update state.1 state.2 (b (j + i * count)), state.2 + 1))
          state)
      (recvbuf, 0)).1
  else memcpy recvbuf 0 b 0 (size * count * datatype.sizeof)

/-- The blocks that `SCOREP_IpcGroup_Gather` and `SCOREP_IpcGroup_Allgather` exchange. -/
def gatherBlocks (count : ℕ) : Option (ℕ → SymmetricBuffers β) :=
  let numElements := if datatype.isOneByte then roundUpTo count 4 else count
  if size * numElements * datatype.sizeof > bufferSize then none
  else
    let a := fun pe => memcpy (buffers pe).symmetricBufferA 0 (sendbuf pe) 0 (count * datatype.sizeof)
    let b := fcollectBlocks library size datatype count (fun pe => (buffers pe).symmetricBufferB) a
    some fun pe => ⟨a pe, b pe⟩

def gather (count root : ℕ) : Option (Result β) := do
  let buffers ← gatherBlocks library size datatype sendbuf buffers count
  return (fun pe =>
      if pe = root then unpackBlocks size datatype count (recvbuf pe) (buffers pe).symmetricBufferB
      else recvbuf pe,
    buffers)

def allgather (count : ℕ) : Option (Result β) :=
  if count = 0 then some (recvbuf, buffers)
  else do
    let buffers ← gatherBlocks library size datatype sendbuf buffers count
    return (fun pe => unpackBlocks size datatype count (recvbuf pe) (buffers pe).symmetricBufferB, buffers)

section Gatherv

variable [Zero β]

def numSendElements (sendcountExtra sendcount : ℕ) : ℕ :=
  if datatype.isOneByte then roundUpTo (sendcount + sendcountExtra) 4 else sendcount + sendcountExtra

/-- The copy of `SCOREP_IpcGroup_Gatherv` from `symmetric_buffer_b`. -/
def unpackv (sendcountExtra : ℕ) (recvcnts : ℕ → ℕ) (recvbuf b : ℕ → β) : ℕ → β :=
  if datatype.isOneByte then
    ((List.range size).foldl (fun (state : ((ℕ → β) × ℕ) × ℕ) i =>
        ((List.range (recvcnts i)).foldl (fun (inner : (ℕ → β) × ℕ) j =>
              (update inner.1 inner.2 (b (j + state.2)), inner.2 + 1))
            state.1,
          state.2 + roundUpTo (recvcnts i + sendcountExtra) 4))
      ((recvbuf, 0), 0)).1.1
  else
    ((List.range size).foldl (fun (state : ((ℕ → β) × ℕ) × ℕ) i =>
        ((memcpy state.1.1 state.1.2 b state.2 (recvcnts i * datatype.sizeof),
            state.1.2 + recvcnts i * datatype.sizeof),
          state.2 + (recvcnts i + sendcountExtra) * datatype.sizeof))
      ((recvbuf, 0), 0)).1.1

/-- `SCOREP_IpcGroup_Gatherv`, where the processing element `pe` sends `counts pe` elements. -/
def gatherv (brokenShmemCollect : Bool) (counts : ℕ → ℕ) (root : ℕ) : Option (Result β) :=
  let sendcountExtra := if brokenShmemCollect then 1 else 0
  let total := (List.range size).foldl
    (fun total i => total + numSendElements datatype sendcountExtra (counts i)) 0
  if (∃ pe < size, numSendElements datatype sendcountExtra (counts pe) * datatype.sizeof > bufferSize) ∨
      total * datatype.sizeof > bufferSize then none
  else
    let a := fun pe =>
      write (memcpy (buffers pe).symmetricBufferA 0 (sendbuf pe) 0 (counts pe * datatype.sizeof))
        (counts pe * datatype.sizeof) (List.replicate (sendcountExtra * datatype.sizeof) 0)
    let b := fun pe => (buffers pe).symmetricBufferB
    let b' :=
      match datatype with
      | .byte | .char | .unsignedChar =>
        library.collect 4 (fun pe => ceil (counts pe + sendcountExtra) 4) size b a
      | .int | .unsigned | .int32T | .uint32T =>
        library.collect 4 (fun pe => counts pe + sendcountExtra) size b a
      | .int64T | .uint64T | .double =>
        library.collect 8 (fun pe => counts pe + sendcountExtra) size b a
    some (fun pe =>
        if pe = root then unpackv size datatype sendcountExtra counts (recvbuf pe) (b' pe) else recvbuf pe,
      fun pe => ⟨a pe, b' pe⟩)

end Gatherv

/-- The copy that the receivers of a scatter make from `symmetric_buffer_b`. -/
def receiveScattered (recvcounts : ℕ → ℕ) (root : ℕ) (recvbufOfRoot : ℕ → β)
    (buffers : ℕ → SymmetricBuffers β) : Result β :=
  (fun pe =>
      if pe = root then recvbufOfRoot
      else memcpy (recvbuf pe) 0 (buffers pe).symmetricBufferB 0 (recvcounts pe * datatype.sizeof),
    buffers)

/-- The root gives a block of its send buffer to a receiver: to itself with `memcpy`, to the others with
`pshmem_putmem`. -/
def giveBlock (root receiver sourceOffset len : ℕ)
    (state : (ℕ → β) × (ℕ → SymmetricBuffers β)) : (ℕ → β) × (ℕ → SymmetricBuffers β) :=
  if receiver = root then (memcpy state.1 0 (sendbuf root) sourceOffset len, state.2)
  else
    (state.1, update state.2 receiver
      { state.2 receiver with
        symmetricBufferB :=
          library.putmem (state.2 receiver).symmetricBufferB (sendbuf root) sourceOffset len })

def scatter (count root : ℕ) : Option (Result β) :=
  if count * datatype.sizeof > bufferSize then none
  else
    let sent := (List.range size).foldl
      (fun state receiver => giveBlock library sendbuf root receiver (receiver * count * datatype.sizeof)
        (count * datatype.sizeof) state)
      (recvbuf root, buffers)
    some (receiveScattered datatype recvbuf (fun _ => count) root sent.1 sent.2)

/-- `SCOREP_IpcGroup_Scatterv`, where the processing element `pe` receives `counts pe` elements. -/
def scatterv (counts : ℕ → ℕ) (root : ℕ) : Option (Result β) :=
  if ∃ pe < size, counts pe * datatype.sizeof > bufferSize then none
  else
    let sent := (List.range size).foldl (fun (state : ((ℕ → β) × (ℕ → SymmetricBuffers β)) × ℕ) receiver =>
        (giveBlock library sendbuf root receiver (state.2 * datatype.sizeof)
            (counts receiver * datatype.sizeof) state.1,
          state.2 + counts receiver))
      ((recvbuf root, buffers), 0)
    some (receiveScattered datatype recvbuf counts root sent.1.1 sent.1.2)

end Functions

/-! ## Calls -/

inductive Collective where
  | bcast (count root : ℕ)
  | gather (count root : ℕ)
  | gatherv (counts : ℕ → ℕ) (root : ℕ)
  | allgather (count : ℕ)
  | scatter (count root : ℕ)
  | scatterv (counts : ℕ → ℕ) (root : ℕ)

/-- A call of all processing elements, `none` when a buffer check fails. -/
def Collective.perform [Zero β] (library : Library β) (brokenShmemCollect : Bool) (size : ℕ)
    (datatype : Datatype) (sendbuf recvbuf : ℕ → ℕ → β) (buffers : ℕ → SymmetricBuffers β) :
    Collective → Option (Result β)
  | .bcast count root => Ipc.bcast library size datatype recvbuf buffers count root
  | .gather count root => Ipc.gather library size datatype sendbuf recvbuf buffers count root
  | .gatherv counts root =>
    Ipc.gatherv library size datatype sendbuf recvbuf buffers brokenShmemCollect counts root
  | .allgather count => Ipc.allgather library size datatype sendbuf recvbuf buffers count
  | .scatter count root => Ipc.scatter library size datatype sendbuf recvbuf buffers count root
  | .scatterv counts root => Ipc.scatterv library size datatype sendbuf recvbuf buffers counts root

end ScoreP.Ipc
