import Mathlib.Algebra.Group.Int.Defs
import ScoreP.Foundations.Reduction
import ScoreP.Ipc.ShmemCollectives

/-!
# Reductions over SHMEM

Source: `SCOREP_IpcGroup_Reduce`, `SCOREP_IpcGroup_Allreduce` and `get_pwork` of `scorep_ipc_shmem.c`. As in
`ShmemCollectives` a call is the call of all processing elements. They make the same calls, and so the
symmetric work array has the same size on each of them: `currentPworkSize` is one number, and it is the size
of the array that a call passes as `pWrk`. An allocation succeeds.

Elements are the natural numbers of their bytes, the first byte the lowest.
-/

namespace ScoreP.Ipc

open Foundations.Region
open Foundations.Reduction (reducedMemory)

abbrev Byte := BitVec 8

inductive Operation where
  | band
  | bor
  | min
  | max
  | sum
deriving DecidableEq

/-! ## The routines of the library -/

/-- The types of the `*_to_all` routines that are called. -/
inductive ReductionType where
  | short
  | int
  | longlong
deriving DecidableEq

def ReductionType.sizeof : ReductionType → ℕ
  | .short => 2
  | .int => 4
  | .longlong => 8

/-- The value of `w` bytes in two's complement. -/
def toSigned (w x : ℕ) : ℤ :=
  if 2 * x < 256 ^ w then x else x - 256 ^ w

/-- What the routines do to two elements of a signed type of `w` bytes. -/
def combineSigned (w : ℕ) (operation : Operation) (x y : ℕ) : ℕ :=
  match operation with
  | .band => x &&& y
  | .bor => x ||| y
  | .min => if toSigned w y < toSigned w x then y else x
  | .max => if toSigned w x < toSigned w y then y else x
  | .sum => (x + y) % 256 ^ w

/-- The `*_to_all` routines and `_SHMEM_REDUCE_MIN_WRKDATA_SIZE`. `pWrk` is the size of the work array in
bytes. -/
structure ReductionLibrary where
  minWrkdataSize : ℕ
  toAll (type : ReductionType) (operation : Operation) (nreduce size pWrk : ℕ)
    (target source : ℕ → ℕ → Byte) : ℕ → ℕ → Byte

def ReductionLibrary.requiredWork (library : ReductionLibrary) (type : ReductionType) (nreduce : ℕ) : ℕ :=
  max (nreduce / 2 + 1) library.minWrkdataSize * type.sizeof

structure ReductionLibrary.Specified (library : ReductionLibrary) : Prop where
  toAll : ∀ type operation nreduce size pWrk target source,
    library.requiredWork type nreduce ≤ pWrk → ∀ pe < size,
      library.toAll type operation nreduce size pWrk target source pe = write (target pe) 0
          (read (reducedMemory (combineSigned type.sizeof operation) type.sizeof size source) 0
            (nreduce * type.sizeof))

/-! ## Calls -/

structure ReductionState where
  currentPworkSize : ℕ
  buffers : ℕ → SymmetricBuffers Byte

/-- After `SCOREP_Ipc_Init`. -/
def ReductionLibrary.initialState (library : ReductionLibrary) (buffers : ℕ → SymmetricBuffers Byte) :
    ReductionState :=
  ⟨library.minWrkdataSize * 8, buffers⟩

/-- `get_pwork`, the size of the array afterwards. -/
def getPwork (size count currentPworkSize : ℕ) : ℕ :=
  let nreduceSize := (count / 2 + 1) * size
  if nreduceSize < currentPworkSize then nreduceSize else currentPworkSize

variable (library : ReductionLibrary) (size : ℕ) (datatype : Datatype) (operation : Operation)
  (sendbuf recvbuf : ℕ → ℕ → Byte) (state : ReductionState)

/-- What `SCOREP_IpcGroup_Reduce` and `SCOREP_IpcGroup_Allreduce` do to the symmetric memory. -/
def reduction (count : ℕ) : Option ReductionState :=
  let numElements := if datatype.isOneByte then roundUpTo count 2 else count
  if numElements * datatype.sizeof > bufferSize then none
  else
    let a := fun pe =>
      memcpy (state.buffers pe).symmetricBufferA 0 (sendbuf pe) 0 (count * datatype.sizeof)
    let b := fun pe => (state.buffers pe).symmetricBufferB
    match datatype with
    | .byte | .char | .unsignedChar =>
      let nreduce := ceil count 2
      let pWrk := getPwork 2 nreduce state.currentPworkSize
      let b' := library.toAll .short operation nreduce size pWrk b a
      some ⟨pWrk, fun pe => ⟨a pe, b' pe⟩⟩
    | .int | .unsigned | .int32T | .uint32T =>
      let pWrk := getPwork 4 count state.currentPworkSize
      let b' := library.toAll .int operation count size pWrk b a
      some ⟨pWrk, fun pe => ⟨a pe, b' pe⟩⟩
    | .int64T | .uint64T | .double =>
      let b' := library.toAll .longlong operation count size state.currentPworkSize b a
      some ⟨state.currentPworkSize, fun pe => ⟨a pe, b' pe⟩⟩

def reduce (count root : ℕ) : Option ((ℕ → ℕ → Byte) × ReductionState) :=
  if count = 0 then some (recvbuf, state)
  else do
    let state ← reduction library size datatype operation sendbuf state count
    return (fun pe =>
        if pe = root then
          memcpy (recvbuf pe) 0 (state.buffers pe).symmetricBufferB 0 (count * datatype.sizeof)
        else recvbuf pe,
      state)

def allreduce (count : ℕ) : Option ((ℕ → ℕ → Byte) × ReductionState) := do
  let state ← reduction library size datatype operation sendbuf state count
  return (fun pe => memcpy (recvbuf pe) 0 (state.buffers pe).symmetricBufferB 0 (count * datatype.sizeof),
    state)

/-- A call of `SCOREP_IpcGroup_Reduce`, or of `SCOREP_IpcGroup_Allreduce` when there is no root. -/
structure ReductionCall where
  datatype : Datatype
  operation : Operation
  count : ℕ
  root : Option ℕ

def ReductionCall.perform (call : ReductionCall) : Option ((ℕ → ℕ → Byte) × ReductionState) :=
  match call.root with
  | some root => Ipc.reduce library size call.datatype call.operation sendbuf recvbuf state call.count root
  | none => allreduce library size call.datatype call.operation sendbuf recvbuf state call.count

end ScoreP.Ipc
