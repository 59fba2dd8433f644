import ScoreP.Foundations.Transition
import ScoreP.Ipc.ShmemReductions

/-!
# Transfers over SHMEM

Source: `SCOREP_IpcGroup_Send` and `SCOREP_IpcGroup_Recv` of `scorep_ipc_shmem.c`. The processing elements run
programs of such calls, and each step is one read of another processing element's counter, one put, one
successful wait or one local write. A put is complete when the next step is taken (`pshmem_quiet`). `pc` is
the number of the statement that a processing element executes next, and `next` the number of the call.

A call passes `count * sizeof_ipc_datatypes[ datatype ]` bytes: `buf` are those of a send, and `count` is the
number of those of a receive. Counters are natural numbers. The fields that record what has been read do not
exist in the source: a signal is unread from its put until a wait that it ends, and a buffer from its put
until it is copied.
-/

namespace ScoreP.Ipc

open Foundations Function
open Foundations.Region

inductive TransferStatus where
  | invalidTransferState
  | transferStart
  | transferSenderComplete
  | transferReceiverComplete
deriving DecidableEq

structure TransferMemory where
  transferStatus : TransferStatus
  symmetricBufferA : ℕ → Byte
  statusUnread : Bool
  bufferUnread : Bool

/-- A call of `SCOREP_IpcGroup_Send` or `SCOREP_IpcGroup_Recv`. -/
inductive TransferCall (PE : Type) where
  | send (buf : List Byte) (dest : PE)
  | recv (count : ℕ) (source : PE)

def TransferCall.partner {PE : Type} : TransferCall PE → PE
  | .send _ dest => dest
  | .recv _ source => source

structure TransferState (PE : Type) where
  next : PE → ℕ
  pc : PE → ℕ
  transferCounter : PE → PE → ℕ
  memory : PE → TransferMemory
  /-- what the calls of `SCOREP_IpcGroup_Recv` have copied, by the number of the call -/
  buf : PE → ℕ → Option (List Byte)
  /-- a put overwrote a value that was unread -/
  overwritten : Bool
  /-- a reset erased a signal that was unread -/
  erased : Bool

variable {PE : Type} [DecidableEq PE]

namespace TransferState

variable (s : TransferState PE) (pe : PE)

def advance : TransferState PE :=
  { s with pc := update s.pc pe (s.pc pe + 1) }

def finish : TransferState PE :=
  { s with pc := update s.pc pe 0, next := update s.next pe (s.next pe + 1) }

/-- `transfer_counter[ partner ]++` -/
def countTransfer (partner : PE) : TransferState PE :=
  { s with
    transferCounter := update s.transferCounter pe
      (update (s.transferCounter pe) partner (s.transferCounter pe partner + 1)) }

/-- `pshmem_int_p` of `transfer_status` -/
def putStatus (value : TransferStatus) (partner : PE) : TransferState PE :=
  { s with
    memory := update s.memory partner
      { s.memory partner with transferStatus := value, statusUnread := true }
    overwritten := s.overwritten || (s.memory partner).statusUnread }

/-- `pshmem_putmem` of `symmetric_buffer_a` -/
def putBuffer (buf : List Byte) (partner : PE) : TransferState PE :=
  { s with
    memory := update s.memory partner
      { s.memory partner with
        symmetricBufferA := write (s.memory partner).symmetricBufferA 0 buf
        bufferUnread := true }
    overwritten := s.overwritten || (s.memory partner).bufferUnread }

/-- The end of `pshmem_int_wait_until`. -/
def readStatus : TransferState PE :=
  { s with memory := update s.memory pe { s.memory pe with statusUnread := false } }

/-- The copy out of `symmetric_buffer_a`. -/
def copyBuffer (count : ℕ) : TransferState PE :=
  { s with
    memory := update s.memory pe { s.memory pe with bufferUnread := false }
    buf := update s.buf pe
      (update (s.buf pe) (s.next pe) (some (read (s.memory pe).symmetricBufferA 0 count))) }

/-- `*transfer_status = INVALID_TRANSFER_STATE` -/
def resetStatus : TransferState PE :=
  { s with
    memory := update s.memory pe
      { s.memory pe with transferStatus := .invalidTransferState, statusUnread := false }
    erased := s.erased || (s.memory pe).statusUnread }

def poll (partner : PE) : TransferState PE :=
  if s.transferCounter partner pe = s.transferCounter pe partner then s.advance pe else s

/-- `pshmem_int_wait_until`, which has no step before the status is there. -/
def waitUntil (value : TransferStatus) : Option (TransferState PE) :=
  if (s.memory pe).transferStatus = value then some ((s.readStatus pe).advance pe) else none

end TransferState

def send (pe : PE) (buf : List Byte) (dest : PE) (s : TransferState PE) : Option (TransferState PE) :=
  if buf.length > bufferSize then none
  else
    match s.pc pe with
    | 0 => some ((s.countTransfer pe dest).advance pe)
    | 1 => some (s.poll pe dest)
    | 2 => s.waitUntil pe .transferStart
    | 3 => some ((s.putBuffer buf dest).advance pe)
    | 4 => some ((s.putStatus .transferSenderComplete dest).advance pe)
    | 5 => s.waitUntil pe .transferReceiverComplete
    | _ => some ((s.resetStatus pe).finish pe)

def recv (pe : PE) (count : ℕ) (source : PE) (s : TransferState PE) : Option (TransferState PE) :=
  match s.pc pe with
  | 0 => some ((s.countTransfer pe source).advance pe)
  | 1 => some (s.poll pe source)
  | 2 => some ((s.putStatus .transferStart source).advance pe)
  | 3 => s.waitUntil pe .transferSenderComplete
  | 4 => some ((s.copyBuffer pe count).advance pe)
  | 5 => some ((s.putStatus .transferReceiverComplete source).advance pe)
  | _ => some ((s.resetStatus pe).finish pe)

def TransferState.current (program : PE → List (TransferCall PE)) (s : TransferState PE) (pe : PE) :
    Option (TransferCall PE) :=
  (program pe)[s.next pe]?

def transferStep (program : PE → List (TransferCall PE)) (s : TransferState PE) (pe : PE) :
    Option (TransferState PE) :=
  match s.current program pe with
  | some (.send buf dest) => send pe buf dest s
  | some (.recv count source) => recv pe count source s
  | none => none

/-- After `SCOREP_Ipc_Init`. -/
def TransferState.initial (symmetricBufferA : PE → ℕ → Byte) : TransferState PE where
  next _ := 0
  pc _ := 0
  transferCounter _ _ := 0
  memory pe := ⟨.invalidTransferState, symmetricBufferA pe, false, false⟩
  buf _ _ := none
  overwritten := false
  erased := false

def TransferRun (program : PE → List (TransferCall PE)) :
    TransferState PE → List PE → TransferState PE → Prop :=
  Steps fun s pe s' => transferStep program s pe = some s'

/-! ## Programs -/

/-- The programs that a synchronous matching pairs up: two calls that are the next ones of their programs
are executed together, until all programs have ended. -/
inductive Matched : (PE → List (TransferCall PE)) → Prop
  | done {program : PE → List (TransferCall PE)} (h : ∀ pe, program pe = []) : Matched program
  | transfer {program : PE → List (TransferCall PE)} {sender receiver : PE} {buf : List Byte}
      {rest rest' : List (TransferCall PE)} (hne : sender ≠ receiver)
      (hsend : program sender = .send buf receiver :: rest)
      (hrecv : program receiver = .recv buf.length sender :: rest')
      (h : Matched (update (update program sender rest) receiver rest')) :
      Matched program

def callsWith (program : PE → List (TransferCall PE)) (pe partner : PE) : List (TransferCall PE) :=
  (program pe).filter fun call => call.partner = partner

/-- How many of the calls before the call number `i` are calls with a partner. -/
def callNumber (program : PE → List (TransferCall PE)) (pe partner : PE) (i : ℕ) : ℕ :=
  ((program pe).take i).countP fun call => call.partner = partner

end ScoreP.Ipc
