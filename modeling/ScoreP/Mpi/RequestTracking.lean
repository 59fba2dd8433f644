import ScoreP.Foundations.Chain
import ScoreP.Foundations.Transition

/-!
# Requests and their records

Source: `insert_scorep_mpi_request`, `scorep_mpi_request_get`, `scorep_mpi_unmark_request`,
`scorep_mpi_request_free` and the two pools of `scorep_mpi_request_mgmt.c`. The hash table maps a handle to
an entry, and the entry has the list of the records with this handle. A thread is its program counter: one
constructor of `Pc` for each hash-table operation, mutex operation, pool operation, marker store or list
write it is about to perform. A thread that is `idle` may call any of the functions, so a run of `step` is
any interleaving of any programs.

A free list is a `List` here, and the link that releasing writes into a record or an entry is written as
well. `handed`, `live`, `missing` and `pooledStore` are not variables of the source: they record what
happened.
-/

namespace ScoreP.Mpi.Requests

open Foundations Function

/-- `scorep_mpi_request`; `content` is its type, flags, payload and id. -/
structure Request (K D : Type) where
  request : K
  content : D
  next : Option ℕ
  marker : Bool

/-- The union `payload` of an entry. -/
inductive Payload where
  | request (request : Option ℕ)
  | next (next : Option ℕ)
deriving DecidableEq

structure Entry where
  payload : Payload
  requestLock : Bool
deriving DecidableEq

structure Shared (K D T : Type) where
  table : K → Option ℕ
  entries : ℕ → Entry
  /-- The next entry that `SCOREP_Memory_AllocForMisc` returns. -/
  newEntry : ℕ
  requestTableEntryFreeList : List ℕ
  requests : ℕ → Request K D
  newRequest : ℕ
  requestFreeList : List ℕ
  /-- The records that a thread got, and neither unmarked nor freed. -/
  handed : List (T × ℕ)
  /-- The records that were created and not freed. -/
  live : List (K × ℕ)
  /-- A `SCOREP_ERROR_MPI_REQUEST_NOT_REMOVED` was reported. -/
  missing : Bool
  /-- The marker of a record in the free list was stored. -/
  pooledStore : Bool

section Operations

variable {K D T : Type} [DecidableEq K] [DecidableEq T]

namespace Shared

variable (c : Shared K D T)

/-! ## Pools -/

def setEntry (e : ℕ) (entry : Entry) : Shared K D T :=
  { c with entries := update c.entries e entry }

def setRequest (r : ℕ) (request : Request K D) : Shared K D T :=
  { c with requests := update c.requests r request }

def getRequestTableEntryFromPool : ℕ × Shared K D T :=
  match c.requestTableEntryFreeList with
  | [] => (c.newEntry, { c with newEntry := c.newEntry + 1 }.setEntry c.newEntry ⟨.request none, false⟩)
  | e :: rest => (e, { c with requestTableEntryFreeList := rest }.setEntry e ⟨.request none, false⟩)

def releaseRequestTableEntryToPool (e : ℕ) : Shared K D T :=
  { c.setEntry e { c.entries e with payload := .next c.requestTableEntryFreeList.head? } with
    requestTableEntryFreeList := e :: c.requestTableEntryFreeList }

def getScorepRequestFromPool : ℕ × Shared K D T :=
  match c.requestFreeList with
  | [] => (c.newRequest, { c with newRequest := c.newRequest + 1 })
  | r :: rest => (r, { c with requestFreeList := rest })

def releaseScorepRequestToPool (r : ℕ) : Shared K D T :=
  { c.setRequest r { c.requests r with next := c.requestFreeList.head? } with
    requestFreeList := r :: c.requestFreeList }

/-! ## The hash table -/

def requestTableValueCtor (data : Request K D) : ℕ × ℕ × Shared K D T :=
  let (e, c) := c.getRequestTableEntryFromPool
  let (r, c) := c.getScorepRequestFromPool
  (e, r, (c.setRequest r data).setEntry e { c.entries e with payload := .request (some r) })

/-- `request_table_get_and_insert`: whether the entry was inserted, and the entry. -/
def requestTableGetAndInsert (data : Request K D) : Bool × ℕ × Shared K D T :=
  match c.table data.request with
  | some e => (false, e, c)
  | none =>
    let (e, r, c) := c.requestTableValueCtor data
    (true, e, { c with
      table := update c.table data.request (some e)
      live := (data.request, r) :: c.live })

def forget (r : ℕ) : Shared K D T :=
  { c with
    live := c.live.filter fun entry => entry.2 ≠ r
    handed := c.handed.filter fun entry => entry.2 ≠ r }

def requestTableValueDtor (e r : ℕ) : Shared K D T :=
  ((c.forget r).releaseScorepRequestToPool r).releaseRequestTableEntryToPool e

def requestTableRemove (key : K) : Option (Shared K D T) :=
  match c.table key with
  | none => none
  | some e =>
    match (c.entries e).payload with
    | .request (some r) =>
      some { c.requestTableValueDtor e r with table := update c.table key none }
    | _ => none

/-! ## The lock and the list of an entry -/

def mutexLock (e : ℕ) : Option (Shared K D T) :=
  if (c.entries e).requestLock then none
  else some (c.setEntry e { c.entries e with requestLock := true })

def mutexUnlock (e : ℕ) : Shared K D T :=
  c.setEntry e { c.entries e with requestLock := false }

def next (r : ℕ) : Option ℕ :=
  (c.requests r).next

def lastOf : ℕ → ℕ → ℕ
  | 0, r => r
  | fuel + 1, r =>
    match c.next r with
    | none => r
    | some r' => lastOf fuel r'

def firstUnmarked : ℕ → Option ℕ → Option ℕ
  | 0, _ => none
  | _ + 1, none => none
  | fuel + 1, some r => if (c.requests r).marker then firstUnmarked fuel (c.next r) else some r

/-- The record before `req` in a list; `none` is that `req` is not in the list. -/
def findPrevious (req : ℕ) : ℕ → Option ℕ → Option ℕ → Option (Option ℕ)
  | 0, _, _ => none
  | _ + 1, _, none => none
  | fuel + 1, previous, some r =>
    if r = req then some previous else findPrevious req fuel (some r) (c.next r)

/-- `current->next = new_request` at the end of the list. -/
def append (first new : ℕ) : Shared K D T :=
  let last := c.lastOf c.newRequest first
  let c := c.setRequest last { c.requests last with next := some new }
  let c := c.setRequest new { c.requests new with next := none }
  { c with live := ((c.requests new).request, new) :: c.live }

/-- `current` is taken out of the list of the entry. -/
def unlink (e : ℕ) (previous : Option ℕ) (current : ℕ) : Shared K D T :=
  match previous with
  | none => (c.setEntry e { c.entries e with payload := .request (c.next current) }).forget current
  | some r => (c.setRequest r { c.requests r with next := c.next current }).forget current

end Shared

/-! ## Threads -/

inductive Pc (K D : Type) where
  | idle
  -- `insert_scorep_mpi_request`
  | insert (data : Request K D)
  | insertDuplicate (data : Request K D) (origValue : ℕ)
  | insertLock (data : Request K D) (newRequest origValue : ℕ)
  | insertControl (data : Request K D) (newRequest origValue : ℕ)
  | insertInstead (newRequest origValue : ℕ)
  | insertRelease (newRequest : ℕ)
  | insertAppend (newRequest origValue : ℕ)
  | insertUnlock (origValue : ℕ)
  | insertChanged (data : Request K D) (newRequest origValue control : ℕ)
  -- `scorep_mpi_request_get`
  | get (request : K)
  | getLock (request : K) (value : ℕ)
  | getControl (request : K) (value : ℕ)
  | getMark (value : ℕ)
  | getUnlock (value : ℕ)
  | getChanged (request : K) (value control : ℕ)
  -- `scorep_mpi_request_free`
  | free (req : ℕ)
  | freeLock (req value : ℕ)
  | freeControl (req value : ℕ)
  | freeUnlink (req value : ℕ)
  | freeUnlock (value : ℕ)
  | freeUnlockRelease (value current : ℕ)
  | freeRelease (current : ℕ)
  | freeChanged (req value control : ℕ)

/-- The next operation of thread `t`. There is none while it waits for a lock. -/
def operation (t : T) (c : Shared K D T) : Pc K D → Option (Shared K D T × Pc K D)
  | .idle => none
  | .insert data =>
    match c.requestTableGetAndInsert data with
    | (true, _, c) => some (c, .idle)
    | (false, origValue, c) => some (c, .insertDuplicate data origValue)
  | .insertDuplicate data origValue =>
    let (newRequest, c) := c.getScorepRequestFromPool
    some (c.setRequest newRequest data, .insertLock data newRequest origValue)
  | .insertLock data newRequest origValue =>
    (c.mutexLock origValue).map fun c => (c, .insertControl data newRequest origValue)
  | .insertControl data newRequest origValue =>
    match c.requestTableGetAndInsert data with
    | (true, _, c) => some (c, .insertInstead newRequest origValue)
    | (false, control, c) =>
      if origValue = control then some (c, .insertAppend newRequest origValue)
      else some (c, .insertChanged data newRequest origValue control)
  | .insertInstead newRequest origValue => some (c.mutexUnlock origValue, .insertRelease newRequest)
  | .insertRelease newRequest => some (c.releaseScorepRequestToPool newRequest, .idle)
  | .insertAppend newRequest origValue =>
    match (c.entries origValue).payload with
    | .request (some first) => some (c.append first newRequest, .insertUnlock origValue)
    | _ => none
  | .insertUnlock origValue => some (c.mutexUnlock origValue, .idle)
  | .insertChanged data newRequest origValue control =>
    some (c.mutexUnlock origValue, .insertLock data newRequest control)
  | .get request =>
    match c.table request with
    | none => some (c, .idle)
    | some value => some (c, .getLock request value)
  | .getLock request value => (c.mutexLock value).map fun c => (c, .getControl request value)
  | .getControl request value =>
    match c.table request with
    | none => some (c, .getUnlock value)
    | some control =>
      if control = value then some (c, .getMark value) else some (c, .getChanged request value control)
  | .getMark value =>
    match (c.entries value).payload with
    | .request first =>
      match c.firstUnmarked c.newRequest first with
      | none => some (c, .getUnlock value)
      | some current =>
        let c := c.setRequest current { c.requests current with marker := true }
        some ({ c with handed := (t, current) :: c.handed }, .getUnlock value)
    | .next _ => none
  | .getUnlock value => some (c.mutexUnlock value, .idle)
  | .getChanged request value control => some (c.mutexUnlock value, .getLock request control)
  | .free req =>
    match c.table (c.requests req).request with
    | none => some ({ c with missing := true }, .idle)
    | some value => some (c, .freeLock req value)
  | .freeLock req value => (c.mutexLock value).map fun c => (c, .freeControl req value)
  | .freeControl req value =>
    match c.table (c.requests req).request with
    | none => some ({ c with missing := true }, .freeUnlock value)
    | some control =>
      if control = value then some (c, .freeUnlink req value)
      else some (c, .freeChanged req value control)
  | .freeUnlink req value =>
    match (c.entries value).payload with
    | .request none => some ({ c with missing := true }, .freeUnlock value)
    | .request (some first) =>
      if c.next first = none ∧ first = req then
        match c.requestTableRemove (c.requests req).request with
        | none => some ({ c with missing := true }, .freeUnlock value)
        | some c => some (c, .freeUnlock value)
      else
        match c.findPrevious req c.newRequest none (some first) with
        | none => some ({ c with missing := true }, .freeUnlock value)
        | some previous => some (c.unlink value previous req, .freeUnlockRelease value req)
    | .next _ => none
  | .freeUnlock value => some (c.mutexUnlock value, .idle)
  | .freeUnlockRelease value current => some (c.mutexUnlock value, .freeRelease current)
  | .freeRelease current => some (c.releaseScorepRequestToPool current, .idle)
  | .freeChanged req value control => some (c.mutexUnlock value, .freeLock req control)

inductive Call (K D : Type) where
  /-- Any of the functions `scorep_mpi_request_*_create`. -/
  | create (request : K) (content : D)
  | get (request : K)
  | unmark (req : ℕ)
  | free (req : ℕ)

def unmarkRequest (t : T) (c : Shared K D T) (req : ℕ) : Shared K D T :=
  { c.setRequest req { c.requests req with marker := false } with
    handed := c.handed.filter fun entry => entry ≠ (t, req)
    pooledStore := c.pooledStore || c.requestFreeList.contains req }

/-- A call of thread `t`. A record is freed by a thread that got it and did not give it back. -/
def callOf (t : T) (c : Shared K D T) : Call K D → Option (Shared K D T × Pc K D)
  | .create request content => some (c, .insert ⟨request, content, none, false⟩)
  | .get request => some (c, .get request)
  | .unmark req => some (unmarkRequest t c req, .idle)
  | .free req => if (t, req) ∈ c.handed then some (c, .free req) else none

structure State (K D T : Type) where
  shared : Shared K D T
  pcs : T → Pc K D

inductive Action (K D : Type) where
  | call (call : Call K D)
  | run

def isIdle : Pc K D → Bool
  | .idle => true
  | _ => false

def next (s : State K D T) (t : T) : Action K D → Option (State K D T)
  | .call call =>
    if isIdle (s.pcs t) then
      (callOf t s.shared call).map fun (c, pc) => ⟨c, update s.pcs t pc⟩
    else none
  | .run => (operation t s.shared (s.pcs t)).map fun (c, pc) => ⟨c, update s.pcs t pc⟩

def step (s : State K D T) (a : T × Action K D) (s' : State K D T) : Prop :=
  next s a.1 a.2 = some s'

variable (K T) in
def initial (entries : ℕ → Entry) (requests : ℕ → Request K D) : State K D T where
  shared := ⟨fun _ => none, entries, 0, [], requests, 0, [], [], [], false, false⟩
  pcs := fun _ => .idle

end Operations

end ScoreP.Mpi.Requests
