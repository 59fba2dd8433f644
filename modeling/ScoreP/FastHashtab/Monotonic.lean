import ScoreP.FastHashtab.Template
import ScoreP.Foundations.Transition

/-!
# The concurrent hash table without removal

Source: `src/utils/include/SCOREP_FastHashtab.h`, an instantiation of
`SCOREP_HASH_TABLE_MONOTONIC( prefix, nPairsPerChunk, hashTableSize )` used by any number of
threads. `Loc` lists where a thread is inside `prefix_get` or `prefix_get_and_insert`, with the
values of its local variables, and `Shared.act` performs its next step: one atomic load or store of
`bucket->size`, one lock operation, one write of a slot or of a chunk pointer, or the comparison
with one slot. Every interleaving of such steps is a run of `step`.

A slot, and the link of a chunk, holds `none` until it is written. A thread that reads such a slot,
follows a null pointer or such a link, leaves the bounds of a chunk or lets a `UTILS_BUG_ON` fire is
at `Loc.fault` from then on.
-/

namespace ScoreP.FastHashtab.Monotonic

open Function

variable {K V I : Type}

/-- `prefix_chunk_t`. -/
structure Chunk (K V : Type) where
  keys : ℕ → Option K
  values : ℕ → Option V
  next : Option (Option ℕ)

/-- What `prefix_allocate_chunk` returns. -/
def Chunk.unwritten : Chunk K V where
  keys := fun _ => none
  values := fun _ => none
  next := none

structure Shared (K V : Type) where
  size : ℕ → ℕ
  insertLock : ℕ → Bool
  bucketChunk : ℕ → Option ℕ
  heap : ℕ → Chunk K V
  allocated : ℕ

def Shared.init : Shared K V where
  size := fun _ => 0
  insertLock := fun _ => false
  bucketChunk := fun _ => none
  heap := fun _ => .unwritten
  allocated := 0

inductive Call (K : Type)
  | get (key : K)
  | getAndInsert (key : K)

def Call.key : Call K → K
  | .get key => key
  | .getAndInsert key => key

/-- The three search loops: of `SCOREP_HASH_TABLE_GET`, of `SCOREP_HASH_TABLE_INSERT_1` while
waiting for the lock, and behind it. -/
inductive Phase
  | get
  | wait
  | locked
  deriving DecidableEq

inductive Loc (K V : Type)
  -- `SCOREP_HASH_TABLE_GET`
  | load
  | search (phase : Phase) (i j currentSize : ℕ) (chunk : ChunkRef)
  | reload (i j oldSize : ℕ) (chunk : ChunkRef)
  | readValue (j : ℕ) (chunk : ChunkRef)
  -- `SCOREP_HASH_TABLE_INSERT_1`
  | trylock (i j oldSize : ℕ) (chunk : ChunkRef)
  | loadWait (i j oldSize : ℕ) (chunk : ChunkRef)
  | loadLocked (i j : ℕ) (chunk : ChunkRef)
  | unlockFound (j : ℕ) (chunk : ChunkRef)
  -- `SCOREP_HASH_TABLE_NEW_CHUNK_MONOTONIC`
  | newChunk (currentSize j : ℕ) (chunk : ChunkRef)
  | nextNull (currentSize j : ℕ) (chunk : ChunkRef)
  -- `SCOREP_HASH_TABLE_INSERT_2`
  | writeKey (currentSize j : ℕ) (chunk : ChunkRef)
  | valueCtor (currentSize j : ℕ) (chunk : ChunkRef)
  | writeValue (currentSize j : ℕ) (chunk : ChunkRef) (value : V)
  | storeSize (currentSize j : ℕ) (chunk : ChunkRef)
  | unlock (j : ℕ) (chunk : ChunkRef)
  | readInserted (j : ℕ) (chunk : ChunkRef)
  -- `*value` is assigned
  | returnGet (value : Option V)
  | returnInsert (value : V) (inserted : Bool)
  | fault

/-- What a step does not determine itself: the next call of an idle thread, and what
`prefix_value_ctor` leaves in the place of the key and returns. -/
inductive Input (K V : Type)
  | call (call : Call K)
  | ctor (stored : K) (value : V)
  | run

namespace Shared

variable (T : Template K) (c : Shared K V) (b : ℕ)

/-- `*chunk`. -/
def load : ChunkRef → Option ℕ
  | .bucketChunk => c.bucketChunk b
  | .next chunk => (c.heap chunk).next.join

def chunkAt : ℕ → Option ℕ
  | 0 => c.bucketChunk b
  | q + 1 => (chunkAt q).bind fun chunk => (c.heap chunk).next.join

/-- The pair in the slot at position `p` of bucket `b`. -/
def slotAt (p : ℕ) : Option (K × V) := do
  let chunk ← c.chunkAt b (p / T.nPairsPerChunk)
  let key ← (c.heap chunk).keys (p % T.nPairsPerChunk)
  let value ← (c.heap chunk).values (p % T.nPairsPerChunk)
  some (key, value)

def setLock (locked : Bool) : Shared K V :=
  { c with insertLock := update c.insertLock b locked }

def setChunk (chunk : ℕ) (f : Chunk K V → Chunk K V) : Shared K V :=
  { c with heap := update c.heap chunk (f (c.heap chunk)) }

/-- `( *chunk )->keys[ j ]`. -/
def keyAt (j : ℕ) (chunk : ChunkRef) : Option K := do
  let p ← c.load b chunk
  (c.heap p).keys j

/-- `( *chunk )->values[ j ]`. -/
def valueAt (j : ℕ) (chunk : ChunkRef) : Option V := do
  let p ← c.load b chunk
  (c.heap p).values j

/-- `if ( j == nPairsPerChunk ) { chunk = &( ( *chunk )->next ); j = 0; }`. -/
def advance (j : ℕ) (chunk : ChunkRef) : Option (ℕ × ChunkRef) :=
  if j = T.nPairsPerChunk then (c.load b chunk).map fun p => (0, .next p)
  else some (j, chunk)

def compare (key : K) (j : ℕ) (chunk : ChunkRef) : Option (ℕ × ChunkRef × Bool) := do
  let (j, chunk) ← c.advance T b j chunk
  let k ← c.keyAt b j chunk
  some (j, chunk, T.equals key k)

/-- A new chunk whose pointer is written to `*chunk`. -/
def linkChunk (chunk : ChunkRef) : Shared K V :=
  let c' := { c with
    heap := update c.heap c.allocated .unwritten, allocated := c.allocated + 1 }
  match chunk with
  | .bucketChunk =>
    { c' with bucketChunk := update c.bucketChunk b (some c.allocated) }
  | .next p => c'.setChunk p fun chunk => { chunk with next := some (some c.allocated) }

/-- The next step of a thread that is at `loc` in a call. -/
def act (call : Call K) : Loc K V → Input K V → Option (Shared K V × Loc K V)
  | .load, .run => some (c, .search .get 0 0 (c.size (T.bucketIdx call.key)) .bucketChunk)
  | .search phase i j currentSize chunk, .run =>
    if i < currentSize then
      match c.compare T (T.bucketIdx call.key) call.key j chunk with
      | none => some (c, .fault)
      | some (j, chunk, true) =>
        some (c, if phase = .locked then .unlockFound j chunk else .readValue j chunk)
      | some (j, chunk, false) => some (c, .search phase (i + 1) (j + 1) currentSize chunk)
    else
      match phase with
      | .get => some (c, .reload i j currentSize chunk)
      | .wait => some (c, .trylock i j currentSize chunk)
      | .locked => some (c, .newChunk currentSize j chunk)
  | .reload i j oldSize chunk, .run =>
    if c.size (T.bucketIdx call.key) > oldSize then
      some (c, .search .get i j (c.size (T.bucketIdx call.key)) chunk)
    else
      match call with
      | .get _ => some (c, .returnGet none)
      | .getAndInsert _ => some (c, .trylock i j oldSize chunk)
  | .readValue j chunk, .run =>
    match c.valueAt (T.bucketIdx call.key) j chunk, call with
    | none, _ => some (c, .fault)
    | some value, .get _ => some (c, .returnGet (some value))
    | some value, .getAndInsert _ => some (c, .returnInsert value false)
  | .trylock i j oldSize chunk, .run =>
    if c.insertLock (T.bucketIdx call.key) then some (c, .loadWait i j oldSize chunk)
    else some (c.setLock (T.bucketIdx call.key) true, .loadLocked i j chunk)
  | .loadWait i j oldSize chunk, .run =>
    if c.size (T.bucketIdx call.key) > oldSize then
      some (c, .search .wait i j (c.size (T.bucketIdx call.key)) chunk)
    else some (c, .trylock i j oldSize chunk)
  | .loadLocked i j chunk, .run =>
    some (c, .search .locked i j (c.size (T.bucketIdx call.key)) chunk)
  | .unlockFound j chunk, .run =>
    some (c.setLock (T.bucketIdx call.key) false, .readValue j chunk)
  | .newChunk currentSize j chunk, .run =>
    if currentSize = 0 then
      some (c.linkChunk (T.bucketIdx call.key) .bucketChunk, .nextNull currentSize j .bucketChunk)
    else if j = T.nPairsPerChunk then
      match c.load (T.bucketIdx call.key) chunk with
      | none => some (c, .fault)
      | some p =>
        some (c.linkChunk (T.bucketIdx call.key) (.next p), .nextNull currentSize 0 (.next p))
    else some (c, .writeKey currentSize j chunk)
  | .nextNull currentSize j chunk, .run =>
    match c.load (T.bucketIdx call.key) chunk with
    | none => some (c, .fault)
    | some p =>
      some (c.setChunk p fun chunk => { chunk with next := some none }, .writeKey currentSize j chunk)
  | .writeKey currentSize j chunk, .run =>
    match c.load (T.bucketIdx call.key) chunk with
    | none => some (c, .fault)
    | some p =>
      if j < T.nPairsPerChunk then
        some (c.setChunk p fun chunk =>
          { chunk with keys := update chunk.keys j (some call.key) },
          .valueCtor currentSize j chunk)
      else some (c, .fault)
  | .valueCtor currentSize j chunk, .ctor stored value =>
    match c.load (T.bucketIdx call.key) chunk with
    | none => some (c, .fault)
    | some p =>
      some (c.setChunk p fun chunk =>
        { chunk with keys := update chunk.keys j (some stored) },
        .writeValue currentSize j chunk value)
  | .writeValue currentSize j chunk value, .run =>
    match c.load (T.bucketIdx call.key) chunk with
    | none => some (c, .fault)
    | some p =>
      some (c.setChunk p fun chunk =>
        { chunk with values := update chunk.values j (some value) },
        .storeSize currentSize j chunk)
  | .storeSize currentSize j chunk, .run =>
    match c.keyAt (T.bucketIdx call.key) j chunk with
    | none => some (c, .fault)
    | some key =>
      if T.equals call.key key then
        some ({ c with size := update c.size (T.bucketIdx call.key) (currentSize + 1) }, .unlock j chunk)
      else some (c, .fault)
  | .unlock j chunk, .run =>
    some (c.setLock (T.bucketIdx call.key) false, .readInserted j chunk)
  | .readInserted j chunk, .run =>
    match c.valueAt (T.bucketIdx call.key) j chunk with
    | none => some (c, .fault)
    | some value => some (c, .returnInsert value true)
  | _, _ => none

end Shared

/-! ## Threads -/

/-- A thread is idle or in a call that it began when `started` calls had returned. -/
inductive Thread (K V : Type)
  | idle
  | active (call : Call K) (started : ℕ) (loc : Loc K V)

inductive Event (K V : Type)
  | get (key : K) (started : ℕ) (value : Option V)
  | getAndInsert (key : K) (value : V) (inserted : Bool)

structure State (K V I : Type) where
  shared : Shared K V
  threads : I → Thread K V
  history : List (Event K V)

def State.init : State K V I where
  shared := .init
  threads := fun _ => .idle
  history := []

/-- `prefix_value_ctor` may replace the key by an equal one only. -/
def Input.Legal (T : Template K) (call : Call K) : Input K V → Prop
  | .ctor stored _ => T.equals call.key stored = true
  | _ => True

section Step

variable [DecidableEq I]

/-- Thread `i` makes a step. -/
def State.next (T : Template K) (s : State K V I) (i : I) (input : Input K V) : Option (State K V I) :=
  match s.threads i, input with
  | .idle, .call call =>
    some { s with
      threads := update s.threads i (.active call s.history.length
        (if T.bucketIdx call.key < T.hashTableSize then .load else .fault)) }
  | .active (.get key) started (.returnGet value), .run =>
    some { s with
      threads := update s.threads i .idle
      history := s.history ++ [.get key started value] }
  | .active (.getAndInsert key) _ (.returnInsert value inserted), .run =>
    some { s with
      threads := update s.threads i .idle
      history := s.history ++ [.getAndInsert key value inserted] }
  | .active call started loc, input =>
    (s.shared.act T call loc input).map fun r =>
      { s with
        shared := r.1
        threads := update s.threads i (.active call started r.2) }
  | _, _ => none

def State.run (T : Template K) (s : State K V I) (as : List (I × Input K V)) : Option (State K V I) :=
  as.foldlM (fun s a => s.next T a.1 a.2) s

/-- The inputs keep the contract of `prefix_value_ctor`. -/
def step (T : Template K) (s : State K V I) (a : I × Input K V) (t : State K V I) : Prop :=
  (∀ call started loc, s.threads a.1 = .active call started loc → a.2.Legal T call) ∧
    s.next T a.1 a.2 = some t

def Reachable (T : Template K) (s : State K V I) : Prop :=
  Foundations.Reachable (· = State.init) (step T) s

end Step

end ScoreP.FastHashtab.Monotonic
