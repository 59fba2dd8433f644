import ScoreP.FastHashtab.Template

/-!
# The chunked hash table with removal

Source: `src/utils/include/SCOREP_FastHashtab.h`, an instantiation of
`SCOREP_HASH_TABLE_NON_MONOTONIC( prefix, nPairsPerChunk, hashTableSize )` used by one thread. The
locks are then free whenever they are taken, a second load of `bucket->size` returns what the first
one did, and `UTILS_MutexTrylock` succeeds at once.

The `uint32_t` sizes and indices count pairs that are in memory together and are natural numbers
here. Chunks live in a heap and are named by numbers in the order of their allocation. A slot that was
not written yet holds `none`; reading it, following a null pointer, writing beyond a chunk and a
failing `UTILS_BUG_ON` are the faults, which the functions answer with `none`.
-/

namespace ScoreP.FastHashtab

open Function

variable {K V : Type}

/-- `prefix_chunk_t`. -/
structure Chunk (K V : Type) where
  keys : ℕ → Option K
  values : ℕ → Option V
  next : Option ℕ

/-- `prefix_bucket_t`. -/
structure Bucket where
  size : ℕ
  chunk : Option ℕ

structure Table (K V : Type) where
  hashTable : ℕ → Bucket
  chunkFreeList : Option ℕ
  heap : ℕ → Chunk K V
  allocated : ℕ

def Table.init : Table K V where
  hashTable := fun _ => { size := 0, chunk := none }
  chunkFreeList := none
  heap := fun _ => { keys := fun _ => none, values := fun _ => none, next := none }
  allocated := 0

namespace Table

variable (T : Template K) (t : Table K V) (b : ℕ)

/-- `*chunk`. -/
def load : ChunkRef → Option ℕ
  | .bucketChunk => (t.hashTable b).chunk
  | .next c => (t.heap c).next

def setNext (c : ℕ) (p : Option ℕ) : Table K V :=
  { t with heap := update t.heap c { t.heap c with next := p } }

/-- `*chunk = p`. -/
def store (ref : ChunkRef) (p : Option ℕ) : Table K V :=
  match ref with
  | .bucketChunk =>
    { t with hashTable := update t.hashTable b { t.hashTable b with chunk := p } }
  | .next c => t.setNext c p

def setSize (size : ℕ) : Table K V :=
  { t with hashTable := update t.hashTable b { t.hashTable b with size := size } }

/-- `c->keys[ j ] = key; c->values[ j ] = value`. -/
def setSlot (c j : ℕ) (key : K) (value : V) : Table K V :=
  { t with
    heap := update t.heap c
      { t.heap c with
        keys := update (t.heap c).keys j (some key)
        values := update (t.heap c).values j (some value) } }

/-! ## Search -/

inductive Search (V : Type)
  | found (value : V)
  | notFound (i j : ℕ) (chunk : ChunkRef)

/-- `if ( j == nPairsPerChunk ) { chunk = &( ( *chunk )->next ); j = 0; }`. -/
def advance (j : ℕ) (chunk : ChunkRef) : Option (ℕ × ChunkRef) :=
  if j = T.nPairsPerChunk then (t.load b chunk).map fun c => (0, .next c)
  else some (j, chunk)

/-- `for (; i < current_size; ++i, ++j )`, with `current_size - i` iterations left. -/
def searchLoop (key : K) : ℕ → ℕ → ℕ → ChunkRef → Option (Search V)
  | 0, i, j, chunk => some (.notFound i j chunk)
  | n + 1, i, j, chunk => do
    let (j, chunk) ← t.advance T b j chunk
    let c ← t.load b chunk
    let k ← (t.heap c).keys j
    if T.equals key k then
      let value ← (t.heap c).values j
      some (.found value)
    else searchLoop key n (i + 1) (j + 1) chunk

/-- `prefix_get`: the value, if the key was found. -/
def get (key : K) : Option (Option V) := do
  let b := T.bucketIdx key
  if b ≥ T.hashTableSize then none
  else
    match ← t.searchLoop T b key (t.hashTable b).size 0 0 .bucketChunk with
    | .found value => some (some value)
    | .notFound _ _ _ => some none

/-! ## Insertion -/

/-- `SCOREP_HASH_TABLE_ASSIGN_NEW_CHUNK_NON_MONOTONIC`. -/
def assignNewChunk (assignTo : ChunkRef) : Table K V :=
  match t.chunkFreeList with
  | some c => (({ t with chunkFreeList := (t.heap c).next }).store b assignTo (some c)).setNext c none
  | none =>
    (({ t with allocated := t.allocated + 1 }).store b assignTo (some t.allocated)).setNext t.allocated none

/-- `SCOREP_HASH_TABLE_NEW_CHUNK_NON_MONOTONIC`. -/
def newChunk (currentSize j : ℕ) (chunk : ChunkRef) : Option (Table K V × ℕ × ChunkRef) :=
  if currentSize = 0 then
    match (t.hashTable b).chunk with
    | some c => some (t.setNext c none, j, .bucketChunk)
    | none => some (t.assignNewChunk b .bucketChunk, j, .bucketChunk)
  else if j = T.nPairsPerChunk then do
    let c ← t.load b chunk
    some (t.assignNewChunk b (.next c), 0, .next c)
  else some (t, j, chunk)

/-- `SCOREP_HASH_TABLE_INSERT_2`. The user's `prefix_value_ctor` leaves `stored` in the place of the
key and returns `value`. -/
def insert2 (key stored : K) (value : V) (currentSize j : ℕ) (chunk : ChunkRef) : Option (Table K V) := do
  let c ← t.load b chunk
  if T.nPairsPerChunk ≤ j ∨ T.equals key stored = false then none
  else some ((t.setSlot c j stored value).setSize b (currentSize + 1))

/-- `prefix_get_and_insert`: the table, the value, and whether a pair was inserted. -/
def getAndInsert (key stored : K) (ctorValue : V) : Option (Table K V × V × Bool) := do
  let b := T.bucketIdx key
  if b ≥ T.hashTableSize then none
  else
    let currentSize := (t.hashTable b).size
    match ← t.searchLoop T b key currentSize 0 0 .bucketChunk with
    | .found value => some (t, value, false)
    | .notFound i j chunk =>
      -- insert_lock acquired: search again
      match ← t.searchLoop T b key (currentSize - i) i j chunk with
      | .found value => some (t, value, false)
      | .notFound _ j chunk =>
        let (t', j, chunk) ← t.newChunk T b currentSize j chunk
        let t'' ← t'.insert2 T b key stored ctorValue currentSize j chunk
        some (t'', ctorValue, true)

/-! ## Removal -/

/-- Where the pair to remove was found: `i`, `j`, `previous_chunk`, `chunk` and its value. -/
structure Hit (V : Type) where
  i : ℕ
  j : ℕ
  previousChunk : Option ℕ
  chunk : ℕ
  value : V

/-- `if ( j == nPairsPerChunk ) { previous_chunk = chunk; chunk = chunk->next; j = 0; }`. -/
def removeAdvance (j : ℕ) (previousChunk chunk : Option ℕ) : Option (ℕ × Option ℕ × Option ℕ) :=
  if j = T.nPairsPerChunk then chunk.map fun c => (0, chunk, (t.heap c).next)
  else some (j, previousChunk, chunk)

/-- The search of `prefix_get_and_remove_impl`. -/
def removeSearch (key : K) : ℕ → ℕ → ℕ → Option ℕ → Option ℕ → Option (Option (Hit V))
  | 0, _, _, _, _ => some none
  | n + 1, i, j, previousChunk, chunk => do
    let (j, previousChunk, chunk) ← t.removeAdvance T j previousChunk chunk
    let c ← chunk
    let k ← (t.heap c).keys j
    if T.equals key k then
      let value ← (t.heap c).values j
      some (some { i := i, j := j, previousChunk := previousChunk, chunk := c, value := value })
    else removeSearch key n (i + 1) (j + 1) previousChunk chunk

/-- `while ( chunk->next != NULL )`: `i`, `previous_chunk` and `chunk` behind the loop, which passes
fewer chunks than were ever allocated. -/
def lastChunk : ℕ → ℕ → Option ℕ → ℕ → Option (ℕ × Option ℕ × ℕ)
  | 0, _, _, _ => none
  | n + 1, i, previousChunk, chunk =>
    match (t.heap chunk).next with
    | none => some (i, previousChunk, chunk)
    | some next => lastChunk n (i + T.nPairsPerChunk) (some chunk) next

def releaseChunk (previousChunk : Option ℕ) (chunk : ℕ) : Table K V :=
  match previousChunk with
  | none => t
  | some previous =>
    { (t.setNext previous none).setNext chunk t.chunkFreeList with chunkFreeList := some chunk }

def moveLastToRemoved (currentSize : ℕ) (hit : Hit V) : Option (Table K V) := do
  let (i, previousChunk, chunk) ← t.lastChunk T t.allocated (hit.i - hit.j) hit.previousChunk hit.chunk
  let j := currentSize - i - 1
  let key ← (t.heap chunk).keys j
  let value ← (t.heap chunk).values j
  let t' := t.setSlot hit.chunk hit.j key value
  let t'' := if j = 0 then t'.releaseChunk previousChunk chunk else t'
  some (t''.setSize b (currentSize - 1))

/-- `prefix_get_and_remove_impl`: the table, and the value if the key was found. `prefix_remove`
passes it to `prefix_value_dtor`, `prefix_get_and_remove` to the caller. -/
def getAndRemoveImpl (key : K) : Option (Table K V × Option V) := do
  let b := T.bucketIdx key
  if b ≥ T.hashTableSize then none
  else
    let currentSize := (t.hashTable b).size
    match ← t.removeSearch T key currentSize 0 0 none (t.hashTable b).chunk with
    | none => some (t, none)
    | some hit =>
      let t' ← t.moveLastToRemoved T b currentSize hit
      some (t', some hit.value)

def remove (key : K) : Option (Table K V × Bool) :=
  (t.getAndRemoveImpl T key).map fun r => (r.1, r.2.isSome)

def getAndRemove (key : K) : Option (Table K V × Option V) :=
  t.getAndRemoveImpl T key

/-! ## Traversal -/

/-- `for ( int j = 0; i < current_size && j < nPairsPerChunk; ++i, ++j )`, with the number of
iterations left: the pairs passed to the callback. -/
def iterateSlots (chunk : ℕ) : ℕ → ℕ → Option (List (K × V))
  | 0, _ => some []
  | n + 1, j => do
    let key ← (t.heap chunk).keys j
    let value ← (t.heap chunk).values j
    let rest ← iterateSlots chunk n (j + 1)
    some ((key, value) :: rest)

/-- `while ( chunk != NULL )`. -/
def iterateChunks (currentSize : ℕ) : ℕ → ℕ → Option ℕ → Option (List (K × V))
  | _, _, none => some []
  | 0, _, some _ => none
  | n + 1, i, some chunk => do
    let visited ← t.iterateSlots chunk (min (currentSize - i) T.nPairsPerChunk) 0
    let rest ← iterateChunks currentSize n (i + visited.length) (t.heap chunk).next
    some (visited ++ rest)

def iterateKeyValuePairs : Option (List (K × V)) :=
  (List.range T.hashTableSize).foldlM (fun visited b => do
    let pairs ← t.iterateChunks T (t.hashTable b).size t.allocated 0 (t.hashTable b).chunk
    some (visited ++ pairs)) []

end Table

end ScoreP.FastHashtab
