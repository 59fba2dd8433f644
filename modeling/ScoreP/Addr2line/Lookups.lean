import ScoreP.Addr2line.Objects
import ScoreP.Foundations.Holdings
import ScoreP.Foundations.Transition

/-!
# Lookups while objects come and go

Source: `src/services/addr2line/SCOREP_Addr2line.c`. `T` is the type of the threads that look addresses up. The
dynamic linker calls `scorep_la_objopen` and `scorep_la_objclose` one after another. An objopen takes its
token in one step and inserts the object in a section of the writer lock; the section of an objclose is left
open between the step that unlinks the object and the step that clears its bit. A lookup is a step for each
access to what the threads share: the object count, the reader lock, the number of overlaps, the pool, the
objects, the reader unlock and the pool again.

The reader-writer lock is the list of the threads in a reader section. A writer enters when it is empty, and
no reader enters during the section of an objclose; that the lock excludes so is `Safe.exclusive` of
`ScoreP.RWLock.Safety`. The failing `UTILS_BUG_ON` of `lookup_so` is the place `bug` of a thread, the others
end the program.
-/

namespace ScoreP.Addr2line

open Foundations Function

/-- An `lrt_objects_container`, its `size` is the length of `objects`. -/
structure Container where
  capacity : ℕ
  unlock : Bool
  objects : List SharedObject

inductive Linker
  | idle
  -- `insert_rt_object_cb` before the writer lock
  | tracked (new : RtObject)
  -- `scorep_la_objclose` in the section of the writer lock
  | unlinked (remove : RtObject)
  deriving DecidableEq

inductive Lookup
  | idle
  -- `get_lrt_objects_container_from_pool`
  | waiting (addr : Address)
  | entered (addr : Address) (unlock : Bool)
  | sized (addr : Address) (unlock : Bool) (neededCapacity : ℕ)
  -- `lookup_so`
  | obtained (addr : Address) (container : ℕ)
  | bug
  -- `release_lrt_objects_container_to_pool`
  | matched (addr : Address) (container : ℕ)
  | unlocked (container : ℕ)
  deriving DecidableEq

structure Registry where
  nOverlappingAddressRanges : UInt32
  /-- `scorep_rt_objects_head` -/
  rtObjects : List RtObject
  rtObjectCount : ℕ
  /-- `scorep_rt_objects_min_addr` and `scorep_rt_objects_max_addr` -/
  rtRange : Span Address
  rtObjopenCallsTracked : ℕ
  rtObjectsLoaded : ℕ → BitVec 8
  dlclosed : List RtObject
  linker : Linker

/-- The containers are numbered in the order of their allocation. -/
structure Pool where
  containers : ℕ → Container
  allocated : ℕ
  freed : List ℕ
  /-- `lrt_objects_container_free_list` -/
  freeList : List ℕ

structure State (T : Type) where
  ltObjsCapacity : ℕ
  lt : LoadTime
  registry : Registry
  readers : List T
  pool : Pool
  lookups : T → Lookup

/-- After `SCOREP_Addr2line_Initialize`. -/
def initial (T : Type) (infos : List PhdrInfo) : State T where
  ltObjsCapacity := countSharedObjs infos
  lt := addr2lineInitialize infos
  registry :=
    { nOverlappingAddressRanges := (addr2lineInitialize infos).nOverlappingAddressRanges
      rtObjects := []
      rtObjectCount := 0
      rtRange := noAddrs
      rtObjopenCallsTracked := 0
      rtObjectsLoaded := fun _ => 0
      dlclosed := []
      linker := .idle }
  readers := []
  pool := ⟨fun _ => ⟨0, false, []⟩, 0, [], []⟩
  lookups := fun _ => .idle

/-! ## The dynamic linker -/

namespace Registry

variable (r : Registry)

/-- `insert_rt_object_cb` up to the writer lock. -/
def track (segments : Segments) (cookie : ℕ) : Registry :=
  let token := r.rtObjopenCallsTracked + 1
  { r with
    rtObjopenCallsTracked := token
    rtObjectsLoaded := bitsetSet r.rtObjectsLoaded token
    linker := .tracked (rtObject segments token cookie) }

/-- The section of `insert_rt_object_cb`. -/
def insert (new : RtObject) : Registry :=
  { r with
    nOverlappingAddressRanges :=
      countOverlaps (r.rtObjects.map RtObject.toSharedObject) new.toSharedObject r.nOverlappingAddressRanges
    rtObjects := new :: r.rtObjects
    rtObjectCount := r.rtObjectCount + 1
    rtRange := r.rtRange.widen new.range
    linker := .idle }

/-- The loop of `scorep_la_objclose`. -/
def findCookie (cookie : ℕ) : Option RtObject :=
  r.rtObjects.find? fun obj => obj.auditCookie = cookie

def unlink (cookie : ℕ) (remove : RtObject) : Registry :=
  { r with
    rtObjects := r.rtObjects.eraseP fun obj => obj.auditCookie = cookie
    linker := .unlinked remove }

/-- The rest of `scorep_la_objclose`. -/
def remove (remove : RtObject) : Registry :=
  { r with
    rtObjectsLoaded := bitsetClear r.rtObjectsLoaded remove.token
    rtObjectCount := r.rtObjectCount - 1
    rtRange := shrink r.rtRange remove r.rtObjects
    dlclosed := remove :: r.dlclosed
    linker := .idle }

end Registry

namespace Pool

variable (pool : Pool)

def alloc (neededCapacity : ℕ) (unlock : Bool) : Pool :=
  { pool with
    containers := update pool.containers pool.allocated ⟨neededCapacity, unlock, []⟩
    allocated := pool.allocated + 1 }

/-- The section of `get_lrt_objects_container_from_pool`. -/
def take (neededCapacity : ℕ) (unlock : Bool) : ℕ × Pool :=
  match pool.freeList with
  | [] => (pool.allocated, pool.alloc neededCapacity unlock)
  | container :: freeList =>
    if (pool.containers container).capacity < neededCapacity then
      (pool.allocated,
        { pool with freeList := freeList, freed := container :: pool.freed }.alloc neededCapacity unlock)
    else
      (container,
        { pool with
          freeList := freeList
          containers :=
            update pool.containers container ⟨(pool.containers container).capacity, unlock, []⟩ })

def store (container : ℕ) (objects : List SharedObject) : Pool :=
  { pool with
    containers :=
      update pool.containers container { pool.containers container with objects := objects } }

/-- The section of `release_lrt_objects_container_to_pool`. -/
def give (container : ℕ) : Pool :=
  { pool with freeList := container :: pool.freeList }

end Pool

namespace State

variable {T : Type} [DecidableEq T] (s : State T)

/-- `lookup_so` -/
def search (addr : Address) (container : ℕ) : Option (List SharedObject) :=
  lookupSo s.lt s.registry.rtRange s.registry.rtObjects addr (s.pool.containers container).capacity
    (s.pool.containers container).unlock

def readersWithout (p : T) (container : ℕ) : List T :=
  if (s.pool.containers container).unlock then s.readers.erase p else s.readers

def goOn (p : T) (place : Lookup) : T → Lookup :=
  update s.lookups p place

end State

/-- The steps of the dynamic linker, of the threads that look addresses up, and the calls of
`scorep_addr2line_so_still_loaded` with their results. -/
inductive Action (T : Type)
  | objopen (infos : List PhdrInfo) (name : Text) (cookie : ℕ)
  | insert
  | objclose (cookie : ℕ)
  | remove
  | start (p : T) (addr : Address)
  | enter (p : T)
  | size (p : T)
  | obtain (p : T)
  | search (p : T)
  | unlock (p : T)
  | release (p : T)
  | stillLoaded (token : ℕ) (loaded : Bool)

inductive Step {T : Type} [DecidableEq T] (s : State T) : Action T → State T → Prop
  | objopenIgnored (infos : List PhdrInfo) (name : Text) (cookie : ℕ) (hlinker : s.registry.linker = .idle)
      (hselect : selectRtObject s.ltObjsCapacity name infos = none) : Step s (.objopen infos name cookie) s
  | objopen (infos : List PhdrInfo) (name : Text) (cookie : ℕ) (segments : Segments)
      (hlinker : s.registry.linker = .idle)
      (hselect : selectRtObject s.ltObjsCapacity name infos = some segments)
      (htracked : s.registry.rtObjopenCallsTracked + 1 < maxRtObjopenCallsTracked) :
      Step s (.objopen infos name cookie) { s with registry := s.registry.track segments cookie }
  | insert (new : RtObject) (hlinker : s.registry.linker = .tracked new) (hlock : s.readers = []) :
      Step s .insert { s with registry := s.registry.insert new }
  | objcloseIgnored (cookie : ℕ) (hlinker : s.registry.linker = .idle)
      (hcount : s.registry.rtObjectCount = 0) : Step s (.objclose cookie) s
  | objcloseUnknown (cookie : ℕ) (hlinker : s.registry.linker = .idle) (hcount : 0 < s.registry.rtObjectCount)
      (hhead : s.registry.rtObjects ≠ []) (hlock : s.readers = [])
      (hfind : s.registry.findCookie cookie = none) : Step s (.objclose cookie) s
  | objclose (cookie : ℕ) (remove : RtObject) (hlinker : s.registry.linker = .idle)
      (hcount : 0 < s.registry.rtObjectCount) (hlock : s.readers = [])
      (hfind : s.registry.findCookie cookie = some remove) :
      Step s (.objclose cookie) { s with registry := s.registry.unlink cookie remove }
  | remove (remove : RtObject) (hlinker : s.registry.linker = .unlinked remove) :
      Step s .remove { s with registry := s.registry.remove remove }
  | start (p : T) (addr : Address) (hp : s.lookups p = .idle) : Step s (.start p addr)
        { s with
          lookups := s.goOn p (if 0 < s.registry.rtObjectCount then .waiting addr else .entered addr false) }
  | enter (p : T) (addr : Address) (hp : s.lookups p = .waiting addr)
      (hlock : ∀ remove, s.registry.linker ≠ .unlinked remove) :
      Step s (.enter p) { s with readers := p :: s.readers, lookups := s.goOn p (.entered addr true) }
  | size (p : T) (addr : Address) (unlock : Bool) (hp : s.lookups p = .entered addr unlock) : Step s (.size p)
        { s with
          lookups := s.goOn p (.sized addr unlock (s.registry.nOverlappingAddressRanges.toNat + 1)) }
  | obtain (p : T) (addr : Address) (unlock : Bool) (neededCapacity : ℕ)
      (hp : s.lookups p = .sized addr unlock neededCapacity) :
      Step s (.obtain p)
        { s with
          pool := (s.pool.take neededCapacity unlock).2
          lookups := s.goOn p (.obtained addr (s.pool.take neededCapacity unlock).1) }
  | search (p : T) (addr : Address) (container : ℕ) (found : List SharedObject)
      (hp : s.lookups p = .obtained addr container) (hsearch : s.search addr container = some found) :
      Step s (.search p)
        { s with pool := s.pool.store container found, lookups := s.goOn p (.matched addr container) }
  | searchBug (p : T) (addr : Address) (container : ℕ) (hp : s.lookups p = .obtained addr container)
      (hsearch : s.search addr container = none) : Step s (.search p) { s with lookups := s.goOn p .bug }
  | unlock (p : T) (addr : Address) (container : ℕ) (hp : s.lookups p = .matched addr container) :
      Step s (.unlock p)
        { s with readers := s.readersWithout p container, lookups := s.goOn p (.unlocked container) }
  | release (p : T) (container : ℕ) (hp : s.lookups p = .unlocked container) :
      Step s (.release p) { s with pool := s.pool.give container, lookups := s.goOn p .idle }
  | stillLoaded (token : ℕ) (htoken : token < maxRtObjopenCallsTracked) :
      Step s (.stillLoaded token (bitsetTest s.registry.rtObjectsLoaded token)) s

end ScoreP.Addr2line
