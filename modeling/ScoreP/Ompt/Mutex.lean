import ScoreP.Foundations.Journal

/-!
# Locks, critical and ordered constructs

The callbacks `scorep_ompt_cb_host_mutex_acquire`, `..._acquired`, `..._released` and
`scorep_ompt_cb_host_nest_lock`. All of them share one `mutex_obj_t` for a wait id and a kind; its
mutex `in_release_operation` is locked in acquired and unlocked in released. The runtime grants a
lock to one owner at a time, and gives it away before it calls released, so that the next owner's
acquired may run at the same time.

A callback is a list of instructions, each one access to a field, one operation on the mutex, or
one event; any task may carry out its next one at any time. `faults` lists what must not happen: an
event with the wrong acquisition order, a construct left through other regions than it was entered
by, and the `UTILS_BUG_ON` of the nest level.
-/

namespace ScoreP.Ompt.Mutex

open Foundations.Journal Function

/-! ## Objects and regions -/

/-- The mutex kinds with an object of their own; a test variant shares the one of its kind. -/
inductive Kind where
  | lock
  | nestLock
  | critical
  | ordered
deriving DecidableEq

def Kind.isConstruct : Kind → Bool
  | .critical | .ordered => true
  | _ => false

/-- A `mutex_table_key_t`. -/
structure Key where
  waitId : ℕ
  kind : Kind
deriving DecidableEq

/-- The indices into `lock_regions`. -/
inductive LockEvent where
  | set
  | test
  | unset
  | setNest
  | testNest
  | unsetNest
deriving DecidableEq

inductive ToolEvent where
  | outer (kind : Kind)
  | sblock (kind : Kind)
deriving DecidableEq

/-- Where the region handles come from: `lock_regions` and `get_region`. -/
structure Regions where
  lock : LockEvent → ℕ
  get : ToolEvent → ℕ → ℕ

inductive Event where
  | enter (region : ℕ)
  | exit (region : ℕ)
  | acquireLock (key : Key) (order : ℕ)
  | releaseLock (key : Key) (order : ℕ)

def Event.bracket : Event → Bracket ℕ
  | .enter region => .enter region
  | .exit region => .leave region
  | _ => .plain

inductive Fault where
  | wrongOrder (key : Key) (order : ℕ)
  | wrongRegion (key : Key) (region : ℕ)
  | nestLevel (key : Key)
deriving DecidableEq

/-! ## Instructions -/

inductive Instr where
  | enter (event : LockEvent)
  | exit (event : LockEvent)
  | setCodeptr (codeptr : ℕ)
  | clearCodeptr
  | writeOuter
  | writeSblock
  | enterOuter
  | enterSblock
  | lock
  | loadOrder
  | storeOrder
  | ifOutermost
  | loadLevel
  | storeLevel (up : Bool)
  | checkLevel
  | acquire
  | release
  | readOuter
  | exitSblock
  | unlock
  | exitOuter
deriving DecidableEq

/-- `scorep_ompt_cb_host_mutex_acquire`; the test variants only take the time. -/
def mutexAcquire (kind : Kind) (test : Bool) (codeptr : ℕ) : List Instr :=
  match kind, test with
  | .lock, false => [.enter .set]
  | .nestLock, false => [.enter .setNest]
  | .lock, true | .nestLock, true => []
  | .critical, _ | .ordered, _ => [.setCodeptr codeptr]

/-- `scorep_ompt_cb_host_mutex_acquired`; a test variant falls through into its lock. -/
def mutexAcquired (kind : Kind) (test : Bool) : List Instr :=
  match kind, test with
  | .lock, false => [.lock, .loadOrder, .storeOrder, .acquire, .exit .set]
  | .lock, true => [.enter .test, .lock, .loadOrder, .storeOrder, .acquire, .exit .test]
  | .nestLock, false =>
    [.lock, .ifOutermost, .loadLevel, .storeLevel true, .acquire, .exit .setNest]
  | .nestLock, true =>
    [.enter .testNest, .lock, .ifOutermost, .loadLevel, .storeLevel true, .acquire, .exit .testNest]
  -- `construct_mutex_acquired`
  | .critical, _ | .ordered, _ =>
    [.writeOuter, .writeSblock, .enterOuter, .lock, .loadOrder, .storeOrder, .acquire,
      .enterSblock, .clearCodeptr]

def mutexReleased : Kind → List Instr
  | .lock => [.enter .unset, .release, .unlock, .exit .unset]
  | .nestLock =>
    [.enter .unsetNest, .release, .loadLevel, .storeLevel false, .checkLevel, .unlock, .exit .unsetNest]
  -- `construct_mutex_released`
  | .critical | .ordered => [.readOuter, .exitSblock, .release, .unlock, .exitOuter]

/-- `scorep_ompt_cb_host_nest_lock` for `ompt_scope_begin`. -/
def nestLockBegin : List Instr :=
  [.loadLevel, .storeLevel true, .acquire, .exit .setNest]

/-- `scorep_ompt_cb_host_nest_lock` for `ompt_scope_end`. -/
def nestLockEnd : List Instr :=
  [.enter .unsetNest, .release, .loadLevel, .storeLevel false, .exit .unsetNest]

/-! ## States -/

structure Construct where
  key : Key
  codeptr : ℕ
deriving DecidableEq

/-- A task. `code` is the rest of the callback it is in, `key` the object this callback is about;
`register` and `outer` are local variables, `codeptr` is `mutex_acquire_codeptr_ra`. `pending` is
the lock it waits for, in a test variant or not. `index` says for which grant of the lock the
callback is made, `constructs` and `leaving` which constructs the task is in and which it leaves. -/
structure Task where
  code : List Instr
  key : Key
  register : ℕ
  outer : ℕ
  codeptr : ℕ
  events : List Event
  pending : Option (Key × Bool)
  index : ℕ
  constructs : List Construct
  leaving : Construct

/-- The fields of all mutex objects, the tasks, and the runtime's locks: their owners, how often
each was granted, and the nesting depth of the owner. -/
structure State where
  acquisitionOrder : Key → ℕ
  outerRegion : Key → ℕ
  sblockRegion : Key → ℕ
  nestLevel : Key → ℕ
  inRelease : Key → Option ℕ
  owner : Key → Option ℕ
  granted : Key → ℕ
  depth : Key → ℕ
  tasks : ℕ → Task
  faults : List Fault

def initial : State where
  acquisitionOrder := fun _ => 0
  outerRegion := fun _ => 0
  sblockRegion := fun _ => 0
  nestLevel := fun _ => 0
  inRelease := fun _ => none
  owner := fun _ => none
  granted := fun _ => 0
  depth := fun _ => 0
  tasks := fun _ => ⟨[], ⟨0, .lock⟩, 0, 0, 0, [], none, 0, [], ⟨⟨0, .critical⟩, 0⟩⟩
  faults := []

namespace State

def setTask (s : State) (t : ℕ) (task : Task) : State :=
  { s with tasks := update s.tasks t task }

/-- Report a fault unless `ok`. -/
def check (s : State) (ok : Prop) [Decidable ok] (f : Fault) : State :=
  if ok then s else { s with faults := s.faults ++ [f] }

end State

variable (regions : Regions)

def outerOf (c : Construct) : ℕ := regions.get (.outer c.key.kind) c.codeptr

def sblockOf (c : Construct) : ℕ := regions.get (.sblock c.key.kind) c.codeptr

def Task.innermost (task : Task) : Construct := task.constructs.headD ⟨task.key, 0⟩

/-! ## Steps -/

/-- Task `t` carries out an instruction; `task` is the task with the rest of its code. -/
def exec (s : State) (t : ℕ) (task : Task) : Instr → Option State
  | .enter event =>
    some (s.setTask t { task with events := .enter (regions.lock event) :: task.events })
  | .exit event =>
    some (s.setTask t { task with events := .exit (regions.lock event) :: task.events })
  | .setCodeptr codeptr => some (s.setTask t { task with codeptr := codeptr })
  | .clearCodeptr => some (s.setTask t { task with codeptr := 0 })
  | .writeOuter =>
    let region := regions.get (.outer task.key.kind) task.codeptr
    some { s.setTask t task with outerRegion := update s.outerRegion task.key region }
  | .writeSblock =>
    let region := regions.get (.sblock task.key.kind) task.codeptr
    some { s.setTask t task with sblockRegion := update s.sblockRegion task.key region }
  | .enterOuter =>
    let region := s.outerRegion task.key
    let s := s.check (region = outerOf regions task.innermost) (.wrongRegion task.key region)
    some (s.setTask t { task with events := .enter region :: task.events })
  | .enterSblock =>
    let region := s.sblockRegion task.key
    let s := s.check (region = sblockOf regions task.innermost) (.wrongRegion task.key region)
    some (s.setTask t { task with events := .enter region :: task.events })
  | .lock =>
    match s.inRelease task.key with
    | none => some { s.setTask t task with
        inRelease := update s.inRelease task.key (some t) }
    | some _ => none
  | .loadOrder => some (s.setTask t { task with register := s.acquisitionOrder task.key })
  | .storeOrder =>
    some { s.setTask t task with
      acquisitionOrder := update s.acquisitionOrder task.key (task.register + 1) }
  | .ifOutermost =>
    some (s.setTask t { task with
      code := if s.nestLevel task.key = 0 then .loadOrder :: .storeOrder :: task.code
        else task.code })
  | .loadLevel => some (s.setTask t { task with register := s.nestLevel task.key })
  | .storeLevel up =>
    let level := if up then task.register + 1 else task.register - 1
    some { s.setTask t task with nestLevel := update s.nestLevel task.key level }
  | .checkLevel =>
    some ((s.check (s.nestLevel task.key = 0) (.nestLevel task.key)).setTask t task)
  | .acquire =>
    let order := s.acquisitionOrder task.key
    let s := s.check (order = task.index) (.wrongOrder task.key order)
    some (s.setTask t { task with events := .acquireLock task.key order :: task.events })
  | .release =>
    let order := s.acquisitionOrder task.key
    let s := s.check (order = task.index) (.wrongOrder task.key order)
    some (s.setTask t { task with events := .releaseLock task.key order :: task.events })
  | .readOuter => some (s.setTask t { task with outer := s.outerRegion task.key })
  | .exitSblock =>
    let region := s.sblockRegion task.key
    let s := s.check (region = sblockOf regions task.leaving) (.wrongRegion task.key region)
    some (s.setTask t { task with events := .exit region :: task.events })
  | .unlock =>
    some { s.setTask t task with inRelease := update s.inRelease task.key none }
  | .exitOuter =>
    let s := s.check (task.outer = outerOf regions task.leaving) (.wrongRegion task.key task.outer)
    some (s.setTask t { task with events := .exit task.outer :: task.events })

inductive Action where
  | acquire (t : ℕ) (key : Key) (test : Bool) (codeptr : ℕ)
  | grant (t : ℕ)
  | owned (t : ℕ)
  | fail (t : ℕ)
  | release (t : ℕ) (key : Key)
  | unnest (t : ℕ) (key : Key)
  | run (t : ℕ)

def grant (s : State) (t : ℕ) (key : Key) (test : Bool) : State :=
  let task := s.tasks t
  { s.setTask t { task with
      code := mutexAcquired key.kind test
      key := key
      pending := none
      index := s.granted key + 1
      constructs := if key.kind.isConstruct then ⟨key, task.codeptr⟩ :: task.constructs
        else task.constructs } with
    owner := update s.owner key (some t)
    granted := update s.granted key (s.granted key + 1)
    depth := update s.depth key (if key.kind = .nestLock then 1 else 0) }

def owned (s : State) (t : ℕ) (key : Key) : State :=
  { s.setTask t { s.tasks t with
      code := nestLockBegin
      key := key
      pending := none
      index := s.granted key } with
    depth := update s.depth key (s.depth key + 1) }

def released (s : State) (t : ℕ) (key : Key) : State :=
  let task := s.tasks t
  { s.setTask t { task with
      code := mutexReleased key.kind
      key := key
      index := s.granted key
      constructs := if key.kind.isConstruct then task.constructs.tail else task.constructs
      leaving := if key.kind.isConstruct then task.innermost else task.leaving } with
    owner := update s.owner key none }

def unnest (s : State) (t : ℕ) (key : Key) : State :=
  { s.setTask t { s.tasks t with
      code := nestLockEnd
      key := key
      index := s.granted key } with
    depth := update s.depth key (s.depth key - 1) }

/-- Only a task outside of the callbacks does something with a lock, and only if it does not wait
for another one. A construct is left before the ones around it. -/
def step (s : State) : Action → Option State
  | .acquire t key test codeptr =>
    if (s.tasks t).code = [] ∧ (s.tasks t).pending = none ∧
        (test = true → key.kind.isConstruct = false) then
      some (s.setTask t { s.tasks t with
        code := mutexAcquire key.kind test codeptr, pending := some (key, test) })
    else none
  | .grant t =>
    match (s.tasks t).code, (s.tasks t).pending with
    | [], some (key, test) => if s.owner key = none then some (grant s t key test) else none
    | _, _ => none
  | .owned t =>
    match (s.tasks t).code, (s.tasks t).pending with
    | [], some (key, _) =>
      if s.owner key = some t ∧ key.kind = .nestLock then some (owned s t key) else none
    | _, _ => none
  | .fail t =>
    match (s.tasks t).code, (s.tasks t).pending with
    | [], some (_, true) => some (s.setTask t { s.tasks t with pending := none })
    | _, _ => none
  | .release t key =>
    if (s.tasks t).code = [] ∧ (s.tasks t).pending = none ∧ s.owner key = some t ∧
        (key.kind = .nestLock → s.depth key = 1) ∧
        (key.kind.isConstruct = true → (s.tasks t).innermost.key = key) then
      some (released s t key)
    else none
  | .unnest t key =>
    if (s.tasks t).code = [] ∧ (s.tasks t).pending = none ∧ s.owner key = some t ∧
        key.kind = .nestLock ∧ 2 ≤ s.depth key then
      some (unnest s t key)
    else none
  | .run t =>
    match (s.tasks t).code with
    | i :: code => exec regions s t { s.tasks t with code := code } i
    | [] => none

end ScoreP.Ompt.Mutex
