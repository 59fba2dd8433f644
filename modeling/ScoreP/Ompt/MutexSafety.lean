import Mathlib.Data.Bool.Basic
import Mathlib.Data.List.Nodup
import ScoreP.Foundations.Transition
import ScoreP.Ompt.Mutex

/-!
# When the events of locks and constructs are in order

`Timely` says which steps the mutex callbacks cope with: acquired writes a region field of an object
while the released callback of the former owner has still to read it only if the region stays the
same, and `omp_test_nest_lock` is not called on a nest lock that the task owns already. The region
fields are written before `in_release_operation` is locked, and nest-lock begin leaves the region of
`omp_set_nest_lock` whichever routine was called. `mutex_sound_of_timely`: in a run of such steps
every construct is left through the regions it was entered by, the `n`-th owner of a lock records
the order `n` whenever it acquires or releases it, the nest level is the nesting depth, and the
events of every task nest.

The invariant has four parts: `Locking` (who holds the mutex), `Counting` (orders and nest levels),
`Entered` (the region fields) and `Nests` (the events, together with those that the rest of a
callback will record). `disciplined` collects what is fixed in the code of the callbacks.
-/

namespace ScoreP.Ompt.Mutex

open Foundations Foundations.Journal Function List Option

variable (regions : Regions)

/-- Nothing has gone wrong, the events of every task nest, and outside of the callbacks the object of
a lock says which owner it has and how often this one has set it. -/
structure Sound (s : State) : Prop where
  noFault : s.faults = []
  nested : ∀ t, openRegions ((s.tasks t).events.map Event.bracket) ≠ none
  order : ∀ t key, s.owner key = some t → (s.tasks t).code = [] → s.acquisitionOrder key = s.granted key
  nestLevel : ∀ t key, key.kind = .nestLock → s.owner key = some t → (s.tasks t).code = [] →
    s.nestLevel key = s.depth key

def WriteTimely (s : State) (key : Key) (reader : Instr) (same : Prop) : Prop :=
  ∀ t, s.inRelease key = some t → reader ∈ (s.tasks t).code → same

def Timely (s : State) : Action → Prop
  | .owned t => ∀ key, (s.tasks t).pending ≠ some (key, true)
  | .run t =>
    let task := s.tasks t
    match task.code with
    | .writeOuter :: _ => WriteTimely s task.key .readOuter
      (regions.get (.outer task.key.kind) task.codeptr = s.outerRegion task.key)
    | .writeSblock :: _ => WriteTimely s task.key .exitSblock
      (regions.get (.sblock task.key.kind) task.codeptr = s.sblockRegion task.key)
    | _ => True
  | _ => True

/-! ## What is fixed in the code of a callback -/

def bumps (code : List Instr) : ℕ := code.count .storeOrder + code.count .ifOutermost

def raises (code : List Instr) : ℕ := code.count (.storeLevel true)

def lowers (code : List Instr) : ℕ := code.count (.storeLevel false)

def Instr.ofConstruct : Instr → Bool
  | .writeOuter | .writeSblock | .enterOuter | .enterSblock | .readOuter | .exitSblock
  | .exitOuter => true
  | _ => false

/-- An instruction may stand before `code`; `held` tells whether the task holds the mutex. -/
def Instr.fits (held : Bool) (code : List Instr) : Instr → Bool
  | .lock => !held && !code.contains .lock && !code.contains .unlock
  | .unlock => held && !code.contains .lock && !code.contains .unlock && lowers code = 0
  | .loadOrder => held && code.head? = some .storeOrder
  | .loadLevel => held && code.any fun i => i = .storeLevel true ∨ i = .storeLevel false
  | .storeOrder => held
  | .storeLevel up => held && (up || raises code = 0)
  | .ifOutermost => held && lowers code = 0 && raises code = 1
  | .acquire | .release => held && bumps code = 0
  | .checkLevel => held && code.contains .unlock && lowers code = 0
  | .writeOuter | .writeSblock => !held && code.contains .lock
  | .enterOuter => code.contains .lock && !code.contains .writeOuter
  | .enterSblock => held && !code.contains .unlock && !code.contains .writeSblock
  | .setCodeptr _ | .clearCodeptr => !code.contains .writeOuter && !code.contains .writeSblock
  | .readOuter | .exitSblock => held && code.contains .unlock
  | .exitOuter => !code.contains .readOuter
  | .enter _ | .exit _ => true

def Instr.precedes (i : Instr) (code : List Instr) : Bool :=
  match code.head? with
  | some .storeOrder => i = .loadOrder
  | some (.storeLevel _) => i = .loadLevel
  | _ => true

def Instr.after (held : Bool) : Instr → Bool
  | .lock => true
  | .unlock => false
  | _ => held

def disciplined : Bool → List Instr → Bool
  | _, [] => true
  | held, i :: code => i.fits held code && i.precedes code && disciplined (i.after held) code

variable {code : List Instr} {i : Instr} {held : Bool}

theorem disciplined_cons : disciplined held (i :: code) = true ↔
      i.fits held code = true ∧ i.precedes code = true ∧ disciplined (i.after held) code = true := by
  rw [disciplined, Bool.and_eq_true, Bool.and_eq_true, and_assoc]

theorem disciplined_mutexAcquire (held : Bool) (kind : Kind) (test : Bool) (codeptr : ℕ) :
    disciplined held (mutexAcquire kind test codeptr) = true := by
  cases kind <;> cases test <;> rfl

theorem disciplined_mutexAcquired (kind : Kind) (test : Bool) :
    disciplined false (mutexAcquired kind test) = true := by
  cases kind <;> cases test <;> decide

theorem disciplined_mutexReleased (kind : Kind) : disciplined true (mutexReleased kind) = true := by
  cases kind <;> decide

def StoresNone (code : List Instr) : Prop :=
  (∀ code', code ≠ .storeOrder :: code') ∧ ∀ up code', code ≠ .storeLevel up :: code'

structure NestCallback (code : List Instr) : Prop where
  disciplined : disciplined true code = true
  locks : .lock ∉ code
  unlocks : .unlock ∉ code
  outermost : .ifOutermost ∉ code
  bumps : bumps code = 0
  stores : StoresNone code
  plain : ∀ i ∈ code, i.ofConstruct = false

theorem nestCallback_begin : NestCallback nestLockBegin :=
  ⟨by decide, by decide, by decide, by decide, by decide, ⟨nofun, nofun⟩, by decide⟩

theorem nestCallback_end : NestCallback nestLockEnd :=
  ⟨by decide, by decide, by decide, by decide, by decide, ⟨nofun, nofun⟩, by decide⟩

section

variable (s : State) (t : ℕ) (task : Task) (key : Key)

@[grind =]
theorem setTask_tasks (t' : ℕ) : (s.setTask t task).tasks t' = if t' = t then task else s.tasks t' :=
  update_apply s.tasks t task t'

@[grind =]
theorem setTask_acquisitionOrder : (s.setTask t task).acquisitionOrder key = s.acquisitionOrder key := rfl

@[grind =]
theorem setTask_outerRegion : (s.setTask t task).outerRegion key = s.outerRegion key := rfl

@[grind =]
theorem setTask_sblockRegion : (s.setTask t task).sblockRegion key = s.sblockRegion key := rfl

@[grind =]
theorem setTask_nestLevel : (s.setTask t task).nestLevel key = s.nestLevel key := rfl

@[grind =]
theorem setTask_inRelease : (s.setTask t task).inRelease key = s.inRelease key := rfl

@[grind =]
theorem setTask_owner : (s.setTask t task).owner key = s.owner key := rfl

@[grind =]
theorem setTask_granted : (s.setTask t task).granted key = s.granted key := rfl

@[grind =]
theorem setTask_depth : (s.setTask t task).depth key = s.depth key := rfl

end

/-! ## Who holds the mutex -/

variable {regions} {s : State} {t : ℕ} {key : Key}

structure Locking (s : State) : Prop where
  held : ∀ key t, s.inRelease key = some t ↔
    (s.owner key = some t ∧ ¬ ((s.tasks t).key = key ∧ .lock ∈ (s.tasks t).code)) ∨
      ((s.tasks t).key = key ∧ .unlock ∈ (s.tasks t).code)
  locks : ∀ t, .lock ∈ (s.tasks t).code → s.owner (s.tasks t).key = some t
  unlocks : ∀ t, .unlock ∈ (s.tasks t).code → s.owner (s.tasks t).key ≠ some t
  disciplined : ∀ t, disciplined (s.inRelease (s.tasks t).key = some t) (s.tasks t).code = true

structure Continues (task task' : Task) : Prop where
  key : task'.key = task.key
  index : task'.index = task.index
  pending : task'.pending = task.pending
  constructs : task'.constructs = task.constructs
  leaving : task'.leaving = task.leaving

structure SameLocks (code code' : List Instr) : Prop where
  locks : .lock ∈ code' ↔ .lock ∈ code
  unlocks : .unlock ∈ code' ↔ .unlock ∈ code

theorem sameLocks_cons (hlock : i ≠ .lock) (hunlock : i ≠ .unlock) : SameLocks (i :: code) code where
  locks := by simp [hlock.symm]
  unlocks := by simp [hunlock.symm]

variable {task : Task} {s' : State}

theorem Locking.continue (h : Locking s) (hkey : task.key = (s.tasks t).key)
    (hlocks : SameLocks (s.tasks t).code task.code)
    (hcode : Mutex.disciplined (s.inRelease (s.tasks t).key = some t) task.code = true)
    (howner : s'.owner = s.owner) (hmutex : s'.inRelease = s.inRelease)
    (htasks : s'.tasks = update s.tasks t task) : Locking s' := by
  constructor
  · intro key t'
    have hheld := h.held key t'
    rw [howner, hmutex, htasks]
    by_cases ht : t' = t
    · subst ht
      rw [update_self, hkey, hlocks.locks, hlocks.unlocks]
      exact hheld
    · rw [update_of_ne ht]
      exact hheld
  · intro t'
    have hold := h.locks t'
    rw [howner, htasks]
    by_cases ht : t' = t
    · subst ht
      rw [update_self, hkey, hlocks.locks]
      exact hold
    · rw [update_of_ne ht]
      exact hold
  · intro t'
    have hunlocks := h.unlocks t'
    rw [howner, htasks]
    by_cases ht : t' = t
    · subst ht
      rw [update_self, hkey, hlocks.unlocks]
      exact hunlocks
    · rw [update_of_ne ht]
      exact hunlocks
  · intro t'
    rw [hmutex, htasks]
    by_cases ht : t' = t
    · subst ht
      rw [update_self, hkey]
      exact hcode
    · rw [update_of_ne ht]
      exact h.disciplined t'

theorem lock_notMem (h : disciplined held (.lock :: code) = true) :
    held = false ∧ .lock ∉ code ∧ .unlock ∉ code ∧ disciplined true code = true := by
  simpa [disciplined_cons, Instr.fits, Instr.precedes, Instr.after, and_assoc] using
    And.intro (disciplined_cons.mp h).1 (disciplined_cons.mp h).2.2

theorem unlock_notMem (h : disciplined held (.unlock :: code) = true) :
    held = true ∧ .lock ∉ code ∧ .unlock ∉ code ∧ lowers code = 0 ∧ disciplined false code = true := by
  simpa [disciplined_cons, Instr.fits, Instr.precedes, Instr.after, and_assoc] using
    And.intro (disciplined_cons.mp h).1 (disciplined_cons.mp h).2.2

theorem Locking.lock (h : Locking s) (hcode : (s.tasks t).code = .lock :: code)
    (hfree : s.inRelease (s.tasks t).key = none) :
    Locking { s.setTask t { s.tasks t with code := code } with
      inRelease := update s.inRelease (s.tasks t).key (some t) } := by
  have hdisc := h.disciplined t
  rw [hcode] at hdisc
  obtain ⟨-, hlock, hunlock, hrest⟩ := lock_notMem hdisc
  have howner := h.locks t (by simp [hcode])
  constructor
  · intro key t'
    have hheld := h.held key t'
    grind
  · intro t'
    have hlocks := h.locks t'
    grind
  · intro t'
    have hunlocks := h.unlocks t'
    grind
  · intro t'
    have hold := h.disciplined t'
    have hlocks := h.locks t'
    have hheld := h.held (s.tasks t').key t'
    grind

theorem Locking.unlock (h : Locking s) (hcode : (s.tasks t).code = .unlock :: code) :
    Locking { s.setTask t { s.tasks t with code := code } with
      inRelease := update s.inRelease (s.tasks t).key none } := by
  have hdisc := h.disciplined t
  rw [hcode] at hdisc
  obtain ⟨hheld, hlock, hunlock, -, hrest⟩ := unlock_notMem hdisc
  have howner := h.unlocks t (by simp [hcode])
  constructor
  · intro key t'
    have hheld := h.held key t'
    grind
  · intro t'
    have hlocks := h.locks t'
    grind
  · intro t'
    have hunlocks := h.unlocks t'
    grind
  · intro t'
    have hold := h.disciplined t'
    have hheld := h.held (s.tasks t').key t'
    grind

theorem lock_mem_mutexAcquired (kind : Kind) (test : Bool) :
    .lock ∈ mutexAcquired kind test ∧ .unlock ∉ mutexAcquired kind test := by
  cases kind <;> cases test <;> decide

theorem unlock_mem_mutexReleased (kind : Kind) : .unlock ∈ mutexReleased kind ∧ .lock ∉ mutexReleased kind := by
  cases kind <;> decide

theorem Locking.inRelease_of_owner (h : Locking s) (hcode : (s.tasks t).code = [])
    (howner : s.owner key = some t) : s.inRelease key = some t := by
  apply (h.held key t).mpr
  left
  simp [howner, hcode]

theorem Locking.grant (h : Locking s) {test : Bool} (hcode : (s.tasks t).code = [])
    (howner : s.owner key = none) (hkey : task.key = key) (hcode' : task.code = mutexAcquired key.kind test)
    (howner' : s'.owner = update s.owner key (some t))
    (hmutex : s'.inRelease = s.inRelease) (htasks : s'.tasks = update s.tasks t task) : Locking s' := by
  obtain ⟨hlock, hunlock⟩ := lock_mem_mutexAcquired key.kind test
  have hdisc := disciplined_mutexAcquired key.kind test
  have hfree := h.held key t
  rw [← hcode'] at hlock hunlock hdisc
  constructor
  · intro key' t'
    have hheld := h.held key' t'
    rw [howner', hmutex, htasks]
    grind
  · intro t'
    have hlocks := h.locks t'
    rw [howner', htasks]
    grind
  · intro t'
    have hunlocks := h.unlocks t'
    rw [howner', htasks]
    grind
  · intro t'
    have hold := h.disciplined t'
    rw [hmutex, htasks]
    grind

theorem Locking.release (h : Locking s) (hcode : (s.tasks t).code = [])
    (howner : s.owner key = some t) (hkey : task.key = key) (hcode' : task.code = mutexReleased key.kind)
    (howner' : s'.owner = update s.owner key none) (hmutex : s'.inRelease = s.inRelease)
    (htasks : s'.tasks = update s.tasks t task) : Locking s' := by
  obtain ⟨hunlock, hlock⟩ := unlock_mem_mutexReleased key.kind
  have hdisc := disciplined_mutexReleased key.kind
  have hmine := h.inRelease_of_owner hcode howner
  rw [← hcode'] at hlock hunlock hdisc
  constructor
  · intro key' t'
    have hheld := h.held key' t'
    rw [howner', hmutex, htasks]
    grind
  · intro t'
    have hlocks := h.locks t'
    rw [howner', htasks]
    grind
  · intro t'
    have hunlocks := h.unlocks t'
    rw [howner', htasks]
    grind
  · intro t'
    have hold := h.disciplined t'
    rw [hmutex, htasks]
    grind

theorem Locking.nest (h : Locking s) (hcode : (s.tasks t).code = []) (howner : s.owner key = some t)
    (hkey : task.key = key) (hnest : NestCallback task.code) (howner' : s'.owner = s.owner)
    (hmutex : s'.inRelease = s.inRelease) (htasks : s'.tasks = update s.tasks t task) : Locking s' := by
  obtain ⟨hdisc, hlock, hunlock, -⟩ := hnest
  have hmine := h.inRelease_of_owner hcode howner
  constructor
  · intro key' t'
    have hheld := h.held key' t'
    rw [howner', hmutex, htasks]
    grind
  · intro t'
    have hlocks := h.locks t'
    rw [howner', htasks]
    grind
  · intro t'
    have hunlocks := h.unlocks t'
    rw [howner', htasks]
    grind
  · intro t'
    have hold := h.disciplined t'
    rw [hmutex, htasks]
    grind

/-! ## Orders and nest levels -/

/-- The rest of a callback about `key`. -/
@[grind =]
def State.codeFor (s : State) (t : ℕ) (key : Key) : List Instr :=
  if (s.tasks t).key = key then (s.tasks t).code else []

/-- How many owners a lock has, 0 or 1. -/
@[grind =]
def State.owners (s : State) (key : Key) : ℕ := if s.owner key = none then 0 else 1

structure Counting (s : State) : Prop where
  index : ∀ t, s.owner (s.tasks t).key = some t → (s.tasks t).index = s.granted (s.tasks t).key
  free : ∀ key, s.inRelease key = none →
    s.acquisitionOrder key + s.owners key = s.granted key ∧ s.nestLevel key = 0
  waits : ∀ t, .lock ∈ (s.tasks t).code → bumps (s.tasks t).code = 1 ∧
    raises (s.tasks t).code = s.depth (s.tasks t).key ∧ lowers (s.tasks t).code = 0
  owned : ∀ key t, s.owner key = some t → s.inRelease key = some t →
    s.acquisitionOrder key + bumps (s.codeFor t key) = s.granted key ∧
      s.nestLevel key + raises (s.codeFor t key) = s.depth key + lowers (s.codeFor t key)
  left : ∀ t, .unlock ∈ (s.tasks t).code → s.acquisitionOrder (s.tasks t).key = (s.tasks t).index ∧
    s.granted (s.tasks t).key = (s.tasks t).index + s.owners (s.tasks t).key ∧
    s.nestLevel (s.tasks t).key = lowers (s.tasks t).code ∧
    bumps (s.tasks t).code = 0 ∧ raises (s.tasks t).code = 0
  outermost : ∀ t, .ifOutermost ∈ (s.tasks t).code →
    s.owner (s.tasks t).key = some t ∧ s.depth (s.tasks t).key = 1
  depth : ∀ key t, s.owner key = some t → key.kind ≠ .nestLock → s.depth key = 0
  storesOrder : ∀ t code, (s.tasks t).code = .storeOrder :: code →
    (s.tasks t).register = s.acquisitionOrder (s.tasks t).key
  storesLevel : ∀ t up code, (s.tasks t).code = .storeLevel up :: code →
    (s.tasks t).register = s.nestLevel (s.tasks t).key

structure SameWork (code code' : List Instr) : Prop where
  bumps : bumps code' = bumps code
  raises : raises code' = raises code
  lowers : lowers code' = lowers code
  outermost : .ifOutermost ∈ code' → .ifOutermost ∈ code

theorem Counting.continue (h : Counting s) (hkey : task.key = (s.tasks t).key)
    (hindex : task.index = (s.tasks t).index) (hlocks : SameLocks (s.tasks t).code task.code)
    (hwork : SameWork (s.tasks t).code task.code)
    (horder : ∀ code, task.code = .storeOrder :: code → task.register = s.acquisitionOrder (s.tasks t).key)
    (hlevel : ∀ up code, task.code = .storeLevel up :: code → task.register = s.nestLevel (s.tasks t).key) :
    Counting (s.setTask t task) := by
  obtain ⟨hlocks, hunlocks⟩ := hlocks
  obtain ⟨hbumps, hraises, hlowers, houter⟩ := hwork
  constructor
  · intro t'
    have hold := h.index t'
    grind
  · exact h.free
  · intro t'
    have hold := h.waits t'
    grind
  · intro key t'
    have hold := h.owned key t'
    grind
  · intro t'
    have hold := h.left t'
    grind
  · intro t'
    have hold := h.outermost t'
    grind
  · exact h.depth
  · intro t'
    have hold := h.storesOrder t'
    grind
  · intro t'
    have hold := h.storesLevel t'
    grind

theorem Instr.precedes_spec (h : i.precedes code = true) :
    (∀ code', code = .storeOrder :: code' → i = .loadOrder) ∧
      ∀ up code', code = .storeLevel up :: code' → i = .loadLevel := by
  constructor
  · rintro code' rfl
    simpa [Instr.precedes] using h
  · rintro up code' rfl
    simpa [Instr.precedes] using h

theorem Locking.fits (h : Locking s) (hcode : (s.tasks t).code = i :: code) :
    i.fits (s.inRelease (s.tasks t).key = some t) code = true ∧ i.precedes code = true ∧
      Mutex.disciplined (i.after (s.inRelease (s.tasks t).key = some t)) code = true := by
  have hdisc := h.disciplined t
  rw [hcode] at hdisc
  exact disciplined_cons.mp hdisc

theorem sameWork_cons (horder : i ≠ .storeOrder) (hlevel : ∀ up, i ≠ .storeLevel up)
    (houter : i ≠ .ifOutermost) : SameWork (i :: code) code where
  bumps := by simp [bumps, count_cons_of_ne horder, count_cons_of_ne houter]
  raises := by simp [raises, count_cons_of_ne (hlevel true)]
  lowers := by simp [lowers, count_cons_of_ne (hlevel false)]
  outermost := mem_cons_of_mem _

theorem Counting.lock (h : Counting s) (hl : Locking s) (hcode : (s.tasks t).code = .lock :: code)
    (hfree : s.inRelease (s.tasks t).key = none) :
    Counting { s.setTask t { s.tasks t with code := code } with
      inRelease := update s.inRelease (s.tasks t).key (some t) } := by
  obtain ⟨-, hbefore, -⟩ := hl.fits hcode
  obtain ⟨horder, hlevel⟩ := Instr.precedes_spec hbefore
  obtain ⟨-, hlock, hunlock, -⟩ := lock_notMem (hcode ▸ hl.disciplined t)
  have howner := hl.locks t (by simp [hcode])
  have hwork : SameWork (.lock :: code) code := sameWork_cons (by nofun) (by nofun) (by nofun)
  obtain ⟨hbumps, hraises, hlowers, houter⟩ := hwork
  have hwaits := h.waits t (by simp [hcode])
  have hnone := h.free (s.tasks t).key hfree
  constructor
  · intro t'
    have hold := h.index t'
    grind
  · intro key
    have hold := h.free key
    grind
  · intro t'
    have hold := h.waits t'
    grind
  · intro key t'
    have hold := h.owned key t'
    grind
  · intro t'
    have hold := h.left t'
    grind
  · intro t'
    have hold := h.outermost t'
    grind
  · exact h.depth
  · intro t'
    have hold := h.storesOrder t'
    grind
  · intro t'
    have hold := h.storesLevel t'
    grind

theorem Counting.unlock (h : Counting s) (hl : Locking s) (hcode : (s.tasks t).code = .unlock :: code) :
    Counting { s.setTask t { s.tasks t with code := code } with
      inRelease := update s.inRelease (s.tasks t).key none } := by
  obtain ⟨-, hbefore, -⟩ := hl.fits hcode
  obtain ⟨horder, hlevel⟩ := Instr.precedes_spec hbefore
  obtain ⟨hheld, hlock, hunlock, hlowers, -⟩ := unlock_notMem (hcode ▸ hl.disciplined t)
  have hwork : SameWork (.unlock :: code) code := sameWork_cons (by nofun) (by nofun) (by nofun)
  obtain ⟨hbumps, hraises, hlowers', houter⟩ := hwork
  have hleft := h.left t (by simp [hcode])
  constructor
  · intro t'
    have hold := h.index t'
    grind
  · intro key
    have hold := h.free key
    grind
  · intro t'
    have hold := h.waits t'
    grind
  · intro key t'
    have hold := h.owned key t'
    grind
  · intro t'
    have hold := h.left t'
    grind
  · intro t'
    have hold := h.outermost t'
    grind
  · exact h.depth
  · intro t'
    have hold := h.storesOrder t'
    grind
  · intro t'
    have hold := h.storesLevel t'
    grind

theorem Locking.owner_or_unlocks (h : Locking s) (hmine : s.inRelease (s.tasks t).key = some t) :
    s.owner (s.tasks t).key = some t ∨ .unlock ∈ (s.tasks t).code := by
  rcases (h.held _ t).mp hmine with ⟨howner, -⟩ | ⟨-, hunlock⟩
  · exact .inl howner
  · exact .inr hunlock

theorem Locking.inRelease_of_fits (h : Locking s) (hcode : (s.tasks t).code = i :: code)
    (hi : i.fits false code = false) (hlock : i ≠ .lock) : s.inRelease (s.tasks t).key = some t := by
  by_contra hnot
  have hfits := (h.fits hcode).1
  rw [decide_eq_false hnot, hi] at hfits
  cases hfits

theorem Locking.locked (h : Locking s) (hmine : s.inRelease (s.tasks t).key = some t) :
    .lock ∉ (s.tasks t).code := by
  intro hlock
  rcases (h.held _ t).mp hmine with ⟨-, hnot⟩ | ⟨-, hunlock⟩
  · exact hnot ⟨rfl, hlock⟩
  · exact h.unlocks t hunlock (h.locks t hlock)

theorem Counting.storeOrder (h : Counting s) (hl : Locking s) (hcode : (s.tasks t).code = .storeOrder :: code) :
    Counting { s.setTask t { s.tasks t with code := code } with
      acquisitionOrder := update s.acquisitionOrder (s.tasks t).key
        ((s.tasks t).register + 1) } := by
  have hmine := hl.inRelease_of_fits hcode rfl (by nofun)
  obtain ⟨-, hbefore, -⟩ := hl.fits hcode
  obtain ⟨horder, hlevel⟩ := Instr.precedes_spec hbefore
  have hregister := h.storesOrder t code hcode
  have hbumps : bumps (.storeOrder :: code) = bumps code + 1 := by
    simp [bumps, count_cons_of_ne, Nat.add_right_comm]
  have hraises : raises (.storeOrder :: code) = raises code := by
    simp [raises, count_cons_of_ne]
  have hlowers : lowers (.storeOrder :: code) = lowers code := by
    simp [lowers, count_cons_of_ne]
  have howner : s.owner (s.tasks t).key = some t := by
    rcases hl.owner_or_unlocks hmine with howner | hunlock
    · exact howner
    · have hnone := (h.left t hunlock).2.2.2.1
      rw [hcode, hbumps] at hnone
      omega
  constructor
  · intro t'
    have hold := h.index t'
    grind
  · intro key
    have hold := h.free key
    grind
  · intro t'
    have hold := h.waits t'
    have hnolock := hl.locked hmine
    grind
  · intro key t'
    have hold := h.owned key t'
    grind
  · intro t'
    have hold := h.left t'
    have hheld := hl.held (s.tasks t').key t'
    have hnot := hl.unlocks t'
    grind
  · intro t'
    have hold := h.outermost t'
    grind
  · exact h.depth
  · intro t'
    have hold := h.storesOrder t'
    have hheld : ∀ code, (s.tasks t').code = .storeOrder :: code → s.inRelease (s.tasks t').key = some t' :=
      fun code hcode => hl.inRelease_of_fits hcode rfl (by nofun)
    grind
  · intro t'
    have hold := h.storesLevel t'
    grind

theorem Counting.storeLevel (h : Counting s) (hl : Locking s) {up : Bool}
    (hcode : (s.tasks t).code = .storeLevel up :: code) :
    Counting { s.setTask t { s.tasks t with code := code } with
      nestLevel := update s.nestLevel (s.tasks t).key
        (if up then (s.tasks t).register + 1 else (s.tasks t).register - 1) } := by
  have hmine := hl.inRelease_of_fits hcode rfl (by nofun)
  obtain ⟨hfits, hbefore, -⟩ := hl.fits hcode
  obtain ⟨horder, hlevel⟩ := Instr.precedes_spec hbefore
  have hdown : up = false → raises code = 0 := by
    rintro rfl
    simpa [Instr.fits, hmine] using hfits
  have hregister := h.storesLevel t up code hcode
  have hnolock := hl.locked hmine
  have hbumps : bumps (.storeLevel up :: code) = bumps code := by
    simp [bumps, count_cons_of_ne]
  have hraises : raises (.storeLevel up :: code) = raises code + if up then 1 else 0 := by
    cases up <;> simp [raises, count_cons_of_ne]
  have hlowers : lowers (.storeLevel up :: code) = lowers code + if up then 0 else 1 := by
    cases up <;> simp [lowers, count_cons_of_ne]
  have hmem : .unlock ∈ code → .unlock ∈ (s.tasks t).code := by simp [hcode]
  have hleft := h.left t
  have hwho := hl.owner_or_unlocks hmine
  constructor
  · intro t'
    have hold := h.index t'
    grind
  · intro key
    have hold := h.free key
    grind
  · intro t'
    have hold := h.waits t'
    grind
  · intro key t'
    have hold := h.owned key t'
    have hnot := hl.unlocks t'
    grind
  · intro t'
    have hold := h.left t'
    have hheld := hl.held (s.tasks t').key t'
    have hnot := hl.unlocks t'
    simp only [State.setTask, State.owners] at hold ⊢
    by_cases ht : t' = t
    · subst ht
      rw [hcode] at hleft
      simp only [update_self]
      cases up <;> grind
    · grind
  · intro t'
    have hold := h.outermost t'
    grind
  · exact h.depth
  · intro t'
    have hold := h.storesOrder t'
    grind
  · intro t'
    have hold := h.storesLevel t'
    have hheld : ∀ up code, (s.tasks t').code = .storeLevel up :: code →
        s.inRelease (s.tasks t').key = some t' :=
      fun up code hcode => hl.inRelease_of_fits hcode rfl (by nofun)
    grind

theorem mutexAcquired_work (kind : Kind) (test : Bool) : bumps (mutexAcquired kind test) = 1 ∧
      raises (mutexAcquired kind test) = (if kind = .nestLock then 1 else 0) ∧
      lowers (mutexAcquired kind test) = 0 ∧ (.ifOutermost ∈ mutexAcquired kind test → kind = .nestLock) := by
  cases kind <;> cases test <;> decide

theorem mutexReleased_work (kind : Kind) : bumps (mutexReleased kind) = 0 ∧ raises (mutexReleased kind) = 0 ∧
      lowers (mutexReleased kind) = (if kind = .nestLock then 1 else 0) ∧
      .ifOutermost ∉ mutexReleased kind := by
  cases kind <;> decide

theorem storesNone_mutexAcquired (kind : Kind) (test : Bool) : StoresNone (mutexAcquired kind test) := by
  cases kind <;> cases test <;> exact ⟨nofun, nofun⟩

theorem storesNone_mutexReleased (kind : Kind) : StoresNone (mutexReleased kind) := by
  cases kind <;> exact ⟨nofun, nofun⟩

theorem Counting.grant (h : Counting s) (hl : Locking s) (hcode : (s.tasks t).code = [])
    (howner : s.owner key = none) (test : Bool) : Counting (grant s t key test) := by
  obtain ⟨hbumps, hraises, hlowers, houter⟩ := mutexAcquired_work key.kind test
  obtain ⟨hlock, hunlock⟩ := lock_mem_mutexAcquired key.kind test
  obtain ⟨hnoOrder, hnoLevel⟩ := storesNone_mutexAcquired key.kind test
  have hnot := hl.held key t
  rw [Mutex.grant]
  generalize hrest : mutexAcquired key.kind test = code at *
  constructor
  · intro t'
    have hold := h.index t'
    grind
  · intro key'
    have hold := h.free key'
    grind
  · intro t'
    have hold := h.waits t'
    have hlocks := hl.locks t'
    grind
  · intro key' t'
    have hold := h.owned key' t'
    grind
  · intro t'
    have hold := h.left t'
    grind
  · intro t'
    have hold := h.outermost t'
    grind
  · intro key' t'
    have hold := h.depth key' t'
    grind
  · intro t'
    have hold := h.storesOrder t'
    grind
  · intro t'
    have hold := h.storesLevel t'
    grind

theorem Counting.release (h : Counting s) (hl : Locking s) (hcode : (s.tasks t).code = [])
    (howner : s.owner key = some t) (hdepth : key.kind = .nestLock → s.depth key = 1) :
    Counting (released s t key) := by
  obtain ⟨hbumps, hraises, hlowers, houter⟩ := mutexReleased_work key.kind
  obtain ⟨hunlock, hlock⟩ := unlock_mem_mutexReleased key.kind
  obtain ⟨hnoOrder, hnoLevel⟩ := storesNone_mutexReleased key.kind
  have hmine := hl.inRelease_of_owner hcode howner
  have howned := h.owned key t howner hmine
  have hflat := h.depth key t howner
  have hempty : s.codeFor t key = [] := by simp [State.codeFor, hcode]
  have hnone : bumps [] = 0 ∧ raises [] = 0 ∧ lowers [] = 0 := ⟨rfl, rfl, rfl⟩
  rw [hempty] at howned
  rw [Mutex.released]
  generalize hrest : mutexReleased key.kind = code at *
  constructor
  · intro t'
    have hold := h.index t'
    grind
  · intro key'
    have hold := h.free key'
    grind
  · intro t'
    have hold := h.waits t'
    grind
  · intro key' t'
    have hold := h.owned key' t'
    grind
  · intro t'
    have hold := h.left t'
    have hheld := hl.held (s.tasks t').key t'
    grind
  · intro t'
    have hold := h.outermost t'
    grind
  · intro key' t'
    have hold := h.depth key' t'
    grind
  · intro t'
    have hold := h.storesOrder t'
    grind
  · intro t'
    have hold := h.storesLevel t'
    grind

theorem Counting.nest (h : Counting s) (hl : Locking s) (hcode : (s.tasks t).code = [])
    (howner : s.owner key = some t) (hkind : key.kind = .nestLock) {depth : ℕ}
    (hkey : task.key = key) (hindex : task.index = s.granted key) (hnest : NestCallback task.code)
    (hlevel : s.depth key + raises task.code = depth + lowers task.code) :
    Counting { s.setTask t task with depth := update s.depth key depth } := by
  obtain ⟨-, hlock, hunlock, houter, hbumps, ⟨hnoOrder, hnoLevel⟩, -⟩ := hnest
  have hmine := hl.inRelease_of_owner hcode howner
  have howned := h.owned key t howner hmine
  have hempty : s.codeFor t key = [] := by simp [State.codeFor, hcode]
  have hnone : bumps [] = 0 ∧ raises [] = 0 ∧ lowers [] = 0 := ⟨rfl, rfl, rfl⟩
  rw [hempty] at howned
  constructor
  · intro t'
    have hold := h.index t'
    grind
  · exact h.free
  · intro t'
    have hold := h.waits t'
    have hlocks := hl.locks t'
    grind
  · intro key' t'
    have hold := h.owned key' t'
    grind
  · intro t'
    have hold := h.left t'
    grind
  · intro t'
    have hold := h.outermost t'
    grind
  · intro key' t'
    have hold := h.depth key' t'
    grind
  · intro t'
    have hold := h.storesOrder t'
    grind
  · intro t'
    have hold := h.storesLevel t'
    grind

/-! ## Regions -/

variable (regions) in
structure Entered (s : State) : Prop where
  owner : ∀ t, ∀ c ∈ (s.tasks t).constructs, s.owner c.key = some t ∧ c.key.kind.isConstruct = true
  distinct : ∀ t, ((s.tasks t).constructs.map Construct.key).Nodup
  complete : ∀ key t, s.owner key = some t → key.kind.isConstruct = true →
    ∃ c ∈ (s.tasks t).constructs, c.key = key
  outer : ∀ t, ∀ c ∈ (s.tasks t).constructs, ((s.tasks t).key = c.key ∧ .writeOuter ∈ (s.tasks t).code) ∨
      s.outerRegion c.key = outerOf regions c
  sblock : ∀ t, ∀ c ∈ (s.tasks t).constructs, ((s.tasks t).key = c.key ∧ .writeSblock ∈ (s.tasks t).code) ∨
      s.sblockRegion c.key = sblockOf regions c
  entering : ∀ t, (.writeOuter ∈ (s.tasks t).code ∨ .writeSblock ∈ (s.tasks t).code ∨
      .enterOuter ∈ (s.tasks t).code ∨ .enterSblock ∈ (s.tasks t).code) →
    (s.tasks t).innermost ∈ (s.tasks t).constructs ∧ (s.tasks t).innermost.key = (s.tasks t).key
  codeptr : ∀ t, (.writeOuter ∈ (s.tasks t).code ∨ .writeSblock ∈ (s.tasks t).code) →
    (s.tasks t).innermost.codeptr = (s.tasks t).codeptr
  readsOuter : ∀ t, .readOuter ∈ (s.tasks t).code →
    s.outerRegion (s.tasks t).key = outerOf regions (s.tasks t).leaving
  exitsSblock : ∀ t, .exitSblock ∈ (s.tasks t).code →
    s.sblockRegion (s.tasks t).key = sblockOf regions (s.tasks t).leaving
  exitsOuter : ∀ t, .exitOuter ∈ (s.tasks t).code → .readOuter ∉ (s.tasks t).code →
    (s.tasks t).outer = outerOf regions (s.tasks t).leaving

structure SameRegions (code code' : List Instr) : Prop where
  writeOuter : .writeOuter ∈ code' ↔ .writeOuter ∈ code
  writeSblock : .writeSblock ∈ code' ↔ .writeSblock ∈ code
  enterOuter : .enterOuter ∈ code' → .enterOuter ∈ code
  enterSblock : .enterSblock ∈ code' → .enterSblock ∈ code
  readOuter : .readOuter ∈ code' → .readOuter ∈ code
  exitSblock : .exitSblock ∈ code' → .exitSblock ∈ code

theorem sameRegions_cons (houter : i ≠ .writeOuter) (hsblock : i ≠ .writeSblock) :
    SameRegions (i :: code) code where
  writeOuter := by simp [houter.symm]
  writeSblock := by simp [hsblock.symm]
  enterOuter := mem_cons_of_mem _
  enterSblock := mem_cons_of_mem _
  readOuter := mem_cons_of_mem _
  exitSblock := mem_cons_of_mem _

theorem innermost_eq {task task' : Task} (hkey : task'.key = task.key)
    (h : task'.constructs = task.constructs) : task'.innermost = task.innermost := by
  rw [Task.innermost, Task.innermost, hkey, h]

theorem Entered.continue (h : Entered regions s) (hcont : Continues (s.tasks t) task)
    (hsame : SameRegions (s.tasks t).code task.code)
    (hcodeptr : .writeOuter ∈ task.code ∨ .writeSblock ∈ task.code → task.codeptr = (s.tasks t).codeptr)
    (houter : .exitOuter ∈ task.code → .readOuter ∉ task.code →
      task.outer = outerOf regions (s.tasks t).leaving) : Entered regions (s.setTask t task) := by
  obtain ⟨hkey, -, -, hconstructs, hleaving⟩ := hcont
  obtain ⟨hwriteOuter, hwriteSblock, henterOuter, henterSblock, hreadOuter, hexitSblock⟩ := hsame
  have hinner := innermost_eq hkey hconstructs
  constructor
  · intro t'
    have hold := h.owner t'
    grind
  · intro t'
    have hold := h.distinct t'
    grind
  · intro key t'
    have hold := h.complete key t'
    grind
  · intro t'
    have hold := h.outer t'
    grind
  · intro t'
    have hold := h.sblock t'
    grind
  · intro t'
    have hold := h.entering t'
    grind
  · intro t'
    have hold := h.codeptr t'
    grind
  · intro t'
    have hold := h.readsOuter t'
    grind
  · intro t'
    have hold := h.exitsSblock t'
    grind
  · intro t'
    have hold := h.exitsOuter t'
    grind

theorem Entered.eq_of_key (h : Entered regions s) {c c' : Construct}
    (hc : c ∈ (s.tasks t).constructs) (hc' : c' ∈ (s.tasks t).constructs) (hkey : c.key = c'.key) : c = c' :=
  inj_on_of_nodup_map (h.distinct t) hc hc' hkey

theorem unlock_mem_of_reader {reader : Instr} (hreader : reader = .readOuter ∨ reader = .exitSblock)
    (hdisc : disciplined held code = true) (hmem : reader ∈ code) : .unlock ∈ code := by
  induction code generalizing held with
  | nil => cases hmem
  | cons i code ih =>
    obtain ⟨hfits, -, hrest⟩ := disciplined_cons.mp hdisc
    rcases mem_cons.mp hmem with rfl | hmem
    · apply mem_cons_of_mem
      rcases hreader with rfl | rfl <;> simpa using (Bool.and_eq_true_iff.mp hfits).2
    · exact mem_cons_of_mem _ (ih hrest hmem)

theorem Locking.inRelease_of_reader (h : Locking s) {reader : Instr}
    (hreader : reader = .readOuter ∨ reader = .exitSblock) (hmem : reader ∈ (s.tasks t).code) :
    s.inRelease (s.tasks t).key = some t :=
  (h.held _ t).mpr (.inr ⟨rfl, unlock_mem_of_reader hreader (h.disciplined t) hmem⟩)

theorem Entered.writeOuter (h : Entered regions s) (hl : Locking s)
    (hcode : (s.tasks t).code = .writeOuter :: code) (htimely : WriteTimely s (s.tasks t).key .readOuter
      (regions.get (.outer (s.tasks t).key.kind) (s.tasks t).codeptr = s.outerRegion (s.tasks t).key)) :
    Entered regions { s.setTask t { s.tasks t with code := code } with
      outerRegion := update s.outerRegion (s.tasks t).key
        (regions.get (.outer (s.tasks t).key.kind) (s.tasks t).codeptr) } := by
  obtain ⟨hinner, hinnerKey⟩ := h.entering t (.inl (by simp [hcode]))
  have hinnerCode := h.codeptr t (.inl (by simp [hcode]))
  have hregion : outerOf regions (s.tasks t).innermost =
      regions.get (.outer (s.tasks t).key.kind) (s.tasks t).codeptr := by
    rw [outerOf, hinnerKey, hinnerCode]
  have hfits := (hl.fits hcode).1
  have hlock : .lock ∈ code := by
    have hboth := Bool.and_eq_true_iff.mp hfits
    simpa using hboth.2
  have hlock' : .lock ∈ (s.tasks t).code := by simp [hcode, hlock]
  have howner := hl.locks t hlock'
  have hfree : s.inRelease (s.tasks t).key ≠ some t := fun hmine => hl.locked hmine hlock'
  have hsole := fun c hc => h.eq_of_key (c := c) hc hinner
  have hnew : ({ s.tasks t with code := code } : Task).innermost = (s.tasks t).innermost := rfl
  constructor
  · intro t'
    have hold := h.owner t'
    grind
  · intro t'
    have hold := h.distinct t'
    grind
  · intro key t'
    have hold := h.complete key t'
    grind
  · intro t' c
    have hold := h.outer t' c
    have hown := h.owner t' c
    grind
  · intro t' c
    have hold := h.sblock t' c
    grind
  · intro t'
    have hold := h.entering t'
    grind
  · intro t'
    have hold := h.codeptr t'
    grind
  · intro t'
    have hold := h.readsOuter t'
    have hreads := hl.inRelease_of_reader (t := t') (.inl rfl)
    have hsame := htimely t'
    grind
  · intro t'
    have hold := h.exitsSblock t'
    grind
  · intro t'
    have hold := h.exitsOuter t'
    grind

theorem Entered.writeSblock (h : Entered regions s) (hl : Locking s)
    (hcode : (s.tasks t).code = .writeSblock :: code) (htimely : WriteTimely s (s.tasks t).key .exitSblock
      (regions.get (.sblock (s.tasks t).key.kind) (s.tasks t).codeptr = s.sblockRegion (s.tasks t).key)) :
    Entered regions { s.setTask t { s.tasks t with code := code } with
      sblockRegion := update s.sblockRegion (s.tasks t).key
        (regions.get (.sblock (s.tasks t).key.kind) (s.tasks t).codeptr) } := by
  obtain ⟨hinner, hinnerKey⟩ := h.entering t (.inr (.inl (by simp [hcode])))
  have hinnerCode := h.codeptr t (.inr (by simp [hcode]))
  have hregion : sblockOf regions (s.tasks t).innermost =
      regions.get (.sblock (s.tasks t).key.kind) (s.tasks t).codeptr := by
    rw [sblockOf, hinnerKey, hinnerCode]
  have hfits := (hl.fits hcode).1
  have hlock : .lock ∈ code := by
    have hboth := Bool.and_eq_true_iff.mp hfits
    simpa using hboth.2
  have hlock' : .lock ∈ (s.tasks t).code := by simp [hcode, hlock]
  have howner := hl.locks t hlock'
  have hfree : s.inRelease (s.tasks t).key ≠ some t := fun hmine => hl.locked hmine hlock'
  have hsole := fun c hc => h.eq_of_key (c := c) hc hinner
  have hnew : ({ s.tasks t with code := code } : Task).innermost = (s.tasks t).innermost := rfl
  constructor
  · intro t'
    have hold := h.owner t'
    grind
  · intro t'
    have hold := h.distinct t'
    grind
  · intro key t'
    have hold := h.complete key t'
    grind
  · intro t' c
    have hold := h.outer t' c
    grind
  · intro t' c
    have hold := h.sblock t' c
    have hown := h.owner t' c
    grind
  · intro t'
    have hold := h.entering t'
    grind
  · intro t'
    have hold := h.codeptr t'
    grind
  · intro t'
    have hold := h.readsOuter t'
    grind
  · intro t'
    have hold := h.exitsSblock t'
    have hreads := hl.inRelease_of_reader (t := t') (.inr rfl)
    have hsame := htimely t'
    grind
  · intro t'
    have hold := h.exitsOuter t'
    grind

theorem Entered.plain (h : Entered regions s) (hcode : (s.tasks t).code = [])
    (hconstructs : task.constructs = (s.tasks t).constructs) (hplain : ∀ i ∈ task.code, i.ofConstruct = false) :
    Entered regions (s.setTask t task) := by
  have hnone : ∀ i : Instr, i.ofConstruct = true → i ∉ task.code := by
    intro i hi hmem
    rw [hplain i hmem] at hi
    cases hi
  have h₁ := hnone .writeOuter rfl
  have h₂ := hnone .writeSblock rfl
  have h₃ := hnone .enterOuter rfl
  have h₄ := hnone .enterSblock rfl
  have h₅ := hnone .readOuter rfl
  have h₆ := hnone .exitSblock rfl
  have h₇ := hnone .exitOuter rfl
  constructor
  · intro t'
    have hold := h.owner t'
    grind
  · intro t'
    have hold := h.distinct t'
    grind
  · intro key t'
    have hold := h.complete key t'
    grind
  · intro t'
    have hold := h.outer t'
    grind
  · intro t'
    have hold := h.sblock t'
    grind
  · intro t'
    have hold := h.entering t'
    grind
  · intro t'
    have hold := h.codeptr t'
    grind
  · intro t'
    have hold := h.readsOuter t'
    grind
  · intro t'
    have hold := h.exitsSblock t'
    grind
  · intro t'
    have hold := h.exitsOuter t'
    grind

variable {kind : Kind}

theorem mutexAcquired_construct (hkind : kind.isConstruct = true) (test : Bool) :
    mutexAcquired kind test = [.writeOuter, .writeSblock, .enterOuter, .lock, .loadOrder,
      .storeOrder, .acquire, .enterSblock, .clearCodeptr] := by
  cases kind with
  | critical => rfl
  | ordered => rfl
  | lock => cases hkind
  | nestLock => cases hkind

theorem mutexReleased_construct (hkind : kind.isConstruct = true) :
    mutexReleased kind = [.readOuter, .exitSblock, .release, .unlock, .exitOuter] := by
  cases kind with
  | critical => rfl
  | ordered => rfl
  | lock => cases hkind
  | nestLock => cases hkind

theorem mutexAcquired_plain (hkind : kind.isConstruct = false) (test : Bool) :
    ∀ i ∈ mutexAcquired kind test, i.ofConstruct = false := by
  cases kind with
  | lock => cases test <;> decide
  | nestLock => cases test <;> decide
  | critical => cases hkind
  | ordered => cases hkind

theorem mutexReleased_plain (hkind : kind.isConstruct = false) :
    ∀ i ∈ mutexReleased kind, i.ofConstruct = false := by
  cases kind with
  | lock => decide
  | nestLock => decide
  | critical => cases hkind
  | ordered => cases hkind

theorem Entered.grant (h : Entered regions s) (hcode : (s.tasks t).code = [])
    (howner : s.owner key = none) (test : Bool) : Entered regions (grant s t key test) := by
  cases hkind : key.kind.isConstruct with
  | false =>
    have hplain : Entered regions (s.setTask t { s.tasks t with
        code := mutexAcquired key.kind test, key := key, pending := none,
        index := s.granted key + 1 }) :=
      h.plain hcode rfl (mutexAcquired_plain hkind test)
    rw [Mutex.grant, hkind]
    obtain ⟨h₁, h₂, h₃, h₄, h₅, h₆, h₇, h₈, h₉, h₁₀⟩ := hplain
    refine ⟨?_, h₂, ?_, h₄, h₅, h₆, h₇, h₈, h₉, h₁₀⟩
    · intro t' c hc
      have hold := h₁ t' c hc
      simp only [State.setTask] at hold ⊢
      grind
    · intro key' t' howner' hconstruct
      have hold := h₃ key' t'
      simp only [State.setTask] at howner' hold ⊢
      grind
  | true =>
    have hacquired := mutexAcquired_construct hkind test
    rw [Mutex.grant, hkind, hacquired]
    constructor
    · intro t'
      have hold := h.owner t'
      grind
    · intro t'
      have hold := h.distinct t'
      have hown := h.owner t'
      simp only [State.setTask]
      by_cases ht : t' = t
      · subst ht
        simp only [update_self, if_true, map_cons, nodup_cons]
        refine ⟨?_, hold⟩
        intro hmem
        obtain ⟨c, hc, hkey⟩ := mem_map.mp hmem
        have hc' := (hown c hc).1
        rw [hkey, howner] at hc'
        cases hc'
      · rw [update_of_ne ht]
        exact hold
    · intro key' t' howner' hconstruct
      have hold := h.complete key' t'
      simp only [State.setTask] at howner' ⊢
      by_cases ht : t' = t
      · subst ht
        simp only [update_self, if_true, mem_cons]
        by_cases hkey : key' = key
        · exact ⟨_, .inl rfl, hkey.symm⟩
        · rw [update_of_ne hkey] at howner'
          obtain ⟨c, hc, hc'⟩ := hold howner' hconstruct
          exact ⟨c, .inr hc, hc'⟩
      · rw [update_of_ne ht]
        grind
    · intro t' c hc
      have hold := h.outer t' c
      simp only [State.setTask] at hc ⊢
      by_cases ht : t' = t
      · subst ht
        simp only [update_self, if_true, mem_cons] at hc ⊢
        rcases hc with rfl | hc
        · simp
        · rcases hold hc with ⟨-, hmem⟩ | hsame
          · simp [hcode] at hmem
          · exact .inr hsame
      · rw [update_of_ne ht] at hc ⊢
        exact hold hc
    · intro t' c hc
      have hold := h.sblock t' c
      simp only [State.setTask] at hc ⊢
      by_cases ht : t' = t
      · subst ht
        simp only [update_self, if_true, mem_cons] at hc ⊢
        rcases hc with rfl | hc
        · simp
        · rcases hold hc with ⟨-, hmem⟩ | hsame
          · simp [hcode] at hmem
          · exact .inr hsame
      · rw [update_of_ne ht] at hc ⊢
        exact hold hc
    · intro t'
      have hold := h.entering t'
      simp only [State.setTask]
      by_cases ht : t' = t
      · subst ht
        simp [Task.innermost]
      · rw [update_of_ne ht]
        exact hold
    · intro t'
      have hold := h.codeptr t'
      simp only [State.setTask]
      by_cases ht : t' = t
      · subst ht
        simp [Task.innermost]
      · rw [update_of_ne ht]
        exact hold
    · intro t'
      have hold := h.readsOuter t'
      grind
    · intro t'
      have hold := h.exitsSblock t'
      grind
    · intro t'
      have hold := h.exitsOuter t'
      grind

theorem Entered.release (h : Entered regions s) (hcode : (s.tasks t).code = []) (howner : s.owner key = some t)
    (hlast : key.kind.isConstruct = true → (s.tasks t).innermost.key = key) :
    Entered regions (released s t key) := by
  cases hkind : key.kind.isConstruct with
  | false =>
    have hplain : Entered regions (s.setTask t { s.tasks t with
        code := mutexReleased key.kind, key := key, index := s.granted key }) :=
      h.plain hcode rfl (mutexReleased_plain hkind)
    rw [Mutex.released, hkind]
    obtain ⟨h₁, h₂, h₃, h₄, h₅, h₆, h₇, h₈, h₉, h₁₀⟩ := hplain
    refine ⟨?_, h₂, ?_, h₄, h₅, h₆, h₇, h₈, h₉, h₁₀⟩
    · intro t' c hc
      have hold := h₁ t' c hc
      simp only [State.setTask] at hold ⊢
      grind
    · intro key' t' howner' hconstruct
      have hold := h₃ key' t'
      simp only [State.setTask] at howner' hold ⊢
      grind
  | true =>
    have hreleased := mutexReleased_construct hkind
    obtain ⟨c₀, hc₀, -⟩ := h.complete key t howner hkind
    obtain ⟨first, rest, hfirst⟩ := exists_cons_of_ne_nil (ne_nil_of_mem hc₀)
    have hinner : (s.tasks t).innermost = first := by rw [Task.innermost, hfirst]; rfl
    have hkey : first.key = key := hinner ▸ hlast hkind
    have hdistinct := h.distinct t
    rw [hfirst, map_cons, nodup_cons] at hdistinct
    have hmem : first ∈ (s.tasks t).constructs := by simp [hfirst]
    have houter := h.outer t first hmem
    have hsblock := h.sblock t first hmem
    rw [Mutex.released, hkind, hreleased]
    simp only [if_true, hinner, hfirst, tail_cons]
    constructor
    · intro t' c hc
      have hold := h.owner t' c
      simp only [State.setTask] at hc ⊢
      by_cases ht : t' = t
      · subst ht
        simp only [update_self] at hc
        have hne : c.key ≠ key := by
          intro heq
          exact hdistinct.1 (mem_map.mpr ⟨c, hc, heq.trans hkey.symm⟩)
        rw [update_of_ne hne]
        exact hold (by simp [hfirst, hc])
      · grind
    · intro t'
      have hold := h.distinct t'
      grind
    · intro key' t' howner' hconstruct
      have hold := h.complete key' t'
      simp only [State.setTask] at howner' ⊢
      grind
    · intro t' c hc
      have hold := h.outer t' c
      simp only [State.setTask] at hc ⊢
      grind
    · intro t' c hc
      have hold := h.sblock t' c
      simp only [State.setTask] at hc ⊢
      grind
    · intro t'
      have hold := h.entering t'
      grind
    · intro t'
      have hold := h.codeptr t'
      grind
    · intro t'
      have hold := h.readsOuter t'
      grind
    · intro t'
      have hold := h.exitsSblock t'
      grind
    · intro t'
      have hold := h.exitsOuter t'
      grind

/-! ## Nesting -/

variable (regions) in
def Instr.mark (task : Task) : Instr → Bracket ℕ
  | .enter event => .enter (regions.lock event)
  | .exit event => .leave (regions.lock event)
  | .enterOuter => .enter (outerOf regions task.innermost)
  | .enterSblock => .enter (sblockOf regions task.innermost)
  | .exitSblock => .leave (sblockOf regions task.leaving)
  | .exitOuter => .leave (outerOf regions task.leaving)
  | _ => .plain

variable (regions) in
def Task.base (task : Task) : List ℕ :=
  (match task.pending with
    | some (⟨_, .lock⟩, false) => [regions.lock .set]
    | some (⟨_, .nestLock⟩, false) => [regions.lock .setNest]
    | _ => []) ++
  task.constructs.flatMap fun c => [sblockOf regions c, outerOf regions c]

variable (regions) in
def Task.story (task : Task) : List (Bracket ℕ) :=
  (task.code.map (Instr.mark regions task)).reverse ++ task.events.map Event.bracket

variable (regions) in
def Nests (s : State) : Prop :=
  ∀ t, openRegions ((s.tasks t).story regions) = some ((s.tasks t).base regions)

variable (regions) in
structure Inv (s : State) : Prop where
  noFault : s.faults = []
  locking : Locking s
  counting : Counting s
  entered : Entered regions s
  nests : Nests regions s

theorem Inv.sound (h : Inv regions s) : Sound s where
  noFault := h.noFault
  nested := by
    intro t
    have hnests := h.nests t
    apply openRegions_of_append
    rw [Task.story] at hnests
    rw [hnests]
    nofun
  order := by
    intro t key howner hcode
    have howned := h.counting.owned key t howner (h.locking.inRelease_of_owner hcode howner)
    simpa [State.codeFor, hcode, bumps] using howned.1
  nestLevel := by
    intro t key _ howner hcode
    have howned := h.counting.owned key t howner (h.locking.inRelease_of_owner hcode howner)
    simpa [State.codeFor, hcode, raises, lowers] using howned.2

variable (regions) in
theorem inv_initial : Inv regions initial where
  noFault := rfl
  locking := by
    constructor
    · intro key t
      simp [initial]
    · intro t h
      cases h
    · intro t h
      cases h
    · intro t
      rfl
  counting := by
    constructor
    · nofun
    · intro key _
      simp [initial, State.owners]
    · nofun
    · nofun
    · nofun
    · nofun
    · nofun
    · nofun
    · nofun
  entered := by
    constructor
    · nofun
    · intro t
      exact nodup_nil
    · nofun
    · nofun
    · nofun
    · intro t h
      simp [initial] at h
    · intro t h
      simp [initial] at h
    · nofun
    · nofun
    · nofun
  nests := fun _ => rfl

def Instr.isLocal : Instr → Bool
  | .lock | .unlock | .storeOrder | .storeLevel _ | .ifOutermost | .writeOuter | .writeSblock =>
    false
  | _ => true

variable (regions) in
theorem Continues.base {task task' : Task} (h : Continues task task') :
    task'.base regions = task.base regions := by
  rw [Task.base, Task.base, h.pending, h.constructs]

variable (regions) in
theorem Continues.mark {task task' : Task} (h : Continues task task') :
    Instr.mark regions task' = Instr.mark regions task := by
  have hinner := innermost_eq h.key h.constructs
  funext i
  cases i <;> simp [Instr.mark, hinner, h.leaving]

theorem Nests.advance (h : Nests regions s) (hcode : (s.tasks t).code = i :: code)
    (hcont : Continues (s.tasks t) task) (hrest : task.code = code)
    (hevents : (i.mark regions (s.tasks t) = .plain ∧ task.events = (s.tasks t).events) ∨
      ∃ e : Event, e.bracket = i.mark regions (s.tasks t) ∧ task.events = e :: (s.tasks t).events) :
    Nests regions (s.setTask t task) := by
  intro t'
  by_cases ht : t' = t
  · subst ht
    have hold := h t'
    rw [Task.story, hcode, map_cons, reverse_cons, append_assoc, singleton_append] at hold
    simp only [State.setTask, update_self]
    rw [hcont.base regions, Task.story, hrest, hcont.mark regions, ← hold]
    rcases hevents with ⟨hmark, hevents⟩ | ⟨e, hmark, hevents⟩
    · rw [hmark, hevents, openRegions_append_plain]
    · rw [hevents, map_cons, hmark]
  · simp only [State.setTask]
    rw [update_of_ne ht]
    exact h t'

theorem Inv.advance (h : Inv regions s) (hcode : (s.tasks t).code = i :: code)
    (hi : i.isLocal = true) (hcont : Continues (s.tasks t) task) (hrest : task.code = code)
    (horder : i = .loadOrder → task.register = s.acquisitionOrder (s.tasks t).key)
    (hlevel : i = .loadLevel → task.register = s.nestLevel (s.tasks t).key)
    (hcodeptr : .writeOuter ∈ code ∨ .writeSblock ∈ code →
      task.codeptr = (s.tasks t).codeptr) (houter : .exitOuter ∈ code → .readOuter ∉ code →
      task.outer = outerOf regions (s.tasks t).leaving)
    (hevents : (i.mark regions (s.tasks t) = .plain ∧ task.events = (s.tasks t).events) ∨
      ∃ e : Event, e.bracket = i.mark regions (s.tasks t) ∧ task.events = e :: (s.tasks t).events) :
    Inv regions (s.setTask t task) := by
  have hlocks : SameLocks (s.tasks t).code task.code := by
    rw [hcode, hrest]
    apply sameLocks_cons
    · rintro rfl
      cases hi
    · rintro rfl
      cases hi
  obtain ⟨-, hbefore, hdisc⟩ := h.locking.fits hcode
  have hafter : ∀ held, i.after held = held := by
    intro held
    cases i with
    | lock => cases hi
    | unlock => cases hi
    | _ => rfl
  rw [hafter] at hdisc
  obtain ⟨hloadOrder, hloadLevel⟩ := Instr.precedes_spec hbefore
  have hwork : SameWork (s.tasks t).code task.code := by
    rw [hcode, hrest]
    apply sameWork_cons
    · rintro rfl
      cases hi
    · rintro up rfl
      cases hi
    · rintro rfl
      cases hi
  have hsame : SameRegions (s.tasks t).code task.code := by
    rw [hcode, hrest]
    apply sameRegions_cons
    · rintro rfl
      cases hi
    · rintro rfl
      cases hi
  constructor
  · exact h.noFault
  · exact h.locking.continue hcont.key hlocks (hrest ▸ hdisc) rfl rfl rfl
  · apply h.counting.continue hcont.key hcont.index hlocks hwork
    · intro code' hstore
      exact horder (hloadOrder code' (hrest ▸ hstore))
    · intro up code' hstore
      exact hlevel (hloadLevel up code' (hrest ▸ hstore))
  · apply h.entered.continue hcont hsame
    · rw [hrest]
      exact hcodeptr
    · rw [hrest]
      exact houter
  · exact h.nests.advance hcode hcont hrest hevents

@[simp] theorem check_of {ok : Prop} [Decidable ok] (hok : ok) (f : Fault) : s.check ok f = s := by
  simp [State.check, hok]

theorem Inv.outer_tail (h : Inv regions s) (hcode : (s.tasks t).code = i :: code) (hi : i ≠ .readOuter) :
    .exitOuter ∈ code → .readOuter ∉ code → (s.tasks t).outer = outerOf regions (s.tasks t).leaving := by
  intro hexit hread
  apply h.entered.exitsOuter t
  · simp [hcode, hexit]
  · simp [hcode, hread, hi.symm]

theorem Inv.order_eq (h : Inv regions s) (hmine : s.inRelease (s.tasks t).key = some t)
    (hbumps : bumps (s.tasks t).code = 0) : s.acquisitionOrder (s.tasks t).key = (s.tasks t).index := by
  rcases h.locking.owner_or_unlocks hmine with howner | hunlock
  · have howned := (h.counting.owned _ t howner hmine).1
    have hindex := h.counting.index t howner
    rw [State.codeFor, if_pos rfl, hbumps] at howned
    omega
  · exact (h.counting.left t hunlock).1

theorem Inv.ifOutermost (h : Inv regions s) (hcode : (s.tasks t).code = .ifOutermost :: code) :
    s.nestLevel (s.tasks t).key = 0 ∧
      Inv regions (s.setTask t { s.tasks t with code := .loadOrder :: .storeOrder :: code }) := by
  obtain ⟨hfits, hbefore, hdisc⟩ := h.locking.fits hcode
  have hmine := h.locking.inRelease_of_fits hcode rfl nofun
  obtain ⟨howner, hdepth⟩ := h.counting.outermost t (by simp [hcode])
  have howned := (h.counting.owned _ t howner hmine).2
  obtain ⟨hlowers, hraises⟩ : lowers code = 0 ∧ raises code = 1 := by
    simpa [Instr.fits, hmine] using hfits
  have hlowers' : lowers (.ifOutermost :: code) = 0 := by simpa [lowers] using hlowers
  have hraises' : raises (.ifOutermost :: code) = 1 := by simpa [raises] using hraises
  have hcont : Continues (s.tasks t) { s.tasks t with code := .loadOrder :: .storeOrder :: code } :=
    ⟨rfl, rfl, rfl, rfl, rfl⟩
  have hlocks : SameLocks (s.tasks t).code (.loadOrder :: .storeOrder :: code) := by
    rw [hcode]
    constructor <;> simp
  rw [State.codeFor, if_pos rfl, hcode, hlowers', hraises', hdepth] at howned
  refine ⟨by omega, h.noFault, ?_, ?_, ?_, ?_⟩
  · refine h.locking.continue hcont.key hlocks ?_ rfl rfl rfl
    have hstore : Instr.storeOrder.precedes code = true := by
      obtain ⟨hnoOrder, hnoLevel⟩ := Instr.precedes_spec hbefore
      cases code with
      | nil => rfl
      | cons i code =>
        cases i with
        | storeOrder => exact absurd (hnoOrder code rfl) (by nofun)
        | storeLevel up => exact absurd (hnoLevel up code rfl) (by nofun)
        | _ => rfl
    simp only [hmine, decide_true]
    rw [disciplined_cons, disciplined_cons]
    refine ⟨rfl, rfl, rfl, hstore, ?_⟩
    rw [decide_eq_true hmine] at hdisc
    exact hdisc
  · refine h.counting.continue hcont.key hcont.index hlocks ⟨?_, ?_, ?_, ?_⟩ (by nofun) (by nofun)
    · simp [hcode, bumps]
      omega
    · simp [hcode, raises]
    · simp [hcode, lowers]
    · simp [hcode]
  · refine h.entered.continue hcont ⟨?_, ?_, ?_, ?_, ?_, ?_⟩ (fun _ => rfl) ?_
    · simp [hcode]
    · simp [hcode]
    · simp [hcode]
    · simp [hcode]
    · simp [hcode]
    · simp [hcode]
    · intro hexit hread
      apply h.entered.exitsOuter t
      · simpa [hcode] using hexit
      · simpa [hcode] using hread
  · intro t'
    have hold := h.nests t'
    simp only [State.setTask]
    by_cases ht : t' = t
    · subst ht
      rw [update_self, hcont.base regions, ← hold, Task.story, Task.story, hcont.mark regions, hcode]
      simp [Instr.mark, openRegions_append_plain]
    · rw [update_of_ne ht]
      exact hold

theorem inv_exec (h : Inv regions s) (htimely : Timely regions s (.run t))
    (hcode : (s.tasks t).code = i :: code)
    (hexec : exec regions s t { s.tasks t with code := code } i = some s') : Inv regions s' := by
  rw [Timely, hcode] at htimely
  obtain ⟨hfits, hbefore, hdisc⟩ := h.locking.fits hcode
  obtain ⟨hnoOrder, hnoLevel⟩ := Instr.precedes_spec hbefore
  have hcont : Continues (s.tasks t) { s.tasks t with code := code } :=
    ⟨rfl, rfl, rfl, rfl, rfl⟩
  have hinner : ({ s.tasks t with code := code } : Task).innermost = (s.tasks t).innermost := rfl
  -- the parts of the invariant that an instruction with an effect on its object leaves alone
  have hnests : i.mark regions (s.tasks t) = .plain →
      Nests regions (s.setTask t { s.tasks t with code := code }) :=
    fun hmark => h.nests.advance hcode hcont rfl (.inl ⟨hmark, rfl⟩)
  have hlocking : i ≠ .lock → i ≠ .unlock →
      Mutex.disciplined (s.inRelease (s.tasks t).key = some t) code = true →
      Locking (s.setTask t { s.tasks t with code := code }) :=
    fun hlock hunlock hrest =>
      h.locking.continue hcont.key (hcode ▸ sameLocks_cons hlock hunlock) hrest rfl rfl rfl
  have hentered : i ≠ .writeOuter → i ≠ .writeSblock → i ≠ .readOuter →
      Entered regions (s.setTask t { s.tasks t with code := code }) :=
    fun houter hsblock hread => h.entered.continue hcont
      (hcode ▸ sameRegions_cons houter hsblock) (fun _ => rfl) (h.outer_tail hcode hread)
  have hcounting : SameLocks (s.tasks t).code code → SameWork (s.tasks t).code code →
      i ≠ .loadOrder → i ≠ .loadLevel →
      Counting (s.setTask t { s.tasks t with code := code }) :=
    fun hlocks hwork horder hlevel => h.counting.continue hcont.key hcont.index hlocks hwork
      (fun code' hstore => absurd (hnoOrder code' hstore) horder)
      (fun up code' hstore => absurd (hnoLevel up code' hstore) hlevel)
  cases i with
  | enter event =>
    cases hexec
    exact h.advance hcode rfl ⟨rfl, rfl, rfl, rfl, rfl⟩ rfl nofun nofun (fun _ => rfl)
      (h.outer_tail hcode nofun) (.inr ⟨_, rfl, rfl⟩)
  | exit event =>
    cases hexec
    exact h.advance hcode rfl ⟨rfl, rfl, rfl, rfl, rfl⟩ rfl nofun nofun (fun _ => rfl)
      (h.outer_tail hcode nofun) (.inr ⟨_, rfl, rfl⟩)
  | setCodeptr codeptr =>
    cases hexec
    refine h.advance hcode rfl ⟨rfl, rfl, rfl, rfl, rfl⟩ rfl nofun nofun ?_
      (h.outer_tail hcode nofun) (.inl ⟨rfl, rfl⟩)
    simp [Instr.fits] at hfits
    grind
  | clearCodeptr =>
    cases hexec
    refine h.advance hcode rfl ⟨rfl, rfl, rfl, rfl, rfl⟩ rfl nofun nofun ?_
      (h.outer_tail hcode nofun) (.inl ⟨rfl, rfl⟩)
    simp [Instr.fits] at hfits
    grind
  | writeOuter =>
    cases hexec
    have hcounts := hcounting (hcode ▸ sameLocks_cons nofun nofun)
      (hcode ▸ sameWork_cons nofun nofun nofun) nofun nofun
    have hlocks := hlocking nofun nofun hdisc
    exact ⟨h.noFault, { hlocks with }, { hcounts with },
      h.entered.writeOuter h.locking hcode htimely, hnests rfl⟩
  | writeSblock =>
    cases hexec
    have hcounts := hcounting (hcode ▸ sameLocks_cons nofun nofun)
      (hcode ▸ sameWork_cons nofun nofun nofun) nofun nofun
    have hlocks := hlocking nofun nofun hdisc
    exact ⟨h.noFault, { hlocks with }, { hcounts with },
      h.entered.writeSblock h.locking hcode htimely, hnests rfl⟩
  | enterOuter =>
    obtain ⟨hmine, hkey⟩ := h.entered.entering t (.inr (.inr (.inl (by simp [hcode]))))
    have hwritten : .writeOuter ∉ (s.tasks t).code := by
      simp [Instr.fits] at hfits
      simp [hcode, hfits.2]
    have hregion : s.outerRegion (s.tasks t).key = outerOf regions (s.tasks t).innermost := by
      rcases h.entered.outer t _ hmine with ⟨-, hwrite⟩ | hregion
      · exact absurd hwrite hwritten
      · rw [← hkey]
        exact hregion
    simp only [exec, hinner, hregion, check_of, some.injEq] at hexec
    cases hexec
    exact h.advance hcode rfl ⟨rfl, rfl, rfl, rfl, rfl⟩ rfl nofun nofun (fun _ => rfl)
      (h.outer_tail hcode nofun) (.inr ⟨_, rfl, rfl⟩)
  | enterSblock =>
    obtain ⟨hmine, hkey⟩ := h.entered.entering t (.inr (.inr (.inr (by simp [hcode]))))
    have hwritten : .writeSblock ∉ (s.tasks t).code := by
      simp [Instr.fits] at hfits
      simp [hcode, hfits.2]
    have hregion : s.sblockRegion (s.tasks t).key = sblockOf regions (s.tasks t).innermost := by
      rcases h.entered.sblock t _ hmine with ⟨-, hwrite⟩ | hregion
      · exact absurd hwrite hwritten
      · rw [← hkey]
        exact hregion
    simp only [exec, hinner, hregion, check_of, some.injEq] at hexec
    cases hexec
    exact h.advance hcode rfl ⟨rfl, rfl, rfl, rfl, rfl⟩ rfl nofun nofun (fun _ => rfl)
      (h.outer_tail hcode nofun) (.inr ⟨_, rfl, rfl⟩)
  | lock =>
    simp only [exec] at hexec
    split at hexec
    · rename_i hfree
      cases hexec
      have henter := hentered nofun nofun nofun
      exact ⟨h.noFault, h.locking.lock hcode hfree, h.counting.lock h.locking hcode hfree,
        { henter with }, hnests rfl⟩
    · cases hexec
  | unlock =>
    cases hexec
    have henter := hentered nofun nofun nofun
    exact ⟨h.noFault, h.locking.unlock hcode, h.counting.unlock h.locking hcode, { henter with }, hnests rfl⟩
  | loadOrder =>
    cases hexec
    exact h.advance hcode rfl ⟨rfl, rfl, rfl, rfl, rfl⟩ rfl (fun _ => rfl) nofun (fun _ => rfl)
      (h.outer_tail hcode nofun) (.inl ⟨rfl, rfl⟩)
  | loadLevel =>
    cases hexec
    exact h.advance hcode rfl ⟨rfl, rfl, rfl, rfl, rfl⟩ rfl nofun (fun _ => rfl) (fun _ => rfl)
      (h.outer_tail hcode nofun) (.inl ⟨rfl, rfl⟩)
  | storeOrder =>
    cases hexec
    have henter := hentered nofun nofun nofun
    have hlocks := hlocking nofun nofun hdisc
    exact ⟨h.noFault, { hlocks with }, h.counting.storeOrder h.locking hcode, { henter with }, hnests rfl⟩
  | storeLevel up =>
    cases hexec
    have henter := hentered nofun nofun nofun
    have hlocks := hlocking nofun nofun hdisc
    exact ⟨h.noFault, { hlocks with }, h.counting.storeLevel h.locking hcode, { henter with }, hnests rfl⟩
  | ifOutermost =>
    obtain ⟨hlevel, hinv⟩ := h.ifOutermost hcode
    simp only [exec, hlevel, if_true, some.injEq] at hexec
    cases hexec
    exact hinv
  | checkLevel =>
    simp [Instr.fits] at hfits
    have hlevel := (h.counting.left t (by simp [hcode, hfits.1.2])).2.2.1
    have hnone : s.nestLevel (s.tasks t).key = 0 := by
      rw [hlevel, hcode]
      simpa [lowers] using hfits.2
    simp only [exec, hnone, check_of, some.injEq] at hexec
    cases hexec
    exact h.advance hcode rfl hcont rfl nofun nofun (fun _ => rfl)
      (h.outer_tail hcode nofun) (.inl ⟨rfl, rfl⟩)
  | acquire =>
    have hmine := h.locking.inRelease_of_fits hcode rfl nofun
    have hbumps : bumps (s.tasks t).code = 0 := by
      simp [Instr.fits, hmine] at hfits
      rw [hcode]
      simpa [bumps] using hfits
    have horder := h.order_eq hmine hbumps
    simp only [exec, horder, check_of, some.injEq] at hexec
    cases hexec
    exact h.advance hcode rfl ⟨rfl, rfl, rfl, rfl, rfl⟩ rfl nofun nofun (fun _ => rfl)
      (h.outer_tail hcode nofun) (.inr ⟨_, rfl, rfl⟩)
  | release =>
    have hmine := h.locking.inRelease_of_fits hcode rfl nofun
    have hbumps : bumps (s.tasks t).code = 0 := by
      simp [Instr.fits, hmine] at hfits
      rw [hcode]
      simpa [bumps] using hfits
    have horder := h.order_eq hmine hbumps
    simp only [exec, horder, check_of, some.injEq] at hexec
    cases hexec
    exact h.advance hcode rfl ⟨rfl, rfl, rfl, rfl, rfl⟩ rfl nofun nofun (fun _ => rfl)
      (h.outer_tail hcode nofun) (.inr ⟨_, rfl, rfl⟩)
  | readOuter =>
    cases hexec
    refine h.advance hcode rfl ⟨rfl, rfl, rfl, rfl, rfl⟩ rfl nofun nofun (fun _ => rfl) ?_ (.inl ⟨rfl, rfl⟩)
    intro _ _
    exact h.entered.readsOuter t (by simp [hcode])
  | exitSblock =>
    have hregion := h.entered.exitsSblock t (by simp [hcode])
    simp only [exec, hregion, check_of, some.injEq] at hexec
    cases hexec
    exact h.advance hcode rfl ⟨rfl, rfl, rfl, rfl, rfl⟩ rfl nofun nofun (fun _ => rfl)
      (h.outer_tail hcode nofun) (.inr ⟨_, rfl, rfl⟩)
  | exitOuter =>
    have hread : .readOuter ∉ (s.tasks t).code := by
      simp [Instr.fits] at hfits
      simp [hcode, hfits]
    have hregion := h.entered.exitsOuter t (by simp [hcode]) hread
    simp only [exec, hregion, check_of, some.injEq] at hexec
    cases hexec
    exact h.advance hcode rfl ⟨rfl, rfl, rfl, rfl, rfl⟩ rfl nofun nofun (fun _ => rfl)
      (fun _ _ => rfl) (.inr ⟨_, rfl, rfl⟩)

/-! ## Whole runs -/

theorem Nests.setTask (h : Nests regions s)
    (htask : openRegions (task.story regions) = some (task.base regions)) :
    Nests regions (s.setTask t task) := by
  intro t'
  simp only [State.setTask]
  by_cases ht : t' = t
  · subst ht
    rw [update_self]
    exact htask
  · rw [update_of_ne ht]
    exact h t'

theorem Nests.events (h : Nests regions s) (hcode : (s.tasks t).code = []) :
    openRegions ((s.tasks t).events.map Event.bracket) = some ((s.tasks t).base regions) := by
  have hstory := h t
  rw [Task.story, hcode] at hstory
  exact hstory

theorem mutexAcquire_plain (kind : Kind) (test : Bool) (codeptr : ℕ) :
    ∀ i ∈ mutexAcquire kind test codeptr, i.ofConstruct = false := by
  cases kind <;> cases test <;> simp [mutexAcquire, Instr.ofConstruct]

theorem inv_acquire (h : Inv regions s) {test : Bool} {codeptr : ℕ}
    (hcode : (s.tasks t).code = []) (hpending : (s.tasks t).pending = none)
    (htest : test = true → key.kind.isConstruct = false) : Inv regions (s.setTask t { s.tasks t with
      code := mutexAcquire key.kind test codeptr, pending := some (key, test) }) := by
  have hlocks : SameLocks (s.tasks t).code (mutexAcquire key.kind test codeptr) := by
    rw [hcode]
    cases key.kind <;> cases test <;> constructor <;> simp [mutexAcquire]
  have hwork : SameWork (s.tasks t).code (mutexAcquire key.kind test codeptr) := by
    rw [hcode]
    cases key.kind <;> cases test <;> constructor <;>
      simp [mutexAcquire, bumps, raises, lowers, count_cons_of_ne]
  have hevents := h.nests.events hcode
  refine ⟨h.noFault, ?_, ?_, ?_, ?_⟩
  · exact h.locking.continue (by rfl) hlocks (disciplined_mutexAcquire _ _ _ _) rfl rfl rfl
  · refine h.counting.continue (by rfl) (by rfl) hlocks hwork ?_ ?_
    · cases key.kind <;> cases test <;> nofun
    · cases key.kind <;> cases test <;> nofun
  · exact h.entered.plain hcode rfl (mutexAcquire_plain _ _ _)
  · apply h.nests.setTask
    obtain ⟨waitId, kind⟩ := key
    rw [Task.base, hpending] at hevents
    cases kind <;> cases test <;>
      simp_all [Task.story, Task.base, mutexAcquire, Instr.mark, openRegions, Kind.isConstruct]

theorem inv_idle (h : Inv regions s) (hcode : (s.tasks t).code = []) (hcode' : task.code = [])
    (hkey : task.key = (s.tasks t).key) (hindex : task.index = (s.tasks t).index)
    (hconstructs : task.constructs = (s.tasks t).constructs)
    (hstory : openRegions (task.story regions) = some (task.base regions)) :
    Inv regions (s.setTask t task) := by
  have hsame : task.code = (s.tasks t).code := hcode'.trans hcode.symm
  refine ⟨h.noFault, ?_, ?_, ?_, h.nests.setTask hstory⟩
  · refine h.locking.continue hkey (hsame ▸ ⟨.rfl, .rfl⟩) ?_ rfl rfl rfl
    rw [hcode']
    rfl
  · apply h.counting.continue hkey hindex (hsame ▸ ⟨.rfl, .rfl⟩) (hsame ▸ ⟨rfl, rfl, rfl, id⟩)
    · rw [hcode']
      nofun
    · rw [hcode']
      nofun
  · apply h.entered.plain hcode hconstructs
    simp [hcode']

theorem inv_fail (h : Inv regions s) (hcode : (s.tasks t).code = [])
    (hpending : (s.tasks t).pending = some (key, true)) :
    Inv regions (s.setTask t { s.tasks t with pending := none }) := by
  have hevents := h.nests.events hcode
  rw [Task.base, hpending] at hevents
  refine inv_idle h hcode hcode rfl rfl rfl ?_
  simpa [Task.story, Task.base, hcode] using hevents

theorem inv_grant (h : Inv regions s) {test : Bool} (hcode : (s.tasks t).code = [])
    (hpending : (s.tasks t).pending = some (key, test)) (howner : s.owner key = none) :
    Inv regions (grant s t key test) := by
  have hevents := h.nests.events hcode
  refine ⟨h.noFault, ?_, ?_, ?_, ?_⟩
  · exact h.locking.grant hcode howner rfl rfl rfl rfl rfl
  · exact h.counting.grant h.locking hcode howner test
  · exact h.entered.grant hcode howner test
  · have hnests : ∀ task : Task, openRegions (task.story regions) = some (task.base regions) →
        Nests regions (s.setTask t task) := fun _ => h.nests.setTask
    apply hnests
    obtain ⟨waitId, kind⟩ := key
    rw [Task.base, hpending] at hevents
    cases kind <;> cases test <;>
      simp_all [Task.story, Task.base, mutexAcquired, Instr.mark, openRegions,
        Kind.isConstruct, Task.innermost]

theorem inv_release (h : Inv regions s) (hcode : (s.tasks t).code = [])
    (hpending : (s.tasks t).pending = none) (howner : s.owner key = some t)
    (hdepth : key.kind = .nestLock → s.depth key = 1)
    (hlast : key.kind.isConstruct = true → (s.tasks t).innermost.key = key) :
    Inv regions (released s t key) := by
  have hevents := h.nests.events hcode
  refine ⟨h.noFault, ?_, ?_, ?_, ?_⟩
  · exact h.locking.release hcode howner rfl rfl rfl rfl rfl
  · exact h.counting.release h.locking hcode howner hdepth
  · exact h.entered.release hcode howner hlast
  · have hnests : ∀ task : Task, openRegions (task.story regions) = some (task.base regions) →
        Nests regions (s.setTask t task) := fun _ => h.nests.setTask
    apply hnests
    rw [Task.base, hpending] at hevents
    cases hkind : key.kind.isConstruct with
    | false =>
      obtain ⟨waitId, kind⟩ := key
      cases kind with
      | lock =>
        simp [Task.story, Task.base, mutexReleased, Instr.mark, openRegions, hevents, hpending]
      | nestLock =>
        simp [Task.story, Task.base, mutexReleased, Instr.mark, openRegions, hevents, hpending]
      | critical => cases hkind
      | ordered => cases hkind
    | true =>
      obtain ⟨c, hc, -⟩ := h.entered.complete key t howner hkind
      obtain ⟨first, rest, hfirst⟩ := exists_cons_of_ne_nil (ne_nil_of_mem hc)
      have hinner : (s.tasks t).innermost = first := by rw [Task.innermost, hfirst]; rfl
      rw [hfirst] at hevents
      simp [Task.story, Task.base, mutexReleased_construct hkind, Instr.mark, openRegions,
        hevents, hpending, hinner, hfirst]

theorem inv_nest (h : Inv regions s) (hcode : (s.tasks t).code = []) (howner : s.owner key = some t)
    (hkind : key.kind = .nestLock) {depth : ℕ} (hkey : task.key = key)
    (hindex : task.index = s.granted key) (hconstructs : task.constructs = (s.tasks t).constructs)
    (hnest : NestCallback task.code) (hlevel : s.depth key + raises task.code = depth + lowers task.code)
    (hstory : openRegions (task.story regions) = some (task.base regions)) :
    Inv regions { s.setTask t task with depth := update s.depth key depth } := by
  have hentered := h.entered.plain hcode hconstructs hnest.plain
  refine ⟨h.noFault, ?_, ?_, { hentered with }, h.nests.setTask hstory⟩
  · exact h.locking.nest hcode howner hkey hnest rfl rfl rfl
  · exact h.counting.nest h.locking hcode howner hkind hkey hindex hnest hlevel

theorem inv_owned (h : Inv regions s) (hcode : (s.tasks t).code = [])
    (hpending : (s.tasks t).pending = some (key, false)) (howner : s.owner key = some t)
    (hkind : key.kind = .nestLock) : Inv regions (owned s t key) := by
  have hevents := h.nests.events hcode
  obtain ⟨waitId, kind⟩ := key
  cases hkind
  rw [Task.base, hpending] at hevents
  refine inv_nest h hcode howner rfl rfl rfl rfl nestCallback_begin rfl ?_
  simp [Task.story, Task.base, nestLockBegin, Instr.mark, openRegions, hevents]

theorem inv_unnest (h : Inv regions s) (hcode : (s.tasks t).code = [])
    (hpending : (s.tasks t).pending = none) (howner : s.owner key = some t)
    (hkind : key.kind = .nestLock) (hdepth : 2 ≤ s.depth key) : Inv regions (unnest s t key) := by
  have hevents := h.nests.events hcode
  have hlevels : raises nestLockEnd = 0 ∧ lowers nestLockEnd = 1 := by decide
  rw [Task.base, hpending] at hevents
  refine inv_nest h hcode howner hkind rfl rfl rfl nestCallback_end ?_ ?_
  · rw [hlevels.1, hlevels.2]
    omega
  · simp [Task.story, Task.base, nestLockEnd, Instr.mark, openRegions, hevents, hpending]

theorem inv_step {a : Action} (h : Inv regions s) (htimely : Timely regions s a)
    (hstep : step regions s a = some s') : Inv regions s' := by
  cases a with
  | acquire t key test codeptr =>
    rw [step, ite_none_right_eq_some] at hstep
    obtain ⟨⟨hcode, hpending, htest⟩, hs⟩ := hstep
    cases hs
    exact inv_acquire h hcode hpending htest
  | grant t =>
    rw [step] at hstep
    split at hstep
    · rename_i key test hcode hpending
      rw [ite_none_right_eq_some] at hstep
      obtain ⟨howner, hs⟩ := hstep
      cases hs
      exact inv_grant h hcode hpending howner
    · cases hstep
  | owned t =>
    rw [step] at hstep
    split at hstep
    · rename_i key test hcode hpending
      rw [ite_none_right_eq_some] at hstep
      obtain ⟨⟨howner, hkind⟩, hs⟩ := hstep
      cases hs
      cases test with
      | false => exact inv_owned h hcode hpending howner hkind
      | true => exact absurd hpending (htimely key)
    · cases hstep
  | fail t =>
    rw [step] at hstep
    split at hstep
    · rename_i key hcode hpending
      cases hstep
      exact inv_fail h hcode hpending
    · cases hstep
  | release t key =>
    rw [step, ite_none_right_eq_some] at hstep
    obtain ⟨⟨hcode, hpending, howner, hdepth, hlast⟩, hs⟩ := hstep
    cases hs
    exact inv_release h hcode hpending howner hdepth hlast
  | unnest t key =>
    rw [step, ite_none_right_eq_some] at hstep
    obtain ⟨⟨hcode, hpending, howner, hkind, hdepth⟩, hs⟩ := hstep
    cases hs
    exact inv_unnest h hcode hpending howner hkind hdepth
  | run t =>
    rw [step] at hstep
    split at hstep
    · rename_i i code hcode
      exact inv_exec h htimely hcode hstep
    · cases hstep

/-- In every run of timely steps the callbacks record locks and constructs in order. -/
theorem mutex_sound_of_timely {acts : List Action}
    (hrun : Steps (fun s a s' => Timely regions s a ∧ step regions s a = some s') initial acts s) : Sound s :=
  (hrun.invariant_of_guard (fun _ _ _ h htimely hstep => inv_step h htimely hstep)
    (inv_initial regions)).sound

def numbered : Regions where
  lock := fun
    | .set => 1
    | .test => 2
    | .unset => 3
    | .setNest => 4
    | .testNest => 5
    | .unsetNest => 6
  get := fun
    | .outer _, codeptr => 2 * codeptr + 10
    | .sblock _, codeptr => 2 * codeptr + 11

def enterCritical : List Action :=
  [.acquire 0 ⟨7, .critical⟩ false 1, .run 0, .grant 0, .run 0, .run 0, .run 0, .run 0]

theorem mutex_sound_of_timely_enterCritical :
    ∃ s, Steps (fun s a s' => step numbered s a = some s') initial enterCritical s ∧ Sound s := by
  have hrun : ∃ s, Steps (fun s a s' => Timely numbered s a ∧ step numbered s a = some s') initial
      enterCritical s := by
    refine ⟨_, .cons ⟨trivial, rfl⟩ (.cons ⟨trivial, rfl⟩ (.cons ⟨trivial, rfl⟩
      (.cons ⟨?_, rfl⟩ (.cons ⟨?_, rfl⟩ (.cons ⟨trivial, rfl⟩ (.cons ⟨trivial, rfl⟩
      (.nil _)))))))⟩
    · intro t hheld
      cases hheld
    · intro t hheld
      cases hheld
  obtain ⟨s, hs⟩ := hrun
  exact ⟨s, hs.mono fun _ _ _ h => h.2, mutex_sound_of_timely hs⟩

/-- Two tasks pass through critical constructs of one name at different places; the second one
enters while the first one has still to read the regions. -/
def handOver : List Action :=
  [.acquire 0 ⟨7, .critical⟩ false 1, .run 0, .grant 0, .run 0, .run 0, .run 0, .run 0, .run 0,
    .run 0, .run 0, .run 0, .run 0, .acquire 1 ⟨7, .critical⟩ false 2, .run 1,
    .release 0 ⟨7, .critical⟩, .grant 1, .run 1, .run 0, .run 0, .run 0, .run 0, .run 0]

/-- `omp_test_nest_lock` on a nest lock the task owns. -/
def testOwned : List Action :=
  [.acquire 0 ⟨7, .nestLock⟩ false 0, .run 0, .grant 0, .run 0, .run 0, .run 0, .run 0, .run 0,
    .run 0, .run 0, .run 0, .acquire 0 ⟨7, .nestLock⟩ true 0, .owned 0, .run 0, .run 0, .run 0,
    .run 0]

theorem not_sound_handOver_testOwned :
    (∃ s, Steps (fun s a s' => step numbered s a = some s') initial handOver s ∧ ¬ Sound s) ∧
      ∃ s, Steps (fun s a s' => step numbered s a = some s') initial testOwned s ∧ ¬ Sound s := by
  constructor
  · have hfaults : (handOver.foldlM (step numbered) initial).map State.faults =
        some [.wrongRegion ⟨7, .critical⟩ 14] := by decide +kernel
    obtain ⟨s, hrun, hs⟩ := Steps.exists_of_foldlM hfaults
    refine ⟨s, hrun, ?_⟩
    intro hsound
    rw [hsound.noFault] at hs
    cases hs
  · have hopen : (testOwned.foldlM (step numbered) initial).map (fun s =>
        openRegions ((s.tasks 0).events.map Event.bracket)) = some none := by decide +kernel
    obtain ⟨s, hrun, hs⟩ := Steps.exists_of_foldlM hopen
    exact ⟨s, hrun, fun hsound => hsound.nested 0 hs⟩

end ScoreP.Ompt.Mutex
