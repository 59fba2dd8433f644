import Mathlib.Algebra.BigOperators.Group.Finset.Piecewise
import ScoreP.Profile.RegionSafety

/-!
# Migrations of tasks

A location counts the tasks that come to it, and gets the number of those that go away from the tasks that
it has created and freed (`Location.triggered`). `Migration` is what these counts depend on, and
`Migration.resume` and its siblings are what the events of a task do to it. A `Journal` knows where the
explicit tasks are and where they were before; `Balanced` relates both. `migration_totals` follows for every
run: the totals that are triggered are the numbers of migrations.
-/

namespace ScoreP.Profile

open Foundations Function List Option

/-- The two values that `scorep_profile_update_task_metrics` triggers, the loss and the win. -/
def Location.triggered (location : Location) : UInt64 × UInt64 :=
  if location.migrationSum ≠ 0 ∨ location.migrationWin ≠ 0 then
    (location.migrationWin - location.migrationSum, location.migrationWin)
  else (0, 0)

theorem Location.triggered_eq (location : Location) :
    location.triggered = (location.migrationWin - location.migrationSum, location.migrationWin) := by
  rw [triggered]
  split
  · rfl
  · simp_all

structure Migration where
  sum : ℕ → UInt64
  win : ℕ → UInt64
  implicit : ℕ → Option ℕ
  last : ℕ → Option ℕ

namespace Migration

def resume (m : Migration) (l t : ℕ) : Migration :=
  if some t = m.implicit l ∨ m.last t = some l then m
  else { m with win := update m.win l (m.win l + 1), last := update m.last t (some l) }

def create (m : Migration) (l t : ℕ) (isImplicit : Bool) : Migration :=
  { m with
    sum := update m.sum l (m.sum l - 1)
    implicit := if isImplicit then update m.implicit l (some t) else m.implicit
    last := update m.last t (some l) }

def free (m : Migration) (l : ℕ) : Migration :=
  { m with sum := update m.sum l (m.sum l + 1) }

def reset (m : Migration) (l : ℕ) : Migration :=
  { m with sum := update m.sum l 0, win := update m.win l 0 }

end Migration

def createLocationData : Location where
  rootNode := none
  currentTaskNode := none
  currentImplicitNode := none
  currentDepth := 0
  implicitDepth := 0
  currentTask := none
  implicitTask := none
  migrationSum := 1
  migrationWin := 0

namespace State

variable {n : ℕ} {D : Type} {cfg : Config} {s s' : State n D} {l t : ℕ} {timestamp : UInt64}
  {values : Fin n → UInt64}

def migration (s : State n D) : Migration where
  sum l := (s.location l).migrationSum
  win l := (s.location l).migrationWin
  implicit l := (s.location l).implicitTask
  last t := (s.task t).lastLocation

/-! ## What the functions change -/

theorem setLocation_migration (location : Location) : (s.setLocation l location).migration = { s.migration with
      sum := update s.migration.sum l location.migrationSum
      win := update s.migration.win l location.migrationWin
      implicit := update s.migration.implicit l location.implicitTask } := by
  simp only [migration, setLocation, Migration.mk.injEq, and_true]
  refine ⟨?_, ?_, ?_⟩ <;> funext l' <;> by_cases h : l' = l <;> simp [h]

theorem setTask_migration (task : Task) : (s.setTask t task).migration =
    { s.migration with last := update s.migration.last t task.lastLocation } := by
  simp only [migration, setTask, Migration.mk.injEq, true_and]
  funext t'
  by_cases h : t' = t <;> simp [h]

theorem setLocation_same {location : Location} (hsum : location.migrationSum = s.migration.sum l)
    (hwin : location.migrationWin = s.migration.win l)
    (himplicit : location.implicitTask = s.migration.implicit l) :
    (s.setLocation l location).migration = s.migration := by
  rw [setLocation_migration, hsum, hwin, himplicit, update_eq_self, update_eq_self, update_eq_self]

theorem setTask_same {task : Task} (hlast : task.lastLocation = s.migration.last t) :
    (s.setTask t task).migration = s.migration := by
  rw [setTask_migration, hlast, update_eq_self]

@[simp] theorem setCurrentNode_migration (node : Option ℕ) :
    (s.setCurrentNode l node).migration = s.migration :=
  setLocation_same rfl rfl rfl

@[simp] theorem setCurrentDepth_migration (depth : UInt32) :
    (s.setCurrentDepth l depth).migration = s.migration :=
  setLocation_same rfl rfl rfl

@[simp] theorem setCurrentImplicitNode_migration (node : Option ℕ) :
    (s.setCurrentImplicitNode l node).migration = s.migration :=
  setLocation_same rfl rfl rfl

variable {i region : ℕ} {node parent : Option ℕ} {metrics : Metrics n}

theorem enter_migration (h : s.enter cfg l node region timestamp metrics = some (i, s')) :
    s'.migration = s.migration := by
  unfold enter at h
  split at h
  · cases h
  · dsimp only at h
    split at h
    · cases h
      rfl
    · cases h
      split <;> rfl

theorem exit_migration (h : s.exit l node region timestamp metrics = some (parent, s')) :
    s'.migration = s.migration := by
  unfold exit at h
  split at h
  · cases h
  · dsimp only at h
    split at h
    · cases h
      exact setLocation_same rfl rfl rfl
    · obtain ⟨⟨i, depth, store⟩, -, h⟩ := bind_eq_some_iff.1 h
      dsimp only at h
      split at h
      · cases h
      · cases h
        exact setLocation_same rfl rfl rfl

theorem triggerInt64_migration {metric : ℕ} {value : UInt64} {scheme : UpdateScheme}
    (h : s.triggerInt64 metric value i scheme = some s') : s'.migration = s.migration := by
  obtain ⟨list, -, h⟩ := bind_eq_some_iff.1 h
  cases h
  rfl

theorem updateOnResume_migration (h : s.updateOnResume node timestamp values = some s') :
    s'.migration = s.migration := by
  obtain ⟨store, -, h⟩ := bind_eq_some_iff.1 h
  cases h
  rfl

theorem createTaskRoot_migration {untied : Bool}
    (h : s.createTaskRoot l region timestamp values untied = some (i, s')) : s'.migration = s.migration := by
  obtain ⟨s₁, hresume, h⟩ := bind_eq_some_iff.1 h
  cases h
  exact (updateOnResume_migration hresume).trans rfl

theorem enterTaskPointer_migration (h : s.enterTaskPointer cfg l t timestamp values = some s') :
    s'.migration = s.migration := by
  obtain ⟨root, -, h⟩ := bind_eq_some_iff.1 h
  dsimp only at h
  split at h
  · cases h
  · obtain ⟨⟨i, s₁⟩, henter, h⟩ := bind_eq_some_iff.1 h
    cases h
    simp [enter_migration henter]

theorem exitTaskPointer_migration (h : s.exitTaskPointer l timestamp values = some s') :
    s'.migration = s.migration := by
  obtain ⟨current, -, h⟩ := bind_eq_some_iff.1 h
  obtain ⟨⟨node, s₁⟩, hexit, h⟩ := bind_eq_some_iff.1 h
  dsimp only at h
  split at h
  · cases h
  · cases h
    simp [exit_migration hexit]

theorem storeTask_migration (h : s.storeTask l = some s') : s'.migration = s.migration := by
  unfold storeTask at h
  dsimp only at h
  split at h
  · cases h
    exact setLocation_same rfl rfl rfl
  · obtain ⟨t, -, h⟩ := bind_eq_some_iff.1 h
    cases h
    exact setTask_same rfl

theorem restoreTask_migration (h : s.restoreTask l = some s') : s'.migration = s.migration := by
  unfold restoreTask at h
  dsimp only at h
  split at h
  · cases h
    exact setLocation_same rfl rfl rfl
  · obtain ⟨t, -, h⟩ := bind_eq_some_iff.1 h
    cases h
    exact setLocation_same rfl rfl rfl

theorem activateTask_migration (h : s.activateTask l t = some s') : s'.migration = s.migration := by
  refine (restoreTask_migration h).trans ?_
  exact setLocation_same rfl rfl rfl

theorem createTaskData_migration (isImplicit : Bool) :
    (s.createTaskData l t isImplicit).migration = s.migration.create l t isImplicit := by
  unfold createTaskData
  rw [setLocation_migration, setTask_migration]
  cases isImplicit <;> simp [Migration.create, migration, setTask]

theorem freeTaskData_migration : (s.freeTaskData l).migration = s.migration.free l := by
  rw [freeTaskData, setLocation_migration]
  simp [Migration.free, migration]

theorem updateTaskMetrics_spec (h : s.updateTaskMetrics cfg l = some s') :
    s'.migration = s.migration.reset l ∧ ((s.location l).triggered = (0, 0) ∧ s' = s ∨ ∃ current s₁ s₂,
        (s.location l).currentTaskNode = some current ∧
        s.triggerInt64 cfg.migrationLossMetric (s.location l).triggered.1 current .valueAsIs = some s₁ ∧
        s₁.triggerInt64 cfg.migrationWinMetric (s.location l).triggered.2 current .valueAsIs = some s₂ ∧
        s' = s₂.setLocation l { s.location l with migrationSum := 0, migrationWin := 0 }) := by
  unfold updateTaskMetrics at h
  dsimp only at h
  split at h
  · rename_i hcount
    obtain ⟨current, hcurrent, h⟩ := bind_eq_some_iff.1 h
    obtain ⟨s₁, hloss, h⟩ := bind_eq_some_iff.1 h
    obtain ⟨s₂, hwin, h⟩ := bind_eq_some_iff.1 h
    cases h
    constructor
    · rw [setLocation_migration, triggerInt64_migration hwin, triggerInt64_migration hloss]
      simp [Migration.reset, migration]
    · rw [Location.triggered, if_pos hcount]
      exact .inr ⟨current, s₁, s₂, hcurrent, hloss, hwin, rfl⟩
  · rename_i hcount
    cases h
    rw [not_or, not_ne_iff, not_ne_iff] at hcount
    constructor
    · have hsum := update_eq_self l s.migration.sum
      have hwin := update_eq_self l s.migration.win
      rw [show s.migration.sum l = 0 from hcount.1] at hsum
      rw [show s.migration.win l = 0 from hcount.2] at hwin
      rw [Migration.reset, hsum, hwin]
    · exact .inl ⟨by rw [Location.triggered_eq, hcount.1, hcount.2]; rfl, rfl⟩

variable [SparseValue D]

theorem profileExit_migration (h : s.profileExit cfg l timestamp region metrics = some s') :
    s'.migration = if cfg.regionType region = .parallel then s.migration.reset l else s.migration := by
  unfold profileExit at h
  split at h
  · rename_i hparallel
    obtain ⟨s₁, hupdate, h⟩ := bind_eq_some_iff.1 h
    obtain ⟨⟨parent, s₂⟩, hexit, h⟩ := bind_eq_some_iff.1 h
    cases h
    rw [if_pos hparallel, setCurrentNode_migration, exit_migration hexit, (updateTaskMetrics_spec hupdate).1]
  · rename_i hparallel
    obtain ⟨s₁, hsame, h⟩ := bind_eq_some_iff.1 h
    cases hsame
    obtain ⟨⟨parent, s₂⟩, hexit, h⟩ := bind_eq_some_iff.1 h
    cases h
    rw [if_neg hparallel, setCurrentNode_migration, exit_migration hexit]

theorem addTaskTree_migration (h : s.addTaskTree cfg l t = some s') : s'.migration = s.migration := by
  unfold addTaskTree at h
  dsimp only at h
  split at h
  · cases h
    rfl
  · obtain ⟨root, -, h⟩ := bind_eq_some_iff.1 h
    obtain ⟨taskRoot, -, h⟩ := bind_eq_some_iff.1 h
    obtain ⟨⟨current, new, store⟩, -, h⟩ := bind_eq_some_iff.1 h
    obtain ⟨store', -, h⟩ := bind_eq_some_iff.1 h
    cases h
    exact setTask_same rfl

theorem taskSuspend_migration (h : s.taskSuspend cfg l timestamp values = some s') :
    s'.migration = s.migration := by
  obtain ⟨s₁, hstore, h⟩ := bind_eq_some_iff.1 h
  rw [← storeTask_migration hstore]
  split at h
  · cases h
    rfl
  · obtain ⟨s₂, hexit, h⟩ := bind_eq_some_iff.1 h
    obtain ⟨t, -, h⟩ := bind_eq_some_iff.1 h
    rw [← exitTaskPointer_migration hexit]
    unfold updateOnSuspend at h
    dsimp only at h
    split at h
    · obtain ⟨store, -, h⟩ := bind_eq_some_iff.1 h
      exact (addTaskTree_migration h).trans rfl
    · obtain ⟨store, -, h⟩ := bind_eq_some_iff.1 h
      cases h
      rfl

theorem taskSwitchStart_migration (h : s.taskSwitchStart cfg l t timestamp values = some s') :
    s'.migration = s.migration := by
  obtain ⟨s₁, hsuspend, h⟩ := bind_eq_some_iff.1 h
  obtain ⟨s₂, hactivate, h⟩ := bind_eq_some_iff.1 h
  obtain ⟨s₃, hresume, h⟩ := bind_eq_some_iff.1 h
  rw [enterTaskPointer_migration h, updateOnResume_migration hresume, activateTask_migration hactivate,
    taskSuspend_migration hsuspend]

theorem taskSwitch_migration (h : s.taskSwitch cfg l t timestamp values = some s') :
    s'.migration = s.migration.resume l t := by
  obtain ⟨s₁, hsuspend, h⟩ := bind_eq_some_iff.1 h
  obtain ⟨s₂, hactivate, h⟩ := bind_eq_some_iff.1 h
  rw [← taskSuspend_migration hsuspend, ← activateTask_migration hactivate, Migration.resume]
  split at h
  · rename_i himplicit
    cases h
    rw [if_pos (.inl himplicit)]
  · rename_i himplicit
    obtain ⟨s₃, hresume, h⟩ := bind_eq_some_iff.1 h
    obtain ⟨s₄, henter, h⟩ := bind_eq_some_iff.1 h
    have hsame := (enterTaskPointer_migration henter).trans (updateOnResume_migration hresume)
    rw [← hsame]
    have himplicit' : some t ≠ s₄.migration.implicit l := by
      rw [hsame]
      exact himplicit
    split at h
    · rename_i hlast
      cases h
      rw [if_pos (.inr hlast)]
    · rename_i hlast
      cases h
      rw [if_neg (not_or.2 ⟨himplicit', show ¬s₄.migration.last t = some l from hlast⟩), setTask_migration,
        setLocation_migration]
      simp [migration]

theorem taskBegin_migration (h : s.taskBegin cfg l t timestamp region values = some s') :
    s'.migration = s.migration := by
  obtain ⟨⟨taskRoot, s₁⟩, hroot, h⟩ := bind_eq_some_iff.1 h
  calc s'.migration = s₁.migration := (taskSwitchStart_migration h).trans (setTask_same rfl)
    _ = s.migration := (createTaskRoot_migration hroot).trans (setTask_same rfl)

theorem taskEnd_migration (h : s.taskEnd cfg l timestamp region values = some s') :
    s'.migration = if cfg.regionType region = .parallel then s.migration.reset l else s.migration := by
  obtain ⟨t, -, h⟩ := bind_eq_some_iff.1 h
  obtain ⟨rootNode, -, h⟩ := bind_eq_some_iff.1 h
  obtain ⟨s₁, hexit, h⟩ := bind_eq_some_iff.1 h
  obtain ⟨implicitTask, himplicit, h⟩ := bind_eq_some_iff.1 h
  obtain ⟨s₂, hswitch, h⟩ := bind_eq_some_iff.1 h
  obtain ⟨taskRoot, -, h⟩ := bind_eq_some_iff.1 h
  obtain ⟨store, -, h⟩ := bind_eq_some_iff.1 h
  cases h
  rw [← profileExit_migration hexit]
  refine (taskSwitch_migration hswitch).trans ?_
  rw [Migration.resume, if_pos (.inl himplicit.symm)]

end State

/-! ## Where the tasks are -/

structure Journal where
  locations : Finset ℕ
  live : List (ℕ × ℕ)
  moves : List (ℕ × ℕ)
  loss : ℕ → UInt64
  win : ℕ → UInt64

namespace Journal

def collect (j : Journal) (l : ℕ) (triggered : UInt64 × UInt64) : Journal :=
  { j with
    loss := update j.loss l (j.loss l + triggered.1)
    win := update j.win l (j.win l + triggered.2) }

def resume (j : Journal) (l source t : ℕ) : Journal :=
  if source = l then j
  else { j with live := (t, l) :: j.live.erase (t, source), moves := (source, l) :: j.moves }

end Journal

structure Balanced (m : Migration) (j : Journal) : Prop where
  nodup : (j.live.map Prod.fst).Nodup
  last : ∀ x ∈ j.live, m.last x.1 = some x.2
  inside : ∀ x ∈ j.live, x.2 ∈ j.locations
  moves : ∀ x ∈ j.moves, x.1 ∈ j.locations ∧ x.2 ∈ j.locations
  implicit : ∀ l ∈ j.locations, ∀ x ∈ j.live, m.implicit l ≠ some x.1
  win : ∀ l ∈ j.locations, j.win l + m.win l = .ofNat (j.moves.countP (·.2 = l))
  loss : ∀ l ∈ j.locations, j.loss l + (m.win l - m.sum l) =
    .ofNat (j.moves.countP (·.1 = l)) + .ofNat (j.live.countP (·.2 = l))

namespace Balanced

variable {m : Migration} {j : Journal} {l t : ℕ}

theorem perm (h : Balanced m j) {live : List (ℕ × ℕ)} (hperm : j.live.Perm live) :
    Balanced m { j with live } where
  nodup := (hperm.map Prod.fst).nodup_iff.1 h.nodup
  last x hx := h.last x (hperm.mem_iff.2 hx)
  inside x hx := h.inside x (hperm.mem_iff.2 hx)
  moves := h.moves
  implicit l hl x hx := h.implicit l hl x (hperm.mem_iff.2 hx)
  win := h.win
  loss l hl := hperm.countP_eq _ ▸ h.loss l hl

theorem countP_outside {moves : List (ℕ × ℕ)} {locations : Finset ℕ} {place : ℕ × ℕ → ℕ}
    (h : ∀ x ∈ moves, place x ∈ locations) (hl : l ∉ locations) : moves.countP (fun x => place x = l) = 0 := by
  rw [countP_eq_zero]
  intro x hx hplace
  exact hl (of_decide_eq_true hplace ▸ h x hx)

theorem createLocation (h : Balanced m j) (hl : l ∉ j.locations) (ht : t ∉ j.live.map Prod.fst) : Balanced
      { sum := update m.sum l 0
        win := update m.win l 0
        implicit := update m.implicit l (some t)
        last := update m.last t (some l) }
      { j with
        locations := insert l j.locations
        loss := update j.loss l 0
        win := update j.win l 0 } where
  nodup := h.nodup
  last x hx := by
    have hne : x.1 ≠ t := fun heq => ht (mem_map.2 ⟨x, hx, heq⟩)
    simpa [hne] using h.last x hx
  inside x hx := Finset.mem_insert_of_mem (h.inside x hx)
  moves x hx := ⟨Finset.mem_insert_of_mem (h.moves x hx).1, Finset.mem_insert_of_mem (h.moves x hx).2⟩
  implicit l' hl' x hx := by
    by_cases heq : l' = l
    · have hne : t ≠ x.1 := fun heq => ht (mem_map.2 ⟨x, hx, heq.symm⟩)
      simpa [heq] using hne
    · simpa [heq] using h.implicit l' (Finset.mem_of_mem_insert_of_ne hl' heq) x hx
  win l' hl' := by
    by_cases heq : l' = l
    · simp [heq, countP_outside (fun x hx => (h.moves x hx).2) hl]
    · simpa [heq] using h.win l' (Finset.mem_of_mem_insert_of_ne hl' heq)
  loss l' hl' := by
    by_cases heq : l' = l
    · simp [heq, countP_outside (fun x hx => (h.moves x hx).1) hl, countP_outside h.inside hl]
    · simpa [heq] using h.loss l' (Finset.mem_of_mem_insert_of_ne hl' heq)

theorem createTask (h : Balanced m j) (hl : l ∈ j.locations) (ht : t ∉ j.live.map Prod.fst)
    (himplicit : ∀ l ∈ j.locations, m.implicit l ≠ some t) :
    Balanced (m.create l t false) { j with live := (t, l) :: j.live } where
  nodup := nodup_cons.2 ⟨ht, h.nodup⟩
  last := by
    simp only [forall_mem_cons, Migration.create, update_self, true_and]
    intro x hx
    have hne : x.1 ≠ t := fun heq => ht (mem_map.2 ⟨x, hx, heq⟩)
    simpa [hne] using h.last x hx
  inside := forall_mem_cons.2 ⟨hl, h.inside⟩
  moves := h.moves
  implicit l' hl' := forall_mem_cons.2 ⟨himplicit l' hl', h.implicit l' hl'⟩
  win := h.win
  loss l' hl' := by
    have hloss := h.loss l' hl'
    by_cases heq : l' = l
    · subst heq
      simp [Migration.create, UInt64.ofNat_add]
      grind
    · simpa [Migration.create, heq, Ne.symm heq] using hloss

theorem freeTask (h : Balanced m j) (hmem : (t, l) ∈ j.live) :
    Balanced (m.free l) { j with live := j.live.erase (t, l) } := by
  have h' := h.perm (perm_cons_erase hmem)
  exact {
    nodup := (nodup_cons.1 h'.nodup).2
    last := (forall_mem_cons.1 h'.last).2
    inside := (forall_mem_cons.1 h'.inside).2
    moves := h.moves
    implicit := fun l hl => (forall_mem_cons.1 (h'.implicit l hl)).2
    win := h.win
    loss := by
      intro l' hl'
      have hloss := h'.loss l' hl'
      by_cases heq : l' = l
      · subst heq
        simp [UInt64.ofNat_add] at hloss
        simp [Migration.free]
        grind
      · simpa [Migration.free, heq, Ne.symm heq] using hloss }

theorem resume (h : Balanced m j) (hl : l ∈ j.locations) {source : ℕ} (hmem : (t, source) ∈ j.live) :
    Balanced (m.resume l t) (j.resume l source t) := by
  have hlast := h.last _ hmem
  have himplicit := h.implicit l hl _ hmem
  rw [Migration.resume, Journal.resume]
  by_cases heq : source = l
  · rwa [if_pos heq, if_pos (.inr (heq ▸ hlast))]
  rw [if_neg heq, if_neg (by simpa [himplicit.symm, hlast] using heq)]
  have hsource := h.inside _ hmem
  have h' := h.perm (perm_cons_erase hmem)
  have ht := (nodup_cons.1 h'.nodup).1
  exact {
    nodup := h'.nodup
    last := by
      simp only [forall_mem_cons, update_self, true_and]
      intro x hx
      have hne : x.1 ≠ t := fun heq => ht (mem_map.2 ⟨x, hx, heq⟩)
      simpa [hne] using h'.last x (mem_cons_of_mem _ hx)
    inside := forall_mem_cons.2 ⟨hl, (forall_mem_cons.1 h'.inside).2⟩
    moves := forall_mem_cons.2 ⟨⟨hsource, hl⟩, h.moves⟩
    implicit := fun l' hl' => forall_mem_cons.2
      ⟨h.implicit l' hl' (t, source) hmem, (forall_mem_cons.1 (h'.implicit l' hl')).2⟩
    win := by
      intro l' hl'
      have hwin := h.win l' hl'
      by_cases hl'' : l' = l
      · subst hl''
        simp [UInt64.ofNat_add]
        grind
      · simpa [hl'', Ne.symm hl''] using hwin
    loss := by
      intro l' hl'
      have hloss := h'.loss l' hl'
      by_cases hl'' : l' = l
      · subst hl''
        simp [UInt64.ofNat_add, heq] at hloss ⊢
        grind
      · by_cases hs : l' = source
        · subst hs
          simp [UInt64.ofNat_add, hl'', Ne.symm hl''] at hloss ⊢
          grind
        · simpa [hl'', hs, Ne.symm hl'', Ne.symm hs] using hloss }

theorem collect (h : Balanced m j) (l : ℕ) :
    Balanced (m.reset l) (j.collect l (m.win l - m.sum l, m.win l)) where
  nodup := h.nodup
  last := h.last
  inside := h.inside
  moves := h.moves
  implicit := h.implicit
  win l' hl' := by
    by_cases heq : l' = l
    · simpa [heq, Migration.reset, Journal.collect] using h.win l (heq ▸ hl')
    · simpa [heq, Migration.reset, Journal.collect] using h.win l' hl'
  loss l' hl' := by
    by_cases heq : l' = l
    · simpa [heq, Migration.reset, Journal.collect] using h.loss l (heq ▸ hl')
    · simpa [heq, Migration.reset, Journal.collect] using h.loss l' hl'

theorem sums (h : Balanced m j) :
    ∑ l ∈ j.locations, j.moves.countP (·.1 = l) = ∑ l ∈ j.locations, j.moves.countP (·.2 = l) := by
  have hmoves := h.moves
  generalize j.moves = moves at hmoves ⊢
  induction moves with
  | nil => rfl
  | cons x moves ih =>
    obtain ⟨hx, hmoves⟩ := forall_mem_cons.1 hmoves
    simp [countP_cons, Finset.sum_add_distrib, hx.1, hx.2, ih hmoves]

end Balanced

/-! ## Schedules -/

/-- Whatever else the profile does: nothing else touches the counters, the last location of a task or the
implicit task of a location. -/
structure Quiet (n : ℕ) (D : Type) where
  run : State n D → Option (State n D)
  migration_run : ∀ s s', run s = some s' → s'.migration = s.migration

inductive TaskEvent (n : ℕ) (D : Type) where
  | createLocation (l t : ℕ)
  | createTask (l t : ℕ)
  | taskBegin (l t : ℕ) (timestamp : UInt64) (region : ℕ) (values : Fin n → UInt64)
  | taskSwitch (l source t : ℕ) (timestamp : UInt64) (values : Fin n → UInt64)
  | implicitSwitch (l t : ℕ) (timestamp : UInt64) (values : Fin n → UInt64)
  | taskEnd (l : ℕ) (timestamp : UInt64) (region : ℕ) (values : Fin n → UInt64)
  | freeTask (l t : ℕ)
  | exit (l : ℕ) (timestamp : UInt64) (region : ℕ) (metrics : Metrics n)
  | other (quiet : Quiet n D)

structure Schedule (n : ℕ) (D : Type) where
  state : State n D
  journal : Journal

namespace Schedule

variable {n : ℕ} {D : Type}

def leave (r : Schedule n D) (cfg : Config) (l region : ℕ) (s : State n D) : Schedule n D :=
  ⟨s, if cfg.regionType region = .parallel then r.journal.collect l (r.state.location l).triggered
    else r.journal⟩

def loss (r : Schedule n D) (l : ℕ) : UInt64 := r.journal.loss l + (r.state.location l).triggered.1

def win (r : Schedule n D) (l : ℕ) : UInt64 := r.journal.win l + (r.state.location l).triggered.2

variable [SparseValue D]

/-- A task begins where it was created, and is freed where it was last, which is where it ended. The records of
tasks are named by numbers; any record that is not in use may be taken for a new task. -/
def step (cfg : Config) (r : Schedule n D) : TaskEvent n D → Option (Schedule n D)
  | .createLocation l t =>
    let j := r.journal
    if l ∉ j.locations ∧ t ∉ j.live.map Prod.fst then
      some ⟨(r.state.setLocation l createLocationData).createTaskData l t true,
        { j with locations := insert l j.locations, loss := update j.loss l 0, win := update j.win l 0 }⟩
    else none
  | .createTask l t =>
    let j := r.journal
    if l ∈ j.locations ∧ t ∉ j.live.map Prod.fst ∧
        ∀ l ∈ j.locations, (r.state.location l).implicitTask ≠ some t then
      some ⟨r.state.createTaskData l t false, { j with live := (t, l) :: j.live }⟩
    else none
  | .taskBegin l t timestamp region values =>
    if (t, l) ∈ r.journal.live then
      (r.state.taskBegin cfg l t timestamp region values).map fun s => ⟨s, r.journal⟩
    else none
  | .taskSwitch l source t timestamp values =>
    if l ∈ r.journal.locations ∧ (t, source) ∈ r.journal.live then
      (r.state.taskSwitch cfg l t timestamp values).map fun s => ⟨s, r.journal.resume l source t⟩
    else none
  | .implicitSwitch l t timestamp values =>
    if (r.state.location l).implicitTask = some t then
      (r.state.taskSwitch cfg l t timestamp values).map fun s => ⟨s, r.journal⟩
    else none
  | .taskEnd l timestamp region values =>
    (r.state.taskEnd cfg l timestamp region values).map (r.leave cfg l region)
  | .freeTask l t =>
    if (t, l) ∈ r.journal.live then
      some ⟨r.state.freeTaskData l, { r.journal with live := r.journal.live.erase (t, l) }⟩
    else none
  | .exit l timestamp region metrics =>
    (r.state.profileExit cfg l timestamp region metrics).map (r.leave cfg l region)
  | .other quiet => (quiet.run r.state).map fun s => ⟨s, r.journal⟩

variable {cfg : Config} {r r' : Schedule n D}

omit [SparseValue D] in
theorem balanced_leave {l region : ℕ} {s : State n D} (h : Balanced r.state.migration r.journal)
    (hs : s.migration =
      if cfg.regionType region = .parallel then r.state.migration.reset l else r.state.migration) :
    Balanced (r.leave cfg l region s).state.migration (r.leave cfg l region s).journal := by
  simp only [leave, hs, Location.triggered_eq]
  split
  · exact h.collect l
  · exact h

theorem balanced_step {event : TaskEvent n D} (h : Balanced r.state.migration r.journal)
    (hstep : r.step cfg event = some r') : Balanced r'.state.migration r'.journal := by
  cases event with
  | createLocation l t =>
    obtain ⟨⟨hl, ht⟩, hr⟩ := ite_none_right_eq_some.1 hstep
    cases hr
    have hlocation := h.createLocation hl ht
    rw [State.createTaskData_migration, State.setLocation_migration]
    simpa [Migration.create, createLocationData] using hlocation
  | createTask l t =>
    obtain ⟨⟨hl, ht, himplicit⟩, hr⟩ := ite_none_right_eq_some.1 hstep
    cases hr
    rw [State.createTaskData_migration]
    exact h.createTask hl ht himplicit
  | taskBegin l t timestamp region values =>
    obtain ⟨-, hr⟩ := ite_none_right_eq_some.1 hstep
    obtain ⟨s, hs, rfl⟩ := map_eq_some_iff.1 hr
    exact (State.taskBegin_migration hs).symm ▸ h
  | taskSwitch l source t timestamp values =>
    obtain ⟨⟨hl, hmem⟩, hr⟩ := ite_none_right_eq_some.1 hstep
    obtain ⟨s, hs, rfl⟩ := map_eq_some_iff.1 hr
    rw [State.taskSwitch_migration hs]
    exact h.resume hl hmem
  | implicitSwitch l t timestamp values =>
    obtain ⟨himplicit, hr⟩ := ite_none_right_eq_some.1 hstep
    obtain ⟨s, hs, rfl⟩ := map_eq_some_iff.1 hr
    rw [State.taskSwitch_migration hs, Migration.resume, if_pos (.inl himplicit.symm)]
    exact h
  | taskEnd l timestamp region values =>
    obtain ⟨s, hs, rfl⟩ := map_eq_some_iff.1 hstep
    exact balanced_leave h (State.taskEnd_migration hs)
  | freeTask l t =>
    obtain ⟨hmem, hr⟩ := ite_none_right_eq_some.1 hstep
    cases hr
    rw [State.freeTaskData_migration]
    exact h.freeTask hmem
  | exit l timestamp region metrics =>
    obtain ⟨s, hs, rfl⟩ := map_eq_some_iff.1 hstep
    exact balanced_leave h (State.profileExit_migration hs)
  | other quiet =>
    obtain ⟨s, hs, rfl⟩ := map_eq_some_iff.1 hstep
    exact (quiet.migration_run _ _ hs).symm ▸ h

def start (s : State n D) : Schedule n D := ⟨s, ⟨∅, [], [], fun _ => 0, fun _ => 0⟩⟩

omit [SparseValue D] in
theorem balanced_start (s : State n D) : Balanced (start s).state.migration (start s).journal := by
  constructor <;> simp [start]

/-- When all explicit tasks are freed, the totals are the numbers of migrations, modulo 2 ^ 64. -/
theorem migration_totals {s : State n D} {events : List (TaskEvent n D)}
    (hrun : Steps (fun r event r' => r.step cfg event = some r') (start s) events r)
    (hfreed : r.journal.live = []) :
    (∀ l ∈ r.journal.locations, r.win l = .ofNat (r.journal.moves.countP (·.2 = l)) ∧
      r.loss l = .ofNat (r.journal.moves.countP (·.1 = l))) ∧
    (∑ l ∈ r.journal.locations, (r.win l).toNat) % 2 ^ 64 =
      (∑ l ∈ r.journal.locations, (r.loss l).toNat) % 2 ^ 64 := by
  have h : Balanced r.state.migration r.journal :=
    hrun.invariant (P := fun r => Balanced r.state.migration r.journal) (fun _ _ _ => balanced_step)
      (balanced_start s)
  have htotals : ∀ l ∈ r.journal.locations, r.win l = .ofNat (r.journal.moves.countP (·.2 = l)) ∧
      r.loss l = .ofNat (r.journal.moves.countP (·.1 = l)) := by
    intro l hl
    have hwin := h.win l hl
    have hloss := h.loss l hl
    rw [hfreed, countP_nil, show UInt64.ofNat 0 = 0 from rfl, UInt64.add_zero] at hloss
    rw [win, loss, Location.triggered_eq]
    exact ⟨hwin, hloss⟩
  refine ⟨htotals, ?_⟩
  rw [Finset.sum_congr rfl fun l hl => congrArg UInt64.toNat (htotals l hl).1,
    Finset.sum_congr rfl fun l hl => congrArg UInt64.toNat (htotals l hl).2]
  simp only [UInt64.toNat_ofNat']
  rw [← Finset.sum_nat_mod, ← Finset.sum_nat_mod, h.sums]

/-- A task of location 0 is resumed and freed on location 1. -/
theorem migration_totals_two : ∃ r : Schedule 0 UInt64, r.journal.moves = [(0, 1)] ∧
    (∀ l ∈ r.journal.locations, r.win l = .ofNat (r.journal.moves.countP (·.2 = l)) ∧
      r.loss l = .ofNat (r.journal.moves.countP (·.1 = l))) ∧
    (∑ l ∈ r.journal.locations, (r.win l).toNat) % 2 ^ 64 =
      (∑ l ∈ r.journal.locations, (r.loss l).toNat) % 2 ^ 64 := by
  let activate : Quiet 0 UInt64 :=
    ⟨fun s => some ⟨s.store, fun l => { s.location l with
        rootNode := some l
        currentTaskNode := some l }, s.task, s.hasCollapseNode, s.reachedDepth⟩,
      fun s s' h => by cases h; rfl⟩
  let events : List (TaskEvent 0 UInt64) := [.createLocation 0 8, .createLocation 1 9, .other activate,
    .createTask 0 5, .taskBegin 0 5 1 7 nofun, .implicitSwitch 0 8 2 nofun, .taskSwitch 1 0 5 3 nofun,
    .taskEnd 1 4 7 nofun, .freeTask 1 5]
  have hcomputed : (events.foldlM (step (depthLimit 30)) (start (activated 0 UInt64 0 0).state)).map
      (fun r => (r.journal.live, r.journal.moves)) = some ([], [(0, 1)]) := by
    decide +kernel
  obtain ⟨r, hrun, hr⟩ := Steps.exists_of_foldlM hcomputed
  exact ⟨r, congrArg Prod.snd hr, migration_totals hrun (congrArg Prod.fst hr)⟩

end Schedule

end ScoreP.Profile
