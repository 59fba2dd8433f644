import Mathlib.Data.Nat.Notation
import Mathlib.Tactic.Tauto
import ScoreP.Foundations.Counting

/-!
# The in-measurement counter in the OMPT callbacks

Every callback raises the thread's counter and lowers it on the way out. Three of them have a path that
returns without lowering it (`Leaks`): a sequence of callbacks gives the counter back exactly when none
of these is taken (`counter_restored_iff`), and once one is, the wrappers of the other adapters are off.
-/

namespace ScoreP.Ompt.InMeasurement

open Foundations

structure State (σ : Type) where
  adapterReady : Bool
  recordEvents : Bool
  initialTaskSet : Bool
  initialTask : ℕ
  leagueTasks : List ℕ
  initialDeviceNum : ℤ
  deviceTable : List ℤ
  targetData : List ℕ
  /-- The configured features, and what `record_target_region` remembered of them at its first call. -/
  featureKernel : Bool
  featureMemory : Bool
  features : Option (Bool × Bool)
  rest : σ

inductive TaskStatus
  | complete | yield | cancel | detach | earlyFulfill | lateFulfill | switch | taskwaitComplete
  deriving DecidableEq

inductive TargetKind
  | target | enterData | exitData | update | other
  deriving DecidableEq

inductive DataOp
  | transferToDevice | alloc | transferFromDevice | delete | other

/-- What a callback does besides counting: `none` for a `UTILS_BUG` or `UTILS_FATAL`. -/
abbrev Work (σ : Type) := State σ → Option (State σ)

/-- The callbacks, with the arguments their early returns depend on. A null pointer is `none`. -/
inductive Callback
  | startTool | initializeTool | threadBegin | threadEnd | bufferRequest | bufferComplete
  | parallelBegin | parallelEnd | syncRegion | work | masked | mutexAcquire | mutexAcquired | mutexReleased
  | lockInit | lockDestroy | nestLock | dispatch | flush
  | implicitTask (flags : BitVec 32) (task : ℕ)
  | taskCreate (flags : BitVec 32)
  | taskSchedule (priorTaskStatus : TaskStatus)
  | reduction (task : ℕ)
  | deviceInitialize (device : Option ℕ)
  | deviceFinalize (deviceNum : ℤ)
  | target (kind : TargetKind) (deviceNum : ℤ) (targetData : Option ℕ)
  | targetDataOp (targetData : Option ℕ) (optype : DataOp) (srcDeviceNum destDeviceNum : ℤ)
  | targetSubmit (targetData : Option ℕ)

def taskInitial : BitVec 32 := 0x00000001
def taskTaskwait : BitVec 32 := 0x00000010
def taskUndeferred : BitVec 32 := 0x08000000
def taskMerged : BitVec 32 := 0x80000000

/-- Whether the OMPT header declares `ompt_task_taskwait` and `ompt_taskwait_complete`, and
`complete_adapter_init`, which may begin the measurement. -/
structure Adapter (σ : Type) where
  declared : Bool
  completeAdapterInit : Work σ

namespace Adapter

variable {σ : Type} (adapter : Adapter σ)

/-- `SCOREP_OMPT_ENSURE_INITIALIZED` -/
def ensureInitialized : Work σ := fun s => if s.adapterReady then some s else adapter.completeAdapterInit s

/-- `SCOREP_OMPT_RETURN_ON_INVALID_EVENT` -/
def returnOnInvalidEvent (next : Code (State σ)) : Code (State σ) :=
  .test (fun s => !s.recordEvents) (.lower .leave) next

/-- `SCOREP_OMPT_ENSURE_TARGET_DATA_NON_NULL` -/
def ensureTargetDataNonNull (targetData : Option ℕ) : Work σ := fun s => targetData.map fun _ => s

def finish (work : Work σ) : Code (State σ) := .work work (.lower .leave)

def initFeatures : Work σ := fun s =>
  some { s with features := some (s.features.getD (s.featureKernel, s.featureMemory)) }

def recordTargetRegion (kind : TargetKind) (s : State σ) : Bool :=
  let (kernel, memory) := s.features.getD (s.featureKernel, s.featureMemory)
  match kind with
  | .target => kernel
  | .enterData | .exitData | .update => memory
  | .other => false

def getSourceDeviceNum (optype : DataOp) (srcDeviceNum destDeviceNum : ℤ) : ℤ :=
  match optype with
  | .transferToDevice | .alloc => destDeviceNum
  | .transferFromDevice | .delete => srcDeviceNum
  | .other => -1

def getDevice (deviceNum : ℤ) : Work σ := fun s => if deviceNum ∈ s.deviceTable then some s else none

def taskCreate (flags : BitVec 32) (work : Work σ) : Code (State σ) :=
  .raise <| .work adapter.ensureInitialized <| returnOnInvalidEvent <|
  .test (fun _ => flags &&& taskMerged ≠ 0) (finish work) <|
  .test (fun _ => adapter.declared && flags &&& taskTaskwait ≠ 0) (.work work .leave) <|
  .test (fun _ => flags &&& taskUndeferred ≠ 0) (finish work) (finish work)

def taskSchedule (priorTaskStatus : TaskStatus) (work : Work σ) : Code (State σ) :=
  .raise <| returnOnInvalidEvent <|
  .test (fun _ => priorTaskStatus = .earlyFulfill ∨ priorTaskStatus = .lateFulfill) .leave <|
  .test (fun _ => adapter.declared ∧ priorTaskStatus = .taskwaitComplete) (.work work .leave) (finish work)

def target (kind : TargetKind) (deviceNum : ℤ) (targetData : Option ℕ) (work : Work σ) : Code (State σ) :=
  .raise <| .work adapter.ensureInitialized <| returnOnInvalidEvent <| .work initFeatures <|
  .test (fun s => !recordTargetRegion kind s) (.lower .leave) <|
  .test (fun s => deviceNum = s.initialDeviceNum) .leave <|
  .work (ensureTargetDataNonNull targetData) <| .work (getDevice deviceNum) <| finish work

def code (work : Work σ) : Callback → Code (State σ)
  | .startTool | .initializeTool | .threadBegin | .threadEnd | .bufferRequest | .bufferComplete =>
    .raise (finish work)
  | .parallelEnd | .work | .masked | .mutexAcquire | .mutexAcquired | .mutexReleased | .lockDestroy | .nestLock
  | .dispatch => .raise <| returnOnInvalidEvent <| finish work
  | .parallelBegin | .syncRegion | .lockInit | .flush =>
    .raise <| .work adapter.ensureInitialized <| returnOnInvalidEvent <| finish work
  | .implicitTask flags task =>
    .raise <| .test (fun s => flags &&& taskInitial ≠ 0 ∧ (s.initialTaskSet = false ∨ task = s.initialTask))
      (finish work) (returnOnInvalidEvent (finish work))
  | .reduction task =>
    .raise <| returnOnInvalidEvent <| .test (fun s => task ∈ s.leagueTasks) (.lower .leave) (finish work)
  | .deviceInitialize device =>
    .raise <| .work adapter.ensureInitialized <| returnOnInvalidEvent <|
      .test (fun _ => device.isNone) (.lower .leave) (finish work)
  | .deviceFinalize deviceNum =>
    .raise <| returnOnInvalidEvent <| .test (fun s => deviceNum ∉ s.deviceTable) (.lower .leave) (finish work)
  | .targetDataOp targetData optype srcDeviceNum destDeviceNum =>
    let deviceNum := getSourceDeviceNum optype srcDeviceNum destDeviceNum
    .raise <| .work adapter.ensureInitialized <| returnOnInvalidEvent <|
      .work (ensureTargetDataNonNull targetData) <|
      .test (fun s => deviceNum = s.initialDeviceNum) (.lower .leave) <| .work (getDevice deviceNum) (finish work)
  | .targetSubmit targetData =>
    .raise <| .work adapter.ensureInitialized <| returnOnInvalidEvent <|
      .work (ensureTargetDataNonNull targetData) <|
      .test (fun s => ∀ value ∈ targetData, value ∉ s.targetData) (.lower .leave) (finish work)
  | .taskCreate flags => adapter.taskCreate flags work
  | .taskSchedule priorTaskStatus => adapter.taskSchedule priorTaskStatus work
  | .target kind deviceNum targetData => adapter.target kind deviceNum targetData work

structure Call (σ : Type) where
  callback : Callback
  state : State σ
  work : Work σ

/-- The counter behind a thread's callbacks. -/
def counterAfter (adapter : Adapter σ) : List (Call σ) → ℤ → Option ℤ
  | [], n => some n
  | call :: rest, n => do
    let (_, m) ← (adapter.code call.work call.callback).run call.state n
    adapter.counterAfter rest m

/-- `SCOREP_IN_MEASUREMENT_TEST_AND_INCREMENT`: a wrapper of another adapter records. -/
def wrapperRecords (n : ℤ) : Bool := n = 0

/-! ## The paths that do not lower the counter -/

/-- The call takes a path that forgets to lower the counter. -/
def Leaks (s : State σ) : Callback → Prop
  | .taskCreate flags => (∃ t ∈ adapter.ensureInitialized s, t.recordEvents) ∧
      flags &&& taskMerged = 0 ∧ adapter.declared ∧ flags &&& taskTaskwait ≠ 0
  | .taskSchedule status => s.recordEvents ∧
      (status = .earlyFulfill ∨ status = .lateFulfill ∨ adapter.declared ∧ status = .taskwaitComplete)
  | .target kind deviceNum _ => ∃ t ∈ adapter.ensureInitialized s,
      t.recordEvents ∧ recordTargetRegion kind t ∧ deviceNum = t.initialDeviceNum
  | _ => False

variable {adapter : Adapter σ} {s : State σ} {callback : Callback} {work : Work σ} {trace : List (Call σ)} {n m : ℤ}

open Code in
theorem keeps_of_not_leaks (h : ¬adapter.Leaks s callback) : (adapter.code work callback).Shifts s 0 := by
  cases callback with
  | taskCreate flags =>
    apply Shifts.raise
    refine .work fun t ht => .test (fun _ => shifts_of_gain rfl) fun hvalid => ?_
    refine .test (fun _ => shifts_of_gain rfl) fun hmerged => ?_
    refine .test (fun htaskwait => ?_) fun _ => shifts_of_gain rfl
    simp only [Bool.not_eq_true, Bool.not_eq_false', decide_eq_true_eq, not_not, Bool.and_eq_true, ne_eq]
      at hvalid hmerged htaskwait
    exact absurd ⟨⟨t, ht, hvalid⟩, hmerged, htaskwait⟩ h
  | taskSchedule status =>
    apply Shifts.raise
    refine .test (fun _ => shifts_of_gain rfl) fun hvalid => .test (fun hfulfill => ?_) fun _ => ?_
    · simp only [Bool.not_eq_true, Bool.not_eq_false', decide_eq_true_eq] at hvalid hfulfill
      exact absurd ⟨hvalid, hfulfill.elim .inl (.inr ∘ .inl)⟩ h
    · refine .test (fun hwait => ?_) fun _ => shifts_of_gain rfl
      simp only [Bool.not_eq_true, Bool.not_eq_false', decide_eq_true_eq] at hvalid hwait
      exact absurd ⟨hvalid, .inr (.inr hwait)⟩ h
  | target kind deviceNum targetData =>
    apply Shifts.raise
    refine .work fun t ht => .test (fun _ => shifts_of_gain rfl) fun hvalid => .work fun u hu => ?_
    refine .test (fun _ => shifts_of_gain rfl) fun hrecord => ?_
    refine .test (fun hhost => ?_) fun _ => shifts_of_gain rfl
    cases hu
    simp only [Bool.not_eq_true, Bool.not_eq_false', decide_eq_true_eq] at hvalid hrecord hhost
    exact absurd ⟨t, ht, hvalid, hrecord, hhost⟩ h
  | _ => exact shifts_of_gain rfl

open Code in
theorem raises_of_leaks (h : adapter.Leaks s callback) : (adapter.code work callback).Shifts s 1 := by
  cases callback with
  | taskCreate flags =>
    obtain ⟨⟨t, ht, hvalid⟩, hmerged, hdeclared, htaskwait⟩ := h
    apply Shifts.raise
    refine .work fun u hu => ?_
    cases hu.symm.trans ht
    refine .test (by simp [hvalid]) fun _ => .test (by simp [hmerged]) fun _ => ?_
    have hwait := Bool.and_eq_true_iff.2 ⟨hdeclared, decide_eq_true htaskwait⟩
    exact .test (fun _ => shifts_of_gain rfl) fun hno => absurd hwait hno
  | taskSchedule status =>
    obtain ⟨hvalid, hstatus⟩ := h
    apply Shifts.raise
    refine .test (by simp [hvalid]) fun _ => .test (fun _ => shifts_of_gain rfl) fun hfulfill => ?_
    refine .test (fun _ => shifts_of_gain rfl) fun hwait => ?_
    simp only [decide_eq_true_eq] at hfulfill hwait
    tauto
  | target kind deviceNum targetData =>
    obtain ⟨t, ht, hvalid, hrecord, hhost⟩ := h
    apply Shifts.raise
    refine .work fun u hu => ?_
    cases hu.symm.trans ht
    refine .test (by simp [hvalid]) fun _ => .work fun u hu => ?_
    cases hu
    refine .test (fun hno => ?_) fun _ => .test (fun _ => shifts_of_gain rfl) (by simp [hhost])
    have hskip : (!recordTargetRegion kind t) = true := hno
    simp [hrecord] at hskip
  | _ => exact h.elim

theorem counterAfter_cons {call : Call σ} (h : adapter.counterAfter (call :: trace) n = some m) :
    ∃ k, adapter.counterAfter trace k = some m ∧
      (k = n ∧ ¬adapter.Leaks call.state call.callback ∨ k = n + 1 ∧ adapter.Leaks call.state call.callback) := by
  obtain ⟨⟨t, k⟩, hrun, hrest⟩ := Option.bind_eq_some_iff.1 h
  refine ⟨k, hrest, ?_⟩
  by_cases hleaks : adapter.Leaks call.state call.callback
  · exact .inr ⟨raises_of_leaks hleaks n t k hrun, hleaks⟩
  · exact .inl ⟨(keeps_of_not_leaks hleaks n t k hrun).trans (Int.add_zero n), hleaks⟩

theorem le_counterAfter (h : adapter.counterAfter trace n = some m) : n ≤ m := by
  induction trace generalizing n with
  | nil =>
    cases h
    exact Int.le_refl _
  | cons call trace ih =>
    obtain ⟨k, hrest, ⟨hk, -⟩ | ⟨hk, -⟩⟩ := counterAfter_cons h
    all_goals
      have := ih hrest
      omega

theorem counterAfter_eq_iff (h : adapter.counterAfter trace n = some m) :
    m = n ↔ ∀ call ∈ trace, ¬adapter.Leaks call.state call.callback := by
  induction trace generalizing n with
  | nil =>
    cases h
    exact iff_of_true rfl (List.forall_mem_nil _)
  | cons call trace ih =>
    obtain ⟨k, hrest, ⟨hk, hkeeps⟩ | ⟨hk, hleaks⟩⟩ := counterAfter_cons h
    · rw [← hk, ih hrest, List.forall_mem_cons, and_iff_right hkeeps]
    · have hle := le_counterAfter hrest
      exact iff_of_false (by omega) fun hall => hall call List.mem_cons_self hleaks

/-- A thread's callbacks give the counter back, and the wrappers go on recording, exactly when none leaks. -/
theorem counter_restored_iff (h : adapter.counterAfter trace n = some m) :
    (m = n ∧ (n = 0 → wrapperRecords m)) ↔ ∀ call ∈ trace, ¬adapter.Leaks call.state call.callback := by
  rw [← counterAfter_eq_iff h]
  exact and_iff_left_of_imp fun heq hn => decide_eq_true (heq.trans hn)

def recording : State Unit := ⟨true, true, true, 0, [], -1, [], [], true, true, none, ()⟩

theorem counter_restored_iff_flush : ((0 : ℤ) = 0 ∧ ((0 : ℤ) = 0 → wrapperRecords 0)) ↔
    ∀ p ∈ [(⟨.flush, recording, some⟩ : Call Unit)], ¬Adapter.Leaks ⟨true, some⟩ p.state p.callback :=
  @counter_restored_iff Unit ⟨true, some⟩ [⟨.flush, recording, some⟩] 0 0 rfl

/-- An event that a detached task is fulfilled leaves the counter raised. -/
theorem fulfill_leaks : ¬∀ (trace : List (Call Unit)) (n m : ℤ),
    Adapter.counterAfter ⟨true, some⟩ trace n = some m → m = n ∧ (n = 0 → wrapperRecords m) :=
  fun h => absurd (h [⟨.taskSchedule .lateFulfill, recording, some⟩] 0 1 rfl).1 (by decide)

end Adapter

end ScoreP.Ompt.InMeasurement
