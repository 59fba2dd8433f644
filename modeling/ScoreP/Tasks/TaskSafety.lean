import ScoreP.Tasks.StackSafety

/-!
# Runs of the task subsystem

A hash is taken right when the task is `Hashable` (`getRegionStackHash_eq`). Tasks are created from recycled
objects that no location and no stack refers to any more (`TaskLayout.alloc`, `Layout.newTask`), and their
parent hash is the hash of a path.

`Refines.step` is the step theorem: a legal call whose hash is taken of a hashable task returns what the call
tree says and leads to a state that refines the next call tree. `meets_of_fineCalls` follows by induction on
the calls.
-/

namespace ScoreP.Tasks

open Foundations Function Option

variable {s s' : State} {tree : CallTree} {held : Holder → List ℕ} {free : ℕ → List ℕ}
  {l t : ℕ} {path : List RegionHandle} {data : LogicalTask}
  {jenkinsHash : UInt32 → UInt32 → UInt32} {hashValue : RegionHandle → UInt32}

/-! ## Queries -/

theorem Layout.held_eq_nil_iff (h : Layout jenkinsHash hashValue s tree held free)
    (hdata : tree.tasks t = some data) : (s.tasks t).currentFrame = none ↔ data.regions = [] := by
  rw [← (h.frames.chains t ⟨data, hdata⟩).eq_nil_iff]
  exact (h.filled t data hdata).eq_nil_iff

theorem getTopRegion_eq (h : Layout jenkinsHash hashValue s tree held free) (hdata : tree.tasks t = some data) :
    s.getTopRegion t = data.regions.head?.getD invalidRegion := by
  have hfilled := h.filled t data hdata
  have hchain := h.frames.chains t ⟨data, hdata⟩
  rw [State.getTopRegion]
  cases hheld : held (.task t) with
  | nil =>
    rw [hheld, chain_nil] at hchain
    rw [hchain, (h.held_eq_nil_iff hdata).1 hchain]
    rfl
  | cons f fs =>
    rw [hheld] at hchain hfilled
    rw [(chain_cons.1 hchain).1, ← hfilled.contents, contents_cons]
    rfl

theorem pathHash_path : pathHash jenkinsHash hashValue data.path =
    data.regions.reverse.foldl (fun hash region => jenkinsHash (hashValue region) hash)
      (pathHash jenkinsHash hashValue data.parentPath) := by
  rw [pathHash, LogicalTask.path, List.foldl_append]
  rfl

theorem getRegionStackHash_eq (h : Layout jenkinsHash hashValue s tree held free)
    (hdata : tree.tasks t = some data) (hhash : Hashable jenkinsHash hashValue data) :
    getRegionStackHash jenkinsHash hashValue s t = some (pathHash jenkinsHash hashValue data.path) := by
  have hfilled := h.filled t data hdata
  have hchain := h.frames.chains t ⟨data, hdata⟩
  have hlength : (held (.task t)).length ≤ s.framesAllocated :=
    length_le_of_bounded (h.frames.apart.nodup _) (h.frames.allocated _)
  rw [getRegionStackHash, pathHash_path]
  cases hframe : (s.tasks t).currentFrame with
  | none =>
    have hempty := (h.held_eq_nil_iff hdata).1 hframe
    rw [hempty, hhash.empty hempty]
    rfl
  | some f =>
    rw [hframe] at hchain
    have hnot := hhash.not_filtered
    rw [← hfilled.contents] at hnot
    have haggregated := stackFrameAggregation_eq jenkinsHash hashValue (s.tasks t).parentHashValue hchain
      (Nat.lt_succ_of_le hlength) hnot
    rw [hfilled.contents, h.paths.parents t data hdata] at haggregated
    rw [← h.paths.parents t data hdata] at haggregated ⊢
    exact haggregated

theorem getRegionStackHash_congr (hframes : s'.frames = s.frames)
    (hallocated : s'.framesAllocated = s.framesAllocated) (htask : s'.tasks t = s.tasks t) :
    getRegionStackHash jenkinsHash hashValue s' t = getRegionStackHash jenkinsHash hashValue s t := by
  rw [getRegionStackHash, getRegionStackHash, hframes, hallocated, htask]

/-! ## New tasks -/

theorem allocNewTask_unchanged : (s.allocNewTask l).2.frames = s.frames ∧
    (s.allocNewTask l).2.framesAllocated = s.framesAllocated ∧ (s.allocNewTask l).2.tasks = s.tasks ∧
    (s.allocNewTask l).2.lastForkHash = s.lastForkHash := by
  rw [State.allocNewTask]
  cases (s.locations l).recycledTasks with
  | none => exact ⟨rfl, rfl, rfl, rfl⟩
  | some newTask => exact ⟨rfl, rfl, rfl, rfl⟩

theorem locations_allocNewTask (l' : ℕ) :
    ((s.allocNewTask l).2.locations l').currentTask = (s.locations l').currentTask ∧
      ((s.allocNewTask l).2.locations l').recycledFrames = (s.locations l').recycledFrames ∧
      (l' ≠ l ∨ (s.locations l').recycledTasks = none → (s.allocNewTask l).2.locations l' = s.locations l') := by
  rw [State.allocNewTask]
  cases hrecycled : (s.locations l).recycledTasks with
  | none => exact ⟨rfl, rfl, fun _ => rfl⟩
  | some newTask =>
    by_cases hl : l' = l
    · subst hl
      dsimp only
      rw [State.locations_setLocation]
      refine ⟨rfl, rfl, ?_⟩
      rintro (hne | hnone)
      · exact absurd rfl hne
      · rw [hrecycled] at hnone
        cases hnone
    · dsimp only
      rw [State.locations_setLocation_of_ne s l hl]
      exact ⟨rfl, rfl, fun _ => rfl⟩

theorem TaskLayout.alloc (h : TaskLayout s tree free) :
    ∃ free', TaskLayout (s.allocNewTask l).2 tree free' ∧ Unheld free' (s.allocNewTask l).1 ∧
      (s.allocNewTask l).1 < (s.allocNewTask l).2.tasksAllocated ∧ ¬tree.InUse (s.allocNewTask l).1 := by
  rw [State.allocNewTask]
  have hchain := h.recycled l
  cases hfree : free l with
  | nil =>
    rw [hfree, chain_nil] at hchain
    rw [hchain]
    refine ⟨free, ⟨h.apart, ?_, h.recycled, ?_⟩, unheld_of_bounded h.allocated, Nat.lt_succ_self _, ?_⟩
    · intro l' t ht
      exact Nat.lt_succ_of_lt (h.allocated l' t ht)
    · intro t ht
      exact ⟨Nat.lt_succ_of_lt (h.used t ht).1, (h.used t ht).2⟩
    · intro hused
      exact absurd (h.used _ hused).1 (Nat.lt_irrefl _)
  | cons t ts =>
    rw [hfree] at hchain
    obtain ⟨hhead, htail⟩ := chain_cons.1 hchain
    rw [hhead]
    obtain ⟨hapart, hunheld⟩ := h.apart.pop hfree
    have hmem : t ∈ free l := hfree ▸ List.mem_cons_self
    have hsub : ∀ l' t', t' ∈ update free l ts l' → t' ∈ free l' := by
      intro l' t' ht'
      by_cases hl : l' = l
      · subst hl
        rw [update_self] at ht'
        exact hfree ▸ List.mem_cons_of_mem t ht'
      · rwa [update_of_ne hl] at ht'
    refine ⟨update free l ts, ⟨hapart, ?_, ?_, ?_⟩, hunheld, h.allocated l t hmem, ?_⟩
    · intro l' t' ht'
      exact h.allocated l' t' (hsub l' t' ht')
    · intro l'
      by_cases hl : l' = l
      · subst hl
        dsimp only
        rw [State.locations_setLocation, update_self]
        exact htail
      · dsimp only
        rw [State.locations_setLocation_of_ne s l hl, update_of_ne hl]
        exact h.recycled l'
    · intro t' ht'
      exact ⟨(h.used t' ht').1, fun l' hl' => (h.used t' ht').2 l' (hsub l' t' hl')⟩
    · intro hused
      exact (h.used t hused).2 l hmem

theorem CallTree.inUse_newTask (t' : ℕ) : (tree.newTask t path).InUse t' ↔ t' = t ∨ tree.InUse t' := by
  rw [InUse, InUse, newTask]
  by_cases ht : t' = t
  · subst ht
    simp
  · simp [ht]

theorem Layout.newTask (h : Layout jenkinsHash hashValue s tree held free)
    (path : List RegionHandle) (task : Task)
    (hframe : task.currentFrame = none) (hindex : task.currentIndex = taskStackSize - 1)
    (hhash : task.parentHashValue = pathHash jenkinsHash hashValue path) :
    ∃ free', Layout jenkinsHash hashValue ((s.allocNewTask l).2.setTask (s.allocNewTask l).1 task)
        (tree.newTask (s.allocNewTask l).1 path) held free' ∧ tree.tasks (s.allocNewTask l).1 = none := by
  obtain ⟨free', htasks, hunheld, hlt, hnot⟩ := h.tasks.alloc (l := l)
  obtain ⟨hframes, hallocated, hsame, hforks⟩ := allocNewTask_unchanged (s := s) (l := l)
  have hlocations := locations_allocNewTask (s := s) (l := l)
  have hidle := h.frames.idle _ hnot
  have hnone : tree.tasks (s.allocNewTask l).1 = none := by
    cases hdata : tree.tasks (s.allocNewTask l).1 with
    | none => rfl
    | some data => exact absurd ⟨data, hdata⟩ hnot
  generalize (s.allocNewTask l).1 = t at hunheld hlt hnot hidle hnone ⊢
  generalize (s.allocNewTask l).2 = s₁ at htasks hframes hallocated hsame hforks hlocations hlt ⊢
  have hother : ∀ t', t' ≠ t → (s₁.setTask t task).tasks t' = s.tasks t' := by
    intro t' ht
    rw [State.tasks_setTask_of_ne s₁ t ht, hsame]
  have htree : ∀ t', t' ≠ t → (tree.newTask t path).tasks t' = tree.tasks t' :=
    fun t' ht => update_of_ne ht _ _
  have hself : (tree.newTask t path).tasks t = some ⟨path, []⟩ := update_self t _ tree.tasks
  refine ⟨free', ⟨?_, ?_, ?_, ?_⟩, hnone⟩
  · have hlinks : ((s₁.setTask t task).frames) = s.frames := hframes
    constructor
    · exact h.frames.apart
    · intro i f hf
      exact Nat.lt_of_lt_of_eq (h.frames.allocated i f hf) hallocated.symm
    · intro l'
      rw [hlinks]
      change Chain _ (s₁.locations l').recycledFrames _
      rw [(hlocations l').2.1]
      exact h.frames.recycled l'
    · intro t' ht'
      by_cases ht : t' = t
      · subst ht
        rw [State.tasks_setTask, hframe, hidle]
        exact chain_nil.2 rfl
      · rw [hlinks, hother t' ht]
        exact h.frames.chains t' ((CallTree.inUse_newTask t').1 ht' |>.resolve_left ht)
    · intro t' ht'
      exact h.frames.idle t' fun hused => ht' ((CallTree.inUse_newTask t').2 (Or.inr hused))
  · intro t' data' hdata'
    by_cases ht : t' = t
    · subst ht
      rw [hself, some.injEq] at hdata'
      subst hdata'
      rw [State.tasks_setTask, hindex, hidle]
      exact filled_nil
    · rw [htree t' ht] at hdata'
      rw [hother t' ht]
      exact (h.filled t' data' hdata').congr fun g _ => congrArg StackFrame.regions (congrFun hframes g)
  · constructor
    · exact htasks.apart
    · exact htasks.allocated
    · intro l'
      apply (htasks.recycled l').congr
      intro t' ht'
      have ht : t' ≠ t := by
        rintro rfl
        exact hunheld l' ht'
      rw [State.tasks_setTask_of_ne s₁ t ht]
    · intro t' ht'
      rcases (CallTree.inUse_newTask t').1 ht' with rfl | hused
      · exact ⟨hlt, hunheld⟩
      · exact htasks.used t' hused
  · constructor
    · intro l' t' hcurrent
      change (s₁.locations l').currentTask = some t'
      rw [(hlocations l').1]
      exact h.paths.current l' t' hcurrent
    · intro l' t' hcurrent
      obtain ⟨hused, hinit⟩ := h.paths.executed l' t' hcurrent
      exact ⟨(CallTree.inUse_newTask t').2 (Or.inr hused), hinit⟩
    · intro l' hfresh
      have hold := h.paths.fresh l' hfresh
      change s₁.locations l' = _
      rw [(hlocations l').2.2 (Or.inr (by rw [hold])), hold]
    · intro t' data' hdata'
      by_cases ht : t' = t
      · subst ht
        rw [hself, some.injEq] at hdata'
        subst hdata'
        rw [State.tasks_setTask]
        exact hhash
      · rw [htree t' ht] at hdata'
        rw [hother t' ht]
        exact h.paths.parents t' data' hdata'
    · intro l'
      change s₁.lastForkHash l' = _
      rw [hforks]
      exact h.paths.forks l'

theorem setTask_setTask (task task' : Task) : (s.setTask t task).setTask t task' = s.setTask t task' := by
  simp [State.setTask]

theorem setTask_setLocation_setTask (task task' : Task) (location : LocationTaskData) :
    ((s.setTask t task).setLocation l location).setTask t task' =
      (s.setTask t task').setLocation l location := by
  simp [State.setTask, State.setLocation]

theorem create_spec (h : Layout jenkinsHash hashValue s tree held free) {c : ℕ}
    (hcurrent : tree.current l = some c) (hdata : tree.tasks c = some data)
    (hhash : Hashable jenkinsHash hashValue data) (threadId generationNumber : ℕ) :
    ∃ t s', taskCreate jenkinsHash hashValue s l threadId generationNumber = some (t, s') ∧
      tree.tasks t = none ∧ Refines jenkinsHash hashValue s' (tree.newTask t (tree.currentPath l)) := by
  have hpath : tree.currentPath l = data.path := by
    rw [CallTree.currentPath, hcurrent, bind_some, hdata]
    rfl
  obtain ⟨hframes, hallocated, hsame, -⟩ := allocNewTask_unchanged (s := s) (l := l)
  have hlocations := locations_allocNewTask (s := s) (l := l) l
  obtain ⟨free', hlayout, hnone⟩ := h.newTask (l := l) data.path
    (⟨none, taskStackSize - 1, threadId, generationNumber, pathHash jenkinsHash hashValue data.path,
      ((s.allocNewTask l).2.tasks (s.allocNewTask l).1).next⟩) rfl rfl rfl
  rw [hpath]
  refine ⟨_, _, ?_, hnone, held, free', hlayout⟩
  have hne : c ≠ (s.allocNewTask l).1 := by
    intro heq
    rw [← heq, hdata] at hnone
    cases hnone
  have hstack : ∀ task, getRegionStackHash jenkinsHash hashValue
      ((s.allocNewTask l).2.setTask (s.allocNewTask l).1 task) c =
        some (pathHash jenkinsHash hashValue data.path) := by
    intro task
    rw [← getRegionStackHash_eq h hdata hhash]
    apply getRegionStackHash_congr
    · exact hframes
    · exact hallocated
    · rw [State.tasks_setTask_of_ne _ _ hne, hsame]
  rw [taskCreate]
  simp only [bind_eq_bind]
  have hcur : ((s.allocNewTask l).2.locations l).currentTask = some c := by
    rw [hlocations.1, h.paths.current l c hcurrent]
  split
  · next hnot => cases hcur.symm.trans hnot
  · next currentTask hsome =>
    obtain rfl := some.inj (hcur.symm.trans hsome)
    rw [hstack, bind_some, setTask_setTask, State.tasks_setTask]
    rfl

/-! ## Tasks and locations -/

theorem Layout.setCurrent (h : Layout jenkinsHash hashValue s tree held free) (hused : tree.InUse t)
    (location : LocationTaskData) (hcurrent : location.currentTask = some t)
    (htasks : location.recycledTasks = (s.locations l).recycledTasks)
    (hframes : location.recycledFrames = (s.locations l).recycledFrames) :
    Layout jenkinsHash hashValue (s.setLocation l location) { tree with
        current := update tree.current l (some t)
        initialized := update tree.initialized l true } held free := by
  refine ⟨?_, h.filled, ?_, ?_⟩
  · constructor
    · exact h.frames.apart
    · exact h.frames.allocated
    · intro l'
      by_cases hl : l' = l
      · subst hl
        rw [State.locations_setLocation, hframes]
        exact h.frames.recycled l'
      · rw [State.locations_setLocation_of_ne s l hl]
        exact h.frames.recycled l'
    · exact h.frames.chains
    · exact h.frames.idle
  · constructor
    · exact h.tasks.apart
    · exact h.tasks.allocated
    · intro l'
      by_cases hl : l' = l
      · subst hl
        rw [State.locations_setLocation, htasks]
        exact h.tasks.recycled l'
      · rw [State.locations_setLocation_of_ne s l hl]
        exact h.tasks.recycled l'
    · exact h.tasks.used
  · constructor
    · intro l' t' hcurrent'
      dsimp only at hcurrent'
      by_cases hl : l' = l
      · subst hl
        rw [update_self] at hcurrent'
        rw [State.locations_setLocation, hcurrent, hcurrent']
      · rw [update_of_ne hl] at hcurrent'
        rw [State.locations_setLocation_of_ne s l hl]
        exact h.paths.current l' t' hcurrent'
    · intro l' t' hcurrent'
      dsimp only at hcurrent' ⊢
      by_cases hl : l' = l
      · subst hl
        rw [update_self, some.injEq] at hcurrent'
        subst hcurrent'
        exact ⟨hused, update_self _ _ _⟩
      · rw [update_of_ne hl] at hcurrent' ⊢
        exact h.paths.executed l' t' hcurrent'
    · intro l' hfresh
      dsimp only at hfresh
      have hl : l' ≠ l := by
        rintro rfl
        rw [update_self] at hfresh
        cases hfresh
      rw [update_of_ne hl] at hfresh
      rw [State.locations_setLocation_of_ne s l hl]
      exact h.paths.fresh l' hfresh
    · exact h.paths.parents
    · exact h.paths.forks

theorem switch_spec (h : Layout jenkinsHash hashValue s tree held free) (hl : tree.initialized l = true)
    (hused : tree.InUse t) : Refines jenkinsHash hashValue (s.taskSwitch l t) (tree.switch l t) := by
  have hlayout := h.setCurrent (l := l) hused { s.locations l with currentTask := some t } rfl rfl rfl
  rw [← hl, update_eq_self] at hlayout
  exact ⟨held, free, hlayout⟩

theorem getLastForkHash_eq (h : PathLayout jenkinsHash hashValue s tree) (parent : Option ℕ) :
    getLastForkHash s parent = pathHash jenkinsHash hashValue ((parent.map tree.forkPath).getD []) := by
  cases parent with
  | none => rfl
  | some parent => exact h.forks parent

theorem initLocation_spec (h : Layout jenkinsHash hashValue s tree held free)
    (hl : tree.initialized l = false) (parent : Option ℕ) (threadId : ℕ) :
    ∃ t s', initLocation jenkinsHash hashValue s l parent threadId = some (t, s') ∧
      tree.tasks t = none ∧ Refines jenkinsHash hashValue s' (tree.newLocation l parent t) := by
  have hfresh := h.paths.fresh l hl
  have hlocations := locations_allocNewTask (s := s) (l := l) l
  obtain ⟨-, -, hsame, hforks⟩ := allocNewTask_unchanged (s := s) (l := l)
  have hcleared : s.setLocation l ⟨none, none, none, none⟩ = s := by
    rw [← hfresh, State.setLocation, update_eq_self]
  obtain ⟨free', hlayout, hnone⟩ := h.newTask (l := l) ((parent.map tree.forkPath).getD [])
    (⟨none, taskStackSize - 1, threadId, 0, getLastForkHash s parent,
      ((s.allocNewTask l).2.tasks (s.allocNewTask l).1).next⟩) rfl rfl (getLastForkHash_eq h.paths parent)
  have hlayout' := hlayout.setCurrent (l := l) (t := (s.allocNewTask l).1)
    ((CallTree.inUse_newTask _).2 (Or.inl rfl))
    ({ (s.allocNewTask l).2.locations l with
      currentTask := some (s.allocNewTask l).1, implicitTask := some (s.allocNewTask l).1 }) rfl rfl rfl
  refine ⟨_, _, ?_, hnone, held, free', hlayout'⟩
  have hcreate : taskCreate jenkinsHash hashValue s l threadId 0 = some ((s.allocNewTask l).1,
      (s.allocNewTask l).2.setTask (s.allocNewTask l).1
        { (s.allocNewTask l).2.tasks (s.allocNewTask l).1 with
          currentFrame := none
          currentIndex := taskStackSize - 1
          threadId := threadId
          generationNumber := 0 }) := by
    rw [taskCreate]
    have hcur : ((s.allocNewTask l).2.locations l).currentTask = none := by rw [hlocations.1, hfresh]
    dsimp only
    split
    · rfl
    · next hsome => cases hcur.symm.trans hsome
  have hfork : ∀ s' : State, s'.lastForkHash = s.lastForkHash →
      getLastForkHash s' parent = getLastForkHash s parent := by
    intro s' heq
    cases parent with
    | none => rfl
    | some parent => exact congrFun heq parent
  rw [initLocation, hcleared, hcreate]
  simp only [bind_eq_bind, bind_some]
  rw [hfork]
  · rw [setTask_setLocation_setTask, State.tasks_setLocation, State.tasks_setTask]
    rfl
  · exact hforks

theorem complete_spec (h : Layout jenkinsHash hashValue s tree held free) (hl : tree.initialized l = true)
    (hused : tree.InUse t) : Refines jenkinsHash hashValue (s.taskComplete l t) (tree.complete t) := by
  have hother : ∀ t', (tree.complete t).InUse t' ↔ t' ≠ t ∧ tree.InUse t' := by
    intro t'
    rw [CallTree.InUse, CallTree.InUse, CallTree.complete]
    by_cases ht : t' = t
    · subst ht
      simp
    · simp [ht]
  have htasks : ∀ t', t' ≠ t → (s.taskComplete l t).tasks t' = s.tasks t' :=
    fun t' ht => update_of_ne ht _ _
  have htree : ∀ t' data, (tree.complete t).tasks t' = some data → t' ≠ t ∧ tree.tasks t' = some data := by
    intro t' data hdata
    have ht := ((hother t').1 ⟨data, hdata⟩).1
    refine ⟨ht, ?_⟩
    change update tree.tasks t none t' = some data at hdata
    rwa [update_of_ne ht] at hdata
  refine ⟨update held (.task t) [], update free l (t :: free l), ?_, ?_, ?_, ?_⟩
  · constructor
    · exact h.frames.apart.drop
    · intro i f hf
      by_cases hi : i = .task t
      · subst hi
        rw [update_self] at hf
        exact absurd hf List.not_mem_nil
      · rw [update_of_ne hi] at hf
        exact h.frames.allocated i f hf
    · intro l'
      rw [update_of_ne (by simp)]
      by_cases hl' : l' = l
      · subst hl'
        rw [State.taskComplete, State.recycleTask, State.locations_setLocation]
        exact h.frames.recycled l'
      · rw [State.taskComplete, State.recycleTask, State.locations_setLocation_of_ne _ l hl']
        exact h.frames.recycled l'
    · intro t' ht'
      obtain ⟨hne, hused'⟩ := (hother t').1 ht'
      rw [update_of_ne (by simpa using hne), htasks t' hne]
      exact h.frames.chains t' hused'
    · intro t' ht'
      by_cases ht : t' = t
      · subst ht
        exact update_self _ _ _
      · rw [update_of_ne (by simpa using ht)]
        exact h.frames.idle t' fun hused' => ht' ((hother t').2 ⟨ht, hused'⟩)
  · intro t' data hdata
    obtain ⟨hne, hdata⟩ := htree t' data hdata
    rw [update_of_ne (by simpa using hne), htasks t' hne]
    exact h.filled t' data hdata
  · obtain ⟨hlt, hunheld⟩ := h.tasks.used t hused
    constructor
    · exact h.tasks.apart.push hunheld
    · intro l' t' ht'
      by_cases hl' : l' = l
      · subst hl'
        rw [update_self] at ht'
        rcases List.mem_cons.1 ht' with rfl | ht'
        · exact hlt
        · exact h.tasks.allocated l' t' ht'
      · rw [update_of_ne hl'] at ht'
        exact h.tasks.allocated l' t' ht'
    · intro l'
      have hchain : Chain (fun t' => ((s.taskComplete l t).tasks t').next)
          (s.locations l').recycledTasks (free l') := by
        apply (h.tasks.recycled l').congr
        intro t' ht'
        have hne : t' ≠ t := by
          rintro rfl
          exact hunheld l' ht'
        rw [htasks t' hne]
      by_cases hl' : l' = l
      · subst hl'
        rw [update_self]
        refine chain_cons.2 ⟨?_, ?_⟩
        · rw [State.taskComplete, State.recycleTask, State.locations_setLocation]
        · have hnext : ((s.taskComplete l' t).tasks t).next = (s.locations l').recycledTasks := by
            change ((s.setTask t _).tasks t).next = _
            rw [State.tasks_setTask]
          rwa [hnext]
      · rw [update_of_ne hl', State.taskComplete, State.recycleTask,
          State.locations_setLocation_of_ne _ l hl']
        exact hchain
    · intro t' ht'
      obtain ⟨hne, hused'⟩ := (hother t').1 ht'
      refine ⟨(h.tasks.used t' hused').1, ?_⟩
      intro l' hmem
      by_cases hl' : l' = l
      · subst hl'
        rw [update_self] at hmem
        exact (h.tasks.used t' hused').2 l' ((List.mem_cons.1 hmem).resolve_left hne)
      · rw [update_of_ne hl'] at hmem
        exact (h.tasks.used t' hused').2 l' hmem
  · have hcurrent : ∀ l' t', (tree.complete t).current l' = some t' → t' ≠ t ∧ tree.current l' = some t' := by
      intro l' t' hcurrent
      rw [CallTree.complete] at hcurrent
      dsimp only at hcurrent
      split_ifs at hcurrent with heq
      refine ⟨?_, hcurrent⟩
      rintro rfl
      exact heq hcurrent
    constructor
    · intro l' t' hcurrent'
      have hold := h.paths.current l' t' (hcurrent l' t' hcurrent').2
      by_cases hl' : l' = l
      · subst hl'
        rw [State.taskComplete, State.recycleTask, State.locations_setLocation]
        exact hold
      · rw [State.taskComplete, State.recycleTask, State.locations_setLocation_of_ne _ l hl']
        exact hold
    · intro l' t' hcurrent'
      obtain ⟨hne, hold⟩ := hcurrent l' t' hcurrent'
      obtain ⟨hused', hinit⟩ := h.paths.executed l' t' hold
      exact ⟨(hother t').2 ⟨hne, hused'⟩, hinit⟩
    · intro l' hfresh
      have hl' : l' ≠ l := by
        rintro rfl
        have hfalse : tree.initialized l' = false := hfresh
        rw [hl] at hfalse
        cases hfalse
      rw [State.taskComplete, State.recycleTask, State.locations_setLocation_of_ne _ l hl']
      exact h.paths.fresh l' hfresh
    · intro t' data hdata
      obtain ⟨hne, hdata⟩ := htree t' data hdata
      rw [htasks t' hne]
      exact h.paths.parents t' data hdata
    · exact h.paths.forks

theorem fork_spec (h : Layout jenkinsHash hashValue s tree held free) (hcurrent : tree.current l = some t)
    (hdata : tree.tasks t = some data) (hhash : Hashable jenkinsHash hashValue data) :
    ∃ s', fork jenkinsHash hashValue s l = some s' ∧ Refines jenkinsHash hashValue s' (tree.fork l) := by
  have hpath : tree.currentPath l = data.path := by
    rw [CallTree.currentPath, hcurrent, bind_some, hdata]
    rfl
  rw [fork, h.paths.current l t hcurrent]
  simp only [bind_eq_bind, bind_some]
  rw [getRegionStackHash_eq h hdata hhash]
  refine ⟨_, rfl, held, free, ⟨h.frames.apart, h.frames.allocated, h.frames.recycled, h.frames.chains,
    h.frames.idle⟩, h.filled, ⟨h.tasks.apart, h.tasks.allocated, h.tasks.recycled, h.tasks.used⟩,
    h.paths.current, h.paths.executed, h.paths.fresh, h.paths.parents, ?_⟩
  intro l'
  rw [CallTree.fork]
  by_cases hl' : l' = l
  · subst hl'
    simp [hpath]
  · simp only [update_of_ne hl']
    exact h.paths.forks l'

/-! ## Runs -/

theorem Refines.step (h : Refines jenkinsHash hashValue s tree) {call : Call} (hlegal : tree.Legal call)
    (hfine : Fine jenkinsHash hashValue tree call) :
    ∃ result s', call.run jenkinsHash hashValue s = some (result, s') ∧
      Right jenkinsHash hashValue tree call result ∧
      Refines jenkinsHash hashValue s' (tree.after call result) := by
  obtain ⟨held, free, h⟩ := h
  cases call with
  | initLocation l parent threadId =>
    obtain ⟨t, s', hrun, hnone, hrefines⟩ := initLocation_spec h hlegal.1 parent threadId
    refine ⟨.task t, s', ?_, ⟨t, rfl, hnone⟩, hrefines⟩
    rw [Call.run, hrun]
    rfl
  | enter l region =>
    obtain ⟨t, hcurrent⟩ := hlegal
    obtain ⟨data, hdata⟩ := (h.paths.executed l t hcurrent).1
    obtain ⟨s', hrun, hrefines⟩ := enter_spec h hcurrent hdata region
    refine ⟨.done, s', ?_, rfl, ?_⟩
    · rw [Call.run, hrun]
      rfl
    · rw [CallTree.after, CallTree.setCurrentRegions, hcurrent]
      exact hrefines
  | exit l =>
    obtain ⟨t, data, hcurrent, hdata, hregions⟩ := hlegal
    obtain ⟨s', hrun, hrefines⟩ := pop_spec h (h.paths.executed l t hcurrent).2 hdata hregions
    refine ⟨.done, s', ?_, rfl, ?_⟩
    · rw [Call.run, State.exit, h.paths.current l t hcurrent]
      dsimp only
      rw [hrun]
      rfl
    · rw [CallTree.after, CallTree.setCurrentRegions, hcurrent]
      exact hrefines
  | create l threadId generationNumber =>
    obtain ⟨c, data, hcurrent, hdata, hhash⟩ := hfine
    obtain ⟨t, s', hrun, hnone, hrefines⟩ := create_spec h hcurrent hdata hhash threadId generationNumber
    refine ⟨.task t, s', ?_, ⟨t, rfl, hnone⟩, hrefines⟩
    rw [Call.run, hrun]
    rfl
  | switch l t => exact ⟨.done, _, rfl, rfl, switch_spec h hlegal.1 hlegal.2⟩
  | complete l t => exact ⟨.done, _, rfl, rfl, complete_spec h hlegal.1 hlegal.2⟩
  | clearStack l t =>
    obtain ⟨hl, data, hdata⟩ := hlegal
    obtain ⟨s', hrun, hrefines⟩ := clearStack_spec h hl hdata
    refine ⟨.done, s', ?_, rfl, hrefines⟩
    rw [Call.run, hrun]
    rfl
  | fork l =>
    obtain ⟨t, data, hcurrent, hdata, hhash⟩ := hfine
    obtain ⟨s', hrun, hrefines⟩ := fork_spec h hcurrent hdata hhash
    refine ⟨.done, s', ?_, rfl, hrefines⟩
    rw [Call.run, hrun]
    rfl
  | getTopRegion t =>
    obtain ⟨data, hdata⟩ := hlegal
    exact ⟨_, s, rfl, ⟨data, hdata, congrArg Result.region (getTopRegion_eq h hdata)⟩, held, free, h⟩
  | getRegionStackHash t =>
    obtain ⟨data, hdata⟩ := hlegal
    refine ⟨.hash (pathHash jenkinsHash hashValue data.path), s, ?_, ⟨data, hdata, rfl⟩, held, free, h⟩
    rw [Call.run, getRegionStackHash_eq h hdata (hfine data hdata)]
    rfl

theorem Refines.meets (h : Refines jenkinsHash hashValue s tree) {calls : List Call}
    (hlegal : LegalCalls jenkinsHash hashValue s tree calls)
    (hfine : FineCalls jenkinsHash hashValue s tree calls) : Meets jenkinsHash hashValue s tree calls := by
  induction calls generalizing s tree with
  | nil => exact h
  | cons call calls ih =>
    obtain ⟨result, s', hrun, hright, hnext⟩ := h.step hlegal.1 hfine.1
    exact ⟨h, result, s', hrun, hright, ih hnext (hlegal.2 result s' hrun) (hfine.2 result s' hrun)⟩

theorem legalCalls_cons {call : Call} {calls : List Call} {result : Result} (hlegal : tree.Legal call)
    (hrun : call.run jenkinsHash hashValue s = some (result, s'))
    (hnext : LegalCalls jenkinsHash hashValue s' (tree.after call result) calls) :
    LegalCalls jenkinsHash hashValue s tree (call :: calls) := by
  refine ⟨hlegal, ?_⟩
  intro result' s'' hrun'
  cases hrun.symm.trans hrun'
  exact hnext

theorem fineCalls_cons {call : Call} {calls : List Call} {result : Result}
    (hfine : Fine jenkinsHash hashValue tree call) (hrun : call.run jenkinsHash hashValue s = some (result, s'))
    (hnext : FineCalls jenkinsHash hashValue s' (tree.after call result) calls) :
    FineCalls jenkinsHash hashValue s tree (call :: calls) := by
  refine ⟨hfine, ?_⟩
  intro result' s'' hrun'
  cases hrun.symm.trans hrun'
  exact hnext

theorem refines_start (frames : ℕ → StackFrame) (tasks : ℕ → Task) :
    Refines jenkinsHash hashValue (.start frames tasks) .start := by
  refine ⟨fun _ => [], fun _ => [], ⟨apart_nil, ?_, fun _ => rfl, ?_, fun _ _ => rfl⟩, ?_,
    ⟨apart_nil, ?_, fun _ => rfl, ?_⟩, ?_, ?_, fun _ _ => rfl, ?_, fun _ => rfl⟩
  · intro _ _ hf
    exact absurd hf List.not_mem_nil
  · rintro t ⟨data, hdata⟩
    cases hdata
  · intro t data hdata
    cases hdata
  · intro _ _ ht
    exact absurd ht List.not_mem_nil
  · rintro t ⟨data, hdata⟩
    cases hdata
  · intro l t hcurrent
    cases hcurrent
  · intro l t hcurrent
    cases hcurrent
  · intro t data hdata
    cases hdata

/-- A run of legal calls meets the call tree when each hash in it is taken of a task in use that has no
filtered region and, where it has no region at all, whose parent has the hash 0. -/
theorem meets_of_fineCalls (jenkinsHash : UInt32 → UInt32 → UInt32) (hashValue : RegionHandle → UInt32)
    (frames : ℕ → StackFrame) (tasks : ℕ → Task) (calls : List Call)
    (hlegal : LegalCalls jenkinsHash hashValue (.start frames tasks) .start calls)
    (hfine : FineCalls jenkinsHash hashValue (.start frames tasks) .start calls) :
    Meets jenkinsHash hashValue (.start frames tasks) .start calls :=
  (refines_start frames tasks).meets hlegal hfine

def wordHash (key initial : UInt32) : UInt32 :=
  31 * initial + key

def blankFrame : StackFrame := ⟨fun _ => 0, none⟩

def blankTask : Task := ⟨none, 0, 0, 0, 0, none⟩

def forkedCalls : List Call :=
  [.initLocation 0 none 0, .enter 0 5, .fork 0, .initLocation 1 (some 0) 1, .enter 1 7, .create 1 1 1,
    .switch 1 2, .enter 1 9, .getRegionStackHash 2]

theorem meets_of_fineCalls_forked :
    Meets wordHash UInt32.ofNat (.start (fun _ => blankFrame) fun _ => blankTask) .start forkedCalls := by
  apply meets_of_fineCalls
  · refine legalCalls_cons ⟨rfl, by simp⟩ rfl ?_
    refine legalCalls_cons ⟨0, rfl⟩ rfl ?_
    refine legalCalls_cons rfl rfl ?_
    refine legalCalls_cons ⟨rfl, by rintro p hp; cases hp; rfl⟩ rfl ?_
    refine legalCalls_cons ⟨1, rfl⟩ rfl ?_
    refine legalCalls_cons rfl rfl ?_
    refine legalCalls_cons ⟨rfl, _, rfl⟩ rfl ?_
    refine legalCalls_cons ⟨2, rfl⟩ rfl ?_
    exact legalCalls_cons ⟨_, rfl⟩ rfl trivial
  · refine fineCalls_cons trivial rfl ?_
    refine fineCalls_cons trivial rfl ?_
    refine fineCalls_cons ⟨0, ⟨[], [5]⟩, rfl, rfl, by simp [filteredRegion], by simp⟩ rfl ?_
    refine fineCalls_cons trivial rfl ?_
    refine fineCalls_cons trivial rfl ?_
    refine fineCalls_cons ⟨1, ⟨[5], [7]⟩, rfl, rfl, by simp [filteredRegion], by simp⟩ rfl ?_
    refine fineCalls_cons trivial rfl ?_
    refine fineCalls_cons trivial rfl ?_
    refine fineCalls_cons ?_ rfl trivial
    intro data hdata
    cases hdata
    exact ⟨by simp [filteredRegion], by simp⟩

/-- The task that is created within the region 5 has no region of its own, its hash is 0 and not the hash of
its parent. -/
theorem not_meets_empty :
    ¬∀ calls, LegalCalls wordHash UInt32.ofNat (.start (fun _ => blankFrame) fun _ => blankTask) .start calls →
      Meets wordHash UInt32.ofNat (.start (fun _ => blankFrame) fun _ => blankTask) .start calls := by
  intro hall
  have hlegal : LegalCalls wordHash UInt32.ofNat (.start (fun _ => blankFrame) fun _ => blankTask) .start
      [.initLocation 0 none 0, .enter 0 5, .create 0 1 1, .getRegionStackHash 1] := by
    refine legalCalls_cons ⟨rfl, by simp⟩ rfl ?_
    refine legalCalls_cons ⟨0, rfl⟩ rfl ?_
    refine legalCalls_cons rfl rfl ?_
    exact legalCalls_cons ⟨_, rfl⟩ rfl trivial
  obtain ⟨-, result, s', hrun, -, h⟩ := hall _ hlegal
  cases hrun
  obtain ⟨-, result, s', hrun, -, h⟩ := h
  cases hrun
  obtain ⟨-, result, s', hrun, -, h⟩ := h
  cases hrun
  obtain ⟨-, result, s', hrun, ⟨data, hdata, hhash⟩, -⟩ := h
  cases hrun
  cases hdata
  revert hhash
  decide

end ScoreP.Tasks
