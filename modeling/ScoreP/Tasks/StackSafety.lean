import ScoreP.Tasks.StackContents

/-!
# The task subsystem refines its call tree

One specification per operation of the subsystem says what it does to the layout: `enter_spec`, `pop_spec`,
`clearStack_spec`, `create_spec` and so on. A hash is taken right when the task is `Hashable`
(`getRegionStackHash_eq`): for a task without open regions the code answers 0 in place of the hash of the
parent, and a filtered region refers to no definition.

From `Fine.step` it follows by induction that a run whose hashes are all taken of such tasks meets the call
tree (`meets_of_fineCalls`).
-/

namespace ScoreP.Tasks

open Foundations Function

variable {s s' s'' : State} {tree tree' : CallTree} {held : Holder → List ℕ} {free : ℕ → List ℕ}
  {l t f : ℕ} {fs : List ℕ} {regions : List RegionHandle} {region : RegionHandle} {data : LogicalTask}
  {jenkinsHash : UInt32 → UInt32 → UInt32} {hashValue : RegionHandle → UInt32}

/-! ## What the operations on frames leave alone -/

structure OnlyFrames (l : ℕ) (s s' : State) : Prop where
  next : ∀ t, (s'.tasks t).next = (s.tasks t).next
  parentHashValue : ∀ t, (s'.tasks t).parentHashValue = (s.tasks t).parentHashValue
  currentTask : (s'.locations l).currentTask = (s.locations l).currentTask
  recycledTasks : (s'.locations l).recycledTasks = (s.locations l).recycledTasks
  other : ∀ l', l' ≠ l → s'.locations l' = s.locations l'
  lastForkHash : s'.lastForkHash = s.lastForkHash
  tasksAllocated : s'.tasksAllocated = s.tasksAllocated

theorem OnlyFrames.trans (h : OnlyFrames l s s') (h' : OnlyFrames l s' s'') : OnlyFrames l s s'' where
  next := fun t => (h'.next t).trans (h.next t)
  parentHashValue := fun t => (h'.parentHashValue t).trans (h.parentHashValue t)
  currentTask := h'.currentTask.trans h.currentTask
  recycledTasks := h'.recycledTasks.trans h.recycledTasks
  other := fun l' hl' => (h'.other l' hl').trans (h.other l' hl')
  lastForkHash := h'.lastForkHash.trans h.lastForkHash
  tasksAllocated := h'.tasksAllocated.trans h.tasksAllocated

theorem OnlyFrames.refl (s : State) : OnlyFrames l s s :=
  ⟨fun _ => rfl, fun _ => rfl, rfl, rfl, fun _ _ => rfl, rfl, rfl⟩

theorem OnlyFrames.setFrame (h : OnlyFrames l s s') {frame : StackFrame} :
    OnlyFrames l s (s'.setFrame f frame) :=
  h.trans ⟨fun _ => rfl, fun _ => rfl, rfl, rfl, fun _ _ => rfl, rfl, rfl⟩

theorem OnlyFrames.setTask (h : OnlyFrames l s s') {task : Task} (hnext : task.next = (s'.tasks t).next)
    (hhash : task.parentHashValue = (s'.tasks t).parentHashValue) : OnlyFrames l s (s'.setTask t task) := by
  refine h.trans ⟨?_, ?_, rfl, rfl, fun _ _ => rfl, rfl, rfl⟩
  · intro t'
    by_cases ht : t' = t
    · subst ht
      rw [State.tasks_setTask, hnext]
    · rw [State.tasks_setTask_of_ne s' t ht]
  · intro t'
    by_cases ht : t' = t
    · subst ht
      rw [State.tasks_setTask, hhash]
    · rw [State.tasks_setTask_of_ne s' t ht]

theorem OnlyFrames.setLocation (h : OnlyFrames l s s') {location : LocationTaskData}
    (hcurrent : location.currentTask = (s'.locations l).currentTask)
    (hrecycled : location.recycledTasks = (s'.locations l).recycledTasks) :
    OnlyFrames l s (s'.setLocation l location) := by
  refine h.trans ⟨fun _ => rfl, fun _ => rfl, ?_, ?_, ?_, rfl, rfl⟩
  · rw [State.locations_setLocation, hcurrent]
  · rw [State.locations_setLocation, hrecycled]
  · intro l' hl'
    rw [State.locations_setLocation_of_ne s' l hl']

theorem OnlyFrames.recycleStackFrame (h : OnlyFrames l s s') : OnlyFrames l s (s'.recycleStackFrame l f) :=
  .setLocation (.setFrame h) rfl rfl

theorem onlyFrames_allocNewStackFrame : OnlyFrames l s (s.allocNewStackFrame l).2 := by
  rw [State.allocNewStackFrame]
  cases (s.locations l).recycledFrames with
  | none => exact ⟨fun _ => rfl, fun _ => rfl, rfl, rfl, fun _ _ => rfl, rfl, rfl⟩
  | some newFrame => exact .setLocation (.refl s) rfl rfl

structure OnlyRegions (tree tree' : CallTree) : Prop where
  inUse : ∀ t, tree'.InUse t ↔ tree.InUse t
  parentPath : ∀ t data', tree'.tasks t = some data' →
    ∃ data, tree.tasks t = some data ∧ data'.parentPath = data.parentPath
  current : tree'.current = tree.current
  forkPath : tree'.forkPath = tree.forkPath
  initialized : tree'.initialized = tree.initialized

theorem onlyRegions_setRegions (change : List RegionHandle → List RegionHandle) :
    OnlyRegions tree (tree.setRegions t change) := by
  have htasks : ∀ t', (tree.setRegions t change).tasks t' = tree.tasks t' ∨
      (tree.setRegions t change).tasks t' =
        (tree.tasks t').map fun data => { data with regions := change data.regions } := by
    intro t'
    by_cases ht : t' = t
    · subst ht
      exact Or.inr (update_self _ _ _)
    · exact Or.inl (update_of_ne ht _ _)
  refine ⟨?_, ?_, rfl, rfl, rfl⟩
  · intro t'
    rw [CallTree.InUse, CallTree.InUse]
    rcases htasks t' with heq | heq
    · rw [heq]
    · rw [heq]
      cases tree.tasks t' with
      | none => simp
      | some data => simp
  · intro t' data' hdata'
    rcases htasks t' with heq | heq
    · exact ⟨data', heq ▸ hdata', rfl⟩
    · rw [heq] at hdata'
      obtain ⟨data, hdata, rfl⟩ := Option.map_eq_some_iff.1 hdata'
      exact ⟨data, hdata, rfl⟩

theorem TaskLayout.of_onlyFrames (h : TaskLayout s tree free) (hstep : OnlyFrames l s s')
    (htree : OnlyRegions tree tree') : TaskLayout s' tree' free where
  apart := h.apart
  allocated := by
    rw [hstep.tasksAllocated]
    exact h.allocated
  recycled := by
    intro l'
    have hnext : (fun t => (s'.tasks t).next) = fun t => (s.tasks t).next := funext hstep.next
    have hhead : (s'.locations l').recycledTasks = (s.locations l').recycledTasks := by
      by_cases hl : l' = l
      · rw [hl, hstep.recycledTasks]
      · rw [hstep.other l' hl]
    rw [hnext, hhead]
    exact h.recycled l'
  used := by
    intro t ht
    rw [hstep.tasksAllocated]
    exact h.used t ((htree.inUse t).1 ht)

theorem PathLayout.of_onlyFrames (h : PathLayout jenkinsHash hashValue s tree) (hstep : OnlyFrames l s s')
    (htree : OnlyRegions tree tree') (hl : tree.initialized l = true) :
    PathLayout jenkinsHash hashValue s' tree' where
  current := by
    intro l' t hcurrent
    rw [htree.current] at hcurrent
    by_cases hl' : l' = l
    · subst hl'
      rw [hstep.currentTask]
      exact h.current l' t hcurrent
    · rw [hstep.other l' hl']
      exact h.current l' t hcurrent
  executed := by
    intro l' t hcurrent
    rw [htree.current] at hcurrent
    rw [htree.inUse, htree.initialized]
    exact h.executed l' t hcurrent
  fresh := by
    intro l' hfresh
    rw [htree.initialized] at hfresh
    have hne : l' ≠ l := by
      rintro rfl
      rw [hl] at hfresh
      cases hfresh
    rw [hstep.other l' hne]
    exact h.fresh l' hfresh
  parents := by
    intro t data' hdata'
    obtain ⟨data, hdata, hpath⟩ := htree.parentPath t data' hdata'
    rw [hstep.parentHashValue, hpath]
    exact h.parents t data hdata
  forks := by
    intro l'
    rw [hstep.lastForkHash, htree.forkPath]
    exact h.forks l'

/-! ## Frames change hands -/

theorem FrameLayout.of_onlyRegions (h : FrameLayout s tree held) (htree : OnlyRegions tree tree') :
    FrameLayout s tree' held where
  apart := h.apart
  allocated := h.allocated
  recycled := h.recycled
  chains := fun t ht => h.chains t ((htree.inUse t).1 ht)
  idle := fun t ht => h.idle t fun hused => ht ((htree.inUse t).2 hused)

theorem FrameLayout.recycle (h : FrameLayout s tree held) (ht : held (.task t) = f :: fs) (task : Task)
    (htask : task.currentFrame = (s.frames f).prev) (hused : tree.InUse t) :
    FrameLayout ((s.setTask t task).recycleStackFrame l f) tree
      (update (update held (.task t) fs) (.location l) (f :: held (.location l))) := by
  have hf : f ∈ held (.task t) := ht ▸ List.mem_cons_self
  have hnotin : ∀ i, i ≠ .task t → f ∉ held i := fun i hi => h.apart.notMem hf fun heq => hi heq.symm
  have hframes : ∀ g, g ≠ f → (((s.setTask t task).recycleStackFrame l f).frames g) = s.frames g := by
    intro g hg
    exact update_of_ne hg _ _
  have hfs : f ∉ fs := by
    have hnodup := h.apart.nodup (.task t)
    rw [ht] at hnodup
    exact hnodup.notMem
  constructor
  · exact h.apart.move ht (by simp)
  · intro i g hg
    have hmem : ∃ j, g ∈ held j := by
      by_cases hi : i = .location l
      · subst hi
        rw [update_self] at hg
        rcases List.mem_cons.1 hg with rfl | hg
        · exact ⟨_, hf⟩
        · exact ⟨_, hg⟩
      · rw [update_of_ne hi] at hg
        by_cases hi' : i = .task t
        · subst hi'
          rw [update_self] at hg
          exact ⟨.task t, ht ▸ List.mem_cons_of_mem f hg⟩
        · rw [update_of_ne hi'] at hg
          exact ⟨i, hg⟩
    obtain ⟨j, hj⟩ := hmem
    exact h.allocated j g hj
  · intro l'
    by_cases hl : l' = l
    · subst hl
      rw [update_self]
      refine chain_cons.2 ⟨?_, ?_⟩
      · simp [State.recycleStackFrame, State.setLocation]
      · have hhead : (((s.setTask t task).recycleStackFrame l' f).frames f).prev =
            (s.locations l').recycledFrames := by
          change (((s.setTask t task).setFrame f _).frames f).prev = _
          rw [State.frames_setFrame]
          rfl
        rw [hhead]
        apply (h.recycled l').congr
        intro g hg
        have hne : g ≠ f := by
          rintro rfl
          exact hnotin (.location l') (by simp) hg
        exact congrArg StackFrame.prev (hframes g hne)
    · have hloc : ((s.setTask t task).recycleStackFrame l f).locations l' = s.locations l' :=
        update_of_ne hl _ _
      rw [hloc, update_of_ne (by simpa using hl), update_of_ne (by simp)]
      apply (h.recycled l').congr
      intro g hg
      have hne : g ≠ f := by
        rintro rfl
        exact hnotin (.location l') (by simp) hg
      exact congrArg StackFrame.prev (hframes g hne)
  · intro t' ht'
    rw [update_of_ne (by simp)]
    by_cases htt : t' = t
    · subst htt
      have htask' : ((s.setTask t' task).recycleStackFrame l f).tasks t' = task :=
        State.tasks_setTask s t' task
      have hchain := h.chains t' hused
      rw [ht] at hchain
      rw [update_self, htask', htask]
      apply (chain_cons.1 hchain).2.congr
      intro g hg
      have hne : g ≠ f := by
        rintro rfl
        exact hfs hg
      exact congrArg StackFrame.prev (hframes g hne)
    · have htask' : ((s.setTask t task).recycleStackFrame l f).tasks t' = s.tasks t' :=
        update_of_ne htt _ _
      rw [update_of_ne (by simpa using htt), htask']
      apply (h.chains t' ht').congr
      intro g hg
      have hne : g ≠ f := by
        rintro rfl
        exact hnotin (.task t') (by simpa using htt) hg
      exact congrArg StackFrame.prev (hframes g hne)
  · intro t' ht'
    have htt : t' ≠ t := by
      rintro rfl
      exact ht' hused
    rw [update_of_ne (by simp), update_of_ne (by simpa using htt)]
    exact h.idle t' ht'

theorem FrameLayout.alloc (h : FrameLayout s tree held) :
    ∃ held', FrameLayout (s.allocNewStackFrame l).2 tree held' ∧
      (∀ t, held' (.task t) = held (.task t)) ∧ Unheld held' (s.allocNewStackFrame l).1 ∧
      (s.allocNewStackFrame l).1 < (s.allocNewStackFrame l).2.framesAllocated ∧
      (s.allocNewStackFrame l).2.frames = s.frames ∧ (s.allocNewStackFrame l).2.tasks = s.tasks := by
  rw [State.allocNewStackFrame]
  have hchain := h.recycled l
  cases hheld : held (.location l) with
  | nil =>
    rw [hheld, chain_nil] at hchain
    rw [hchain]
    refine ⟨held, ⟨h.apart, ?_, h.recycled, h.chains, h.idle⟩, fun _ => rfl, unheld_of_bounded h.allocated,
      Nat.lt_succ_self _, rfl, rfl⟩
    intro i g hg
    exact Nat.lt_succ_of_lt (h.allocated i g hg)
  | cons f fs =>
    rw [hheld] at hchain
    obtain ⟨hhead, htail⟩ := chain_cons.1 hchain
    rw [hhead]
    obtain ⟨hapart, hunheld⟩ := h.apart.pop hheld
    refine ⟨update held (.location l) fs, ⟨hapart, ?_, ?_, ?_, ?_⟩, ?_, hunheld,
      h.allocated (.location l) f (hheld ▸ List.mem_cons_self), rfl, rfl⟩
    · intro i g hg
      by_cases hi : i = .location l
      · subst hi
        rw [update_self] at hg
        exact h.allocated _ g (hheld ▸ List.mem_cons_of_mem f hg)
      · rw [update_of_ne hi] at hg
        exact h.allocated i g hg
    · intro l'
      by_cases hl : l' = l
      · subst hl
        simp only [State.setLocation, update_self]
        exact htail
      · rw [update_of_ne (by simpa using hl)]
        simp only [State.setLocation, update_of_ne hl]
        exact h.recycled l'
    · intro t' ht'
      rw [update_of_ne (by simp)]
      exact h.chains t' ht'
    · intro t' ht'
      rw [update_of_ne (by simp)]
      exact h.idle t' ht'
    · intro t'
      exact update_of_ne (by simp) _ _

theorem FrameLayout.push (h : FrameLayout s tree held) (hf : Unheld held f) (hlt : f < s.framesAllocated)
    (hused : tree.InUse t) {frame : StackFrame} (hprev : frame.prev = (s.tasks t).currentFrame)
    {task : Task} (htask : task.currentFrame = some f) : FrameLayout ((s.setFrame f frame).setTask t task) tree
      (update held (.task t) (f :: held (.task t))) := by
  have hframes : ∀ i, ∀ g ∈ held i, (((s.setFrame f frame).setTask t task).frames g).prev =
      (s.frames g).prev := by
    intro i g hg
    have hne : g ≠ f := by
      rintro rfl
      exact hf i hg
    exact congrArg StackFrame.prev (update_of_ne hne _ _)
  constructor
  · exact h.apart.push hf
  · intro i g hg
    by_cases hi : i = .task t
    · subst hi
      rw [update_self] at hg
      rcases List.mem_cons.1 hg with rfl | hg
      · exact hlt
      · exact h.allocated _ g hg
    · rw [update_of_ne hi] at hg
      exact h.allocated i g hg
  · intro l'
    rw [update_of_ne (by simp)]
    exact (h.recycled l').congr (hframes _)
  · intro t' ht'
    by_cases htt : t' = t
    · subst htt
      have hframe : (((s.setFrame f frame).setTask t' task).frames f).prev = (s.tasks t').currentFrame :=
        (congrArg StackFrame.prev (State.frames_setFrame s f frame)).trans hprev
      rw [update_self, State.tasks_setTask, htask]
      refine chain_cons.2 ⟨rfl, ?_⟩
      rw [hframe]
      exact (h.chains t' ht').congr (hframes _)
    · have htask' : ((s.setFrame f frame).setTask t task).tasks t' = s.tasks t' :=
        update_of_ne htt _ _
      rw [update_of_ne (by simpa using htt), htask']
      exact (h.chains t' ht').congr (hframes _)
  · intro t' ht'
    have htt : t' ≠ t := by
      rintro rfl
      exact ht' hused
    rw [update_of_ne (by simpa using htt)]
    exact h.idle t' ht'

theorem FrameLayout.congr (h : FrameLayout s tree held) (hprev : ∀ f, (s'.frames f).prev = (s.frames f).prev)
    (hallocated : s'.framesAllocated = s.framesAllocated)
    (hrecycled : ∀ l, (s'.locations l).recycledFrames = (s.locations l).recycledFrames)
    (hcurrent : ∀ t, tree.InUse t → (s'.tasks t).currentFrame = (s.tasks t).currentFrame) :
    FrameLayout s' tree held := by
  have hlinks : (fun f => (s'.frames f).prev) = fun f => (s.frames f).prev := funext hprev
  constructor
  · exact h.apart
  · rw [hallocated]
    exact h.allocated
  · intro l
    rw [hlinks, hrecycled]
    exact h.recycled l
  · intro t ht
    rw [hlinks, hcurrent t ht]
    exact h.chains t ht
  · exact h.idle

/-! ## The stack operations -/

theorem Layout.of_onlyFrames (h : Layout jenkinsHash hashValue s tree held free) (hdata : tree.tasks t = some data)
    {change : List RegionHandle → List RegionHandle} {held' : Holder → List ℕ} (hstep : OnlyFrames l s s')
    (hl : tree.initialized l = true) (hframes : FrameLayout s' tree held')
    (hself : Filled s'.frames (s'.tasks t).currentIndex (held' (.task t)) (change data.regions))
    (hother : ∀ t' data', t' ≠ t → tree.tasks t' = some data' →
      Filled s'.frames (s'.tasks t').currentIndex (held' (.task t')) data'.regions) :
    Layout jenkinsHash hashValue s' (tree.setRegions t change) held' free where
  frames := hframes.of_onlyRegions (onlyRegions_setRegions change)
  filled := by
    intro t' data' hdata'
    by_cases ht : t' = t
    · subst ht
      rw [CallTree.tasks_setRegions, hdata, Option.map_some, Option.some.injEq] at hdata'
      subst hdata'
      exact hself
    · rw [CallTree.tasks_setRegions_of_ne tree ht] at hdata'
      exact hother t' data' ht hdata'
  tasks := h.tasks.of_onlyFrames hstep (onlyRegions_setRegions change)
  paths := h.paths.of_onlyFrames hstep (onlyRegions_setRegions change) hl

theorem enter_spec (h : Layout jenkinsHash hashValue s tree held free) (hcurrent : tree.current l = some t)
    (hdata : tree.tasks t = some data) (region : RegionHandle) : ∃ s', s.enter l region = some s' ∧
      Refines jenkinsHash hashValue s' (tree.setRegions t (region :: ·)) := by
  have hl := (h.paths.executed l t hcurrent).2
  have hfilled := h.filled t data hdata
  have hchain := h.frames.chains t ⟨data, hdata⟩
  rw [State.enter, h.paths.current l t hcurrent]
  dsimp only
  by_cases hindex : (s.tasks t).currentIndex < taskStackSize - 1
  · rw [if_pos hindex]
    cases hheld : held (.task t) with
    | nil =>
      rw [hheld] at hfilled
      exact absurd (hfilled.empty rfl) (Nat.ne_of_lt hindex)
    | cons f fs =>
      rw [hheld] at hchain hfilled
      rw [(chain_cons.1 hchain).1]
      refine ⟨_, rfl, held, free, h.of_onlyFrames hdata ?_ hl ?_ ?_ ?_⟩
      · apply OnlyFrames.setFrame
        apply OnlyFrames.setTask (.refl s)
        · rfl
        · rfl
      · apply h.frames.congr
        · intro g
          by_cases hg : g = f
          · subst hg
            rw [State.frames_setFrame]
          · rw [State.frames_setFrame_of_ne _ f hg]
            rfl
        · rfl
        · exact fun _ => rfl
        · intro t' _
          by_cases ht : t' = t
          · subst ht
            change ((s.setTask t' _).tasks t').currentFrame = _
            rw [State.tasks_setTask, (chain_cons.1 hchain).1]
          · change ((s.setTask t _).tasks t').currentFrame = _
            rw [State.tasks_setTask_of_ne s t ht]
      · have hnodup := h.frames.apart.nodup (.task t)
        rw [hheld] at hnodup ⊢
        have hpush := hfilled.push_within region hnodup.notMem hindex
        rwa [show (((s.setTask t _).setFrame f _).tasks t) = _ from State.tasks_setTask s t _]
      · intro t' data' ht hdata'
        rw [show (((s.setTask t _).setFrame f _).tasks t') = s.tasks t' from update_of_ne ht _ _]
        apply (h.filled t' data' hdata').congr
        intro g hg
        have hne : g ≠ f := by
          rintro rfl
          exact h.frames.apart.notMem (hheld ▸ List.mem_cons_self) (by simpa using Ne.symm ht) hg
        exact congrArg StackFrame.regions (update_of_ne hne _ _)
  · rw [if_neg hindex]
    obtain ⟨held', hframes, hsame, hunheld, hlt, hmemory, htasks⟩ := h.frames.alloc (l := l)
    refine ⟨_, rfl, _, free, h.of_onlyFrames hdata
      (.setTask (.setFrame onlyFrames_allocNewStackFrame) rfl rfl) hl
      (hframes.push hunheld hlt ⟨data, hdata⟩ rfl rfl) ?_ ?_⟩
    · rw [State.tasks_setTask, update_self, hsame]
      have hfirst : update (s.frames (s.allocNewStackFrame l).1).regions 0 region 0 = region := by
        rw [update_self]
      have hpush := hfilled.push_frame (hsame t ▸ hunheld (.task t)) hindex
        ⟨update (s.frames (s.allocNewStackFrame l).1).regions 0 region, (s.tasks t).currentFrame⟩ hfirst
      rw [← hmemory, ← htasks] at hpush
      exact hpush
    · intro t' data' ht hdata'
      rw [show ((((s.allocNewStackFrame l).2.setFrame _ _).setTask t _).tasks t') =
        (s.allocNewStackFrame l).2.tasks t' from update_of_ne ht _ _, htasks,
        update_of_ne (by simpa using ht), hsame]
      apply (h.filled t' data' hdata').congr
      intro g hg
      have hne : g ≠ (s.allocNewStackFrame l).1 := by
        intro heq
        exact hunheld (.task t') (by rwa [hsame, ← heq])
      rw [← hmemory]
      exact congrArg StackFrame.regions (update_of_ne hne _ _)

theorem regions_recycleStackFrame (g : ℕ) :
    ((s.recycleStackFrame l f).frames g).regions = (s.frames g).regions := by
  by_cases hg : g = f
  · subst hg
    change ((s.setFrame g _).frames g).regions = _
    rw [State.frames_setFrame]
  · change ((s.setFrame f _).frames g).regions = _
    rw [State.frames_setFrame_of_ne s f hg]

theorem pop_spec (h : Layout jenkinsHash hashValue s tree held free) (hl : tree.initialized l = true)
    (hdata : tree.tasks t = some data) (hregions : data.regions ≠ []) : ∃ s', s.taskPopStack l t = some s' ∧
      Refines jenkinsHash hashValue s' (tree.setRegions t List.tail) := by
  have hfilled := h.filled t data hdata
  have hchain := h.frames.chains t ⟨data, hdata⟩
  have htail : data.regions = data.regions.head hregions :: data.regions.tail :=
    (List.cons_head_tail hregions).symm
  cases hheld : held (.task t) with
  | nil => exact absurd (hfilled.eq_nil_iff.1 hheld) hregions
  | cons f fs =>
    rw [hheld] at hchain hfilled
    rw [htail] at hfilled
    rw [State.taskPopStack, (chain_cons.1 hchain).1]
    dsimp only
    by_cases hindex : (s.tasks t).currentIndex = 0
    · rw [if_pos hindex]
      rw [hindex] at hfilled
      refine ⟨_, rfl, _, free, h.of_onlyFrames hdata (.recycleStackFrame (.setTask (.refl s) rfl rfl)) hl
        (h.frames.recycle hheld _ rfl ⟨data, hdata⟩) ?_ ?_⟩
      · rw [show (((s.setTask t _).recycleStackFrame l f).tasks t) = _ from State.tasks_setTask s t _,
          update_of_ne (by simp), update_self]
        exact hfilled.pop_frame.congr fun g _ => regions_recycleStackFrame g
      · intro t' data' ht hdata'
        rw [show (((s.setTask t _).recycleStackFrame l f).tasks t') = s.tasks t' from
          update_of_ne ht _ _, update_of_ne (by simp),
          update_of_ne (by simpa using ht)]
        exact (h.filled t' data' hdata').congr fun g _ => regions_recycleStackFrame g
    · rw [if_neg hindex]
      refine ⟨_, rfl, held, free, h.of_onlyFrames hdata ?_ hl ?_ ?_ ?_⟩
      · exact .setTask (.refl s) rfl rfl
      · refine h.frames.congr ?_ ?_ ?_ ?_
        · exact fun _ => rfl
        · rfl
        · exact fun _ => rfl
        intro t' _
        by_cases ht : t' = t
        · subst ht
          rw [State.tasks_setTask]
        · rw [State.tasks_setTask_of_ne s t ht]
      · rw [State.tasks_setTask, hheld]
        exact hfilled.pop_within hindex
      · intro t' data' ht hdata'
        rw [show ((s.setTask t _).tasks t') = s.tasks t' from update_of_ne ht _ _]
        exact h.filled t' data' hdata'

theorem clearFrames_spec (h : FrameLayout s tree held) (hused : tree.InUse t) (ht : held (.task t) = fs)
    {bound : ℕ} (hbound : fs.length < bound) :
    ∃ s' held', State.clearFrames l t bound s = some s' ∧ OnlyFrames l s s' ∧ FrameLayout s' tree held' ∧
      held' (.task t) = [] ∧ (s'.tasks t).currentFrame = none ∧
      (∀ t', t' ≠ t → held' (.task t') = held (.task t') ∧ s'.tasks t' = s.tasks t') ∧
      ∀ g, (s'.frames g).regions = (s.frames g).regions := by
  induction fs generalizing s held bound with
  | nil =>
    obtain ⟨bound, rfl⟩ := Nat.exists_eq_succ_of_ne_zero (Nat.ne_of_gt hbound)
    have hchain := h.chains t hused
    rw [ht, chain_nil] at hchain
    refine ⟨s, held, ?_, .refl s, h, ht, hchain, fun _ _ => ⟨rfl, rfl⟩, fun _ => rfl⟩
    rw [State.clearFrames, hchain]
  | cons f fs ih =>
    obtain ⟨bound, rfl⟩ := Nat.exists_eq_succ_of_ne_zero (Nat.ne_of_gt (Nat.lt_of_le_of_lt (Nat.zero_le _) hbound))
    have hchain := h.chains t hused
    rw [ht] at hchain
    rw [State.clearFrames, (chain_cons.1 hchain).1]
    dsimp only
    have hrecycle := h.recycle (l := l) ht { s.tasks t with currentFrame := (s.frames f).prev } rfl hused
    obtain ⟨s', held', hrun, honly, hlayout, hempty, hnone, hother, hregions⟩ := ih hrecycle
      (by rw [update_of_ne (by simp), update_self]) (Nat.lt_of_succ_lt_succ hbound)
    refine ⟨s', held', hrun, ?_, hlayout, hempty, hnone, ?_, ?_⟩
    · have hstep : OnlyFrames l s ((s.setTask t { s.tasks t with
          currentFrame := (s.frames f).prev }).recycleStackFrame l f) :=
        .recycleStackFrame (.setTask (.refl s) rfl rfl)
      exact hstep.trans honly
    · intro t' ht'
      obtain ⟨hheld', htasks'⟩ := hother t' ht'
      rw [update_of_ne (by simp), update_of_ne (by simpa using ht')] at hheld'
      refine ⟨hheld', htasks'.trans ?_⟩
      exact State.tasks_setTask_of_ne s t ht' _
    · intro g
      rw [hregions, regions_recycleStackFrame]
      rfl

theorem clearStack_spec (h : Layout jenkinsHash hashValue s tree held free) (hl : tree.initialized l = true)
    (hdata : tree.tasks t = some data) : ∃ s', s.clearStack l t = some s' ∧
      Refines jenkinsHash hashValue s' (tree.setRegions t fun _ => []) := by
  have hlength : (held (.task t)).length ≤ s.framesAllocated :=
    length_le_of_bounded (h.frames.apart.nodup _) (h.frames.allocated _)
  obtain ⟨s', held', hrun, honly, hlayout, hempty, hnone, hother, hregions⟩ :=
    clearFrames_spec (l := l) h.frames ⟨data, hdata⟩ rfl (Nat.lt_succ_of_le hlength)
  rw [State.clearStack, hrun]
  refine ⟨_, rfl, held', free, h.of_onlyFrames hdata ?_ hl ?_ ?_ ?_⟩
  · exact .setTask honly rfl rfl
  · refine hlayout.congr ?_ ?_ ?_ ?_
    · exact fun _ => rfl
    · rfl
    · exact fun _ => rfl
    intro t' _
    by_cases ht : t' = t
    · subst ht
      rw [State.tasks_setTask]
    · rw [State.tasks_setTask_of_ne s' t ht]
  · rw [State.tasks_setTask, hempty]
    exact filled_nil
  · intro t' data' ht hdata'
    rw [State.tasks_setTask_of_ne s' t ht, (hother t' ht).1, (hother t' ht).2]
    exact (h.filled t' data' hdata').congr fun g _ => hregions g

end ScoreP.Tasks
