import ScoreP.Foundations.Transition
import ScoreP.Recycling.Invariant

/-!
# Runs of releasing and recycling

`wellKept_of_fine` says that in a run of fine steps every object stays in one place.
-/

namespace ScoreP.Recycling

open Foundations Function List

variable {L : Type} [DecidableEq L] {s s' : State L} {l : L} {nodeLists : NodeList L → List ℕ}
  {metricLists : Sparse → L → List ℕ} {taskLists : TaskList L → List ℕ} {activity : Activity}
  {callers : List (ℕ × ℕ)} {root child : ℕ} {left : List ℕ}

/-! ## Where a location is -/

theorem Inv.pause (h : Inv s nodeLists metricLists taskLists) (hleft : s.releasing l = [])
    (hawaited : ∀ callers, activity ≠ .returned callers)
    (hshape : Shape s.nodes nodeLists s.tasks.heads taskLists l activity []) :
    Inv (s.goOn l activity) nodeLists metricLists taskLists := by
  refine h.goOn (fun _ _ _ heq => absurd heq (hawaited _)) (by rwa [hleft]) fun k => ?_
  have hnone : metricsLeft activity k (s.releasing l) = [] := by
    rw [eq_nil_iff_forall_not_mem]
    intro a ha
    have hmem := metricsLeft_subset a ha
    rw [hleft] at hmem
    exact not_mem_nil hmem
  rw [hnone, h.noMetrics hleft k]
  rfl

omit [DecidableEq L] in
theorem Inv.idle (h : Inv s nodeLists metricLists taskLists) {result : Option ℕ}
    (hl : s.activities l = .idle result) : s.releasing l = [] := by
  have hshape := h.shape l
  rw [hl] at hshape
  exact hshape

theorem Inv.visit (h : Inv s nodeLists metricLists taskLists)
    (hl : s.activities l = .loop root (some child) callers) :
    Inv (s.goOn l (.loop child (s.firstChild child) ((root, child) :: callers))) nodeLists metricLists taskLists := by
  have hshape := h.shape l
  have hleft := h.left l
  rw [hl] at hshape hleft
  obtain ⟨siblings, rest, hstored, hreleasing, hwaiting⟩ := hshape
  refine h.goOn (fun _ _ _ heq => nomatch heq) ?_ hleft
  cases siblings with
  | nil => exact absurd hstored (Option.some_ne_none child)
  | node a children siblings =>
    obtain ⟨hchild, hchildren, hsiblings⟩ := hstored
    obtain rfl := Option.some.inj hchild
    refine ⟨children, siblings.postorder ++ root :: rest, hchildren, ?_, rfl, siblings, rest, hsiblings, rfl, hwaiting⟩
    rw [hreleasing, Siblings.postorder, append_assoc]
    rfl

theorem Inv.visited (h : Inv s nodeLists metricLists taskLists) (hl : s.activities l = .loop root none callers) :
    Inv (s.goOn l (.metrics .int root callers)) nodeLists metricLists taskLists := by
  have hshape := h.shape l
  have hleft := h.left l
  rw [hl] at hshape hleft
  obtain ⟨siblings, rest, hstored, hreleasing, hwaiting⟩ := hshape
  refine h.goOn (fun _ _ _ heq => nomatch heq) ⟨rest, ?_, hwaiting⟩ fun k => ?_
  · cases siblings with
    | nil => exact hreleasing
    | node a children siblings => exact absurd hstored.1.symm (Option.some_ne_none a)
  · cases k with
    | int => exact hleft .int
    | double => exact hleft .double

theorem Inv.noneStored (h : Inv s nodeLists metricLists taskLists) {k : Sparse}
    (hl : s.activities l = .metrics k root callers) (hfirst : (s.nodes.objects root).firstSparse k = none) :
    Inv (s.goOn l (afterMetrics root callers k)) nodeLists metricLists taskLists := by
  have hshape := h.shape l
  have hleft := h.left l
  rw [hl] at hshape hleft
  refine h.goOn (fun _ _ _ heq => absurd heq (afterMetrics_ne k _)) (shape_afterMetrics k hshape) fun j => ?_
  by_cases hj : j = k
  · subst hj
    have hmine := hleft j
    obtain ⟨rest, hreleasing, hwaiting⟩ := hshape
    rw [metricsLeft_metrics, hreleasing, map_cons] at hmine
    obtain ⟨mine, others, hsplit, hnode, hothers⟩ := hmine
    rw [hfirst] at hnode
    rw [(metricsLeft_afterMetrics j).1, hsplit, hnode.eq_nil_iff.2 rfl, hreleasing]
    exact hothers
  · rw [(metricsLeft_afterMetrics k).2 j hj]
    exact hleft j

theorem Inv.untied (h : Inv s nodeLists metricLists taskLists) (hl : s.activities l = .node root callers) :
    Inv (s.goOn l (.stubs root root 1 false callers)) nodeLists metricLists taskLists := by
  have hshape := h.shape l
  have hleft := h.left l
  rw [hl] at hshape hleft
  obtain ⟨rest, hreleasing, hwaiting⟩ := hshape
  refine h.goOn (fun _ _ _ heq => nomatch heq) ⟨[], rest, hreleasing, rfl, rfl, hwaiting⟩ fun k => ?_
  have hchains := hleft k
  rw [hreleasing] at hchains ⊢
  exact hchains

theorem Inv.next (h : Inv s nodeLists metricLists taskLists) {caller : ℕ}
    (hl : s.activities l = .returned ((caller, child) :: callers)) :
    Inv (s.goOn l (.loop caller (s.nextSibling child) callers)) nodeLists metricLists taskLists := by
  have hshape := h.shape l
  have hleft := h.left l
  rw [hl] at hshape hleft
  obtain ⟨root, -, siblings, rest, hstored, hreleasing, hwaiting⟩ := hshape
  exact h.goOn (fun _ _ _ heq => nomatch heq) ⟨siblings, rest, hstored, hreleasing, hwaiting⟩ hleft

theorem Inv.finished (h : Inv s nodeLists metricLists taskLists) (hl : s.activities l = .returned []) :
    Inv (s.goOn l (.idle none)) nodeLists metricLists taskLists := by
  have hshape := h.shape l
  rw [hl] at hshape
  obtain ⟨root, hleft⟩ := hshape
  exact h.pause hleft (fun _ => nofun) rfl

/-! ## Calls that release -/

theorem Inv.call (h : Inv s nodeLists metricLists taskLists) (l : L) (activity : Activity)
    (records : Sparse → List ℕ) (hawaited : ∀ callers, activity ≠ .returned callers) (hnodup : left.Nodup)
    (huse : ∀ a ∈ left, s.Writable a) (hrecords : ∀ k, (records k).Nodup)
    (hmetricsUse : ∀ k, ∀ a ∈ records k, s.WritableMetric k a)
    (hshape : Shape s.nodes nodeLists s.tasks.heads taskLists l activity left)
    (hleft : ∀ k, Chains (s.metrics k).objects
      ((metricsLeft activity k left).map fun a => (s.nodes.objects a).firstSparse k) (records k)) : Inv
      { s.goOn l activity with
        releasing := update s.releasing l left
        releasingMetrics := update s.releasingMetrics l records }
      nodeLists metricLists taskLists := by
  refine h.of_frame (l := l) h.nodes h.metrics h.tasks h.numStubs h.numTasks (fun l' hl' => ?_)
    (fun l' hl' => ⟨fun k => ?_, fun k a ha => rfl⟩) ?_ (fun a ha => ?_) (fun l' a ha => ?_) (fun k => ?_)
    (fun k a ha => ?_) (fun k l' a ha => ?_) (Nat.le_refl _) (fun caller a others heq => ?_) ?_ (fun k => ?_)
  · exact ⟨update_of_ne hl' _ _, update_of_ne hl' _ _, fun a ha => rfl, fun a ha => rfl,
      ⟨rfl, rfl⟩, rfl, rfl, rfl, rfl⟩
  · dsimp only
    rw [update_of_ne hl']
  · dsimp only
    rw [update_self]
    exact hnodup
  · dsimp only at ha
    rw [update_self] at ha
    exact Or.inr (huse a ha).2
  · dsimp only at ha
    by_cases hl' : l' = l
    · rw [hl', update_self] at ha
      exact (huse a ha).1
    · rw [update_of_ne hl'] at ha
      exact h.inUse l' a ha
  · dsimp only
    rw [update_self]
    exact hrecords k
  · dsimp only at ha
    rw [update_self] at ha
    exact Or.inr (hmetricsUse k a ha).2
  · dsimp only at ha
    by_cases hl' : l' = l
    · rw [hl', update_self] at ha
      exact (hmetricsUse k a ha).1
    · rw [update_of_ne hl'] at ha
      exact h.metricsInUse k l' a ha
  · dsimp only [State.goOn] at heq
    rw [update_self] at heq
    exact absurd heq (hawaited _)
  · dsimp only [State.goOn]
    rw [update_self, update_self]
    exact hshape
  · dsimp only [State.goOn]
    rw [update_self, update_self, update_self]
    exact hleft k

/-! ## Steps on tasks -/

theorem Inv.taskStep (h : Inv s nodeLists metricLists taskLists) (l : L) (activity : Activity)
    (tasks : Pool (TaskList L) (Task L)) (numForeignTasks : L → UInt32) {taskLists' : TaskList L → List ℕ}
    (htasks : FreeLists (fun a => (tasks.objects a).next) tasks.heads tasks.inUse tasks.created taskLists')
    (hnum : ∀ l, (numForeignTasks l).toNat = (taskLists' (.foreignTasks l)).length)
    (hlists : ∀ l', l' ≠ l → taskLists' (.foreignTasks l') = taskLists (.foreignTasks l') ∧
      tasks.heads (.foreignTasks l') = s.tasks.heads (.foreignTasks l') ∧
        tasks.heads (.freeTasks l') = s.tasks.heads (.freeTasks l'))
    (hleft : s.releasing l = []) (hawaited : ∀ callers, activity ≠ .returned callers)
    (hshape : Shape s.nodes nodeLists tasks.heads taskLists' l activity []) :
    Inv
      { s with
        tasks := tasks
        numForeignTasks := numForeignTasks
        activities := update s.activities l activity }
      nodeLists metricLists taskLists' := by
  refine h.of_frame (l := l) h.nodes h.metrics htasks h.numStubs hnum (fun l' hl' => ?_)
    (fun l' hl' => ⟨fun k => rfl, fun k a ha => rfl⟩) (h.apart.nodup l) (fun a ha => Or.inl ha) h.inUse
    (fun k => (h.metricsApart k).nodup l) (fun k a ha => Or.inl ha) h.metricsInUse (Nat.le_refl _)
    (fun caller a others heq => ?_) ?_ (fun k => ?_)
  · exact ⟨update_of_ne hl' _ _, rfl, fun a ha => rfl, fun a ha => rfl, ⟨rfl, rfl⟩, rfl,
      (hlists l' hl').1, (hlists l' hl').2.1, (hlists l' hl').2.2⟩
  · dsimp only at heq
    rw [update_self] at heq
    exact absurd heq (hawaited _)
  · dsimp only
    rw [update_self, hleft]
    exact hshape
  · have hnone : metricsLeft activity k [] = [] := by
      rw [eq_nil_iff_forall_not_mem]
      exact fun a ha => absurd (metricsLeft_subset a ha) not_mem_nil
    dsimp only
    rw [update_self, hleft, hnone, h.noMetrics hleft k]
    rfl

theorem Inv.takeTask (h : Inv s nodeLists metricLists taskLists) (hleft : s.releasing l = []) {list : TaskList L}
    {first : ℕ} (hfirst : s.tasks.heads list = some first) {numForeignTasks : L → UInt32}
    (hlist : list = .freeTasks l ∧ numForeignTasks = s.numForeignTasks ∨
      list = .foreignTasks l ∧ numForeignTasks = update s.numForeignTasks l (s.numForeignTasks l - 1)) :
    ∃ taskLists', Inv { s.takeTask l list first with numForeignTasks := numForeignTasks }
      nodeLists metricLists taskLists' := by
  obtain ⟨rest, hrest, htasks⟩ := h.tasks.take hfirst
  have hother : ∀ l', l' ≠ l → TaskList.foreignTasks l' ≠ list ∧ TaskList.freeTasks l' ≠ list := by
    intro l' hl'
    rcases hlist with ⟨rfl, -⟩ | ⟨rfl, -⟩
    · exact ⟨nofun, fun heq => hl' (TaskList.freeTasks.inj heq)⟩
    · exact ⟨fun heq => hl' (TaskList.foreignTasks.inj heq), nofun⟩
  have hnum : ∀ l', (numForeignTasks l').toNat = (update taskLists list rest (.foreignTasks l')).length := by
    intro l'
    have hfree : TaskList.foreignTasks l' ≠ .freeTasks l := nofun
    rcases hlist with ⟨rfl, hcount⟩ | ⟨rfl, hcount⟩
    · rw [hcount, update_of_ne hfree, h.numTasks]
    · rw [hcount]
      by_cases hl' : l' = l
      · have hlength := h.numTasks l
        rw [hrest, length_cons] at hlength
        have hone : (1 : UInt32) ≤ s.numForeignTasks l := by
          rw [UInt32.le_iff_toNat_le, hlength]
          exact Nat.le_add_left _ _
        rw [hl', update_self, update_self, UInt32.toNat_sub_of_le _ _ hone, hlength]
        rfl
      · rw [update_of_ne hl', update_of_ne (hother l' hl').1, h.numTasks]
  exact ⟨_, h.taskStep l (.idle (some first)) (s.tasks.take list first (s.tasks.objects first).next)
    numForeignTasks htasks hnum (fun l' hl' => ⟨update_of_ne (hother l' hl').1 _ _,
      update_of_ne (hother l' hl').1 _ _, update_of_ne (hother l' hl').2 _ _⟩) hleft
    (fun _ => nofun) rfl⟩

theorem Inv.takeTasks (h : Inv s nodeLists metricLists taskLists) {first : ℕ} (hl : s.activities l = .takeTasks)
    (hexchange : s.tasks.heads .exchange = some first) : ∃ taskLists',
      Inv ({ s with tasks := s.tasks.setHead .exchange none }.takeTask l (.freeTasks l) first)
        nodeLists metricLists taskLists' := by
  have hshape := h.shape l
  rw [hl] at hshape
  obtain ⟨hleft, hfree⟩ := hshape
  have hne : TaskList.exchange ≠ .freeTasks l := nofun
  have hfilled := h.tasks.fill hne hfree
  have hfirst : update (update s.tasks.heads (.freeTasks l) (s.tasks.heads .exchange)) .exchange none
      (.freeTasks l) = some first := by
    rw [update_of_ne hne.symm, update_self, hexchange]
  obtain ⟨rest, hrest, htasks⟩ := hfilled.take hfirst
  have hheads : update (update (update s.tasks.heads (.freeTasks l)
      (s.tasks.heads .exchange)) .exchange none) (.freeTasks l) (s.nextTask first) =
      update (update s.tasks.heads .exchange none) (.freeTasks l) (s.nextTask first) := by
    rw [update_comm hne.symm, update_idem]
  rw [hheads] at htasks
  have hforeign : ∀ l', TaskList.foreignTasks l' ≠ .exchange ∧ TaskList.foreignTasks l' ≠ .freeTasks l :=
    fun l' => ⟨nofun, nofun⟩
  have hfreeTasks : ∀ l', l' ≠ l → TaskList.freeTasks l' ≠ .exchange ∧ TaskList.freeTasks l' ≠ .freeTasks l :=
    fun l' hl' => ⟨nofun, fun heq => hl' (TaskList.freeTasks.inj heq)⟩
  have hlist : ∀ l', update (update (update taskLists (.freeTasks l)
      (taskLists .exchange)) .exchange []) (.freeTasks l) rest (.foreignTasks l') =
      taskLists (.foreignTasks l') := by
    intro l'
    rw [update_of_ne (hforeign l').2, update_of_ne (hforeign l').1, update_of_ne (hforeign l').2]
  refine ⟨_, h.taskStep l (.idle (some first))
    ((s.tasks.setHead .exchange none).take (.freeTasks l) first (s.tasks.objects first).next) s.numForeignTasks
    htasks (fun l' => by rw [hlist, h.numTasks]) (fun l' hl' => ⟨hlist l', ?_, ?_⟩) hleft (fun _ => nofun) rfl⟩
  · dsimp only [Pool.take, Pool.setHead]
    rw [update_of_ne (hforeign l').2, update_of_ne (hforeign l').1]
  · dsimp only [Pool.take, Pool.setHead]
    rw [update_of_ne (hfreeTasks l' hl').2, update_of_ne (hfreeTasks l' hl').1]

omit [DecidableEq L] in
theorem next_update (tasks : ℕ → Task L) (task : ℕ) (next : Option ℕ) :
    (fun a => (update tasks task { tasks task with next := next } a).next) =
      update (fun a => (tasks a).next) task next := by
  funext a
  by_cases ha : a = task
  · rw [ha, update_self, update_self]
  · rw [update_of_ne ha, update_of_ne ha]

theorem Inv.storeTask (h : Inv s nodeLists metricLists taskLists) {task : ℕ} (hleft : s.releasing l = [])
    (huse : task ∈ s.tasks.inUse) (hfine : (s.numForeignTasks l).toNat + 1 < 2 ^ 32)
    (hactivity : activity = .idle none ∨ (s.tasks.objects task).creator ≠ l ∧ ∃ current passed,
      activity = .exchangeTasks task current ∧
        Chain (s.storeTask l task).nextTask (some task) (passed ++ [current])) :
    ∃ taskLists', Inv ((s.storeTask l task).goOn l activity) nodeLists metricLists taskLists' := by
  have htasks := h.tasks.give (i := s.taskList l task) (p := some task) [] task rfl (nodup_singleton task)
    fun a ha => by rw [mem_singleton.1 ha]; exact huse
  rw [show update s.nextTask task (s.tasks.heads (s.taskList l task)) = fun a =>
    (update s.tasks.objects task
      { s.tasks.objects task with next := s.tasks.heads (s.taskList l task) } a).next from
    (next_update _ _ _).symm] at htasks
  have hmine : s.taskList l task = .freeTasks l ∧ (s.storeTask l task).numForeignTasks = s.numForeignTasks ∨
      s.taskList l task = .foreignTasks l ∧ (s.storeTask l task).numForeignTasks =
        update s.numForeignTasks l (s.numForeignTasks l + 1) := by
    by_cases hcreator : (s.tasks.objects task).creator = l
    · exact Or.inl ⟨if_pos hcreator, if_pos hcreator⟩
    · exact Or.inr ⟨if_neg hcreator, if_neg hcreator⟩
  have hlists : ∀ l', l' ≠ l → TaskList.foreignTasks l' ≠ s.taskList l task ∧
      TaskList.freeTasks l' ≠ s.taskList l task := by
    intro l' hl'
    rcases hmine with ⟨hlist, -⟩ | ⟨hlist, -⟩
    · rw [hlist]
      exact ⟨nofun, fun heq => hl' (TaskList.freeTasks.inj heq)⟩
    · rw [hlist]
      exact ⟨fun heq => hl' (TaskList.foreignTasks.inj heq), nofun⟩
  have hnum : ∀ l', ((s.storeTask l task).numForeignTasks l').toNat =
      (update taskLists (s.taskList l task) ([] ++ [task] ++ taskLists (s.taskList l task))
        (.foreignTasks l')).length := by
    intro l'
    rcases hmine with ⟨hlist, hcount⟩ | ⟨hlist, hcount⟩
    · have hne : TaskList.foreignTasks l' ≠ .freeTasks l := nofun
      rw [hlist, hcount, update_of_ne hne, h.numTasks]
    · rw [hlist, hcount]
      by_cases hl' : l' = l
      · rw [hl', update_self, update_self, UInt32.toNat_add,
          show (1 : UInt32).toNat = 1 from rfl, Nat.mod_eq_of_lt hfine, h.numTasks]
        rfl
      · rw [update_of_ne hl', update_of_ne fun heq => hl' (TaskList.foreignTasks.inj heq), h.numTasks]
  have hheads : (s.storeTask l task).tasks.heads = update s.tasks.heads (s.taskList l task) (some task) := rfl
  refine ⟨_, h.taskStep l activity (s.storeTask l task).tasks (s.storeTask l task).numForeignTasks htasks hnum
    (fun l' hl' => ⟨update_of_ne (hlists l' hl').1 _ _, ?_, ?_⟩) hleft ?_ ?_⟩
  · rw [hheads, update_of_ne (hlists l' hl').1]
  · rw [hheads, update_of_ne (hlists l' hl').2]
  · rcases hactivity with rfl | ⟨-, current, passed, rfl, -⟩
    · exact fun _ => nofun
    · exact fun _ => nofun
  · rcases hactivity with rfl | ⟨hcreator, current, passed, rfl, hlast⟩
    · rfl
    · have hforeign : s.taskList l task = .foreignTasks l := if_neg hcreator
      refine ⟨rfl, ?_, passed, ?_⟩
      · rw [hheads, hforeign, update_self]
      · have hchain := htasks.chain (.foreignTasks l)
        rw [hforeign, update_self, update_self, ← hforeign] at hchain
        rw [hforeign, update_self, ← hforeign]
        exact hchain.unique hlast

theorem Inv.exchangeTasks (h : Inv s nodeLists metricLists taskLists) {task current : ℕ}
    (hl : s.activities l = .exchangeTasks task current) :
    ∃ taskLists', Inv (s.exchangeTasks l task current) nodeLists metricLists taskLists' := by
  have hshape := h.shape l
  rw [hl] at hshape
  obtain ⟨hleft, htask, above, hlist⟩ := hshape
  have hne : TaskList.foreignTasks l ≠ .exchange := nofun
  have htasks := h.tasks.pass hne hlist
  rw [htask, show update s.nextTask current (s.tasks.heads .exchange) = fun a =>
    (update s.tasks.objects current { s.tasks.objects current with next := s.tasks.heads .exchange } a).next
    from (next_update _ _ _).symm] at htasks
  have hlists : ∀ l', l' ≠ l → TaskList.foreignTasks l' ≠ .foreignTasks l ∧ TaskList.foreignTasks l' ≠ .exchange ∧
      TaskList.freeTasks l' ≠ .foreignTasks l ∧ TaskList.freeTasks l' ≠ .exchange :=
    fun l' hl' => ⟨fun heq => hl' (TaskList.foreignTasks.inj heq), nofun, nofun, nofun⟩
  have hnum : ∀ l', (update s.numForeignTasks l 0 l').toNat =
      (update (update taskLists .exchange (taskLists (.foreignTasks l) ++ taskLists .exchange))
        (.foreignTasks l) [] (.foreignTasks l')).length := by
    intro l'
    by_cases hl' : l' = l
    · rw [hl', update_self, update_self]
      rfl
    · rw [update_of_ne hl', update_of_ne (hlists l' hl').1, update_of_ne (hlists l' hl').2.1, h.numTasks]
  refine ⟨_, h.taskStep l (.idle none) (s.exchangeTasks l task current).tasks
    (update s.numForeignTasks l 0) htasks hnum (fun l' hl' => ⟨?_, ?_, ?_⟩) hleft (fun _ => nofun) rfl⟩
  · rw [update_of_ne (hlists l' hl').1, update_of_ne (hlists l' hl').2.1]
  · dsimp only [State.exchangeTasks, Pool.setHead, Pool.setObject]
    rw [update_of_ne (hlists l' hl').1, update_of_ne (hlists l' hl').2.1]
  · dsimp only [State.exchangeTasks, Pool.setHead, Pool.setObject]
    rw [update_of_ne (hlists l' hl').2.2.1, update_of_ne (hlists l' hl').2.2.2]

/-! ## The rest of the program -/

theorem Inv.allocSparse (h : Inv s nodeLists metricLists taskLists) {k : Sparse} (pool : Pool L (Option ℕ))
    {lists : L → List ℕ} {result a : Option ℕ} (hidle : s.activities l = .idle result)
    (hpool : FreeLists pool.objects pool.heads pool.inUse pool.created lists)
    (huse : ∀ a ∈ (s.metrics k).inUse, a ∈ pool.inUse)
    (hwrite : ∀ a, pool.objects a ≠ (s.metrics k).objects a → a ∉ (s.metrics k).inUse) :
    Inv { s.goOn l (.idle a) with metrics := update s.metrics k pool }
      nodeLists (update metricLists k lists) taskLists := by
  have hleft := h.idle hidle
  have hnone := h.noMetrics hleft
  have hsame : update (s.releasingMetrics l) k [] = s.releasingMetrics l := by
    rw [← hnone k]
    exact update_eq_self _ _
  have hstep := h.metricsStep l (.idle a) k pool [] [] hpool (hnone k) (fun a ha _ => huse a ha)
    (fun a ha => Or.inr (hwrite a ha)) (fun _ => nofun) hleft (fun j => ?_)
  · rw [hsame, update_eq_self] at hstep
    exact hstep
  · rw [hsame, hnone j, hleft]
    rfl

theorem Inv.allocFreeSparse (h : Inv s nodeLists metricLists taskLists) {k : Sparse} {first : ℕ}
    {result : Option ℕ} (hidle : s.activities l = .idle result) (hfree : (s.metrics k).heads l = some first) :
    ∃ metricLists', Inv { s.goOn l (.idle (some first)) with
          metrics := update s.metrics k ((s.metrics k).take l first ((s.metrics k).objects first)) }
        nodeLists metricLists' taskLists := by
  obtain ⟨rest, -, hpool⟩ := (h.metrics k).take hfree
  exact ⟨_, h.allocSparse ((s.metrics k).take l first ((s.metrics k).objects first)) hidle hpool
    (fun a ha => mem_cons_of_mem _ ha) fun a ha => absurd rfl ha⟩

theorem Inv.allocNewSparse (h : Inv s nodeLists metricLists taskLists) {k : Sparse} {next result : Option ℕ}
    (hidle : s.activities l = .idle result) : ∃ metricLists', Inv
        { s.goOn l (.idle (some (s.metrics k).created)) with
          metrics := update s.metrics k ((s.metrics k).create next) }
        nodeLists metricLists' taskLists := by
  have hlink : ∀ a, a ≠ (s.metrics k).created → ((s.metrics k).create next).objects a = (s.metrics k).objects a :=
    fun a ha => update_of_ne ha _ _
  have hpool := (h.metrics k).create hlink
  refine ⟨_, h.allocSparse ((s.metrics k).create next) hidle hpool (fun a ha => mem_cons_of_mem _ ha)
    fun a ha hmem => ha ?_⟩
  refine update_of_ne (fun heq => ?_) _ _
  rw [heq] at hmem
  exact Nat.lt_irrefl _ (((h.metrics k).kept _).1 (Or.inl hmem))

omit [DecidableEq L] in
theorem Inv.outside (h : Inv s nodeLists metricLists taskLists)
    (hnodes : FreeLists s'.firstChild s'.nodes.heads s'.nodes.inUse s'.nodes.created nodeLists)
    (hmetrics : ∀ k, FreeLists (s'.metrics k).objects (s'.metrics k).heads (s'.metrics k).inUse
      (s'.metrics k).created (metricLists k))
    (htasks : FreeLists s'.nextTask s'.tasks.heads s'.tasks.inUse s'.tasks.created taskLists)
    (hnumStubs : s'.numForeignStubs = s.numForeignStubs) (hnumTasks : s'.numForeignTasks = s.numForeignTasks)
    (hframe : ∀ l, Frame s s' nodeLists nodeLists taskLists taskLists l) (hmetricsFrame : ∀ l, MetricsFrame s s' l)
    (huse : s'.nodes.inUse = s.nodes.inUse) (hmetricsUse : ∀ k, (s'.metrics k).inUse = (s.metrics k).inUse)
    (hcreated : s'.nodes.created = s.nodes.created) : Inv s' nodeLists metricLists taskLists := by
  have hreleasing : s'.releasing = s.releasing := funext fun l => (hframe l).releasing
  have hreleasingMetrics : s'.releasingMetrics = s.releasingMetrics :=
    funext fun l => funext fun k => (hmetricsFrame l).releasing k
  have hactivities : s'.activities = s.activities := funext fun l => (hframe l).activity
  constructor
  · exact hnodes
  · exact hmetrics
  · exact htasks
  · rw [hnumStubs]
    exact h.numStubs
  · rw [hnumTasks]
    exact h.numTasks
  · rw [hreleasing]
    exact h.apart
  · rw [hreleasing, huse]
    exact h.inUse
  · rw [hreleasingMetrics]
    exact h.metricsApart
  · intro k
    rw [hreleasingMetrics, hmetricsUse]
    exact h.metricsInUse k
  · exact fun l => (h.shape l).congr (h.nodes.chain _) (hframe l)
  · rw [hcreated]
    intro a ha
    rw [State.Awaited, hactivities] at ha
    exact h.awaited a ha
  · intro l k
    have hmap : ((metricsLeft (s.activities l) k (s.releasing l)).map fun a =>
        (s'.nodes.objects a).firstSparse k) =
        (metricsLeft (s.activities l) k (s.releasing l)).map fun a => (s.nodes.objects a).firstSparse k := by
      apply map_congr_left
      intro a ha
      rw [(hframe l).node a (metricsLeft_subset a ha)]
    rw [hactivities, hreleasing, hreleasingMetrics, hmap]
    exact (h.left l k).congr ((hmetricsFrame l).metric k)

omit [DecidableEq L] in
theorem Inv.allocNewTask (h : Inv s nodeLists metricLists taskLists) (task : Task L) :
    Inv { s with tasks := s.tasks.create task } nodeLists metricLists taskLists := by
  refine h.outside h.nodes h.metrics (h.tasks.create fun a ha => ?_) rfl rfl
    (fun l => ⟨rfl, rfl, fun a ha => rfl, fun a ha => rfl, ⟨rfl, rfl⟩, rfl, rfl, rfl, rfl⟩)
    (fun l => ⟨fun k => rfl, fun k a ha => rfl⟩) rfl (fun k => rfl) rfl
  exact congrArg Task.next (update_of_ne ha _ _)

omit [DecidableEq L] in
theorem Inv.write (h : Inv s nodeLists metricLists taskLists) {nodes : ℕ → Node} {metrics : Sparse → ℕ → Option ℕ}
    {tasks : ℕ → Task L} (hnodes : ∀ a, ¬s.Writable a → nodes a = s.nodes.objects a)
    (hmetrics : ∀ k a, ¬s.WritableMetric k a → metrics k a = (s.metrics k).objects a)
    (htasks : ∀ a, a ∉ s.tasks.inUse → tasks a = s.tasks.objects a)
    (hfine : ∀ child, s.Awaited child → (nodes child).nextSibling = s.nextSibling child) : Inv { s with
        nodes := { s.nodes with objects := nodes }
        metrics := fun k => { s.metrics k with objects := metrics k }
        tasks := { s.tasks with objects := tasks } }
      nodeLists metricLists taskLists := by
  refine h.outside (h.nodes.write fun a ha => ?_) (fun k => (h.metrics k).write fun a ha => ?_)
    (h.tasks.write fun a ha => ?_) rfl rfl (fun l => ?_) (fun l => ⟨fun k => rfl, fun k a ha => ?_⟩) rfl
    (fun k => rfl) rfl
  · exact congrArg Node.firstChild (hnodes a fun hwritable => ha hwritable.1)
  · exact hmetrics k a fun hwritable => ha hwritable.1
  · exact congrArg Task.next (htasks a ha)
  · refine ⟨rfl, rfl, fun a ha => hnodes a fun hwritable => hwritable.2 l ha, fun a ha => ?_, ⟨rfl, rfl⟩, rfl, rfl,
      rfl, rfl⟩
    rcases ha with hawaited | hmem
    · exact hfine a hawaited
    · exact congrArg Node.nextSibling (hnodes a fun hwritable => h.nodes.unheld a hwritable.1 _ hmem)
  · exact hmetrics k a fun hwritable => hwritable.2 l ha

/-! ## Runs -/

theorem Inv.step {taskExchangeNum : UInt64} {action : Action L} (h : Inv s nodeLists metricLists taskLists)
    (hfine : Fine s action) (hstep : Step taskExchangeNum s action s') :
    ∃ nodeLists metricLists taskLists, Inv s' nodeLists metricLists taskLists := by
  cases hstep with
  | allocFree l type first result hidle htype hfree =>
    obtain ⟨lists, hinv⟩ := h.takeNode (h.idle hidle) hfree (Or.inl ⟨rfl, rfl⟩)
    exact ⟨_, _, _, hinv⟩
  | allocRecycle l type context result hidle => exact ⟨_, _, _, h.pause (h.idle hidle) (fun _ h => by cases h) rfl⟩
  | allocRoot l context result hidle => exact ⟨_, _, _, h.pause (h.idle hidle) (fun _ h => by cases h) rfl⟩
  | newNode l hl =>
    have hshape := h.shape l
    rw [hl] at hshape
    exact ⟨_, _, _, h.newNode hshape⟩
  | recycleStub l result hidle => exact ⟨_, _, _, h.pause (h.idle hidle) (fun _ h => by cases h) rfl⟩
  | recycleFree l alloc first hl hfree =>
    have hshape := h.shape l
    rw [hl] at hshape
    obtain ⟨lists, hinv⟩ := h.takeNode hshape hfree (Or.inr (Or.inl ⟨rfl, rfl⟩))
    exact ⟨_, _, _, hinv⟩
  | recycleForeign l alloc first hl hfree hforeign =>
    have hshape := h.shape l
    rw [hl] at hshape
    obtain ⟨lists, hinv⟩ := h.takeNode hshape hforeign (Or.inr (Or.inr ⟨rfl, rfl⟩))
    exact ⟨_, _, _, hinv⟩
  | recycleNone l alloc hl =>
    have hshape := h.shape l
    rw [hl] at hshape
    cases alloc with
    | true => exact ⟨_, _, _, h.pause hshape (fun _ h => by cases h) rfl⟩
    | false => exact ⟨_, _, _, h.pause hshape (fun _ h => by cases h) rfl⟩
  | recycleExchange l alloc hl hfree =>
    have hshape := h.shape l
    rw [hl] at hshape
    exact ⟨_, _, _, h.pause hshape (fun _ h => by cases h) ⟨rfl, hfree⟩⟩
  | takeStubs l alloc hl =>
    obtain ⟨lists, hinv⟩ := h.takeStubs hl
    exact ⟨_, _, _, hinv⟩
  | takeNoStubs l alloc hl =>
    have hshape := h.shape l
    rw [hl] at hshape
    exact ⟨_, _, _, h.pause hshape.1 (fun _ h => by cases h) rfl⟩
  | takenStub l alloc first hl hfree =>
    have hshape := h.shape l
    rw [hl] at hshape
    obtain ⟨lists, hinv⟩ := h.takeNode hshape hfree (Or.inr (Or.inl ⟨rfl, rfl⟩))
    exact ⟨_, _, _, hinv⟩
  | takenNone l alloc hl =>
    have hshape := h.shape l
    rw [hl] at hshape
    cases alloc with
    | true => exact ⟨_, _, _, h.pause hshape (fun _ h => by cases h) rfl⟩
    | false => exact ⟨_, _, _, h.pause hshape (fun _ h => by cases h) rfl⟩
  | releaseSubtree l root children records result hidle hstored hnodup huse hmetrics hrecords hmetricsUse =>
    exact ⟨_, _, _, h.call l _ records (fun _ h => by cases h) hnodup huse hrecords hmetricsUse
      ⟨children, [], hstored, rfl, rfl⟩ hmetrics⟩
  | visit l root child callers hl => exact ⟨_, _, _, h.visit hl⟩
  | visited l root callers hl => exact ⟨_, _, _, h.visited hl⟩
  | noMetrics l k root callers hl hfirst => exact ⟨_, _, _, h.noneStored hl hfirst⟩
  | metrics l k root first last records callers hl hfirst hchain =>
    obtain ⟨lists, hinv⟩ := h.storeMetrics hl hfirst hchain
    exact ⟨_, _, _, hinv⟩
  | tied l root callers hl =>
    obtain ⟨lists, hinv⟩ := h.storeNode hl
    exact ⟨_, _, _, hinv⟩
  | untied l root callers hl => exact ⟨_, _, _, h.untied hl⟩
  | next l caller child callers hl => exact ⟨_, _, _, h.next hl⟩
  | finished l hl => exact ⟨_, _, _, h.finished hl⟩
  | releaseStubs l root leaf num localObjects above result hidle hchain hnum hnodup huse =>
    have hnone : (fun _ => []) = s.releasingMetrics l := funext fun k => (h.noMetrics (h.idle hidle) k).symm
    have hinv := h.call l (.stubs root leaf num localObjects []) (fun _ => []) (fun _ h => by cases h)
      hnodup huse (fun k => nodup_nil) (fun k a ha => absurd ha not_mem_nil)
      ⟨above, [], (append_nil _).symm, hchain, hnum, rfl⟩ (fun k => ?_)
    · rw [hnone, update_eq_self] at hinv
      exact ⟨_, _, _, hinv⟩
    · rw [metricsLeft, hnum, drop_length]
      rfl
  | stored l root leaf num localObjects callers hl =>
    rw [Fine, hl] at hfine
    obtain ⟨lists, hinv⟩ := h.storeStubs hl hfine (Or.inl rfl)
    exact ⟨_, _, _, hinv⟩
  | tooMany l root leaf current num passed callers hl hmany hlast =>
    rw [Fine, hl] at hfine
    obtain ⟨lists, hinv⟩ := h.storeStubs hl hfine (Or.inr ⟨rfl, current, passed, rfl, hlast⟩)
    exact ⟨_, _, _, hinv⟩
  | exchangeStubs l root current callers hl =>
    rw [Fine, hl] at hfine
    obtain ⟨lists, hinv⟩ := h.exchangeStubs hl hfine
    exact ⟨_, _, _, hinv⟩
  | recycleFreeTask l first result hidle hfree =>
    obtain ⟨lists, hinv⟩ := h.takeTask (h.idle hidle) hfree (Or.inl ⟨rfl, rfl⟩)
    exact ⟨_, _, _, hinv⟩
  | recycleForeignTask l first result hidle hfree hforeign =>
    obtain ⟨lists, hinv⟩ := h.takeTask (h.idle hidle) hforeign (Or.inr ⟨rfl, rfl⟩)
    exact ⟨_, _, _, hinv⟩
  | recycleNoTask l result hidle => exact ⟨_, _, _, h.pause (h.idle hidle) (fun _ h => by cases h) rfl⟩
  | recycleExchangeTask l result hidle hfree =>
    exact ⟨_, _, _, h.pause (h.idle hidle) (fun _ h => by cases h) ⟨rfl, hfree⟩⟩
  | takeTasks l first hl hexchange =>
    obtain ⟨lists, hinv⟩ := h.takeTasks hl hexchange
    exact ⟨_, _, _, hinv⟩
  | takeNoTasks l hl =>
    have hshape := h.shape l
    rw [hl] at hshape
    exact ⟨_, _, _, h.pause hshape.1 (fun _ h => by cases h) rfl⟩
  | releaseTask l task result hidle huse =>
    obtain ⟨lists, hinv⟩ := h.storeTask (h.idle hidle) huse hfine (Or.inl rfl)
    exact ⟨_, _, _, hinv⟩
  | tooManyTasks l task current passed result hidle huse hcreator hmany hlast =>
    obtain ⟨lists, hinv⟩ := h.storeTask (h.idle hidle) huse hfine
      (Or.inr ⟨hcreator, current, passed, rfl, hlast⟩)
    exact ⟨_, _, _, hinv⟩
  | exchangeTasks l task current hl =>
    obtain ⟨lists, hinv⟩ := h.exchangeTasks hl
    exact ⟨_, _, _, hinv⟩
  | allocFreeSparse l k first result hidle hfree =>
    obtain ⟨lists, hinv⟩ := h.allocFreeSparse hidle hfree
    exact ⟨_, _, _, hinv⟩
  | allocNewSparse l k next result hidle =>
    obtain ⟨lists, hinv⟩ := h.allocNewSparse hidle
    exact ⟨_, _, _, hinv⟩
  | allocNewTask task => exact ⟨_, _, _, h.allocNewTask task⟩
  | write nodes metrics tasks hnodes hmetrics htasks =>
    exact ⟨_, _, _, h.write hnodes hmetrics htasks hfine⟩

omit [DecidableEq L] in
theorem Inv.initial {misc : L → LocationData} {creator : L} (hmisc : ∀ l, (misc l).foreignStubs = none) :
    Inv (initial misc creator) (fun _ => []) (fun _ _ => []) (fun _ => []) := by
  have hnodes : initialNodeHeads misc = fun _ => none := by
    funext list
    cases list with
    | foreignStubs l => exact hmisc l
    | freeNodes l | freeStubs l | exchange => rfl
  have htasks : initialTaskHeads misc = fun _ => none := by
    funext list
    cases list <;> rfl
  constructor
  · rw [show (Recycling.initial misc creator).nodes.heads = fun _ => none from hnodes]
    exact freeLists_nil
  · exact fun k => freeLists_nil
  · rw [show (Recycling.initial misc creator).tasks.heads = fun _ => none from htasks]
    exact freeLists_nil
  · exact fun l => rfl
  · exact fun l => rfl
  · exact apart_nil
  · exact fun l a ha => absurd ha not_mem_nil
  · exact fun k => apart_nil
  · exact fun k l a ha => absurd ha not_mem_nil
  · exact fun l => rfl
  · intro a ha
    obtain ⟨l, caller, callers, hactivity⟩ := ha
    exact nomatch hactivity
  · exact fun l k => rfl

omit [DecidableEq L] in
theorem Inv.wellKept (h : Inv s nodeLists metricLists taskLists) : WellKept s where
  nodes := ⟨nodeLists, h.nodes, h.numStubs⟩
  metrics k := ⟨metricLists k, h.metrics k⟩
  tasks := ⟨taskLists, h.tasks, h.numTasks⟩

/-- When `foreign_stubs` is NULL at first, all states of a run of fine steps are well kept. -/
theorem wellKept_of_fine {taskExchangeNum : UInt64} {misc : L → LocationData} {creator : L}
    {actions : List (Action L)} (hmisc : ∀ l, (misc l).foreignStubs = none)
    (hrun : Steps (fun s a t => Fine s a ∧ Step taskExchangeNum s a t) (initial misc creator) actions s) :
    WellKept s := by
  have hinv : ∃ nodeLists metricLists taskLists, Inv s nodeLists metricLists taskLists := by
    apply hrun.invariant_of_guard
    · intro s a t h hfine hstep
      obtain ⟨_, _, _, h⟩ := h
      exact h.step hfine hstep
    · exact ⟨_, _, _, Inv.initial hmisc⟩
  obtain ⟨_, _, _, h⟩ := hinv
  exact h.wellKept

def zeroedMisc : LocationData :=
  ⟨none, fun _ => none, none, none, none, none, 0, 0⟩

/-- A root node is allocated and released. -/
theorem wellKept_of_fine_released :
    ∃ s, Steps (fun s a t => Fine s a ∧ Step 0 s a t) (initial (fun _ : Unit => zeroedMisc) ())
        [.allocNode () .threadRoot .tied, .go (), .releaseSubtree () 0, .go (), .go (), .go (), .go (), .go ()] s ∧
      WellKept s ∧ s.nodes.inUse = [] ∧ s.nodes.heads (.freeNodes ()) = some 0 := by
  have hrun : ∃ s, Steps (fun s a t => Fine s a ∧ Step 0 s a t) (initial (fun _ : Unit => zeroedMisc) ())
      [.allocNode () .threadRoot .tied, .go (), .releaseSubtree () 0, .go (), .go (), .go (), .go (), .go ()] s ∧
        s.nodes.inUse = [] ∧ s.nodes.heads (.freeNodes ()) = some 0 := by
    refine ⟨_, .cons ⟨trivial, .allocRoot () .tied none rfl⟩ (.cons ⟨trivial, .newNode () rfl⟩
      (.cons ⟨trivial, .releaseSubtree () 0 .nil (fun _ => []) (some 0) rfl rfl (nodup_singleton 0) ?_ ?_
        (fun k => nodup_nil) (fun k a ha => absurd ha not_mem_nil)⟩
        (.cons ⟨trivial, .visited () 0 [] rfl⟩ (.cons ⟨trivial, .noMetrics () .int 0 [] rfl rfl⟩
          (.cons ⟨trivial, .noMetrics () .double 0 [] rfl rfl⟩ (.cons ⟨trivial, .tied () 0 [] rfl rfl⟩
            (.cons ⟨trivial, .finished () rfl⟩ (.nil _)))))))), rfl, rfl⟩
    · intro a ha
      rw [show Siblings.nil.postorder ++ [0] = [0] from rfl, mem_singleton] at ha
      rw [ha]
      exact ⟨mem_cons_self, fun l => not_mem_nil⟩
    · exact fun k => ⟨[], [], rfl, rfl, rfl⟩
  obtain ⟨s, hrun, hinUse, hhead⟩ := hrun
  exact ⟨s, hrun, wellKept_of_fine (fun _ => rfl) hrun, hinUse, hhead⟩

/-- `foreign_stubs` is not set by `scorep_profile_create_location_data`. -/
theorem not_wellKept_initial :
    ¬WellKept (initial (fun _ : Unit => { zeroedMisc with foreignStubs := some 0 }) ()) := by
  intro h
  obtain ⟨lists, hlists, hnum⟩ := h.nodes
  have hnil : lists (.foreignStubs ()) = [] := length_eq_zero_iff.1 (hnum ()).symm
  have hchain := hlists.chain (.foreignStubs ())
  rw [hnil] at hchain
  exact Option.some_ne_none 0 hchain

end ScoreP.Recycling
