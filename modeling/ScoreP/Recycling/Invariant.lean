import Mathlib.Algebra.Group.Nat.Defs
import ScoreP.Recycling.Calls

/-!
# Every object is in one place

`WellKept` is the property, `Inv` the invariant that carries it. A call that releases a tree has a part of it
left (`Waiting`, `Shape`), in the order in which the nodes go to the lists, and the records of these nodes.
`Inv.of_frame` is about a step of one location: what the others have left is not touched (`Frame`).
-/

namespace ScoreP.Recycling

open Foundations Function List

variable {L : Type} [DecidableEq L]

/-! ## The property -/

def State.Awaited (s : State L) (child : ℕ) : Prop :=
  ∃ l caller callers, s.activities l = .returned ((caller, child) :: callers)

structure WellKept (s : State L) : Prop where
  nodes : ∃ lists, FreeLists s.firstChild s.nodes.heads s.nodes.inUse s.nodes.created lists ∧
    ∀ l, (s.numForeignStubs l).toNat = (lists (.foreignStubs l)).length
  metrics : ∀ k, ∃ lists,
    FreeLists (s.metrics k).objects (s.metrics k).heads (s.metrics k).inUse (s.metrics k).created lists
  tasks : ∃ lists, FreeLists s.nextTask s.tasks.heads s.tasks.inUse s.tasks.created lists ∧
    ∀ l, (s.numForeignTasks l).toNat = (lists (.foreignTasks l)).length

/-- `scorep_profile_release_stubs` finds a leaf without children when the list is empty, no location waits for
the sibling of the list's first node unless it stays the same, and the counter does not wrap. -/
structure State.StubsFine (s : State L) (l : L) (leaf : ℕ) (num : UInt32) (localObjects : Bool) : Prop where
  leafless : s.nodes.heads (State.stubList l localObjects) = none → s.firstChild leaf = none
  sibling : ∀ child, s.nodes.heads (State.stubList l localObjects) = some child → s.Awaited child →
    s.nextSibling child = s.firstChild leaf
  count : localObjects = false → (s.numForeignStubs l).toNat + num.toNat < 2 ^ 32

def Fine (s : State L) : Action L → Prop
  | .go l =>
    match s.activities l with
    | .stubs _ leaf num localObjects _ => s.StubsFine l leaf num localObjects
    | .exchangeStubs _ current _ =>
      ∀ child, s.nodes.heads .exchange = some child → s.Awaited child →
        s.nextSibling child = s.firstChild current
    | _ => True
  | .releaseTask l _ => (s.numForeignTasks l).toNat + 1 < 2 ^ 32
  | .write nodes _ _ => ∀ child, s.Awaited child → (nodes child).nextSibling = s.nextSibling child
  | _ => True

/-! ## What the calls have yet to do -/

variable {s s' : State L} {l : L} {nodeLists nodeLists' : NodeList L → List ℕ}
  {metricLists metricLists' : Sparse → L → List ℕ} {taskLists taskLists' : TaskList L → List ℕ}
  {activity : Activity} {callers : List (ℕ × ℕ)} {root : ℕ} {left : List ℕ}

/-- The callers of a call for `root` have these nodes left. -/
def Waiting (nodes : ℕ → Node) : List (ℕ × ℕ) → ℕ → List ℕ → Prop
  | [], _, left => left = []
  | (caller, child) :: callers, root, left =>
    child = root ∧ ∃ (siblings : Siblings ℕ) (rest : List ℕ),
      siblings.Stored (fun a => (nodes a).firstChild) (fun a => (nodes a).nextSibling) (nodes child).nextSibling ∧
        left = siblings.postorder ++ caller :: rest ∧ Waiting nodes callers caller rest

def Shape (nodes : Pool (NodeList L) Node) (nodeLists : NodeList L → List ℕ) (tasks : TaskList L → Option ℕ)
    (taskLists : TaskList L → List ℕ) (l : L) : Activity → List ℕ → Prop
  | .loop root child callers, left => ∃ (siblings : Siblings ℕ) (rest : List ℕ),
      siblings.Stored (fun a => (nodes.objects a).firstChild) (fun a => (nodes.objects a).nextSibling) child ∧
        left = siblings.postorder ++ root :: rest ∧ Waiting nodes.objects callers root rest
  | .metrics _ root callers, left => ∃ rest, left = root :: rest ∧ Waiting nodes.objects callers root rest
  | .node root callers, left => ∃ rest, left = root :: rest ∧ Waiting nodes.objects callers root rest
  | .returned callers, left => ∃ root, Waiting nodes.objects callers root left
  | .stubs root leaf num _ callers, left => ∃ above rest, left = above ++ [leaf] ++ rest ∧
      Segment (fun a => (nodes.objects a).firstChild) (some root) above (some leaf) ∧
        num.toNat = (above ++ [leaf]).length ∧ Waiting nodes.objects callers root rest
  | .exchangeStubs root current callers, left => Waiting nodes.objects callers root left ∧
      nodes.heads (.foreignStubs l) = some root ∧ ∃ above, nodeLists (.foreignStubs l) = above ++ [current]
  | .takeStubs _, left => left = [] ∧ nodes.heads (.freeStubs l) = none
  | .takeTasks, left => left = [] ∧ tasks (.freeTasks l) = none
  | .exchangeTasks task current, left => left = [] ∧ tasks (.foreignTasks l) = some task ∧
      ∃ above, taskLists (.foreignTasks l) = above ++ [current]
  | _, left => left = []

def metricsLeft : Activity → Sparse → List ℕ → List ℕ
  | .metrics .double _ _, .int, left => left.tail
  | .node _ _, _, left => left.tail
  | .stubs _ _ num _ _, _, left => left.drop num.toNat
  | _, _, left => left

structure Inv (s : State L) (nodeLists : NodeList L → List ℕ) (metricLists : Sparse → L → List ℕ)
    (taskLists : TaskList L → List ℕ) : Prop where
  nodes : FreeLists s.firstChild s.nodes.heads s.nodes.inUse s.nodes.created nodeLists
  metrics : ∀ k, FreeLists (s.metrics k).objects (s.metrics k).heads (s.metrics k).inUse (s.metrics k).created
    (metricLists k)
  tasks : FreeLists s.nextTask s.tasks.heads s.tasks.inUse s.tasks.created taskLists
  numStubs : ∀ l, (s.numForeignStubs l).toNat = (nodeLists (.foreignStubs l)).length
  numTasks : ∀ l, (s.numForeignTasks l).toNat = (taskLists (.foreignTasks l)).length
  apart : Apart s.releasing
  inUse : ∀ l, ∀ a ∈ s.releasing l, a ∈ s.nodes.inUse
  metricsApart : ∀ k, Apart fun l => s.releasingMetrics l k
  metricsInUse : ∀ k l, ∀ a ∈ s.releasingMetrics l k, a ∈ (s.metrics k).inUse
  shape : ∀ l, Shape s.nodes nodeLists s.tasks.heads taskLists l (s.activities l) (s.releasing l)
  awaited : ∀ a, s.Awaited a → a < s.nodes.created
  left : ∀ l k, Chains (s.metrics k).objects
    ((metricsLeft (s.activities l) k (s.releasing l)).map fun a => (s.nodes.objects a).firstSparse k)
    (s.releasingMetrics l k)

theorem metricsLeft_subset {k : Sparse} : ∀ a ∈ metricsLeft activity k left, a ∈ left := by
  intro a ha
  unfold metricsLeft at ha
  split at ha
  · exact mem_of_mem_tail ha
  · exact mem_of_mem_tail ha
  · exact mem_of_mem_drop ha
  · exact ha

/-! ## What does not change -/

theorem Waiting.congr {nodes nodes' : ℕ → Node} (h : Waiting nodes callers root left)
    (hleft : ∀ a ∈ left, nodes' a = nodes a)
    (hroot : callers ≠ [] → (nodes' root).nextSibling = (nodes root).nextSibling) :
    Waiting nodes' callers root left := by
  induction callers generalizing root left with
  | nil => exact h
  | cons caller callers ih =>
    obtain ⟨caller, child⟩ := caller
    obtain ⟨rfl, siblings, rest, hstored, rfl, hrest⟩ := h
    have hmem : ∀ a ∈ siblings.postorder, nodes' a = nodes a := fun a ha => hleft a (mem_append_left _ ha)
    refine ⟨rfl, siblings, rest, ?_, rfl, ih hrest (fun a ha => ?_) fun _ => ?_⟩
    · rw [hroot (cons_ne_nil _ _)]
      refine hstored.congr (fun a ha => ?_) fun a ha => ?_
      · rw [hmem a ha]
      · rw [hmem a ha]
    · exact hleft a (mem_append_right _ (mem_cons_of_mem _ ha))
    · rw [hleft caller (mem_append_right _ mem_cons_self)]

/-- What another location has left is not touched. -/
structure Frame (s s' : State L) (nodeLists nodeLists' : NodeList L → List ℕ)
    (taskLists taskLists' : TaskList L → List ℕ) (l : L) : Prop where
  activity : s'.activities l = s.activities l
  releasing : s'.releasing l = s.releasing l
  node : ∀ a ∈ s.releasing l, s'.nodes.objects a = s.nodes.objects a
  awaited : ∀ a, s.Awaited a ∨ a ∈ nodeLists (.foreignStubs l) → s'.nextSibling a = s.nextSibling a
  foreign : nodeLists' (.foreignStubs l) = nodeLists (.foreignStubs l) ∧
    s'.nodes.heads (.foreignStubs l) = s.nodes.heads (.foreignStubs l)
  free : s'.nodes.heads (.freeStubs l) = s.nodes.heads (.freeStubs l)
  tasks : taskLists' (.foreignTasks l) = taskLists (.foreignTasks l) ∧
    s'.tasks.heads (.foreignTasks l) = s.tasks.heads (.foreignTasks l) ∧
      s'.tasks.heads (.freeTasks l) = s.tasks.heads (.freeTasks l)

omit [DecidableEq L] in
theorem Shape.congr (h : Shape s.nodes nodeLists s.tasks.heads taskLists l (s.activities l) (s.releasing l))
    (hchain : Chain s.firstChild (s.nodes.heads (.foreignStubs l)) (nodeLists (.foreignStubs l)))
    (hframe : Frame s s' nodeLists nodeLists' taskLists taskLists' l) :
    Shape s'.nodes nodeLists' s'.tasks.heads taskLists' l (s'.activities l) (s'.releasing l) := by
  obtain ⟨hactivity, hreleasing, hnode, hawaited, ⟨hlist, hhead⟩, hfree, htasks⟩ := hframe
  rw [hactivity, hreleasing]
  cases hcase : s.activities l with
  | idle | recycle | takenStubs | newNode =>
    rw [hcase] at h
    exact h
  | takeStubs =>
    rw [hcase] at h
    exact ⟨h.1, hfree.trans h.2⟩
  | takeTasks =>
    rw [hcase] at h
    exact ⟨h.1, htasks.2.2.trans h.2⟩
  | exchangeTasks task current =>
    rw [hcase] at h
    obtain ⟨hnil, hhead, above, htaskList⟩ := h
    exact ⟨hnil, htasks.2.1.trans hhead, above, htasks.1.trans htaskList⟩
  | loop root child callers =>
    rw [hcase] at h
    obtain ⟨siblings, rest, hstored, hleft, hwaiting⟩ := h
    rw [hleft] at hnode
    refine ⟨siblings, rest, ?_, hleft, hwaiting.congr (fun a ha => ?_) fun _ => ?_⟩
    · refine hstored.congr (fun a ha => ?_) fun a ha => ?_
      · rw [hnode a (mem_append_left _ ha)]
      · rw [hnode a (mem_append_left _ ha)]
    · exact hnode a (mem_append_right _ (mem_cons_of_mem _ ha))
    · rw [hnode root (mem_append_right _ mem_cons_self)]
  | metrics k root callers =>
    rw [hcase] at h
    obtain ⟨rest, hleft, hwaiting⟩ := h
    rw [hleft] at hnode
    refine ⟨rest, hleft, hwaiting.congr (fun a ha => hnode a (mem_cons_of_mem _ ha)) fun _ => ?_⟩
    rw [hnode root mem_cons_self]
  | node root callers =>
    rw [hcase] at h
    obtain ⟨rest, hleft, hwaiting⟩ := h
    rw [hleft] at hnode
    refine ⟨rest, hleft, hwaiting.congr (fun a ha => hnode a (mem_cons_of_mem _ ha)) fun _ => ?_⟩
    rw [hnode root mem_cons_self]
  | returned callers =>
    rw [hcase] at h
    obtain ⟨root, hwaiting⟩ := h
    refine ⟨root, hwaiting.congr hnode fun hne => hawaited root (Or.inl ?_)⟩
    cases callers with
    | nil => exact absurd rfl hne
    | cons caller callers =>
      obtain ⟨caller, child⟩ := caller
      obtain rfl : child = root := hwaiting.1
      exact ⟨l, caller, callers, hcase⟩
  | stubs root leaf num localObjects callers =>
    rw [hcase] at h
    obtain ⟨above, rest, hleft, hsegment, hnum, hwaiting⟩ := h
    rw [hleft] at hnode
    have hroot : root ∈ above ++ [leaf] ++ rest := by
      apply mem_append_left
      cases above with
      | nil => exact Option.some.inj (segment_nil.1 hsegment) ▸ mem_cons_self
      | cons a above => exact Option.some.inj (segment_cons.1 hsegment).1 ▸ mem_cons_self
    refine ⟨above, rest, hleft, hsegment.congr fun a ha => ?_, hnum,
      hwaiting.congr (fun a ha => hnode a (mem_append_right _ ha)) fun _ => ?_⟩
    · rw [hnode a (mem_append_left _ (mem_append_left _ ha))]
    · rw [hnode root hroot]
  | exchangeStubs root current callers =>
    rw [hcase] at h
    obtain ⟨hwaiting, hroot, above, habove⟩ := h
    refine ⟨hwaiting.congr hnode fun _ => hawaited root (Or.inr ?_), hhead.trans hroot, above, hlist.trans habove⟩
    rw [← hchain.head_eq] at hroot
    exact mem_of_getElem? hroot

theorem apart_of_other {held held' : L → List ℕ} (h : Apart held) (hother : ∀ l', l' ≠ l → held' l' = held l')
    (hnodup : (held' l).Nodup) (hnew : ∀ a ∈ held' l, a ∈ held l ∨ ∀ l', a ∉ held l') : Apart held' := by
  have hold : ∀ l' a, l' ≠ l → a ∈ held' l → a ∉ held' l' := by
    intro l' a hl' ha hmem
    rw [hother l' hl'] at hmem
    rcases hnew a ha with hold | hunheld
    · exact hl' (h.unique hmem hold)
    · exact hunheld l' hmem
  constructor
  · intro l'
    by_cases hl' : l' = l
    · rw [hl']
      exact hnodup
    · rw [hother l' hl']
      exact h.nodup l'
  · intro l₁ l₂ a h₁ h₂
    by_cases hl₁ : l₁ = l
    · by_cases hl₂ : l₂ = l
      · rw [hl₁, hl₂]
      · rw [hl₁] at h₁
        exact absurd h₂ (hold l₂ a hl₂ h₁)
    · by_cases hl₂ : l₂ = l
      · rw [hl₂] at h₂
        exact absurd h₁ (hold l₁ a hl₁ h₂)
      · rw [hother l₁ hl₁] at h₁
        rw [hother l₂ hl₂] at h₂
        exact h.unique h₁ h₂

structure MetricsFrame (s s' : State L) (l : L) : Prop where
  releasing : ∀ k, s'.releasingMetrics l k = s.releasingMetrics l k
  metric : ∀ k, ∀ a ∈ s.releasingMetrics l k, (s'.metrics k).objects a = (s.metrics k).objects a

theorem Inv.of_frame (h : Inv s nodeLists metricLists taskLists)
    (hnodes : FreeLists s'.firstChild s'.nodes.heads s'.nodes.inUse s'.nodes.created nodeLists')
    (hmetrics : ∀ k, FreeLists (s'.metrics k).objects (s'.metrics k).heads (s'.metrics k).inUse
      (s'.metrics k).created (metricLists' k))
    (htasks : FreeLists s'.nextTask s'.tasks.heads s'.tasks.inUse s'.tasks.created taskLists')
    (hnumStubs : ∀ l, (s'.numForeignStubs l).toNat = (nodeLists' (.foreignStubs l)).length)
    (hnumTasks : ∀ l, (s'.numForeignTasks l).toNat = (taskLists' (.foreignTasks l)).length)
    (hframe : ∀ l', l' ≠ l → Frame s s' nodeLists nodeLists' taskLists taskLists' l')
    (hmetricsFrame : ∀ l', l' ≠ l → MetricsFrame s s' l')
    (hnodup : (s'.releasing l).Nodup) (hnew : ∀ a ∈ s'.releasing l, a ∈ s.releasing l ∨ ∀ l', a ∉ s.releasing l')
    (huse : ∀ l', ∀ a ∈ s'.releasing l', a ∈ s'.nodes.inUse)
    (hmetricsNodup : ∀ k, (s'.releasingMetrics l k).Nodup) (hmetricsNew : ∀ k, ∀ a ∈ s'.releasingMetrics l k,
      a ∈ s.releasingMetrics l k ∨ ∀ l', a ∉ s.releasingMetrics l' k)
    (hmetricsUse : ∀ k l', ∀ a ∈ s'.releasingMetrics l' k, a ∈ (s'.metrics k).inUse)
    (hcreated : s.nodes.created ≤ s'.nodes.created)
    (hawaited : ∀ caller a callers, s'.activities l = .returned ((caller, a) :: callers) → a < s'.nodes.created)
    (hshape : Shape s'.nodes nodeLists' s'.tasks.heads taskLists' l (s'.activities l) (s'.releasing l))
    (hleft : ∀ k, Chains (s'.metrics k).objects
      ((metricsLeft (s'.activities l) k (s'.releasing l)).map fun a => (s'.nodes.objects a).firstSparse k)
      (s'.releasingMetrics l k)) : Inv s' nodeLists' metricLists' taskLists' where
  nodes := hnodes
  metrics := hmetrics
  tasks := htasks
  numStubs := hnumStubs
  numTasks := hnumTasks
  apart := apart_of_other h.apart (fun l' hl' => (hframe l' hl').releasing) hnodup hnew
  inUse := huse
  metricsApart k := apart_of_other (h.metricsApart k) (fun l' hl' => (hmetricsFrame l' hl').releasing k)
    (hmetricsNodup k) (hmetricsNew k)
  metricsInUse := hmetricsUse
  shape l' := by
    by_cases hl' : l' = l
    · rw [hl']
      exact hshape
    · exact (h.shape l').congr (h.nodes.chain _) (hframe l' hl')
  awaited a := by
    intro ha
    obtain ⟨l', caller, callers, hactivity⟩ := ha
    by_cases hl' : l' = l
    · rw [hl'] at hactivity
      exact hawaited caller a callers hactivity
    · rw [(hframe l' hl').activity] at hactivity
      exact Nat.lt_of_lt_of_le (h.awaited a ⟨l', caller, callers, hactivity⟩) hcreated
  left l' k := by
    by_cases hl' : l' = l
    · rw [hl']
      exact hleft k
    · obtain ⟨hreleasing, hmetric⟩ := hmetricsFrame l' hl'
      have hnodes : (metricsLeft (s'.activities l') k (s'.releasing l')).map
          (fun a => (s'.nodes.objects a).firstSparse k) =
          (metricsLeft (s.activities l') k (s.releasing l')).map
            fun a => (s.nodes.objects a).firstSparse k := by
        rw [(hframe l' hl').activity, (hframe l' hl').releasing]
        apply map_congr_left
        intro a ha
        rw [(hframe l' hl').node a (metricsLeft_subset a ha)]
      rw [hnodes, hreleasing k]
      exact (h.left l' k).congr (hmetric k)

/-! ## Steps that change only where a location is -/

theorem Inv.goOn (h : Inv s nodeLists metricLists taskLists)
    (hawaited : ∀ caller a callers, activity = .returned ((caller, a) :: callers) → a < s.nodes.created)
    (hshape : Shape s.nodes nodeLists s.tasks.heads taskLists l activity (s.releasing l))
    (hleft : ∀ k, Chains (s.metrics k).objects
      ((metricsLeft activity k (s.releasing l)).map fun a => (s.nodes.objects a).firstSparse k)
      (s.releasingMetrics l k)) : Inv (s.goOn l activity) nodeLists metricLists taskLists := by
  have hactivity : (s.goOn l activity).activities l = activity := update_self _ _ _
  refine h.of_frame (l := l) h.nodes h.metrics h.tasks h.numStubs h.numTasks (fun l' hl' => ?_)
    (fun l' hl' => ⟨fun k => rfl, fun k a ha => rfl⟩) (h.apart.nodup l) (fun a ha => Or.inl ha) h.inUse
    (fun k => (h.metricsApart k).nodup l) (fun k a ha => Or.inl ha) h.metricsInUse (Nat.le_refl _) ?_ ?_ ?_
  · exact ⟨update_of_ne hl' _ _, rfl, fun a ha => rfl, fun a ha => rfl, ⟨rfl, rfl⟩, rfl, rfl, rfl, rfl⟩
  · rw [hactivity]
    exact hawaited
  · rw [hactivity]
    exact hshape
  · rw [hactivity]
    exact hleft

/-! ## Steps on nodes -/

theorem Inv.nodeStep (h : Inv s nodeLists metricLists taskLists) (l : L) (activity : Activity)
    (nodes : Pool (NodeList L) Node) (numForeignStubs : L → UInt32) (gone left : List ℕ)
    (hnodes : FreeLists (fun a => (nodes.objects a).firstChild) nodes.heads nodes.inUse nodes.created nodeLists')
    (hnum : ∀ l, (numForeignStubs l).toNat = (nodeLists' (.foreignStubs l)).length)
    (hgone : s.releasing l = gone ++ left) (huse : ∀ a ∈ s.nodes.inUse, a ∉ gone → a ∈ nodes.inUse)
    (hwrite : ∀ a, nodes.objects a ≠ s.nodes.objects a → a ∈ s.releasing l ∨ a ∉ s.nodes.inUse)
    (hsibling : ∀ a, (nodes.objects a).nextSibling ≠ s.nextSibling a →
      ¬s.Awaited a ∧ ∀ l', l' ≠ l → a ∉ nodeLists (.foreignStubs l'))
    (hlists : ∀ l', l' ≠ l → nodeLists' (.foreignStubs l') = nodeLists (.foreignStubs l') ∧
      nodes.heads (.foreignStubs l') = s.nodes.heads (.foreignStubs l') ∧
        nodes.heads (.freeStubs l') = s.nodes.heads (.freeStubs l'))
    (hcreated : s.nodes.created ≤ nodes.created)
    (hawaited : ∀ caller a callers, activity = .returned ((caller, a) :: callers) → a < nodes.created)
    (hshape : Shape nodes nodeLists' s.tasks.heads taskLists l activity left)
    (hleft : ∀ k, Chains (s.metrics k).objects
      ((metricsLeft activity k left).map fun a => (nodes.objects a).firstSparse k) (s.releasingMetrics l k)) :
    Inv
      { s with
        nodes := nodes
        numForeignStubs := numForeignStubs
        activities := update s.activities l activity
        releasing := update s.releasing l left }
      nodeLists' metricLists taskLists := by
  have hnodup := h.apart.nodup l
  rw [hgone] at hnodup
  obtain ⟨-, hleftNodup, hdisjoint⟩ := nodup_append.1 hnodup
  have hmem : ∀ a ∈ left, a ∈ s.releasing l := by
    intro a ha
    rw [hgone]
    exact mem_append_right _ ha
  refine h.of_frame (l := l) hnodes h.metrics h.tasks hnum h.numTasks (fun l' hl' => ?_)
    (fun l' hl' => ⟨fun k => rfl, fun k a ha => rfl⟩) ?_ ?_ ?_ (fun k => (h.metricsApart k).nodup l)
    (fun k a ha => Or.inl ha) h.metricsInUse hcreated ?_ ?_ ?_
  · obtain ⟨hlist, hhead, hfree⟩ := hlists l' hl'
    refine ⟨update_of_ne hl' _ _, update_of_ne hl' _ _, fun a ha => ?_, fun a ha => ?_,
      ⟨hlist, hhead⟩, hfree, rfl, rfl, rfl⟩
    · by_contra hne
      rcases hwrite a hne with hmine | hunused
      · exact hl' (h.apart.unique ha hmine)
      · exact hunused (h.inUse l' a ha)
    · by_contra hne
      obtain ⟨hawaited, hforeign⟩ := hsibling a hne
      exact ha.elim hawaited (hforeign l' hl')
  · dsimp only
    rw [update_self]
    exact hleftNodup
  · intro a ha
    dsimp only at ha
    rw [update_self] at ha
    exact Or.inl (hmem a ha)
  · intro l' a ha
    dsimp only at ha
    by_cases hl' : l' = l
    · rw [hl', update_self] at ha
      exact huse a (h.inUse l a (hmem a ha)) fun hgone => hdisjoint a hgone a ha rfl
    · rw [update_of_ne hl'] at ha
      refine huse a (h.inUse l' a ha) fun hmine => hl' (h.apart.unique ha ?_)
      rw [hgone]
      exact mem_append_left _ hmine
  · dsimp only
    rw [update_self]
    exact hawaited
  · dsimp only
    rw [update_self, update_self]
    exact hshape
  · dsimp only
    rw [update_self, update_self]
    exact hleft

omit [DecidableEq L] in
theorem Inv.noMetrics (h : Inv s nodeLists metricLists taskLists) (hleft : s.releasing l = []) (k : Sparse) :
    s.releasingMetrics l k = [] := by
  have hchains := h.left l k
  have hnone : metricsLeft (s.activities l) k (s.releasing l) = [] := by
    rw [eq_nil_iff_forall_not_mem]
    intro a ha
    have hmem := metricsLeft_subset a ha
    rw [hleft] at hmem
    exact not_mem_nil hmem
  rw [hnone] at hchains
  exact hchains

theorem Inv.takeNode (h : Inv s nodeLists metricLists taskLists) (hleft : s.releasing l = []) {list : NodeList L}
    {first : ℕ} (hfirst : s.nodes.heads list = some first) {numForeignStubs : L → UInt32}
    (hlist : list = .freeNodes l ∧ numForeignStubs = s.numForeignStubs ∨
      list = .freeStubs l ∧ numForeignStubs = s.numForeignStubs ∨
      list = .foreignStubs l ∧ numForeignStubs = update s.numForeignStubs l (s.numForeignStubs l - 1)) :
    ∃ nodeLists', Inv { s.takeNode l list first with numForeignStubs := numForeignStubs }
      nodeLists' metricLists taskLists := by
  obtain ⟨rest, hrest, hnodes⟩ := h.nodes.take hfirst
  have hother : ∀ l', l' ≠ l → NodeList.foreignStubs l' ≠ list ∧ NodeList.freeStubs l' ≠ list := by
    intro l' hl'
    rcases hlist with ⟨rfl, -⟩ | ⟨rfl, -⟩ | ⟨rfl, -⟩
    · exact ⟨nofun, nofun⟩
    · exact ⟨nofun, fun heq => hl' (NodeList.freeStubs.inj heq)⟩
    · exact ⟨fun heq => hl' (NodeList.foreignStubs.inj heq), nofun⟩
  have hnum : ∀ l', (numForeignStubs l').toNat = (update nodeLists list rest (.foreignStubs l')).length := by
    intro l'
    have hfree : NodeList.foreignStubs l' ≠ .freeNodes l := nofun
    have hstubs : NodeList.foreignStubs l' ≠ .freeStubs l := nofun
    rcases hlist with ⟨rfl, hcount⟩ | ⟨rfl, hcount⟩ | ⟨rfl, hcount⟩
    · rw [hcount, update_of_ne hfree, h.numStubs]
    · rw [hcount, update_of_ne hstubs, h.numStubs]
    · rw [hcount]
      by_cases hl' : l' = l
      · have hlength := h.numStubs l
        rw [hrest, length_cons] at hlength
        have hone : (1 : UInt32) ≤ s.numForeignStubs l := by
          rw [UInt32.le_iff_toNat_le, hlength]
          exact Nat.le_add_left _ _
        rw [hl', update_self, update_self, UInt32.toNat_sub_of_le _ _ hone, hlength]
        rfl
      · rw [update_of_ne hl', update_of_ne (hother l' hl').1, h.numStubs]
  have hreleasing : update s.releasing l [] = s.releasing := by
    rw [← hleft]
    exact update_eq_self _ _
  have hstep := h.nodeStep l (.idle (some first)) (s.nodes.take list first (s.nodes.objects first).firstChild)
    numForeignStubs [] [] hnodes hnum hleft
    (fun a ha _ => mem_cons_of_mem _ ha) (fun a ha => absurd rfl ha) (fun a ha => absurd rfl ha)
    (fun l' hl' => ⟨update_of_ne (hother l' hl').1 _ _, update_of_ne (hother l' hl').1 _ _,
      update_of_ne (hother l' hl').2 _ _⟩) (Nat.le_refl _) (fun _ _ _ heq => nomatch heq) rfl
    (fun k => h.noMetrics hleft k)
  rw [hreleasing] at hstep
  exact ⟨_, hstep⟩

omit [DecidableEq L] in
theorem update_releasing [DecidableEq L] (hleft : s.releasing l = left) :
    update s.releasing l left = s.releasing := by
  rw [← hleft]
  exact update_eq_self _ _

omit [DecidableEq L] in
theorem Inv.created_notMem (h : Inv s nodeLists metricLists taskLists) : s.nodes.created ∉ s.nodes.inUse :=
  fun hmem => absurd ((h.nodes.kept _).1 (Or.inl hmem)) (Nat.lt_irrefl _)

theorem Inv.newNode (h : Inv s nodeLists metricLists taskLists) (hleft : s.releasing l = []) :
    Inv { s.goOn l (.idle (some s.nodes.created)) with nodes := s.nodes.create emptyNode }
      nodeLists metricLists taskLists := by
  have hlink : ∀ a, a ≠ s.nodes.created →
      (update s.nodes.objects s.nodes.created emptyNode a).firstChild = s.firstChild a := by
    intro a ha
    rw [update_of_ne ha]
    rfl
  have hstep := h.nodeStep l (.idle (some s.nodes.created)) (s.nodes.create emptyNode) s.numForeignStubs [] []
    (h.nodes.create hlink) h.numStubs hleft
    (fun a ha _ => mem_cons_of_mem _ ha) (fun a ha => ?_) (fun a ha => ?_)
    (fun l' hl' => ⟨rfl, rfl, rfl⟩) (Nat.le_succ _) (fun _ _ _ heq => nomatch heq) rfl
    (fun k => h.noMetrics hleft k)
  · rw [update_releasing hleft] at hstep
    exact hstep
  · refine Or.inr fun hmem => ha ?_
    refine update_of_ne (fun heq => h.created_notMem ?_) _ _
    rwa [← heq]
  · have hcreated : a = s.nodes.created := by
      by_contra hne
      apply ha
      dsimp only [Pool.create, Pool.setObject]
      rw [update_of_ne hne]
      rfl
    rw [hcreated]
    refine ⟨fun hawaited => Nat.lt_irrefl _ (h.awaited _ hawaited), fun l' _ hmem => ?_⟩
    exact Nat.lt_irrefl _ ((h.nodes.kept _).1 (Or.inr ⟨_, hmem⟩))

theorem Inv.takeStubs (h : Inv s nodeLists metricLists taskLists) {alloc : Bool}
    (hl : s.activities l = .takeStubs alloc) : ∃ nodeLists', Inv { s.goOn l (.takenStubs alloc) with
          nodes := (s.nodes.setHead (.freeStubs l) (s.nodes.heads .exchange)).setHead .exchange none }
        nodeLists' metricLists taskLists := by
  have hshape := h.shape l
  rw [hl] at hshape
  obtain ⟨hleft, hfree⟩ := hshape
  have hne : NodeList.exchange ≠ .freeStubs l := nofun
  have hnodes := h.nodes.fill hne hfree
  have hforeign : ∀ l', NodeList.foreignStubs l' ≠ .exchange ∧ NodeList.foreignStubs l' ≠ .freeStubs l :=
    fun l' => ⟨nofun, nofun⟩
  have hstubs : ∀ l', l' ≠ l → NodeList.freeStubs l' ≠ .exchange ∧ NodeList.freeStubs l' ≠ .freeStubs l :=
    fun l' hl' => ⟨nofun, fun heq => hl' (NodeList.freeStubs.inj heq)⟩
  have hlist : ∀ l', update (update nodeLists (.freeStubs l) (nodeLists .exchange)) .exchange []
      (.foreignStubs l') = nodeLists (.foreignStubs l') := by
    intro l'
    rw [update_of_ne (hforeign l').1, update_of_ne (hforeign l').2]
  have hstep := h.nodeStep l (.takenStubs alloc)
    ((s.nodes.setHead (.freeStubs l) (s.nodes.heads .exchange)).setHead .exchange none) s.numForeignStubs [] []
    hnodes (fun l' => by rw [hlist, h.numStubs]) hleft (fun a ha _ => ha)
    (fun a ha => absurd rfl ha) (fun a ha => absurd rfl ha) (fun l' hl' => ⟨hlist l', ?_, ?_⟩) (Nat.le_refl _)
    (fun _ _ _ heq => nomatch heq) rfl (fun k => h.noMetrics hleft k)
  · rw [update_releasing hleft] at hstep
    exact ⟨_, hstep⟩
  · dsimp only [Pool.setHead]
    rw [update_of_ne (hforeign l').1, update_of_ne (hforeign l').2]
  · dsimp only [Pool.setHead]
    rw [update_of_ne (hstubs l' hl').1, update_of_ne (hstubs l' hl').2]

theorem Inv.storeNode (h : Inv s nodeLists metricLists taskLists) (hl : s.activities l = .node root callers) :
    ∃ nodeLists', Inv ((s.storeNode l root).goOn l (.returned callers)) nodeLists' metricLists taskLists := by
  have hshape := h.shape l
  rw [hl] at hshape
  obtain ⟨rest, hleft, hwaiting⟩ := hshape
  have hmem : root ∈ s.releasing l := by
    rw [hleft]
    exact mem_cons_self
  have huse := h.inUse l root hmem
  have hlink : (fun a => (update s.nodes.objects root
      { s.nodes.objects root with firstChild := s.nodes.heads (.freeNodes l) } a).firstChild) =
        update s.firstChild root (s.nodes.heads (.freeNodes l)) := by
    funext a
    by_cases ha : a = root
    · rw [ha, update_self, update_self]
    · rw [update_of_ne ha, update_of_ne ha]
      rfl
  have hsibling : ∀ a, (update s.nodes.objects root
      { s.nodes.objects root with firstChild := s.nodes.heads (.freeNodes l) } a).nextSibling =
        s.nextSibling a := by
    intro a
    by_cases ha : a = root
    · rw [ha, update_self]
      rfl
    · rw [update_of_ne ha]
      rfl
  have hnodes := h.nodes.give (i := .freeNodes l) (p := some root) [] root rfl (nodup_singleton root)
    (fun a ha => by rw [mem_singleton.1 ha]; exact huse)
  rw [← hlink] at hnodes
  have hrest : root ∉ rest := by
    have hnodup := h.apart.nodup l
    rw [hleft] at hnodup
    exact (nodup_cons.1 hnodup).1
  have hother : ∀ a, a ≠ root → update s.nodes.objects root
      { s.nodes.objects root with firstChild := s.nodes.heads (.freeNodes l) } a = s.nodes.objects a :=
    fun a ha => update_of_ne ha _ _
  have hlists : ∀ l', NodeList.foreignStubs l' ≠ .freeNodes l ∧ NodeList.freeStubs l' ≠ .freeNodes l :=
    fun l' => ⟨nofun, nofun⟩
  have hstep := h.nodeStep l (.returned callers) (s.storeNode l root).nodes s.numForeignStubs [root] rest hnodes
    (fun l' => by rw [update_of_ne (hlists l').1, h.numStubs]) hleft
    (fun a ha hgone => mem_filter.2 ⟨ha, decide_eq_true hgone⟩) (fun a ha => Or.inl ?_)
    (fun a ha => absurd (hsibling a) ha) (fun l' hl' => ⟨update_of_ne (hlists l').1 _ nodeLists,
      update_of_ne (hlists l').1 (some root) s.nodes.heads,
      update_of_ne (hlists l').2 (some root) s.nodes.heads⟩) (Nat.le_refl _)
    (fun caller a others heq => ?_) ⟨root, hwaiting.congr (fun a ha => hother a fun heq => ?_) fun _ => hsibling root⟩
    (fun k => ?_)
  · rw [← show (s.releasing l).tail = rest by rw [hleft]; rfl] at hstep
    exact ⟨_, hstep⟩
  · have heq : a = root := by
      by_contra hne
      exact ha (hother a hne)
    rw [heq]
    exact hmem
  · rw [Activity.returned.injEq] at heq
    rw [heq] at hwaiting
    rw [hwaiting.1]
    exact (h.nodes.kept root).1 (Or.inl huse)
  · rw [heq] at ha
    exact hrest ha
  · have hchains := h.left l k
    rw [hl, hleft] at hchains
    have hmap : (rest.map fun a => ((s.storeNode l root).nodes.objects a).firstSparse k) =
        rest.map fun a => (s.nodes.objects a).firstSparse k := by
      apply map_congr_left
      intro a ha
      have hne : a ≠ root := by
        intro heq
        rw [heq] at ha
        exact hrest ha
      rw [show (s.storeNode l root).nodes.objects a = s.nodes.objects a from hother a hne]
    rw [metricsLeft, hmap]
    · exact hchains
    all_goals exact fun _ => nofun

omit [DecidableEq L] in
theorem Inv.head_notMem (h : Inv s nodeLists metricLists taskLists) {list : NodeList L} {a : ℕ}
    (hhead : s.nodes.heads list = some a) : a ∈ nodeLists list ∧ a ∉ s.nodes.inUse := by
  have hmem : a ∈ nodeLists list := by
    have hfirst := (h.nodes.chain list).head_eq
    rw [hhead] at hfirst
    exact mem_of_getElem? hfirst
  exact ⟨hmem, fun hused => h.nodes.unheld a hused list hmem⟩

theorem Inv.storeStubs (h : Inv s nodeLists metricLists taskLists) {leaf : ℕ} {num : UInt32}
    {localObjects : Bool} (hl : s.activities l = .stubs root leaf num localObjects callers)
    (hfine : s.StubsFine l leaf num localObjects)
    (hactivity : activity = .returned callers ∨ localObjects = false ∧ ∃ current passed,
      activity = .exchangeStubs root current callers ∧
        Chain (s.storeStubs l root leaf num localObjects).firstChild (some leaf) (passed ++ [current])) :
    ∃ nodeLists', Inv ((s.storeStubs l root leaf num localObjects).goOn l activity)
      nodeLists' metricLists taskLists := by
  have hshape := h.shape l
  rw [hl] at hshape
  obtain ⟨above, rest, hleft, hsegment, hcount, hwaiting⟩ := hshape
  have htake : (s.releasing l).take num.toNat = above ++ [leaf] := by
    rw [hleft, hcount, take_left]
  have hdrop : (s.releasing l).drop num.toNat = rest := by
    rw [hleft, hcount, drop_left]
  have hnodup := h.apart.nodup l
  rw [hleft] at hnodup
  obtain ⟨hchain, -, hdisjoint⟩ := nodup_append.1 hnodup
  have huse : ∀ a ∈ s.releasing l, a ∈ s.nodes.inUse := h.inUse l
  have hgone : ∀ a ∈ above ++ [leaf], a ∈ s.releasing l := by
    intro a ha
    rw [hleft]
    exact mem_append_left _ ha
  have hroot : root ∈ above ++ [leaf] := by
    cases above with
    | nil => exact Option.some.inj (segment_nil.1 hsegment) ▸ mem_cons_self
    | cons a above => exact Option.some.inj (segment_cons.1 hsegment).1 ▸ mem_cons_self
  have hhead : ∀ a ∈ s.nodes.inUse, s.nodes.heads (State.stubList l localObjects) ≠ some a :=
    fun a ha heq => (h.head_notMem heq).2 ha
  have hlink := @addList_firstChild s.nodes.objects leaf _ hfine.leafless
  have hnodes := h.nodes.give (i := State.stubList l localObjects) above leaf hsegment hchain
    fun a ha => huse a (hgone a ha)
  rw [← show (fun a => (addList s.nodes.objects leaf (s.nodes.heads (State.stubList l localObjects)) a).firstChild) =
    update s.firstChild leaf (s.nodes.heads (State.stubList l localObjects)) from hlink] at hnodes
  have hrest : ∀ a ∈ rest, addList s.nodes.objects leaf (s.nodes.heads (State.stubList l localObjects)) a =
      s.nodes.objects a := by
    intro a ha
    have hmem : a ∈ s.releasing l := by
      rw [hleft]
      exact mem_append_right _ ha
    refine addList_of_ne (fun heq => ?_) (hhead a (huse a hmem))
    exact hdisjoint leaf (mem_append_right _ mem_cons_self) a ha heq.symm
  have hlists : ∀ l', l' ≠ l → NodeList.foreignStubs l' ≠ State.stubList l localObjects ∧
      NodeList.freeStubs l' ≠ State.stubList l localObjects := by
    intro l' hl'
    cases localObjects with
    | true => exact ⟨nofun, fun heq => hl' (NodeList.freeStubs.inj heq)⟩
    | false => exact ⟨fun heq => hl' (NodeList.foreignStubs.inj heq), nofun⟩
  have hnum : ∀ l', ((s.storeStubs l root leaf num localObjects).numForeignStubs l').toNat =
      (update nodeLists (State.stubList l localObjects)
        (above ++ [leaf] ++ nodeLists (State.stubList l localObjects)) (.foreignStubs l')).length := by
    intro l'
    cases localObjects with
    | true =>
      have hne : NodeList.foreignStubs l' ≠ .freeStubs l := nofun
      rw [State.stubList, if_pos rfl, update_of_ne hne]
      exact h.numStubs l'
    | false =>
      have hcounts : (s.storeStubs l root leaf num false).numForeignStubs =
        update s.numForeignStubs l (s.numForeignStubs l + num) := rfl
      rw [hcounts, State.stubList, if_neg Bool.false_ne_true]
      by_cases hl' : l' = l
      · rw [hl', update_self, update_self, UInt32.toNat_add, Nat.mod_eq_of_lt (hfine.count rfl),
          h.numStubs, hcount, Nat.add_comm, ← length_append]
      · rw [update_of_ne hl', update_of_ne fun heq => hl' (NodeList.foreignStubs.inj heq)]
        exact h.numStubs l'
  have hwaiting' : Waiting (addList s.nodes.objects leaf (s.nodes.heads (State.stubList l localObjects))) callers
      root rest :=
    hwaiting.congr hrest fun _ => addList_nextSibling (hhead root (huse root (hgone root hroot)))
  have hheads : (s.storeStubs l root leaf num localObjects).nodes.heads =
    update s.nodes.heads (State.stubList l localObjects) (some root) := rfl
  have hobjects : (s.storeStubs l root leaf num localObjects).nodes.objects =
    addList s.nodes.objects leaf (s.nodes.heads (State.stubList l localObjects)) := rfl
  have hinUse : (s.storeStubs l root leaf num localObjects).nodes.inUse =
      s.nodes.inUse.filter fun a => decide (a ∉ above ++ [leaf]) := by
    rw [← htake]
    rfl
  rw [← hobjects, ← hheads, ← hinUse] at hnodes
  rw [← hobjects] at hwaiting' hrest hlink
  have hstep := h.nodeStep l activity (s.storeStubs l root leaf num localObjects).nodes
    (s.storeStubs l root leaf num localObjects).numForeignStubs (above ++ [leaf]) rest hnodes hnum hleft
    (fun a ha hnot => ?_) (fun a ha => ?_) (fun a ha => ?_) (fun l' hl' => ⟨update_of_ne (hlists l' hl').1 _ nodeLists, ?_, ?_⟩)
    (Nat.le_refl _) (fun caller a others heq => ?_) ?_ (fun k => ?_)
  · rw [← hdrop] at hstep
    exact ⟨_, hstep⟩
  · rw [hinUse]
    exact mem_filter.2 ⟨ha, decide_eq_true hnot⟩
  · by_cases hleaf : a = leaf
    · rw [hleaf]
      exact Or.inl (hgone leaf (mem_append_right _ mem_cons_self))
    · refine Or.inr fun hused => ha ?_
      rw [hobjects]
      exact addList_of_ne hleaf (hhead a hused)
  · have hfirst : s.nodes.heads (State.stubList l localObjects) = some a := by
      by_contra hne
      exact ha (addList_nextSibling hne)
    refine ⟨fun hawaited => ha ?_, fun l' hl' hmem => (hlists l' hl').1 ?_⟩
    · rw [hfine.sibling a hfirst hawaited, hobjects, hfirst, addList, addChild_links.2, update_self]
      rfl
    · exact h.nodes.apart.unique hmem (h.head_notMem hfirst).1
  · rw [hheads, update_of_ne (hlists l' hl').1]
  · rw [hheads, update_of_ne (hlists l' hl').2]
  · have hcallers : callers = (caller, a) :: others := by
      rcases hactivity with hreturned | ⟨-, current, passed, hexchange, -⟩
      · exact Activity.returned.inj (hreturned.symm.trans heq)
      · cases hexchange.symm.trans heq
    rw [hcallers] at hwaiting
    rw [hwaiting.1]
    exact (h.nodes.kept root).1 (Or.inl (huse root (hgone root hroot)))
  · rcases hactivity with hreturned | ⟨rfl, current, passed, hexchange, hlast⟩
    · rw [hreturned]
      exact ⟨root, hwaiting'⟩
    · rw [hexchange]
      refine ⟨hwaiting', ?_, above ++ passed, ?_⟩
      · rw [hheads]
        exact update_self _ _ _
      · have hlist := hnodes.chain (.foreignStubs l)
        have hforeign : State.stubList l false = .foreignStubs l := rfl
        rw [hheads, hforeign, update_self, update_self, append_assoc] at hlist
        obtain ⟨p, -, hbehind⟩ := segment_append.1 hlist
        obtain ⟨rfl, -⟩ := segment_cons.1 hbehind
        rw [hforeign, update_self, append_assoc, append_assoc, hlast.unique hbehind]
  · have hchains := h.left l k
    rw [hl, metricsLeft, hdrop] at hchains
    have hmap : (rest.map fun a => ((s.storeStubs l root leaf num localObjects).nodes.objects a).firstSparse k) =
        rest.map fun a => (s.nodes.objects a).firstSparse k :=
      map_congr_left fun a ha => by rw [hrest a ha]
    have hsame : metricsLeft activity k rest = rest := by
      rcases hactivity with rfl | ⟨-, current, passed, rfl, -⟩ <;> rfl
    rw [hsame, hmap]
    exact hchains

theorem Inv.exchangeStubs (h : Inv s nodeLists metricLists taskLists) {current : ℕ}
    (hl : s.activities l = .exchangeStubs root current callers)
    (hfine : ∀ child, s.nodes.heads .exchange = some child → s.Awaited child →
      s.nextSibling child = s.firstChild current) :
    ∃ nodeLists', Inv (s.exchangeStubs l root current callers) nodeLists' metricLists taskLists := by
  have hshape := h.shape l
  rw [hl] at hshape
  obtain ⟨hwaiting, hroot, above, hlist⟩ := hshape
  have hne : NodeList.foreignStubs l ≠ .exchange := nofun
  have hlast : s.firstChild current = none := by
    have hchain := h.nodes.chain (.foreignStubs l)
    rw [hlist] at hchain
    exact (segment_snoc.1 hchain).2
  have hcurrent : current ∈ nodeLists (.foreignStubs l) := by
    rw [hlist]
    exact mem_append_right _ mem_cons_self
  have hlink := @addList_firstChild s.nodes.objects current (s.nodes.heads .exchange) fun _ => hlast
  have hnodes := h.nodes.pass hne hlist
  rw [hroot, ← show (fun a => (addList s.nodes.objects current (s.nodes.heads .exchange) a).firstChild) =
    update s.firstChild current (s.nodes.heads .exchange) from hlink] at hnodes
  have hlists : ∀ l', l' ≠ l → NodeList.foreignStubs l' ≠ .foreignStubs l ∧ NodeList.foreignStubs l' ≠ .exchange ∧
      NodeList.freeStubs l' ≠ .foreignStubs l ∧ NodeList.freeStubs l' ≠ .exchange :=
    fun l' hl' => ⟨fun heq => hl' (NodeList.foreignStubs.inj heq), nofun, nofun, nofun⟩
  have hused : ∀ a ∈ s.nodes.inUse, addList s.nodes.objects current (s.nodes.heads .exchange) a =
      s.nodes.objects a := by
    intro a ha
    refine addList_of_ne (fun heq => ?_) fun heq => (h.head_notMem heq).2 ha
    rw [heq] at ha
    exact h.nodes.unheld current ha _ hcurrent
  have hrootList := h.head_notMem hroot
  have hrootSibling : (addList s.nodes.objects current (s.nodes.heads .exchange) root).nextSibling =
      (s.nodes.objects root).nextSibling :=
    addList_nextSibling fun heq => hne (h.nodes.apart.unique hrootList.1 (h.head_notMem heq).1)
  have hnum : ∀ l', (update s.numForeignStubs l 0 l').toNat =
      (update (update nodeLists .exchange (nodeLists (.foreignStubs l) ++ nodeLists .exchange))
        (.foreignStubs l) [] (.foreignStubs l')).length := by
    intro l'
    by_cases hl' : l' = l
    · rw [hl', update_self, update_self]
      rfl
    · rw [update_of_ne hl', update_of_ne (hlists l' hl').1, update_of_ne (hlists l' hl').2.1, h.numStubs]
  have hstep := h.nodeStep l (.returned callers) (s.exchangeStubs l root current callers).nodes
    (update s.numForeignStubs l 0) [] (s.releasing l) hnodes hnum rfl (fun a ha _ => ha)
    (fun a ha => Or.inr fun hmem => ha (hused a hmem)) (fun a ha => ?_) (fun l' hl' => ⟨?_, ?_, ?_⟩)
    (Nat.le_refl _) (fun caller a others heq => ?_)
    ⟨root, hwaiting.congr (fun a ha => hused a (h.inUse l a ha)) fun _ => hrootSibling⟩ (fun k => ?_)
  · rw [update_releasing rfl] at hstep
    exact ⟨_, hstep⟩
  · have hfirst : s.nodes.heads .exchange = some a := by
      by_contra hne
      exact ha (addList_nextSibling hne)
    refine ⟨fun hawaited => ha ?_, fun l' hl' hmem => (hlists l' hl').2.1 ?_⟩
    · rw [hfine a hfirst hawaited]
      dsimp only [State.exchangeStubs, Pool.setHead]
      rw [hfirst, addList, addChild_links.2, update_self]
      rfl
    · exact h.nodes.apart.unique hmem (h.head_notMem hfirst).1
  · rw [update_of_ne (hlists l' hl').1, update_of_ne (hlists l' hl').2.1]
  · dsimp only [State.exchangeStubs, Pool.setHead]
    rw [update_of_ne (hlists l' hl').1, update_of_ne (hlists l' hl').2.1]
  · dsimp only [State.exchangeStubs, Pool.setHead]
    rw [update_of_ne (hlists l' hl').2.2.1, update_of_ne (hlists l' hl').2.2.2]
  · rw [Activity.returned.injEq] at heq
    rw [heq] at hwaiting
    rw [hwaiting.1]
    exact (h.nodes.kept root).1 (Or.inr ⟨_, hrootList.1⟩)
  · have hchains := h.left l k
    rw [hl] at hchains
    have hmap : ((s.releasing l).map fun a =>
        ((s.exchangeStubs l root current callers).nodes.objects a).firstSparse k) =
        (s.releasing l).map fun a => (s.nodes.objects a).firstSparse k :=
      map_congr_left fun a ha => by
        rw [show (s.exchangeStubs l root current callers).nodes.objects a = s.nodes.objects a from
          hused a (h.inUse l a ha)]
    rw [show metricsLeft (.returned callers) k (s.releasing l) = s.releasing l from rfl, hmap]
    exact hchains

/-! ## Steps on records -/

theorem Inv.metricsStep (h : Inv s nodeLists metricLists taskLists) (l : L) (activity : Activity) (k : Sparse)
    (pool : Pool L (Option ℕ)) (gone left : List ℕ) {lists : L → List ℕ}
    (hpool : FreeLists pool.objects pool.heads pool.inUse pool.created lists)
    (hgone : s.releasingMetrics l k = gone ++ left) (huse : ∀ a ∈ (s.metrics k).inUse, a ∉ gone → a ∈ pool.inUse)
    (hwrite : ∀ a, pool.objects a ≠ (s.metrics k).objects a →
      a ∈ s.releasingMetrics l k ∨ a ∉ (s.metrics k).inUse) (hawaited : ∀ callers, activity ≠ .returned callers)
    (hshape : Shape s.nodes nodeLists s.tasks.heads taskLists l activity (s.releasing l))
    (hleft : ∀ j, Chains (update s.metrics k pool j).objects
      ((metricsLeft activity j (s.releasing l)).map fun a => (s.nodes.objects a).firstSparse j)
      (update (s.releasingMetrics l) k left j)) :
    Inv
      { s with
        metrics := update s.metrics k pool
        activities := update s.activities l activity
        releasingMetrics :=
          update s.releasingMetrics l (update (s.releasingMetrics l) k left) }
      nodeLists (update metricLists k lists) taskLists := by
  have hnodup := (h.metricsApart k).nodup l
  rw [hgone] at hnodup
  obtain ⟨-, hleftNodup, hdisjoint⟩ := nodup_append.1 hnodup
  have hmem : ∀ j, ∀ a ∈ update (s.releasingMetrics l) k left j, a ∈ s.releasingMetrics l j := by
    intro j a ha
    by_cases hj : j = k
    · rw [hj, update_self] at ha
      rw [hj, hgone]
      exact mem_append_right _ ha
    · rwa [update_of_ne hj] at ha
  have hother : ∀ l' k', l' ≠ l → ∀ a ∈ s.releasingMetrics l' k',
      (update s.metrics k pool k').objects a = (s.metrics k').objects a ∧
        a ∈ (update s.metrics k pool k').inUse := by
    intro l' k' hl' a ha
    by_cases hk' : k' = k
    · subst hk'
      rw [update_self]
      have hmine : a ∉ s.releasingMetrics l k' := fun hmem => hl' ((h.metricsApart k').unique ha hmem)
      constructor
      · by_contra hne
        exact (hwrite a hne).elim hmine fun hunused => hunused (h.metricsInUse k' l' a ha)
      · refine huse a (h.metricsInUse k' l' a ha) fun hmem => hmine ?_
        rw [hgone]
        exact mem_append_left _ hmem
    · rw [update_of_ne hk']
      exact ⟨rfl, h.metricsInUse k' l' a ha⟩
  refine h.of_frame (l := l) h.nodes (fun j => ?_) h.tasks h.numStubs h.numTasks (fun l' hl' => ?_)
    (fun l' hl' => ⟨fun k' => ?_, fun k' a ha => (hother l' k' hl' a ha).1⟩) (h.apart.nodup l)
    (fun a ha => Or.inl ha) h.inUse (fun j => ?_) (fun j a ha => ?_) (fun j l' a ha => ?_) (Nat.le_refl _)
    (fun caller a others heq => ?_) ?_ (fun j => ?_)
  · dsimp only
    by_cases hj : j = k
    · rw [hj, update_self, update_self]
      exact hpool
    · rw [update_of_ne hj, update_of_ne hj]
      exact h.metrics j
  · exact ⟨update_of_ne hl' _ _, rfl, fun a ha => rfl, fun a ha => rfl, ⟨rfl, rfl⟩, rfl, rfl, rfl, rfl⟩
  · dsimp only
    rw [update_of_ne hl']
  · dsimp only
    rw [update_self]
    by_cases hj : j = k
    · rw [hj, update_self]
      exact hleftNodup
    · rw [update_of_ne hj]
      exact (h.metricsApart j).nodup l
  · dsimp only at ha
    rw [update_self] at ha
    exact Or.inl (hmem j a ha)
  · dsimp only at ha ⊢
    by_cases hl' : l' = l
    · rw [hl', update_self] at ha
      by_cases hj : j = k
      · subst hj
        rw [update_self] at ha ⊢
        refine huse a (h.metricsInUse j l a ?_) fun hmem => hdisjoint a hmem a ha rfl
        rw [hgone]
        exact mem_append_right _ ha
      · rw [update_of_ne hj] at ha ⊢
        exact h.metricsInUse j l a ha
    · rw [update_of_ne hl'] at ha
      exact (hother l' j hl' a ha).2
  · dsimp only at heq
    rw [update_self] at heq
    exact absurd heq (hawaited _)
  · dsimp only
    rw [update_self]
    exact hshape
  · dsimp only
    rw [update_self, update_self]
    exact hleft j

theorem metricsLeft_metrics (k : Sparse) : metricsLeft (.metrics k root callers) k left = left := by
  cases k <;> rfl

theorem metricsLeft_afterMetrics (k : Sparse) : metricsLeft (afterMetrics root callers k) k left = left.tail ∧
    ∀ j, j ≠ k → metricsLeft (afterMetrics root callers k) j left = metricsLeft (.metrics k root callers) j left := by
  cases k with
  | int =>
    refine ⟨rfl, fun j hj => ?_⟩
    cases j with
    | int => exact absurd rfl hj
    | double => rfl
  | double =>
    refine ⟨rfl, fun j hj => ?_⟩
    cases j with
    | int => rfl
    | double => exact absurd rfl hj

theorem afterMetrics_ne (k : Sparse) (others : List (ℕ × ℕ)) : afterMetrics root callers k ≠ .returned others := by
  cases k <;> exact nofun

omit [DecidableEq L] in
theorem shape_afterMetrics {nodes : Pool (NodeList L) Node} {tasks : TaskList L → Option ℕ} (k : Sparse)
    (h : Shape nodes nodeLists tasks taskLists l (.metrics k root callers) left) :
    Shape nodes nodeLists tasks taskLists l (afterMetrics root callers k) left := by
  cases k <;> exact h

theorem Inv.storeMetrics (h : Inv s nodeLists metricLists taskLists) {k : Sparse} {first last : ℕ}
    {records : List ℕ} (hl : s.activities l = .metrics k root callers)
    (hfirst : (s.nodes.objects root).firstSparse k = some first)
    (hchain : Chain (s.metrics k).objects (some first) (records ++ [last])) : ∃ metricLists',
      Inv ((s.storeMetrics l k first records last).goOn l (afterMetrics root callers k))
        nodeLists metricLists' taskLists := by
  have hshape := h.shape l
  have hchains := h.left l
  rw [hl] at hshape hchains
  obtain ⟨rest, hleft, hwaiting⟩ := hshape
  have hmine := hchains k
  rw [metricsLeft_metrics, hleft, map_cons] at hmine
  obtain ⟨mine, others, hsplit, hnode, hothers⟩ := hmine
  rw [hfirst] at hnode
  obtain rfl : mine = records ++ [last] := hnode.unique hchain
  have hdrop : (s.releasingMetrics l k).drop (records ++ [last]).length = others := by
    rw [hsplit, drop_left]
  have hnodup := (h.metricsApart k).nodup l
  rw [hsplit] at hnodup
  obtain ⟨hnodup, -, hdisjoint⟩ := nodup_append.1 hnodup
  have hmem : ∀ a ∈ records ++ [last], a ∈ s.releasingMetrics l k := by
    intro a ha
    rw [hsplit]
    exact mem_append_left _ ha
  have hlast : last ∈ s.releasingMetrics l k := hmem last (mem_append_right _ mem_cons_self)
  have hpool := (h.metrics k).give (i := l) records last (segment_snoc.1 hchain).1 hnodup
    fun a ha => h.metricsInUse k l a (hmem a ha)
  have hstep := h.metricsStep l (afterMetrics root callers k) k
    ((((s.metrics k).setObject last ((s.metrics k).heads l)).setHead l (some first)).release (records ++ [last]))
    (records ++ [last]) others hpool hsplit (fun a ha hnot => mem_filter.2 ⟨ha, decide_eq_true hnot⟩)
    (fun a ha => Or.inl ?_) (afterMetrics_ne k) (shape_afterMetrics k ⟨rest, hleft, hwaiting⟩) (fun j => ?_)
  · rw [← hdrop] at hstep
    exact ⟨_, hstep⟩
  · by_contra hnot
    exact ha (update_of_ne (fun heq => hnot (by rw [heq]; exact hlast)) _ _)
  · by_cases hj : j = k
    · subst hj
      rw [(metricsLeft_afterMetrics j).1, update_self, update_self, hleft]
      refine hothers.congr fun a ha => update_of_ne (fun heq => ?_) _ _
      exact hdisjoint last (mem_append_right _ mem_cons_self) a ha heq.symm
    · rw [(metricsLeft_afterMetrics k).2 j hj, update_of_ne hj, update_of_ne hj]
      exact hchains j

end ScoreP.Recycling
