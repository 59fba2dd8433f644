import ScoreP.Ompt.TargetData
import ScoreP.Foundations.Transition

/-!
# When the data of target regions is safe

`Timely` says which steps the reference counting of the target data copes with: a record that brings
an object's count to its end is handled only after the region has ended and no operation on its cell
is under way, no transfer outside of a target region is recorded, a region that ends has issued an
operation, an operation begins on a cell whose object is not freed, and every record has a time.
`sound_of_timely`: in a run of such steps no object is accessed after it was freed, freed twice or too
early, and when everything is through each has been freed exactly once.

`Inv` carries it. `counted` is its heart: an object's records are those processed and those that are
still on their way.
-/

namespace ScoreP.Ompt.Target

open Foundations Function List

namespace State

def ids (s : State) : List (Option ℕ) :=
  s.issued.map (·.targetId) ++ s.buffers.flatten.map (·.targetId)

def Quiet (s : State) : Prop :=
  s.ids = [] ∧ ∀ cell, (s.cells cell).phase = .idle

end State

/-- Nothing has gone wrong, and in the end each object has been freed once. -/
structure Sound (s : State) : Prop where
  noFault : s.faults = []
  frees_le : ∀ object, s.frees object ≤ 1
  freed : s.Quiet → ∀ object < s.allocated, s.frees object = 1

/-- A record of an object can be handled: it is no transfer outside of a target region, and where it
is the last one that is counted, nothing is under way on the object's cell. -/
def RecordTimely (s : State) (r : Record) (object : ℕ) : Prop :=
  ¬ (r.kind = .dataOp .transfer ∧ (s.data object).targetId = none) ∧
  ((s.data object).processedRecords + 1 = (s.data object).numRecords →
    ∀ cell, (s.cells cell).value = some object → (s.cells cell).phase = .idle)

def Timely (s : State) : Action → Prop
  | .targetEnd cell =>
    ∀ object, (s.cells cell).value = some object → 0 < (s.data object).numRecords
  | .dataOpBegin cell _ => ∀ object, (s.cells cell).value = some object → s.frees object = 0
  | .complete records _ _ => ∀ r ∈ records, r.time ≠ none
  | .handle buffer => ∀ r rest object, s.buffers[buffer]? = some (r :: rest) →
    r.targetId = some object → RecordTimely s r object
  | _ => True

/-! ## The invariant -/

structure Inv (s : State) : Prop where
  noFault : s.faults = []
  held : ∀ c o, (s.cells c).value = some o → o < s.allocated
  sole : ∀ c c' o, (s.cells c).value = some o → (s.cells c').value = some o → c = c'
  busy : ∀ c, (s.cells c).phase ≠ .idle → ∃ o, (s.cells c).value = some o ∧ s.frees o = 0
  region : ∀ c n o, (s.cells c).phase = .region n → (s.cells c).value = some o →
    (s.data o).active = true ∧ (s.data o).targetId ≠ none
  active : ∀ o, (s.data o).active = true → ∃ c n, (s.cells c).phase = .region n ∧ (s.cells c).value = some o
  counted : ∀ o < s.allocated, (s.data o).numRecords = (s.data o).processedRecords + s.ids.count (some o)
  known : ∀ id ∈ s.ids, ∃ o < s.allocated, id = some o
  freed : ∀ o, s.frees o = 0 ∨ s.frees o = 1 ∧ o < s.allocated ∧
    (s.data o).processedRecords = (s.data o).numRecords
  kept : ∀ o < s.allocated, s.frees o = 0 → (s.data o).processedRecords < (s.data o).numRecords ∨
      (s.data o).numRecords = 0 ∧ (s.data o).active = true

theorem inv_initial : Inv initial where
  noFault := rfl
  held := nofun
  sole := nofun
  busy := fun _ h => absurd rfl h
  region := nofun
  active := nofun
  counted := fun _ h => absurd h (Nat.not_lt_zero _)
  known := nofun
  freed := fun _ => .inl rfl
  kept := fun _ h => absurd h (Nat.not_lt_zero _)

variable {s t : State} {cell object : ℕ}

theorem Inv.sound (h : Inv s) : Sound s where
  noFault := h.noFault
  frees_le := by
    intro o
    rcases h.freed o with hfree | ⟨hfree, -⟩ <;> omega
  freed := by
    rintro ⟨hids, hidle⟩ o ho
    rcases h.freed o with hfree | ⟨hfree, -⟩
    · have hcounted := h.counted o ho
      rw [hids, count_nil] at hcounted
      rcases h.kept o ho hfree with hkept | ⟨-, hactive⟩
      · omega
      · obtain ⟨c, n, hphase, -⟩ := h.active o hactive
        rw [hidle c] at hphase
        cases hphase
    · exact hfree

theorem Inv.live_of_mem (h : Inv s) (hmem : some object ∈ s.ids) : s.frees object = 0 := by
  rcases h.freed object with hfree | ⟨-, ho, hall⟩
  · exact hfree
  · have hcounted := h.counted object ho
    have hpos := count_pos_iff.mpr hmem
    omega

theorem Inv.live_of_le (h : Inv s) (ho : s.allocated ≤ object) : s.frees object = 0 := by
  rcases h.freed object with hfree | ⟨-, hlt, -⟩
  · exact hfree
  · omega

@[simp] theorem access_live (hlive : s.frees object = 0) : s.access object = s := by
  simp [State.access, hlive]

theorem modify_live (hlive : s.frees object = 0) (f : TargetData → TargetData) : s.modify object f =
      { s with data := update s.data object (f (s.data object)) } := by
  simp [State.modify, hlive]

/-! ## Beginning and ending -/

theorem ids_issue (targetId : Option ℕ) (kind : RecordKind) :
    (s.issue targetId kind).ids.Perm (targetId :: s.ids) := by
  simp only [State.ids, State.issue, map_append, map_cons, map_nil,
    append_assoc, singleton_append]
  exact perm_middle

theorem Inv.count_fresh (h : Inv s) : s.ids.count (some s.allocated) = 0 := by
  rw [count_eq_zero]
  intro hmem
  obtain ⟨o, ho, heq⟩ := h.known _ hmem
  cases heq
  exact Nat.lt_irrefl _ ho

theorem targetBegin_eq (s : State) (cell : ℕ) : targetBegin cell s = { s with
        data := update s.data s.allocated ⟨some s.uniqueId, 0, 0, true⟩
        allocated := s.allocated + 1
        uniqueId := s.uniqueId + 1
        cells := update s.cells cell ⟨some s.allocated, .region 0⟩ } := by
  simp [targetBegin, State.allocate, State.setPhase]

theorem inv_targetBegin (h : Inv s) (hidle : (s.cells cell).phase = .idle) : Inv (targetBegin cell s) := by
  have hfresh : s.frees s.allocated = 0 := h.live_of_le (Nat.le_refl _)
  have hnew := h.count_fresh
  have hheld := h.held
  rw [targetBegin_eq]
  constructor
  · exact h.noFault
  · intro c o hvalue
    dsimp only at hvalue ⊢
    grind
  · intro c c' o hvalue hvalue'
    have hsole := h.sole c c' o
    dsimp only at hvalue hvalue'
    grind
  · intro c hphase
    have hbusy := h.busy c
    dsimp only at hphase ⊢
    grind
  · intro c n o hphase hvalue
    have hregion := h.region c n o
    dsimp only at hphase hvalue ⊢
    grind
  · intro o hactive
    by_cases ho : o = s.allocated
    · exact ⟨cell, 0, by simp [ho]⟩
    · dsimp only at hactive
      rw [update_of_ne ho] at hactive
      obtain ⟨c, n, hphase, hvalue⟩ := h.active o hactive
      have hc : c ≠ cell := by
        rintro rfl
        rw [hidle] at hphase
        cases hphase
      exact ⟨c, n, by simpa [hc] using ⟨hphase, hvalue⟩⟩
  · intro o ho
    have hcounted := h.counted o
    change _ = _ + s.ids.count (some o)
    dsimp only at ho ⊢
    grind
  · intro id hid
    obtain ⟨o, ho, rfl⟩ := h.known id hid
    exact ⟨o, Nat.lt_succ_of_lt ho, rfl⟩
  · intro o
    have hfreed := h.freed o
    dsimp only
    grind
  · intro o ho hfree
    have hkept := h.kept o
    dsimp only at ho hfree ⊢
    grind

theorem inv_targetEnd (h : Inv s) (hphase : (s.cells cell).phase = .region 0)
    (htimely : Timely s (.targetEnd cell)) : Inv (targetEnd cell s) := by
  obtain ⟨object, hvalue, hlive⟩ := h.busy cell (by simp [hphase])
  have hissued := htimely object hvalue
  have hend : targetEnd cell s =
      { s with
        data := update s.data object { s.data object with active := false }
        cells := update s.cells cell ⟨some object, .idle⟩ } := by
    simp [targetEnd, hvalue, modify_live hlive, State.setPhase]
  have hsole := fun c hc => h.sole c cell object hc hvalue
  rw [hend]
  constructor
  · exact h.noFault
  · intro c o hc
    have hheld := h.held c o
    have hheld' := h.held cell o
    dsimp only at hc ⊢
    grind
  · intro c c' o hc hc'
    have hold := h.sole c c' o
    have hold' := h.sole c cell o
    have hold'' := h.sole c' cell o
    dsimp only at hc hc'
    grind
  · intro c hc
    have hbusy := h.busy c
    dsimp only at hc ⊢
    grind
  · intro c n o hc ho
    have hregion := h.region c n o
    dsimp only at hc ho ⊢
    grind
  · intro o hactive
    by_cases ho : o = object
    · subst ho
      simp at hactive
    · dsimp only at hactive
      rw [update_of_ne ho] at hactive
      obtain ⟨c, n, hc, ho'⟩ := h.active o hactive
      have hne : c ≠ cell := by
        rintro rfl
        rw [hvalue] at ho'
        exact ho (Option.some_inj.mp ho').symm
      exact ⟨c, n, by simpa [hne] using ⟨hc, ho'⟩⟩
  · intro o ho
    have hcounted := h.counted o ho
    change _ = _ + s.ids.count (some o)
    dsimp only
    grind
  · exact h.known
  · intro o
    have hfreed := h.freed o
    dsimp only
    grind
  · intro o ho hfree
    have hkept := h.kept o ho hfree
    dsimp only
    grind

theorem Phase.region_of_beginOperation {phase : Phase} {n : ℕ}
    (h : phase.beginOperation = .region n) : ∃ m, phase = .region m := by
  cases phase with
  | region m => exact ⟨m, rfl⟩
  | _ => cases h

theorem inv_attach (h : Inv s) (hvalue : (s.cells cell).value = some object)
    (hlive : s.frees object = 0) (hphase : (s.cells cell).phase ≠ .operation) (kind : RecordKind) :
    Inv (((s.modify object fun d => { d with numRecords := d.numRecords + 1 }).issue
      (some object) kind).setPhase cell (s.cells cell).phase.beginOperation) := by
  have hids := ids_issue (s := s) (some object) kind
  have ho : object < s.allocated := h.held cell object hvalue
  rw [modify_live hlive]
  constructor
  · exact h.noFault
  · intro c o hc
    have hheld := h.held c o
    have hheld' := h.held cell o
    simp only [State.setPhase, State.issue] at hc ⊢
    grind
  · intro c c' o hc hc'
    have hold := h.sole c c' o
    have hold' := h.sole c cell o
    have hold'' := h.sole c' cell o
    simp only [State.setPhase, State.issue] at hc hc'
    grind
  · intro c hc
    have hbusy := h.busy c
    simp only [State.setPhase, State.issue] at hc ⊢
    grind
  · intro c n o hc ho
    simp only [State.setPhase, State.issue] at hc ho ⊢
    have hold : ∃ m, (s.cells c).phase = .region m ∧ (s.cells c).value = some o := by
      by_cases hne : c = cell
      · subst hne
        rw [update_self] at hc ho
        obtain ⟨m, hm⟩ := Phase.region_of_beginOperation hc
        exact ⟨m, hm, ho⟩
      · rw [update_of_ne hne] at hc ho
        exact ⟨n, hc, ho⟩
    obtain ⟨m, hm, hv⟩ := hold
    have hregion := h.region c m o hm hv
    grind
  · intro o hactive
    have hold : (s.data o).active = true := by
      simp only [State.setPhase, State.issue] at hactive
      grind
    obtain ⟨c, n, hc, hv⟩ := h.active o hold
    by_cases hne : c = cell
    · subst hne
      exact ⟨c, n + 1, by simp [State.setPhase, State.issue, hc, hv, Phase.beginOperation]⟩
    · exact ⟨c, n, by simpa [State.setPhase, State.issue, hne] using ⟨hc, hv⟩⟩
  · intro o ho
    have hcounted := h.counted o ho
    have hcount := hids.count_eq (some o)
    change _ = _ + (s.issue (some object) kind).ids.count (some o)
    rw [hcount]
    simp only [State.setPhase, State.issue]
    grind
  · intro id hid
    rcases mem_cons.mp (hids.mem_iff.mp hid) with rfl | hid
    · exact ⟨object, ho, rfl⟩
    · exact h.known id hid
  · intro o
    have hfreed := h.freed o
    simp only [State.setPhase, State.issue]
    grind
  · intro o ho hfree
    have hkept := h.kept o ho hfree
    have hcounted := h.counted o ho
    simp only [State.setPhase, State.issue]
    grind

theorem inv_standalone (h : Inv s) (hphase : (s.cells cell).phase = .idle) (kind : RecordKind) : Inv ((({ s with
        data := update s.data s.allocated ⟨none, 1, 0, false⟩
        allocated := s.allocated + 1
        cells := update s.cells cell ⟨some s.allocated, .operation⟩ } : State).issue
      (some s.allocated) kind)) := by
  have hids := ids_issue (s := s) (some s.allocated) kind
  have hfresh : s.frees s.allocated = 0 := h.live_of_le (Nat.le_refl _)
  have hnew := h.count_fresh
  have hheld := h.held
  constructor
  · exact h.noFault
  · intro c o hc
    simp only [State.issue] at hc ⊢
    grind
  · intro c c' o hc hc'
    have hold := h.sole c c' o
    simp only [State.issue] at hc hc'
    grind
  · intro c hc
    have hbusy := h.busy c
    simp only [State.issue] at hc ⊢
    grind
  · intro c n o hc ho
    have hregion := h.region c n o
    simp only [State.issue] at hc ho ⊢
    grind
  · intro o hactive
    by_cases ho : o = s.allocated
    · simp [State.issue, ho] at hactive
    · simp only [State.issue] at hactive
      rw [update_of_ne ho] at hactive
      obtain ⟨c, n, hc, hv⟩ := h.active o hactive
      have hne : c ≠ cell := by
        rintro rfl
        rw [hphase] at hc
        cases hc
      exact ⟨c, n, by simpa [State.issue, hne] using ⟨hc, hv⟩⟩
  · intro o ho
    have hcounted := h.counted o
    have hcount := hids.count_eq (some o)
    change _ = _ + (s.issue (some s.allocated) kind).ids.count (some o)
    rw [hcount]
    simp only [State.issue] at ho ⊢
    grind
  · intro id hid
    rcases mem_cons.mp (hids.mem_iff.mp hid) with rfl | hid
    · exact ⟨s.allocated, Nat.lt_succ_self _, rfl⟩
    · obtain ⟨o, ho, rfl⟩ := h.known id hid
      exact ⟨o, Nat.lt_succ_of_lt ho, rfl⟩
  · intro o
    have hfreed := h.freed o
    simp only [State.issue]
    grind
  · intro o ho hfree
    have hkept := h.kept o
    simp only [State.issue] at ho hfree ⊢
    grind

theorem inv_setCell (cell : ℕ) (h : Inv s) {cells : ℕ → Cell} (hother : ∀ c, c ≠ cell → cells c = s.cells c)
    (hvalue : ∀ o, (cells cell).value = some o → (s.cells cell).value = some o)
    (hbusy : (cells cell).phase ≠ .idle →
      (s.cells cell).phase ≠ .idle ∧ (cells cell).value = (s.cells cell).value)
    (hregion : (∃ n, (cells cell).phase = .region n) ↔ ∃ n, (s.cells cell).phase = .region n) :
    Inv { s with cells := cells } where
  noFault := h.noFault
  held := by
    intro c o hc
    have hheld := h.held c o
    grind
  sole := by
    intro c c' o hc hc'
    have hold := h.sole c c' o
    grind
  busy := by
    intro c hc
    have hold := h.busy c
    grind
  region := by
    intro c n o hc ho
    have hold := h.region c
    dsimp only at hc ho ⊢
    by_cases hne : c = cell
    · subst hne
      obtain ⟨m, hm⟩ := hregion.mp ⟨n, hc⟩
      exact hold m o hm (hvalue o ho)
    · rw [hother c hne] at hc ho
      exact hold n o hc ho
  active := by
    intro o hactive
    obtain ⟨c, n, hc, ho⟩ := h.active o hactive
    by_cases hne : c = cell
    · subst hne
      obtain ⟨m, hm⟩ := hregion.mpr ⟨n, hc⟩
      have hsame := (hbusy (by simp [hm])).2
      exact ⟨c, m, hm, hsame.trans ho⟩
    · exact ⟨c, n, by simpa [hother c hne] using ⟨hc, ho⟩⟩
  counted := h.counted
  known := h.known
  freed := h.freed
  kept := h.kept

theorem inv_endOperation (h : Inv s) (hphase : (s.cells cell).phase ≠ .idle) :
    Inv (s.setPhase cell (s.cells cell).phase.endOperation) := by
  refine inv_setCell cell h ?_ ?_ ?_ ?_
  · intro c hc
    simp [hc]
  · intro o ho
    simpa using ho
  · intro _
    exact ⟨hphase, by simp⟩
  · cases hp : (s.cells cell).phase <;> simp [Phase.endOperation]

theorem inv_clear (h : Inv s) (hphase : (s.cells cell).phase = .idle) : Inv (s.setValue cell none) := by
  refine inv_setCell cell h ?_ ?_ ?_ ?_
  · intro c hc
    simp [hc]
  · intro o ho
    simp at ho
  · intro hbusy
    exact absurd (by simpa using hphase) hbusy
  · simp

theorem inv_dataOpBegin (h : Inv s) {optype : OpType} (hphase : (s.cells cell).phase ≠ .operation)
    (hdevice : optype.hasDevice = true) (htimely : Timely s (.dataOpBegin cell optype)) :
    Inv (dataOpBegin cell optype s) := by
  have hregion : optype.hasRegion = true := by
    cases optype with
    | associate => cases hdevice
    | _ => rfl
  have hfresh : s.frees s.allocated = 0 := h.live_of_le (Nat.le_refl _)
  -- a new object is only made where no target region is under way
  have hnew : (s.cells cell).phase = .idle →
      Inv ((dataOpCount cell optype s.allocated (s.allocate cell ⟨none, 0, 0, false⟩)).setPhase cell
        (s.cells cell).phase.beginOperation) := by
    intro hidle
    have hcount := inv_standalone h hidle (.dataOp optype)
    simpa [dataOpCount, hregion, State.allocate, State.modify, State.access, hfresh, State.issue,
      State.setPhase, hidle, Phase.beginOperation] using hcount
  have hidle_of : (∀ n, (s.cells cell).phase ≠ .region n) → (s.cells cell).phase = .idle := by
    intro hnot
    cases hp : (s.cells cell).phase with
    | idle => rfl
    | operation => exact absurd hp hphase
    | region n => exact absurd hp (hnot n)
  unfold dataOpBegin
  cases hvalue : (s.cells cell).value with
  | none =>
    apply hnew
    apply hidle_of
    intro n hn
    obtain ⟨o, ho, -⟩ := h.busy cell (by simp [hn])
    rw [hvalue] at ho
    cases ho
  | some object =>
    have hlive := htimely object hvalue
    dsimp only
    rw [access_live hlive]
    split
    · rename_i hnone
      apply hnew
      apply hidle_of
      intro n hn
      exact (h.region cell n object hn hvalue).2 hnone
    · have hattach := inv_attach h hvalue hlive hphase (.dataOp optype)
      have hcount : dataOpCount cell optype object s =
          (s.modify object fun d => { d with numRecords := d.numRecords + 1 }).issue
            (some object) (.dataOp optype) := by
        simp [dataOpCount, hregion, access_live hlive, modify_live hlive, hvalue]
      rw [hcount]
      exact hattach

/-! ## Records -/

theorem inv_evaluateBuffer (h : Inv s) {records order : List Record} {rest : List Issue}
    (hissued : s.issued.Perm (records.map Record.issue ++ rest))
    (horder : order.Perm (records.filter (·.time ≠ none))) (htimed : ∀ r ∈ records, r.time ≠ none) :
    Inv (evaluateBuffer records order { s with issued := rest }) := by
  have hall : records.filter (·.time ≠ none) = records := by
    rw [filter_eq_self]
    intro r hr
    simpa using htimed r hr
  have hany : records.any (·.time = none) = false := by
    rw [any_eq_false]
    intro r hr
    simpa using htimed r hr
  have hids : (evaluateBuffer records order { s with issued := rest }).ids.Perm s.ids := by
    rw [hall] at horder
    have htargets : (records.map Record.issue).map (·.targetId) = records.map (·.targetId) := by
      rw [map_map]
      rfl
    have hissued' := hissued.map (·.targetId)
    rw [map_append, htargets] at hissued'
    simp only [State.ids, evaluateBuffer, hany, Bool.false_eq_true, if_false, flatten_append,
      map_append, flatten_cons, flatten_nil, append_nil]
    calc rest.map (·.targetId) ++ (s.buffers.flatten.map (·.targetId) ++ order.map (·.targetId))
      _ ~ rest.map (·.targetId) ++ (s.buffers.flatten.map (·.targetId) ++ records.map (·.targetId)) :=
          List.Perm.append_left _ (List.Perm.append_left _ (horder.map _))
      _ ~ records.map (·.targetId) ++ rest.map (·.targetId) ++ s.buffers.flatten.map (·.targetId) := by
          rw [← append_assoc, append_assoc (records.map _)]
          exact perm_append_comm
      _ ~ s.issued.map (·.targetId) ++ s.buffers.flatten.map (·.targetId) :=
          List.Perm.append_right _ hissued'.symm
  rw [evaluateBuffer, hany] at hids ⊢
  constructor
  · exact h.noFault
  · exact h.held
  · exact h.sole
  · exact h.busy
  · exact h.region
  · exact h.active
  · intro o ho
    have hcount := hids.count_eq (some o)
    rw [hcount]
    exact h.counted o ho
  · intro id hid
    exact h.known id (hids.mem_iff.mp hid)
  · exact h.freed
  · exact h.kept

variable {rest : List Record}

theorem flatten_set {buffers : List (List Record)} {buffer : ℕ} {r : Record}
    (hbuffer : buffers[buffer]? = some (r :: rest)) :
    buffers.flatten ~ r :: (buffers.set buffer rest).flatten := by
  induction buffers generalizing buffer with
  | nil => simp at hbuffer
  | cons first buffers ih =>
    cases buffer with
    | zero =>
      simp only [List.getElem?_cons_zero, Option.some_inj] at hbuffer
      subst hbuffer
      exact List.Perm.refl _
    | succ buffer =>
      have hrest := ih hbuffer
      rw [flatten_cons, set_cons_succ, flatten_cons]
      exact (List.Perm.append_left first hrest).trans perm_middle

theorem inv_process (h : Inv s) {r : Record} {buffer : ℕ}
    (hbuffer : s.buffers[buffer]? = some (r :: rest)) (htarget : r.targetId = some object)
    (hidle : (s.data object).processedRecords + 1 = (s.data object).numRecords →
      ∀ cell, (s.cells cell).value = some object → (s.cells cell).phase = .idle) : Inv { s with
      buffers := s.buffers.set buffer rest
      data := update s.data object
        { s.data object with processedRecords := (s.data object).processedRecords + 1 }
      frees := if (s.data object).processedRecords + 1 = (s.data object).numRecords then
        update s.frees object 1 else s.frees } := by
  have hids : s.ids ~
      some object :: (s.issued.map (·.targetId) ++ (s.buffers.set buffer rest).flatten.map (·.targetId)) := by
    have hflat := (flatten_set hbuffer).map (·.targetId)
    rw [map_cons, htarget] at hflat
    exact (List.Perm.append_left _ hflat).trans perm_middle
  have hlive : s.frees object = 0 := h.live_of_mem (hids.mem_iff.mpr mem_cons_self)
  have hallocated : object < s.allocated := by
    obtain ⟨o, ho, heq⟩ := h.known (some object) (hids.mem_iff.mpr mem_cons_self)
    cases heq
    exact ho
  constructor
  · exact h.noFault
  · exact h.held
  · exact h.sole
  · intro c hc
    obtain ⟨o, hvalue, hfree⟩ := h.busy c hc
    refine ⟨o, hvalue, ?_⟩
    dsimp only
    split
    · rename_i hlast
      have hne : o ≠ object := by
        rintro rfl
        exact hc (hidle hlast c hvalue)
      rw [update_of_ne hne]
      exact hfree
    · exact hfree
  · intro c n o hc ho
    have hregion := h.region c n o hc ho
    dsimp only
    grind
  · intro o hactive
    apply h.active
    dsimp only at hactive
    grind
  · intro o ho
    have hcounted := h.counted o ho
    have hcount := hids.count_eq (some o)
    rw [count_cons] at hcount
    dsimp only [State.ids]
    by_cases heq : o = object
    · subst heq
      simp only [beq_self_eq_true, if_true] at hcount
      rw [update_self]
      dsimp only
      omega
    · have hne : (some object == some o) = false := by simpa using fun h' => heq h'.symm
      rw [update_of_ne heq]
      rw [hne] at hcount
      simp only [Bool.false_eq_true, if_false] at hcount
      omega
  · intro id hid
    exact h.known id (hids.mem_iff.mpr (mem_cons_of_mem _ hid))
  · intro o
    have hfreed := h.freed o
    dsimp only
    split <;> grind
  · intro o ho hfree
    have hkept := h.kept o ho
    have hcounted := h.counted o ho
    have hcount := hids.count_eq (some o)
    rw [count_cons] at hcount
    dsimp only at hfree ⊢
    split at hfree <;> grind

theorem inv_handleRecord (h : Inv s) {r : Record} {buffer : ℕ}
    (hbuffer : s.buffers[buffer]? = some (r :: rest)) (htimely : Timely s (.handle buffer)) :
    Inv (handleRecord r { s with buffers := s.buffers.set buffer rest }) := by
  have hmem : r.targetId ∈ s.ids := by
    have hflat : r ∈ s.buffers.flatten := (flatten_set hbuffer).mem_iff.mpr mem_cons_self
    exact mem_append_right _ (mem_map_of_mem hflat)
  obtain ⟨object, hallocated, htarget⟩ := h.known _ hmem
  obtain ⟨hkind, hidle⟩ := htimely r rest object hbuffer htarget
  rw [htarget] at hmem
  have hlive := h.live_of_mem hmem
  have hcounted := h.counted object hallocated
  have hpos := count_pos_iff.mpr hmem
  have hprocess := inv_process h hbuffer htarget hidle
  have hactive : (s.data object).processedRecords + 1 = (s.data object).numRecords →
      (s.data object).active = false := by
    intro hlast
    rw [Bool.eq_false_iff]
    intro hactive
    obtain ⟨c, n, hphase, hvalue⟩ := h.active object hactive
    rw [hidle hlast c hvalue] at hphase
    cases hphase
  have hmany : ¬ (s.data object).processedRecords + 1 > (s.data object).numRecords := by omega
  have hlive' : ({ s with buffers := s.buffers.set buffer rest } : State).frees object = 0 := hlive
  rw [handleRecord, htarget]
  dsimp only
  rw [access_live hlive', if_neg hkind]
  dsimp only
  rw [modify_live hlive']
  simp only [update_self, hmany, if_false]
  by_cases hlast : (s.data object).processedRecords + 1 = (s.data object).numRecords
  · rw [if_pos hlast] at hprocess
    rw [if_pos hlast]
    simpa [State.release, hlive, hactive hlast, hlast] using hprocess
  · rw [if_neg hlast] at hprocess
    rw [if_neg hlast]
    exact hprocess

/-! ## Whole runs -/

theorem inv_step {a : Action} (h : Inv s) (htimely : Timely s a) (hstep : step s a = some t) : Inv t := by
  cases a with
  | targetBegin cell =>
    rw [step, Option.ite_none_right_eq_some] at hstep
    obtain ⟨hphase, ht⟩ := hstep
    cases ht
    exact inv_targetBegin h hphase
  | targetEnd cell =>
    rw [step, Option.ite_none_right_eq_some] at hstep
    obtain ⟨hphase, ht⟩ := hstep
    cases ht
    exact inv_targetEnd h hphase htimely
  | dataOpBegin cell optype =>
    rw [step, Option.ite_none_right_eq_some] at hstep
    obtain ⟨⟨hphase, hdevice⟩, ht⟩ := hstep
    cases ht
    exact inv_dataOpBegin h hphase hdevice htimely
  | dataOpEnd cell optype =>
    rw [step, Option.ite_none_right_eq_some] at hstep
    obtain ⟨⟨hphase, -, hdevice⟩, ht⟩ := hstep
    cases ht
    obtain ⟨object, hvalue, hlive⟩ := h.busy cell hphase
    have hregion : optype.hasRegion = true := by
      cases optype with
      | associate => cases hdevice
      | _ => rfl
    have hend := inv_endOperation h hphase
    simpa [dataOpEnd, hvalue, access_live hlive, hregion] using hend
  | submitBegin cell =>
    rw [step] at hstep
    split at hstep
    · rename_i n hphase
      cases hstep
      obtain ⟨object, hvalue, hlive⟩ := h.busy cell (by simp [hphase])
      have hattach := inv_attach h hvalue hlive (by simp [hphase]) .submit
      rw [submitBegin, hvalue]
      exact hattach
    · cases hstep
  | submitEnd cell =>
    rw [step] at hstep
    split at hstep
    · rename_i n hphase
      cases hstep
      obtain ⟨object, hvalue, hlive⟩ := h.busy cell (by simp [hphase])
      have hbusy : (s.cells cell).phase ≠ .idle := by simp [hphase]
      have hend := inv_endOperation h hbusy
      rw [submitEnd, hvalue]
      dsimp only
      rw [access_live hlive]
      exact hend
    · cases hstep
  | clear cell =>
    rw [step, Option.ite_none_right_eq_some] at hstep
    obtain ⟨hphase, ht⟩ := hstep
    cases ht
    exact inv_clear h hphase
  | complete records order rest =>
    rw [step, Option.ite_none_right_eq_some] at hstep
    obtain ⟨⟨hissued, horder, -⟩, ht⟩ := hstep
    cases ht
    exact inv_evaluateBuffer h hissued horder htimely
  | handle buffer =>
    rw [step] at hstep
    split at hstep
    · rename_i r rest hbuffer
      cases hstep
      exact inv_handleRecord h hbuffer htimely
    · cases hstep

/-- In every run of timely steps the target data is used only while it is live and freed once. -/
theorem sound_of_timely {acts : List Action}
    (hrun : Steps (fun s a t => Timely s a ∧ step s a = some t) initial acts s) : Sound s :=
  (hrun.invariant_of_guard (fun _ _ _ h htimely hstep => inv_step h htimely hstep) inv_initial).sound

def transferRecord : Record := ⟨some 0, .dataOp .transfer, some 5⟩

def lateBuffer : List Action :=
  [.targetBegin 0, .dataOpBegin 0 .transfer, .dataOpEnd 0 .transfer, .targetEnd 0,
    .complete [transferRecord] [transferRecord] [], .handle 0]

def earlyBuffer : List Action :=
  [.targetBegin 0, .dataOpBegin 0 .transfer, .dataOpEnd 0 .transfer,
    .complete [transferRecord] [transferRecord] [], .handle 0, .targetEnd 0]

theorem sound_of_timely_late : ∃ s, Steps (fun s a t => step s a = some t) initial lateBuffer s ∧ Sound s := by
  have hrun : ∃ s, Steps (fun s a t => Timely s a ∧ step s a = some t) initial lateBuffer s := by
    refine ⟨_, .cons ⟨trivial, rfl⟩ (.cons ⟨?_, rfl⟩ (.cons ⟨trivial, rfl⟩ (.cons ⟨?_, rfl⟩
      (.cons ⟨?_, rfl⟩ (.cons ⟨?_, rfl⟩ (.nil _))))))⟩
    · rintro object -
      rfl
    · rintro object hvalue
      cases hvalue
      decide
    · rintro r hr
      rw [mem_singleton.mp hr]
      nofun
    · rintro r rest object hbuffer htarget
      cases hbuffer
      cases htarget
      refine ⟨by decide, fun _ cell _ => ?_⟩
      cases cell with
      | zero => rfl
      | succ cell => rfl
  obtain ⟨s, hs⟩ := hrun
  exact ⟨s, hs.mono fun _ _ _ h => h.2, sound_of_timely hs⟩

theorem not_sound_early : ∃ s, Steps (fun s a t => step s a = some t) initial earlyBuffer s ∧ ¬ Sound s := by
  refine ⟨_, .cons rfl (.cons rfl (.cons rfl (.cons rfl (.cons rfl (.cons rfl (.nil _)))))), ?_⟩
  intro hsound
  have hfaults := hsound.noFault
  cases hfaults

end ScoreP.Ompt.Target
