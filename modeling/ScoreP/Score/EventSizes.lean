import ScoreP.Score.Events

/-!
# The bytes of a visit

The size of every event is the one of its last line (`estimatorEvents_eq`), so the bytes of a visit are the
sum over the registered events, and the sum over all registrations misses six of them
(`bytesPerVisits_add_lost`).
-/

namespace ScoreP.Score

open Foundations.FirstEntry List

/-- The size of a name after the lines when it has been `size` before. -/
def EstimatorOutput.valueFrom (output : EstimatorOutput) (name : EventName) (size : ℕ) : ℕ :=
  output.foldl (fun size line => if line.1 = name then line.2 % 2 ^ 32 else size) size

def EstimatorOutput.value (output : EstimatorOutput) (name : EventName) : ℕ :=
  output.valueFrom name 0

/-- What `setEventSize` makes of a size. -/
def Event.scale (event : Event) (size : ℕ) : ℕ :=
  match event.kind with
  | .metric => 2 * size % 2 ^ 32
  | _ => size

def eventSize (output : EstimatorOutput) (event : Event) : ℕ :=
  if event.name = .measurementOnOff then
    2 * (output.value .measurementOnOff + output.value .timestamp) % 2 ^ 32
  else event.scale (output.value event.name)

def eventBytes (profile : Profile) (output : EstimatorOutput) (region : Fin profile.numberOfRegions)
    (event : Event) : ℕ :=
  if event.contributes profile region then
    eventSize output event + (if event.hasTimestamp then output.value .timestamp else 0)
  else 0

def registeredBytes (profile : Profile) (denseNum : ℕ) (output : EstimatorOutput)
    (region : Fin profile.numberOfRegions) : ℕ :=
  ((registrations profile denseNum).map (eventBytes profile output region)).sum

variable (profile : Profile) (denseNum : ℕ) (output : EstimatorOutput)

/-! ## Sizes -/

theorem setEventSize_eq (event : Event) (size : ℕ) :
    event.setEventSize size = { event with size := event.scale size } := by
  obtain ⟨name, kind, _⟩ := event
  cases kind <;> rfl

/-- An event as `setEventSize` leaves it for a line with its name. -/
def applyLine (event : Event) (line : EventName × ℕ) : Event :=
  if event.name = line.1 then event.setEventSize (line.2 % 2 ^ 32) else event

theorem calculateEventSizes_eq_map (events : List Event) :
    calculateEventSizes events output = events.map fun event => output.foldl applyLine event := by
  induction output generalizing events with
  | nil => exact (map_id events).symm
  | cons line output ih =>
    rw [calculateEventSizes, foldl_cons]
    change calculateEventSizes _ output = _
    rw [ih, setEventSize, map_map]
    rfl

theorem foldl_applyLine (event : Event) (size : ℕ) :
    output.foldl applyLine { event with size := event.scale size } =
      { event with size := event.scale (output.valueFrom event.name size) } := by
  induction output generalizing size with
  | nil => rfl
  | cons line output ih =>
    rw [foldl_cons, EstimatorOutput.valueFrom, foldl_cons, applyLine]
    by_cases hname : event.name = line.1
    · rw [if_pos hname, if_pos hname.symm, setEventSize_eq]
      exact ih _
    · rw [if_neg hname, if_neg (Ne.symm hname)]
      exact ih _

/-! ## Registrations -/

def Event.Fresh (event : Event) : Prop :=
  event.size = 0 ∧ (event.name = .measurementOnOff → event.kind ≠ .metric)

instance (event : Event) : Decidable event.Fresh :=
  inferInstanceAs (Decidable (_ ∧ _))

theorem Event.Fresh.foldl_applyLine {event : Event} (h : event.Fresh) :
    output.foldl applyLine event = { event with size := event.scale (output.value event.name) } := by
  have hzero : event = { event with size := event.scale 0 } := by
    obtain ⟨name, kind, size⟩ := event
    obtain rfl : size = 0 := h.1
    cases kind <;> rfl
  have hlines := ScoreP.Score.foldl_applyLine output event 0
  rw [← hzero] at hlines
  exact hlines

def EventName.isGeneral : EventName → Bool
  | .timestamp | .enter | .leave | .callingContextEnter | .callingContextLeave | .callingContextSample
  | .metric _ | .parameterInt | .parameterString | .programBegin _ | .programEnd => true
  | _ => false

theorem mem_generalEvents {event : Event} (h : event ∈ generalEvents profile denseNum) :
    event.size = 0 ∧ event.name.isGeneral = true := by
  simp only [generalEvents, mem_append, mem_cons, not_mem_nil, or_false, mem_ite_nil_right] at h
  rcases h with ((((rfl | rfl | rfl) | ⟨-, rfl | rfl | rfl⟩) | ⟨-, rfl⟩) | (rfl | rfl)) | ⟨-, rfl | rfl⟩
  all_goals exact ⟨rfl, rfl⟩

theorem nodup_generalEvents : ((generalEvents profile denseNum).map Event.name).Nodup := by
  rw [generalEvents]
  split <;> split <;> split <;> simp [Event.new]

theorem isGeneral_of_mem_list : ∀ event ∈ listEvents, event.name.isGeneral = false := by
  decide

theorem fresh_of_mem {event : Event} (h : event ∈ registrations profile denseNum) : event.Fresh := by
  have hlist : ∀ event ∈ listEvents, event.Fresh := by decide
  rcases mem_append.1 h with hgeneral | hmem
  · obtain ⟨hsize, hname⟩ := mem_generalEvents profile denseNum hgeneral
    refine ⟨hsize, fun honOff => ?_⟩
    rw [honOff] at hname
    exact absurd hname Bool.false_ne_true
  · exact hlist event hmem

theorem find?_timestamp :
    (registrations profile denseNum).find? (fun event => decide (event.name = .timestamp)) =
      some (.new .timestamp .timestamp) := rfl

theorem find?_measurementOnOff :
    (registrations profile denseNum).find? (fun event => decide (event.name = .measurementOnOff)) =
      some (.new .measurementOnOff (.prefixMatch measurementOnOff false)) := by
  rw [registrations, find?_append]
  have hnone : (generalEvents profile denseNum).find? (fun event => decide (event.name = .measurementOnOff)) =
      none := by
    rw [find?_eq_none]
    intro event hmem hname
    have hgeneral := (mem_generalEvents profile denseNum hmem).2
    rw [of_decide_eq_true hname] at hgeneral
    exact absurd hgeneral Bool.false_ne_true
  rw [hnone]
  rfl

def lostRegistrations : List (EventName × List String) :=
  [(.rmaOpCompleteBlocking, rmaAtomic), (.ioDestroyHandle, ioDelete),
    (.ioOperationBegin, ioNonblockingTransferBegin), (.ioOperationComplete, ioNonblockingTransferEnd),
    (.ioDestroyHandle, ioClose), (.ioDestroyHandle, ioDuplicate)]

theorem lost_registrations : lost Event.name (registrations profile denseNum) =
      lostRegistrations.map fun registration => .new registration.1 (.nameMatch registration.2 true) := by
  have hrest : ∀ event ∈ listEvents, event.name ∉ (generalEvents profile denseNum).map Event.name := by
    intro event hmem hgeneral
    obtain ⟨other, hother, hname⟩ := mem_map.1 hgeneral
    have htrue := (mem_generalEvents profile denseNum hother).2
    rw [hname, isGeneral_of_mem_list event hmem] at htrue
    exact absurd htrue Bool.false_ne_true
  rw [registrations, lost_append (nodup_generalEvents profile denseNum) hrest]
  rfl

/-! ## The events of the constructor -/

theorem calculateEventSizes_registered : calculateEventSizes (registeredEvents profile denseNum) output =
      (registeredEvents profile denseNum).map
        fun event => { event with size := event.scale (output.value event.name) } := by
  rw [calculateEventSizes_eq_map]
  apply map_congr_left
  intro event hmem
  exact (fresh_of_mem profile denseNum (mem_of_mem_build hmem)).foldl_applyLine output

theorem getEventSize_map {f : Event → Event} (hf : ∀ event, (f event).name = event.name) {name : EventName}
    {event : Event}
    (hfind : (registrations profile denseNum).find? (fun event => decide (event.name = name)) = some event) :
    getEventSize ((registeredEvents profile denseNum).map f) name = (f event).size := by
  have hname : (fun event : Event => decide (event.name = name)) ∘ f = fun event => decide (event.name = name) := by
    funext event
    exact congrArg (fun other => decide (other = name)) (hf event)
  rw [getEventSize, find?_map, hname, registeredEvents, find?_build, hfind]
  rfl

theorem estimatorEvents_eq : estimatorEvents profile denseNum output =
      (registeredEvents profile denseNum).map fun event => { event with size := eventSize output event } := by
  rw [estimatorEvents, calculateEventSizes_registered]
  have hname : ∀ event : Event,
      ({ event with size := event.scale (output.value event.name) } : Event).name = event.name := fun _ => rfl
  rw [getEventSize_map profile denseNum hname (find?_measurementOnOff profile denseNum),
    getEventSize_map profile denseNum hname (find?_timestamp profile denseNum), setEventSize, map_map]
  apply map_congr_left
  intro event hmem
  have hfresh := fresh_of_mem profile denseNum (mem_of_mem_build hmem)
  rw [Function.comp_apply, eventSize]
  by_cases honOff : event.name = .measurementOnOff
  · have hkind := hfresh.2 honOff
    rw [if_pos honOff, if_pos honOff]
    obtain ⟨name, kind, size⟩ := event
    cases kind <;> first | exact absurd rfl hkind | rfl
  · rw [if_neg honOff, if_neg honOff]

theorem getEventSize_timestamp :
    getEventSize (estimatorEvents profile denseNum output) .timestamp = output.value .timestamp := by
  have hname : ∀ event : Event, ({ event with size := eventSize output event } : Event).name = event.name :=
    fun _ => rfl
  rw [estimatorEvents_eq, getEventSize_map profile denseNum hname (find?_timestamp profile denseNum)]
  rfl

/-! ## The bytes of a visit -/

variable {profile} (region : Fin profile.numberOfRegions)

theorem bytesPerVisit_eq_sum : bytesPerVisit profile (estimatorEvents profile denseNum output) region =
      ((registeredEvents profile denseNum).map (eventBytes profile output region)).sum := by
  rw [bytesPerVisit, getEventSize_timestamp, estimatorEvents_eq, map_map]
  rfl

def lostBytes : ℕ :=
  (lostRegistrations.map fun registration =>
    if registration.2.contains (profile.getRegionName region) then
      output.value registration.1 + output.value .timestamp
    else 0).sum

theorem bytesPerVisits_add_lost (hregion : profile.getRegionParadigm region ≠ "sampling") :
    bytesPerVisits profile denseNum output region + lostBytes output region =
      registeredBytes profile denseNum output region := by
  have hsum := sum_map_add_lost Event.name (eventBytes profile output region) (registrations profile denseNum)
  rw [lost_registrations, map_map] at hsum
  rw [bytesPerVisits, if_pos hregion, bytesPerVisit_eq_sum, registeredBytes, ← hsum]
  rfl

def NoneLost : Prop :=
  ∀ registration ∈ lostRegistrations, profile.getRegionName region ∈ registration.2 →
    output.value registration.1 + output.value .timestamp = 0

theorem lostBytes_eq_zero_iff : lostBytes output region = 0 ↔ NoneLost output region := by
  rw [lostBytes, List.sum_eq_zero_iff_forall_eq_nat, List.forall_mem_map]
  apply forall₂_congr
  intro registration _
  rw [ite_eq_right_iff, contains_iff_mem]

/-- The bytes of a visit are the sum over all registrations just for the regions without a lost event. -/
theorem bytesPerVisits_eq_iff (hregion : profile.getRegionParadigm region ≠ "sampling") :
    bytesPerVisits profile denseNum output region = registeredBytes profile denseNum output region ↔
      NoneLost output region := by
  rw [← bytesPerVisits_add_lost denseNum output region hregion, ← lostBytes_eq_zero_iff]
  omega

def singleProfile (name paradigm : String) : Profile where
  numberOfRegions := 1
  numberOfProcesses := 1
  regions := fun _ => { name, paradigm, descr := "", numberOfArguments := none }
  roots := []
  hasHits := false

def singleRegion (name paradigm : String) : Fin (singleProfile name paradigm).numberOfRegions :=
  (0 : Fin 1)

theorem bytesPerVisits_eq_iff_main :
    (singleProfile "main" "user").getRegionParadigm (singleRegion "main" "user") ≠ "sampling" ∧
      (bytesPerVisits (singleProfile "main" "user") 0 [(.enter, 3)] (singleRegion "main" "user") =
          registeredBytes (singleProfile "main" "user") 0 [(.enter, 3)] (singleRegion "main" "user") ↔
        NoneLost [(.enter, 3)] (singleRegion "main" "user")) :=
  ⟨by decide, bytesPerVisits_eq_iff 0 [(.enter, 3)] (singleRegion "main" "user") (by decide)⟩

/-- A call of `close` writes an event that destroys a handle, and its bytes are not counted. -/
theorem not_bytesPerVisits_eq :
    ¬ ∀ (profile : Profile) (denseNum : ℕ) (output : EstimatorOutput) (region : Fin profile.numberOfRegions),
      profile.getRegionParadigm region ≠ "sampling" →
        bytesPerVisits profile denseNum output region = registeredBytes profile denseNum output region := by
  intro hall
  have hregion : (singleProfile "close" "io").getRegionParadigm (singleRegion "close" "io") ≠ "sampling" := by
    decide
  have hequal := hall _ 0 [(.ioDestroyHandle, 7)] _ hregion
  have hlost := bytesPerVisits_add_lost 0 [(.ioDestroyHandle, 7)] _ hregion
  have hnone := (lostBytes_eq_zero_iff [(.ioDestroyHandle, 7)] (singleRegion "close" "io")).1 (by omega)
  have hclose : (EventName.ioDestroyHandle, ioClose) ∈ lostRegistrations := by
    rw [lostRegistrations]
    simp
  have hzero := hnone _ hclose mem_cons_self
  exact absurd hzero (by decide)

end ScoreP.Score
