import ScoreP.Mpi.CommAgreement

/-!
# All members define a communicator in the same round

The rounds of the loop are the rounds of `Foundations.Meetings`: `iteration_of_gathered`,
`iteration_of_waiting` and `iteration_of_nothing` say what an iteration does, `Agreed.round` what a round
does, and `unify_communicators` what the whole loop does.
-/

namespace ScoreP.Mpi.Unification

open Foundations List

section Calls

variable {Name H : Type} (newCommunicator : List (Arguments Name H) → Arguments Name H → H)

/-- The calls so far were made for these places, and their results are the fields `unified`. -/
structure Recorded (definitions : List (InterimCommunicatorDef Name)) (places : List ℕ)
    (state : LoopState Name H) : Prop where
  unified_length : state.unified.length = definitions.length
  places_eq : state.calls.map Call.place = places
  handles : ∀ call ∈ state.calls, state.unified[call.place]? = some (some call.handle)

variable {newCommunicator} {definitions : List (InterimCommunicatorDef Name)} {places : List ℕ}
  {state : LoopState Name H}

theorem Recorded.define (h : Recorded definitions places state) {place : ℕ} (hnew : place ∉ places)
    (hlt : place < definitions.length) (arguments : Arguments Name H) :
    Recorded definitions (places ++ [place]) (state.define newCommunicator place arguments) := by
  constructor
  · rw [LoopState.define, length_set, h.unified_length]
  · rw [LoopState.define, map_append, h.places_eq]
    rfl
  · intro call hcall
    rcases mem_append.mp hcall with hold | hlast
    · have hmem : call.place ∈ places := h.places_eq ▸ mem_map_of_mem hold
      have hne : place ≠ call.place := fun heq => hnew (heq ▸ hmem)
      rw [LoopState.define, getElem?_set_ne hne]
      exact h.handles call hold
    · rw [mem_singleton] at hlast
      rw [hlast, LoopState.define]
      exact getElem?_set_self (h.unified_length ▸ hlt)

theorem Recorded.foldl_define (arguments : InterimCommunicatorDef Name → Arguments Name H)
    (entries : List (InterimCommunicatorDef Name × ℕ)) (h : Recorded definitions places state)
    (hnodup : (places ++ entries.map Prod.snd).Nodup) (hlt : ∀ entry ∈ entries, entry.2 < definitions.length) :
    Recorded definitions (places ++ entries.map Prod.snd) (entries.foldl (fun state entry =>
      state.define newCommunicator entry.2 (arguments entry.1)) state) := by
  induction entries generalizing places state with
  | nil => simpa using h
  | cons entry entries ih =>
    rw [map_cons] at hnodup
    have hnew : entry.2 ∉ places := by
      intro hmem
      exact (nodup_append.mp hnodup).2.2 _ hmem _ mem_cons_self rfl
    have hdefine : Recorded definitions (places ++ [entry.2])
        (state.define newCommunicator entry.2 (arguments entry.1)) :=
      h.define hnew (hlt entry mem_cons_self) (arguments entry.1)
    have hsplit : places ++ entry.2 :: entries.map Prod.snd =
        (places ++ [entry.2]) ++ entries.map Prod.snd := by simp
    rw [hsplit] at hnodup
    have hrest := ih hdefine hnodup fun other hother => hlt other (mem_cons_of_mem entry hother)
    rw [foldl_cons, map_cons, hsplit]
    exact hrest

theorem foldl_define_calls (arguments : InterimCommunicatorDef Name → Arguments Name H)
    (entries : List (InterimCommunicatorDef Name × ℕ)) (state : LoopState Name H) :
    state.calls ⊆ (entries.foldl (fun state entry =>
      state.define newCommunicator entry.2 (arguments entry.1)) state).calls := by
  induction entries generalizing state with
  | nil => exact fun _ hcall => hcall
  | cons entry entries ih =>
    intro call hcall
    exact ih _ (mem_append_left _ hcall)

/-! ## Places -/

theorem mem_localInterimCommDefs {entry : InterimCommunicatorDef Name × ℕ} :
    entry ∈ localInterimCommDefs definitions ↔ definitions[entry.2]? = some entry.1 ∧
      entry.1.paradigmMpi = true ∧ payloadBelongsToCommSelf entry.1.payload = false := by
  rw [localInterimCommDefs, mem_filter, mem_zipIdx_iff_getElem?, Bool.and_eq_true, Bool.not_eq_true']

def selfPlaces (definitions : List (InterimCommunicatorDef Name)) : List ℕ :=
  (definitions.zipIdx.filter fun entry =>
    entry.1.paradigmMpi && payloadBelongsToCommSelf entry.1.payload).map Prod.snd

def nonSelfPlaces (definitions : List (InterimCommunicatorDef Name)) : List ℕ :=
  (localInterimCommDefs definitions).map Prod.snd

theorem pairwise_localInterimCommDefs (definitions : List (InterimCommunicatorDef Name)) :
    (localInterimCommDefs definitions).Pairwise fun entry later => entry.2 < later.2 := by
  have hall : definitions.zipIdx.Pairwise fun entry later => entry.2 < later.2 := by
    have hrange := pairwise_lt_range' (s := 0) (n := definitions.length) 1
    rw [← zipIdx_map_snd 0 definitions] at hrange
    exact pairwise_map.mp hrange
  exact hall.sublist filter_sublist

theorem nodup_allPlaces (definitions : List (InterimCommunicatorDef Name)) :
    (nonSelfPlaces definitions ++ selfPlaces definitions).Nodup := by
  have hall : (definitions.zipIdx.map Prod.snd).Nodup := by
    rw [zipIdx_map_snd]
    exact nodup_range' 1
  have hinj := inj_on_of_nodup_map hall
  apply nodup_append.mpr
  refine ⟨hall.sublist (filter_sublist.map _), hall.sublist (filter_sublist.map _), ?_⟩
  intro place hplace other hother heq
  obtain ⟨entry, hentry, rfl⟩ := mem_map.mp hplace
  obtain ⟨later, hlater, rfl⟩ := mem_map.mp hother
  rw [localInterimCommDefs, mem_filter, Bool.and_eq_true, Bool.not_eq_true'] at hentry
  rw [mem_filter, Bool.and_eq_true] at hlater
  have hsame := hinj hentry.1 hlater.1 heq
  have hself := hlater.2.2
  rw [← hsame, hentry.2.2] at hself
  cases hself

theorem parent_mem_take {processed : ℕ} {entry parent : InterimCommunicatorDef Name × ℕ}
    (hentry : (localInterimCommDefs definitions)[processed]? = some entry)
    (hparent : parent ∈ localInterimCommDefs definitions) (hlt : parent.2 < entry.2) :
    parent ∈ (localInterimCommDefs definitions).take processed := by
  have hsplit := take_append_drop processed (localInterimCommDefs definitions)
  have hpairwise := pairwise_localInterimCommDefs definitions
  rw [← hsplit] at hparent hpairwise
  rcases mem_append.mp hparent with hbefore | hafter
  · exact hbefore
  · rw [drop_eq_getElem?_toList_append, hentry] at hafter hpairwise
    have hrest := (pairwise_append.mp hpairwise).2.1
    rcases mem_cons.mp hafter with rfl | hlater
    · exact absurd hlt (lt_irrefl _)
    · have hgt := rel_of_pairwise_cons hrest hlater
      omega

end Calls

section Rounds

variable {worldSize : ℕ} {Name H : Type} (newCommunicator : List (Arguments Name H) → Arguments Name H → H)
  {order : List (Communicator worldSize)}
  {definitions : Fin worldSize → List (InterimCommunicatorDef Name)}

/-- What holds of a rank before each iteration. -/
structure Consistent (worldSize : ℕ) (definitions : List (InterimCommunicatorDef Name))
    (state : LoopState Name H) : Prop where
  groupA_length : state.groupARanks.length = worldSize
  groupB_length : state.groupBRanks.length = worldSize
  recorded : Recorded definitions
    (((localInterimCommDefs definitions).take state.interimCommDefsProcessed).map Prod.snd) state

theorem consistent_start (definitions : List (InterimCommunicatorDef Name)) :
    Consistent worldSize definitions (start worldSize definitions : LoopState Name H) where
  groupA_length := length_replicate
  groupB_length := length_replicate
  recorded := ⟨length_replicate, rfl, fun _ hcall => absurd hcall not_mem_nil⟩

structure Defines (communicator : Communicator worldSize) (rank : Fin worldSize)
    (definition : InterimCommunicatorDef Name) (arguments : Arguments Name H) : Prop where
  payload : definition.payload = communicator.payload rank
  groupA : arguments.groupA = .mpiGroup (communicator.low.map Fin.val)
  groupB : arguments.groupB =
    if communicator.high = [] then none else some (.mpiGroup (communicator.high.map Fin.val))
  name : arguments.name = definition.name
  unifyKey : arguments.unifyKey = communicator.id

variable {states : Fin worldSize → LoopState Name H} {rank : Fin worldSize}

theorem Communicator.payload_rootId (communicator : Communicator worldSize) (rank : Fin worldSize) :
    (communicator.payload rank).rootId = communicator.id := by
  rw [payload]
  split_ifs <;> rfl

variable {c : Communicator worldSize}

theorem Agreed.entry (h : Agreed order definitions) (hhead : (queue order states rank).head? = some c) :
    ∃ entry, (localInterimCommDefs (definitions rank))[(states rank).interimCommDefsProcessed]? =
      some entry ∧ entry.1.payload = c.payload rank := by
  rw [queue, head?_drop] at hhead
  have hmap := congrArg (fun list => list[(states rank).interimCommDefsProcessed]?) (h.payloads rank)
  rw [getElem?_map, getElem?_map, hhead, Option.map_some, Option.map_eq_some_iff] at hmap
  exact hmap

theorem Agreed.next_of_head (h : Agreed order definitions) (hhead : (queue order states rank).head? = some c) :
    @next worldSize _ _ (definitions rank) (states rank) = ⟨c.announcement rank,
        if rank ∈ c.low then c.low.length else c.high.length,
        if rank ∈ c.low then c.high.length else c.low.length, c.members.length⟩ := by
  obtain ⟨horder, hmem⟩ := mem_of_head_queue hhead
  rw [h.next_eq, hhead, Option.map_some, (h.wellFormed c horder).announce_payload h.worldSize_lt hmem]

theorem defines_loopArguments (h : Agreed order definitions)
    (hgathered : Meetings.Gathered IsMember (queue order states) c)
    (hhead : (queue order states rank).head? = some c)
    (hconsistent : Consistent worldSize (definitions rank) (states rank))
    {definition : InterimCommunicatorDef Name} (hpayload : definition.payload = c.payload rank) :
    Defines c rank definition (loopArguments (@next worldSize _ _ (definitions rank) (states rank)) definition
        (states rank) (groupRanks (allNext definitions states) (c.announcement rank)
          ((states rank).groupARanks, (states rank).groupBRanks))) := by
  obtain ⟨horder, hmem⟩ := mem_of_head_queue hhead
  have hmember : ∀ i ∈ c.members, allNext definitions states i = c.announcement i :=
    fun i hi => h.allNext_of_head (hgathered i hi)
  have hsame : ∀ i, sameComm (c.announcement rank) (allNext definitions states i) = true →
      i ∈ c.members := fun i hi => (mem_of_head_queue ((h.sameComm_iff horder i).mp hi)).2
  have hgroups := @groupRanks_members _ _ (h.wellFormed c horder) _ rank hmember hsame
    ((states rank).groupARanks, (states rank).groupBRanks) hconsistent.groupA_length
    hconsistent.groupB_length
  rw [h.next_of_head hhead]
  have hpositive : c.high.length > 0 ↔ ¬ c.high = [] := length_pos_iff
  by_cases hlow : rank ∈ c.low
  · have hzero : (c.announcement rank).high ≠ 1 := by
      rw [Communicator.announcement, if_pos hlow]
      exact zero_ne_one
    refine ⟨hpayload, ?_, ?_, rfl, ?_⟩
    · simp [loopArguments, hzero, hlow, hgroups.1]
    · simp only [loopArguments, hzero, hlow, ne_eq, not_false_eq_true, if_true, hgroups.2, hpositive]
      split_ifs <;> rfl
    · rw [loopArguments, hpayload, c.payload_rootId]
  · have hone : (c.announcement rank).high = 1 := by
      rw [Communicator.announcement, if_neg hlow]
    refine ⟨hpayload, ?_, ?_, rfl, ?_⟩
    · simp [loopArguments, hone, hlow, hgroups.1]
    · simp only [loopArguments, hone, hlow, ne_eq, not_true_eq_false, if_false, hgroups.2, hpositive]
      split_ifs <;> rfl
    · rw [loopArguments, hpayload, c.payload_rootId]

theorem iteration_of_gathered (h : Agreed order definitions)
    (hgathered : Meetings.Gathered IsMember (queue order states) c)
    (hhead : (queue order states rank).head? = some c)
    (hconsistent : Consistent worldSize (definitions rank) (states rank)) :
    ∃ state' entry call, iteration newCommunicator (definitions rank) (allNext definitions states)
        (states rank) = some state' ∧
      state'.interimCommDefsProcessed = (states rank).interimCommDefsProcessed + 1 ∧
      state'.calls = (states rank).calls ++ [call] ∧ Consistent worldSize (definitions rank) state' ∧
      (localInterimCommDefs (definitions rank))[(states rank).interimCommDefsProcessed]? = some entry ∧
      call.place = entry.2 ∧ Defines c rank entry.1 call.arguments ∧
      call.arguments.parent = unifiedParentHandle (states rank) entry.1.parent := by
  obtain ⟨horder, hmem⟩ := mem_of_head_queue hhead
  obtain ⟨⟨definition, place⟩, hentry, hpayload⟩ := h.entry hhead
  have hnext := h.next_of_head hhead
  have hcount : ranksParticipating (allNext definitions states) (c.announcement rank) =
      c.members.length := (h.ranksParticipating_iff horder).mpr hgathered
  have hroot : (c.announcement rank).globalRootRank ≠ uint32Max := by
    rw [(c.announcement_key rank).1]
    exact root_ne_uint32Max h c
  have hdefines := defines_loopArguments h hgathered hhead hconsistent hpayload
  have hlengths := length_groupRanks (allNext definitions states) (c.announcement rank)
    ((states rank).groupARanks, (states rank).groupBRanks)
  have hlocal := mem_localInterimCommDefs.mp (mem_of_getElem? hentry)
  -- the place is new, and the processed places are those of the calls
  have htake : ((localInterimCommDefs (definitions rank)).take
      ((states rank).interimCommDefsProcessed + 1)).map Prod.snd =
      ((localInterimCommDefs (definitions rank)).take
        (states rank).interimCommDefsProcessed).map Prod.snd ++ [place] := by
    rw [take_add_one, hentry, map_append]
    rfl
  have hnodup : (((localInterimCommDefs (definitions rank)).take
      ((states rank).interimCommDefsProcessed + 1)).map Prod.snd).Nodup :=
    (nodup_append.mp (nodup_allPlaces (definitions rank))).1.sublist ((take_sublist _ _).map _)
  have hnew : place ∉ ((localInterimCommDefs (definitions rank)).take
      (states rank).interimCommDefsProcessed).map Prod.snd := by
    rw [htake] at hnodup
    intro hin
    exact (nodup_append.mp hnodup).2.2 _ hin _ mem_cons_self rfl
  have hlt : place < (definitions rank).length := (List.getElem?_eq_some_iff.mp hlocal.1).1
  rw [iteration, hnext]
  simp only [hcount, ne_eq, not_true_eq_false, if_false, hroot, hentry]
  rw [← hnext]
  refine ⟨_, (definition, place), _, rfl, rfl, rfl, ⟨?_, ?_, ?_⟩, rfl, rfl, hdefines, rfl⟩
  · exact hlengths.1.trans hconsistent.groupA_length
  · exact hlengths.2.trans hconsistent.groupB_length
  · have hrecorded : ∀ arguments, Recorded (definitions rank)
        (((localInterimCommDefs (definitions rank)).take
          ((states rank).interimCommDefsProcessed + 1)).map Prod.snd)
        ((states rank).define newCommunicator place arguments) := by
      intro arguments
      rw [htake]
      exact hconsistent.recorded.define hnew hlt arguments
    exact ⟨(hrecorded _).unified_length, (hrecorded _).places_eq, (hrecorded _).handles⟩

theorem iteration_of_waiting (h : Agreed order definitions) (hhead : (queue order states rank).head? = some c)
    (hgathered : ¬ Meetings.Gathered IsMember (queue order states) c) :
    iteration newCommunicator (definitions rank) (allNext definitions states) (states rank) =
      some (states rank) := by
  have hcount : ranksParticipating (allNext definitions states) (c.announcement rank) ≠ c.members.length :=
    mt (h.ranksParticipating_iff (mem_of_head_queue hhead).1).mp hgathered
  rw [iteration, h.next_of_head hhead]
  exact if_pos hcount

theorem iteration_of_nothing (h : Agreed order definitions) (hnil : queue order states rank = []) :
    iteration newCommunicator (definitions rank) (allNext definitions states) (states rank) =
      if ∀ i, queue order states i = [] then none else some (states rank) := by
  have hnext : @next worldSize _ _ (definitions rank) (states rank) =
      ⟨nothingLeft, worldSize, worldSize, worldSize⟩ := by
    rw [h.next_eq, hnil]
    rfl
  have hcount : ranksParticipating (allNext definitions states) nothingLeft = worldSize ↔
      ∀ i, queue order states i = [] := h.ranksParticipating_nothing_iff
  rw [iteration, hnext]
  by_cases hall : ∀ i, queue order states i = []
  · have hmax : nothingLeft.globalRootRank = uint32Max := rfl
    simp [hcount.mpr hall, hall, hmax]
  · simp [mt hcount.mp hall, hall]

/-! ## All rounds -/

theorem Agreed.round (h : Agreed order definitions) (round : ℕ)
    (hconsistent : ∀ rank, Consistent worldSize (definitions rank)
      (after newCommunicator definitions round rank)) (rank : Fin worldSize) :
    queue order (after newCommunicator definitions (round + 1)) rank =
        Meetings.leave IsMember (queue order (after newCommunicator definitions round)) rank ∧
      Consistent worldSize (definitions rank) (after newCommunicator definitions (round + 1) rank) ∧
      (after newCommunicator definitions round rank).calls ⊆
        (after newCommunicator definitions (round + 1) rank).calls ∧
      (BreaksIn newCommunicator definitions round rank ↔
        ∀ i, queue order (after newCommunicator definitions round) i = []) := by
  have hsucc : after newCommunicator definitions (round + 1) rank =
      (iteration newCommunicator (definitions rank)
        (allNext definitions (after newCommunicator definitions round))
        (after newCommunicator definitions round rank)).getD
          (after newCommunicator definitions round rank) := rfl
  have hbreaks : BreaksIn newCommunicator definitions round rank ↔
      iteration newCommunicator (definitions rank)
        (allNext definitions (after newCommunicator definitions round))
        (after newCommunicator definitions round rank) = none := Iff.rfl
  have hsame : ∀ state', state' = after newCommunicator definitions round rank →
      after newCommunicator definitions (round + 1) rank = state' →
      queue order (after newCommunicator definitions (round + 1)) rank =
          queue order (after newCommunicator definitions round) rank ∧
        Consistent worldSize (definitions rank) (after newCommunicator definitions (round + 1) rank) ∧
        (after newCommunicator definitions round rank).calls ⊆
          (after newCommunicator definitions (round + 1) rank).calls := by
    intro state' hold hnew
    rw [hold] at hnew
    rw [queue, queue, hnew]
    exact ⟨rfl, hconsistent rank, fun _ hcall => hcall⟩
  rw [Meetings.leave]
  cases hqueue : queue order (after newCommunicator definitions round) rank with
  | nil =>
    have hiteration := iteration_of_nothing newCommunicator h hqueue
    rw [hiteration] at hsucc hbreaks
    by_cases hall : ∀ i, queue order (after newCommunicator definitions round) i = []
    · rw [if_pos hall] at hsucc hbreaks
      have hkeep := hsame _ rfl hsucc
      exact ⟨hkeep.1.trans hqueue, hkeep.2.1, hkeep.2.2, hbreaks.trans ⟨fun _ => hall, fun _ => rfl⟩⟩
    · rw [if_neg hall] at hsucc hbreaks
      have hkeep := hsame _ rfl hsucc
      exact ⟨hkeep.1.trans hqueue, hkeep.2.1, hkeep.2.2,
        hbreaks.trans ⟨fun hnone => absurd hnone (Option.some_ne_none _), fun hin => absurd hin hall⟩⟩
  | cons c rest =>
    have hhead : (queue order (after newCommunicator definitions round) rank).head? = some c := by
      rw [hqueue]
      rfl
    have hleft : ¬ ∀ i, queue order (after newCommunicator definitions round) i = [] := by
      intro hall
      rw [hall rank] at hqueue
      cases hqueue
    by_cases hgathered : Meetings.Gathered IsMember (queue order (after newCommunicator definitions round)) c
    · rcases iteration_of_gathered newCommunicator h hgathered hhead
        (hconsistent rank) with ⟨state', entry, call, hiteration, hprocessed, hcalls, hnext, -⟩
      rw [hiteration] at hsucc hbreaks
      rw [Option.getD_some] at hsucc
      refine ⟨?_, ?_, ?_, hbreaks.trans ⟨fun hnone => absurd hnone (Option.some_ne_none _),
        fun hin => absurd hin hleft⟩⟩
      · rw [queue] at hqueue
        simp only [hgathered, if_true]
        rw [queue, hsucc, hprocessed, ← tail_drop, hqueue]
        rfl
      · rw [hsucc]
        exact hnext
      · rw [hsucc, hcalls]
        exact subset_append_left _ _
    · have hiteration := iteration_of_waiting newCommunicator h hhead hgathered
      rw [hiteration] at hsucc hbreaks
      have hkeep := hsame _ rfl hsucc
      simp only [hgathered, if_false]
      exact ⟨hkeep.1.trans hqueue, hkeep.2.1, hkeep.2.2,
        hbreaks.trans ⟨fun hnone => absurd hnone (Option.some_ne_none _), fun hin => absurd hin hleft⟩⟩

theorem Agreed.consistent_after (h : Agreed order definitions) (round : ℕ) (rank : Fin worldSize) :
    Consistent worldSize (definitions rank) (after newCommunicator definitions round rank) := by
  induction round generalizing rank with
  | zero => exact consistent_start (definitions rank)
  | succ round ih => exact (h.round newCommunicator round ih rank).2.1

theorem Agreed.queue_after_succ (h : Agreed order definitions) (round : ℕ) :
    queue order (after newCommunicator definitions (round + 1)) =
      Meetings.leave IsMember (queue order (after newCommunicator definitions round)) := by
  funext rank
  exact (h.round newCommunicator round (h.consistent_after newCommunicator round) rank).1

theorem Agreed.breaksIn_iff (h : Agreed order definitions) (round : ℕ) (rank : Fin worldSize) :
    BreaksIn newCommunicator definitions round rank ↔
      ∀ i, queue order (after newCommunicator definitions round) i = [] :=
  (h.round newCommunicator round (h.consistent_after newCommunicator round) rank).2.2.2

theorem Agreed.calls_subset (h : Agreed order definitions) (rank : Fin worldSize) {earlier later : ℕ}
    (hle : earlier ≤ later) : (after newCommunicator definitions earlier rank).calls ⊆
      (after newCommunicator definitions later rank).calls := by
  induction later, hle using Nat.le_induction with
  | base => exact fun _ hcall => hcall
  | succ later _ ih =>
    exact List.Subset.trans ih
      (h.round newCommunicator later (h.consistent_after newCommunicator later) rank).2.2.1

theorem Agreed.ordered (h : Agreed order definitions) :
    Meetings.Ordered IsMember order (queue order (after newCommunicator definitions 0)) where
  nodup := h.nodup
  queue_eq := fun _ => rfl

theorem Consistent.unifiedParentHandle {definitions : List (InterimCommunicatorDef Name)}
    {state : LoopState Name H} (h : Consistent worldSize definitions state)
    {entry parent : InterimCommunicatorDef Name × ℕ}
    (hentry : (localInterimCommDefs definitions)[state.interimCommDefsProcessed]? = some entry)
    (hparent : parent ∈ localInterimCommDefs definitions) (hlt : parent.2 < entry.2) :
    ∃ call ∈ state.calls, call.place = parent.2 ∧
      unifiedParentHandle state (some parent.2) = some call.handle := by
  have hmem := parent_mem_take hentry hparent hlt
  have hplace : parent.2 ∈ state.calls.map Call.place := by
    rw [h.recorded.places_eq]
    exact mem_map_of_mem hmem
  obtain ⟨call, hcall, heq⟩ := mem_map.mp hplace
  refine ⟨call, hcall, heq, ?_⟩
  have hhandle := h.recorded.handles call hcall
  rw [heq] at hhandle
  rw [Unification.unifiedParentHandle, Option.bind_some, hhandle]
  rfl

/-! ## The whole function -/

def result (definitions : Fin worldSize → List (InterimCommunicatorDef Name)) (last : ℕ)
    (rank : Fin worldSize) : LoopState Name H :=
  defineSelfs newCommunicator (definitions rank) (after newCommunicator definitions last rank)

theorem calls_subset_result (last : ℕ) (rank : Fin worldSize) :
    (after newCommunicator definitions last rank).calls ⊆
      (result newCommunicator definitions last rank).calls :=
  foldl_define_calls (fun definition => ⟨.mpiSelf, none, definition.name, none, definition.payload.rootId⟩)
    _ _

theorem Agreed.recorded_result (h : Agreed order definitions) {last : ℕ} {rank : Fin worldSize}
    (hnil : queue order (after newCommunicator definitions last) rank = []) :
    Recorded (definitions rank) (nonSelfPlaces (definitions rank) ++ selfPlaces (definitions rank))
      (result newCommunicator definitions last rank) := by
  have hlength : (localInterimCommDefs (definitions rank)).length = (ownList order rank).length := by
    rw [← length_map (fun entry : InterimCommunicatorDef Name × ℕ => entry.1.payload),
      h.payloads rank, length_map]
  have hall : (localInterimCommDefs (definitions rank)).take
      (after newCommunicator definitions last rank).interimCommDefsProcessed =
        localInterimCommDefs (definitions rank) := by
    apply take_of_length_le
    rw [hlength]
    exact drop_eq_nil_iff.mp hnil
  have hrecorded := (h.consistent_after newCommunicator last rank).recorded
  rw [hall] at hrecorded
  apply Recorded.foldl_define
    (fun definition => ⟨.mpiSelf, none, definition.name, none, definition.payload.rootId⟩) _ hrecorded
    (nodup_allPlaces (definitions rank))
  intro entry hentry
  have hget := mem_zipIdx_iff_getElem?.mp (mem_of_mem_filter hentry)
  exact (List.getElem?_eq_some_iff.mp hget).1

/-- All ranks leave the loop in the same round. Then every rank has made one call for every communicator,
and all members of a communicator that is not self-like made it in the same round, with the same groups
and unify key, and with the result of the call for the parent as parent. -/
theorem unify_communicators (h : Agreed order definitions) :
    ∃ last, (∀ round < last, ∀ rank, ¬ BreaksIn newCommunicator definitions round rank) ∧
      (∀ rank, BreaksIn newCommunicator definitions last rank) ∧
      (∀ rank, (nonSelfPlaces (definitions rank) ++ selfPlaces (definitions rank)).Nodup ∧
        Recorded (definitions rank) (nonSelfPlaces (definitions rank) ++ selfPlaces (definitions rank))
          (result newCommunicator definitions last rank)) ∧
      ∃ roundOf : Communicator worldSize → ℕ, ∀ communicator ∈ order, roundOf communicator < last ∧
        ∀ rank ∈ communicator.members, ∃ call definition,
          (after newCommunicator definitions (roundOf communicator + 1) rank).calls =
            (after newCommunicator definitions (roundOf communicator) rank).calls ++ [call] ∧
          call ∈ (result newCommunicator definitions last rank).calls ∧
          (definitions rank)[call.place]? = some definition ∧
          Defines communicator rank definition call.arguments ∧
          ∀ place parent, definition.parent = some place → (definitions rank)[place]? = some parent →
            parent.paradigmMpi = true → payloadBelongsToCommSelf parent.payload = false →
            ∃ handle, call.arguments.parent = some handle ∧
              (result newCommunicator definitions last rank).unified[place]? = some (some handle) := by
  have hmember : ∀ c ∈ order, ∃ rank, IsMember c rank := by
    intro c hc
    obtain ⟨rank, hrank⟩ := exists_mem_of_ne_nil _ (h.wellFormed c hc).low_ne_nil
    exact ⟨rank, mem_append_left _ hrank⟩
  obtain ⟨last, hlast, hbefore, roundOf, hroundOf⟩ := @Meetings.Ordered.meetings _ _ IsMember _ order
    (fun round => queue order (after newCommunicator definitions round)) (h.ordered newCommunicator)
    (h.queue_after_succ newCommunicator) hmember
  refine ⟨last, ?_, ?_, ?_, roundOf, ?_⟩
  · intro round hlt rank hbreaks
    obtain ⟨other, hother⟩ := hbefore round hlt
    exact hother ((h.breaksIn_iff newCommunicator round rank).mp hbreaks other)
  · intro rank
    exact (h.breaksIn_iff newCommunicator last rank).mpr hlast
  · intro rank
    exact ⟨nodup_allPlaces (definitions rank), h.recorded_result newCommunicator (hlast rank)⟩
  · intro c hc
    obtain ⟨hlt, hgathers⟩ := hroundOf c hc
    refine ⟨hlt, ?_⟩
    intro rank hrank
    have hgathered := (hgathers (roundOf c)).mpr rfl
    have hconsistent := h.consistent_after newCommunicator (roundOf c) rank
    rcases iteration_of_gathered newCommunicator h hgathered (hgathered rank hrank)
      hconsistent with ⟨state', entry, call, hiteration, -, hcalls, -, hentry, hplace, hdefines, hparent⟩
    have hsucc : after newCommunicator definitions (roundOf c + 1) rank = state' := by
      rw [after]
      simp [hiteration]
    have hlocal := mem_localInterimCommDefs.mp (mem_of_getElem? hentry)
    rw [← hsucc] at hcalls
    have hin : call ∈ (after newCommunicator definitions (roundOf c + 1) rank).calls := by
      rw [hcalls]
      exact mem_append_right _ mem_cons_self
    refine ⟨call, entry.1, hcalls, calls_subset_result newCommunicator last rank (h.calls_subset newCommunicator rank hlt hin),
      hplace ▸ hlocal.1, hdefines, ?_⟩
    intro place parent hhas hget hmpi hself
    have hearlier := h.parents rank entry.2 entry.1 hlocal.1 place hhas
    have hlist : (parent, place) ∈ localInterimCommDefs (definitions rank) :=
      mem_localInterimCommDefs.mpr ⟨hget, hmpi, hself⟩
    obtain ⟨parentCall, hparentCall, hparentPlace, hhandle⟩ :=
      hconsistent.unifiedParentHandle hentry hlist hearlier
    refine ⟨parentCall.handle, ?_, ?_⟩
    · rw [hparent, hhas]
      exact hhandle
    · have hfinal := calls_subset_result newCommunicator last rank
        (h.calls_subset newCommunicator rank (Nat.le_of_lt hlt) hparentCall)
      have hunified := (h.recorded_result newCommunicator (hlast rank)).handles parentCall hfinal
      rw [hparentPlace] at hunified
      exact hunified

end Rounds

/-! ## An inter-communicator among three ranks -/

def world : Communicator 3 :=
  ⟨0, 0, [0, 1, 2], []⟩

def bridge : Communicator 3 :=
  ⟨0, 1, [0], [2, 1]⟩

def bridgeDefinitions (rank : Fin 3) : List (InterimCommunicatorDef String) :=
  [⟨true, world.payload rank, none, "MPI_COMM_WORLD"⟩] ++
    (if rank = 1 then [⟨true, createFinalize 1 0 rank [rank] none, some 0, ""⟩] else []) ++
      [⟨true, bridge.payload rank, some 0, ""⟩]

theorem agreed_bridge : Agreed [world, bridge] bridgeDefinitions where
  worldSize_lt := by decide
  keys := by decide
  wellFormed := by
    intro communicator hmem
    rcases mem_pair.mp hmem with rfl | rfl
    · exact ⟨by decide, by decide, by decide, by decide⟩
    · exact ⟨by decide, by decide, by decide, by decide⟩
  payloads := by decide
  parents := by
    intro rank place definition hget parent hparent
    have hall : definition.parent = none ∨ definition.parent = some 0 := by
      have hmem := mem_of_getElem? hget
      simp only [bridgeDefinitions, mem_append, mem_singleton] at hmem
      rcases hmem with (rfl | hself) | rfl
      · exact .inl rfl
      · split_ifs at hself
        · rw [mem_singleton.mp hself]
          exact .inr rfl
        · exact absurd hself not_mem_nil
      · exact .inr rfl
    cases place with
    | zero =>
      cases hget
      cases hparent
    | succ place =>
      rcases hall with hnone | hzero
      · rw [hnone] at hparent
        cases hparent
      · rw [hzero] at hparent
        cases hparent
        exact Nat.succ_pos place

theorem unify_communicators_bridge : ∃ last, ∀ rank,
    BreaksIn (fun earlier _ => earlier.length) bridgeDefinitions last rank := by
  obtain ⟨last, -, hlast, -⟩ :=
    unify_communicators (fun earlier _ => earlier.length) agreed_bridge
  exact ⟨last, hlast⟩

end ScoreP.Mpi.Unification
