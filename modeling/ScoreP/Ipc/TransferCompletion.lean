import Mathlib.Algebra.Order.BigOperators.Group.Finset
import ScoreP.Foundations.Completion
import ScoreP.Ipc.TransferSafety

/-!
# Transfers of matched programs come to their end

Whatever the interleaving has been so far, the processing elements can still execute their programs to the end,
so no order of the steps makes them wait for each other.

Of the transfers that are not complete, the first one in the order of the matching has both processing elements
at its call, or one of them behind it (`Matched.exists_front`). One of the two can take its next step, whatever
their phases are (`Joint.ready`): its wait has ended, by what the invariant says about the counters and the
symmetric memory (`TransferInv.ready`).
-/

namespace ScoreP.Ipc

open Foundations Function List Option

variable {PE : Type} [DecidableEq PE] {program : PE → List (TransferCall PE)} {next : PE → ℕ} {p q : PE}
  {call : TransferCall PE} {rest : List (TransferCall PE)} {s : TransferState PE} {k x y : ℕ} {buf : List Byte}

/-! ## The first transfer that is not complete -/

/-- `p` is in a call with `q`, and `q` is in this call too or behind it. -/
def Front (program : PE → List (TransferCall PE)) (next : PE → ℕ) (p q : PE) : Prop :=
  engaged program next p = some q ∧ (completed program next p q < completed program next q p ∨
    completed program next p q = completed program next q p ∧ engaged program next q = some p)

theorem engaged_first (hcalls : program p = call :: rest) (hnext : next p = 0) (q : PE) :
    engaged program next p = some call.partner ∧ completed program next p q = 0 := by
  simp [engaged, completed, callNumber, hcalls, hnext]

theorem completed_pos (hcalls : program p = call :: rest) (hnext : next p ≠ 0) :
    0 < completed program next p call.partner := by
  obtain ⟨n, hn⟩ := Nat.exists_eq_succ_of_ne_zero hnext
  simp [completed, callNumber, hcalls, hn]

theorem Matched.exists_front (h : Matched program) (next : PE → ℕ) (hopen : ∃ p, engaged program next p ≠ none) :
    ∃ p q, Front program next p q := by
  induction h generalizing next with
  | done hprogram =>
    obtain ⟨p, hp⟩ := hopen
    simp [engaged, hprogram] at hp
  | @transfer program a b buf rest rest' hne hsend hrecv _ ih =>
    by_cases ha : next a = 0
    · obtain ⟨hengaged, hzero⟩ := engaged_first hsend ha b
      refine ⟨a, b, hengaged, ?_⟩
      rw [hzero]
      by_cases hb : next b = 0
      · obtain ⟨hengaged', hzero'⟩ := engaged_first hrecv hb a
        exact .inr ⟨hzero'.symm, hengaged'⟩
      · exact .inl (completed_pos hrecv hb)
    by_cases hb : next b = 0
    · obtain ⟨hengaged, hzero⟩ := engaged_first hrecv hb a
      refine ⟨b, a, hengaged, .inl ?_⟩
      rw [hzero]
      exact completed_pos hsend ha
    · -- both are behind this transfer, which is left out
      obtain ⟨i, hi⟩ := Nat.exists_eq_succ_of_ne_zero ha
      obtain ⟨j, hj⟩ := Nat.exists_eq_succ_of_ne_zero hb
      let left : PE → ℕ := update (update next a i) b j
      have hleft : ∀ p, engaged program next p = engaged (update (update program a rest) b rest') left p ∧
          ∀ q, completed program next p q = completed (update (update program a rest) b rest') left p q +
            if p = a ∧ q = b ∨ p = b ∧ q = a then 1 else 0 := by
        intro p
        by_cases hpb : p = b
        · subst hpb
          simp [engaged, completed, callNumber, left, hrecv, hj, countP_cons, hne.symm, TransferCall.partner, eq_comm]
        by_cases hpa : p = a
        · subst hpa
          simp [engaged, completed, callNumber, left, hsend, hi, countP_cons, hne, TransferCall.partner, eq_comm]
        · simp [engaged, completed, callNumber, left, hpa, hpb]
      have hopen' : ∃ p, engaged (update (update program a rest) b rest') left p ≠ none := by
        obtain ⟨p, hp⟩ := hopen
        exact ⟨p, (hleft p).1 ▸ hp⟩
      obtain ⟨p, q, hengaged, hbehind⟩ := ih left hopen'
      have hsymm : (p = a ∧ q = b ∨ p = b ∧ q = a) ↔ (q = a ∧ p = b ∨ q = b ∧ p = a) := by tauto
      refine ⟨p, q, (hleft p).1.trans hengaged, ?_⟩
      rw [(hleft p).2 q, (hleft q).2 p, (hleft q).1]
      simp only [hsymm]
      exact hbehind.imp (fun h => by omega) fun h => ⟨by omega, h.2⟩

/-! ## Who can take a step -/

/-- The sender in phase `x` does not have to wait for the receiver in phase `y`. -/
structure SendReady (x y : ℕ) : Prop where
  poll : x = 1 → 1 ≤ y
  start : x = 2 → 3 ≤ y
  complete : x = 5 → 6 ≤ y

structure RecvReady (x y : ℕ) : Prop where
  poll : y = 1 → 1 ≤ x
  complete : y = 3 → 5 ≤ x

theorem Joint.ready (h : Joint x y) (hx : x ≤ 7) (hopen : x ≠ 7 ∨ y ≠ 7) :
    x ≠ 7 ∧ SendReady x y ∨ y ≠ 7 ∧ RecvReady x y := by
  obtain ⟨hbefore, hcounted, hpolled, hstarted, hsent, hcomplete⟩ := h
  by_cases hsend : x ≠ 7 ∧ (x = 1 → 1 ≤ y) ∧ (x = 2 → 3 ≤ y) ∧ (x = 5 → 6 ≤ y)
  · exact .inl ⟨hsend.1, hsend.2.1, hsend.2.2.1, hsend.2.2.2⟩
  · refine .inr ⟨?_, ?_, ?_⟩ <;> omega

/-- How many statements `p` has executed. -/
def executed (s : TransferState PE) (p : PE) : ℕ :=
  7 * s.next p + s.pc p

/-- `p` has a step that does not leave it where it is. -/
def Advances (program : PE → List (TransferCall PE)) (s : TransferState PE) (p : PE) : Prop :=
  ∃ s', transferStep program s p = some s' ∧ executed s' p = executed s p + 1 ∧
    ∀ r ≠ p, executed s' r = executed s r

theorem executed_advance (s : TransferState PE) (p : PE) : executed (s.advance p) p = executed s p + 1 ∧
    ∀ r ≠ p, executed (s.advance p) r = executed s r := by
  refine ⟨?_, fun r hr => ?_⟩
  · simp [executed, TransferState.advance, Nat.add_assoc]
  · simp [executed, TransferState.advance, hr]

theorem executed_finish (hlast : s.pc p = 6) : executed (s.finish p) p = executed s p + 1 ∧
    ∀ r ≠ p, executed (s.finish p) r = executed s r := by
  refine ⟨?_, fun r hr => ?_⟩
  · simp [executed, TransferState.finish, hlast, Nat.mul_add]
  · simp [executed, TransferState.finish, hr]

/-- The counters of two processing elements that have both counted their call agree. -/
theorem TransferInv.counted (h : TransferInv program s) (hengaged : engaged program s.next p = some q)
    (hpartner : engaged program s.next q = some p ∧ completed program s.next q p = completed program s.next p q)
    (hp : 0 < s.pc p) (hq : 0 < phase program s.next s.pc q p (completed program s.next p q)) :
    s.transferCounter q p = s.transferCounter p q := by
  obtain ⟨hengaged', hnumber⟩ := hpartner
  rw [← hnumber, phase_current hengaged'] at hq
  rw [h.counter, h.counter, if_pos ⟨hengaged', hq⟩, if_pos ⟨hengaged, hp⟩, hnumber]

/-- The statements that wait for a status. -/
def awaited : TransferCall PE → List (ℕ × TransferStatus)
  | .send _ _ => [(2, .transferStart), (5, .transferReceiverComplete)]
  | .recv _ _ => [(3, .transferSenderComplete)]

theorem TransferInv.ready (h : TransferInv program s) (hcall : (program p)[s.next p]? = some call)
    (hfits : ∀ buf dest, call = .send buf dest → buf.length ≤ bufferSize) (hpartner : call.partner = q)
    (hcounter : s.pc p = 1 → s.transferCounter q p = s.transferCounter p q)
    (hstatus : ∀ a ∈ awaited call, s.pc p = a.1 → (s.memory p).transferStatus = a.2) :
    Advances program s p := by
  have hpc : s.pc p = 0 ∨ s.pc p = 1 ∨ s.pc p = 2 ∨ s.pc p = 3 ∨ s.pc p = 4 ∨ s.pc p = 5 ∨ s.pc p = 6 := by
    have hle := h.pc_le p
    omega
  cases call with
  | send buf dest =>
    obtain rfl : dest = q := hpartner
    have hstep : transferStep program s p = send p buf dest s := by rw [transferStep, TransferState.current, hcall]
    rw [send, if_neg (Nat.not_lt.mpr (hfits buf dest rfl))] at hstep
    obtain hpc | hpc | hpc | hpc | hpc | hpc | hpc := hpc <;> simp only [hpc] at hstep
    · exact ⟨_, hstep, executed_advance _ p⟩
    · rw [TransferState.poll, if_pos (hcounter hpc)] at hstep
      exact ⟨_, hstep, executed_advance s p⟩
    · rw [TransferState.waitUntil, if_pos (hstatus _ (.head _) hpc)] at hstep
      exact ⟨_, hstep, executed_advance _ p⟩
    · exact ⟨_, hstep, executed_advance _ p⟩
    · exact ⟨_, hstep, executed_advance _ p⟩
    · rw [TransferState.waitUntil, if_pos (hstatus _ (.tail _ (.head _)) hpc)] at hstep
      exact ⟨_, hstep, executed_advance _ p⟩
    · exact ⟨_, hstep, executed_finish hpc⟩
  | recv count source =>
    obtain rfl : source = q := hpartner
    have hstep : transferStep program s p = recv p count source s := by rw [transferStep, TransferState.current, hcall]
    rw [recv] at hstep
    obtain hpc | hpc | hpc | hpc | hpc | hpc | hpc := hpc <;> simp only [hpc] at hstep
    · exact ⟨_, hstep, executed_advance _ p⟩
    · rw [TransferState.poll, if_pos (hcounter hpc)] at hstep
      exact ⟨_, hstep, executed_advance s p⟩
    · exact ⟨_, hstep, executed_advance _ p⟩
    · rw [TransferState.waitUntil, if_pos (hstatus _ (.head _) hpc)] at hstep
      exact ⟨_, hstep, executed_advance _ p⟩
    · exact ⟨_, hstep, executed_advance _ p⟩
    · exact ⟨_, hstep, executed_advance _ p⟩
    · exact ⟨_, hstep, executed_finish hpc⟩

theorem phase_le (h : TransferInv program s) : phase program s.next s.pc p q k ≤ 7 := by
  have hle := h.pc_le p
  rw [phase]
  split
  · exact Nat.le_refl 7
  · split <;> omega

/-- The sender or the receiver of a transfer that each of them is at or has behind it. -/
theorem TransferInv.exists_ready (h : TransferInv program s) (hpaired : Paired program)
    (hsends : Sends program p q k buf) (hfits : buf.length ≤ bufferSize)
    (hsender : phase program s.next s.pc p q k = 7 ∨ engaged program s.next p = some q ∧ completed program s.next p q = k)
    (hreceiver : phase program s.next s.pc q p k = 7 ∨
      engaged program s.next q = some p ∧ completed program s.next q p = k)
    (hopen : phase program s.next s.pc p q k ≠ 7 ∨ phase program s.next s.pc q p k ≠ 7) :
    Advances program s p ∨ Advances program s q := by
  have hjoint := h.joint p q k buf hsends
  obtain ⟨hx, hready⟩ | ⟨hy, hready⟩ := hjoint.ready (phase_le h) hopen
  · obtain ⟨hengaged, rfl⟩ := hsender.resolve_left hx
    obtain ⟨call, hcall, hpartner⟩ := map_eq_some_iff.1 hengaged
    obtain rfl : call = .send buf q := some.inj ((callsWith_callNumber hcall hpartner).symm.trans hsends)
    have hown := (sender_memory h hcall).status
    rw [phase_current hengaged] at hjoint hready
    refine .inl (h.ready hcall (fun _ _ hsame => ?_) hpartner (fun hpc => ?_) fun a ha hpc => ?_)
    · cases hsame
      exact hfits
    · have hpartnerAt := hreceiver.resolve_left fun hseven => by
        have hfive := hjoint.complete
        omega
      exact h.counted hengaged hpartnerAt (by omega) (hready.poll hpc)
    · have hfive := hjoint.complete
      rw [hown, senderStatus]
      rw [awaited, mem_pair] at ha
      obtain rfl | rfl := ha
      · have hthree := hready.start hpc
        rw [if_neg (by omega), if_pos (by omega)]
      · have hsix := hready.complete hpc
        rw [if_neg (by omega), if_neg (by omega)]
  · obtain ⟨hengaged, rfl⟩ := hreceiver.resolve_left hy
    obtain ⟨call, hcall, hpartner⟩ := map_eq_some_iff.1 hengaged
    obtain rfl : call = .recv buf.length p :=
      some.inj ((callsWith_callNumber hcall hpartner).symm.trans (hpaired.sends _ _ _ _ hsends))
    have hown := (receiver_memory h hcall hsends).status
    rw [phase_current hengaged] at hjoint hready
    refine .inr (h.ready hcall (fun _ _ hsame => ?_) hpartner (fun hpc => ?_) fun a ha hpc => ?_)
    · cases hsame
    · have hpartnerAt := hsender.resolve_left fun hseven => by
        have htwo := hjoint.counted hpc
        omega
      exact h.counted hengaged hpartnerAt (by omega) (hready.poll hpc)
    · obtain rfl := mem_singleton.mp ha
      have hfive := hready.complete hpc
      rw [hown, receiverStatus, if_neg (by omega)]

theorem TransferInv.exists_advances (h : TransferInv program s) (hpaired : Paired program)
    (hfits : ∀ p buf q, TransferCall.send buf q ∈ program p → buf.length ≤ bufferSize)
    (hfront : Front program s.next p q) : ∃ r, Advances program s r := by
  obtain ⟨hengaged, hbehind⟩ := hfront
  obtain ⟨call, hcall, hpartner⟩ := map_eq_some_iff.1 hengaged
  have hcurrent : phase program s.next s.pc p q (completed program s.next p q) = s.pc p := phase_current hengaged
  have hle := h.pc_le p
  have hpartnerAt : phase program s.next s.pc q p (completed program s.next p q) = 7 ∨
      engaged program s.next q = some p ∧ completed program s.next q p = completed program s.next p q :=
    hbehind.imp (fun hlt => if_pos hlt) fun hat => ⟨hat.2, hat.1.symm⟩
  have hready : Advances program s p ∨ Advances program s q := by
    cases call with
    | send buf dest =>
      obtain rfl : dest = q := hpartner
      exact h.exists_ready hpaired (sends_current hcall) (hfits p buf dest (mem_of_getElem? hcall))
        (.inr ⟨hengaged, rfl⟩) hpartnerAt (.inl (by omega))
    | recv count source =>
      obtain rfl : source = q := hpartner
      obtain ⟨buf, hsends, -⟩ := hpaired.receives p source _ count (receives_current hcall)
      have hmem := mem_of_mem_filter (mem_of_getElem? hsends)
      exact (h.exists_ready hpaired hsends (hfits source buf p hmem) hpartnerAt (.inr ⟨hengaged, rfl⟩)
        (.inr (by omega))).symm
  exact hready.elim (fun h => ⟨p, h⟩) fun h => ⟨q, h⟩

/-- From every state of every run the programs can be executed to their ends, and then every receive has copied
the bytes of its send. -/
theorem transfers_complete [Fintype PE] (hmatched : Matched program)
    (hfits : ∀ p buf q, TransferCall.send buf q ∈ program p → buf.length ≤ bufferSize)
    (symmetricBufferA : PE → ℕ → Byte) {pes : List PE}
    (hrun : TransferRun program (TransferState.initial symmetricBufferA) pes s) :
    Completes (fun s p s' => transferStep program s p = some s')
      (fun t => (∀ p, t.current program p = none) ∧ TransferSafe program t) s := by
  have hpaired := hmatched.paired
  have hstep : ∀ s p s', TransferInv program s → transferStep program s p = some s' → TransferInv program s' :=
    fun _ _ _ h hstep => h.step hpaired hstep
  refine completes_of_progress (P := TransferInv program)
    (fun s => ∑ p, (7 * (program p).length - executed s p)) (fun s h hopen => ?_)
    (hrun.invariant hstep (initial_inv symmetricBufferA))
  have hengaged : ∃ p, engaged program s.next p ≠ none := by
    by_contra hnone
    exact hopen ⟨fun p => map_eq_none_iff.mp (not_not.mp (not_exists.mp hnone p)), h.safe hpaired⟩
  obtain ⟨p, q, hfront⟩ := hmatched.exists_front s.next hengaged
  obtain ⟨r, s', hs', hself, hothers⟩ := h.exists_advances hpaired hfits hfront
  have hbound : executed s r < 7 * (program r).length := by
    have hlength : s.next r < (program r).length := by
      by_contra hend
      rw [transferStep, TransferState.current, getElem?_eq_none (Nat.not_lt.mp hend)] at hs'
      cases hs'
    have hle := h.pc_le r
    rw [executed]
    omega
  refine ⟨[r], s', .single hs', hstep _ _ _ h hs', Finset.sum_lt_sum (fun t _ => ?_) ⟨r, Finset.mem_univ r, by omega⟩⟩
  by_cases ht : t = r
  · rw [ht]
    omega
  · rw [hothers t ht]

theorem transfers_complete_exchange : ∃ s, TransferRun exchange (TransferState.initial fun _ _ => 0)
    [false, true, false, true, true, false] s ∧ Completes (fun s p s' => transferStep exchange s p = some s')
      (fun t => (∀ p, t.current exchange p = none) ∧ TransferSafe exchange t) s := by
  have hrun : ∃ s, TransferRun exchange (TransferState.initial fun _ _ => 0) [false, true, false, true, true, false] s :=
    ⟨_, .cons rfl (.cons rfl (.cons rfl (.cons rfl (.cons rfl (.cons rfl (.nil _))))))⟩
  obtain ⟨s, hrun⟩ := hrun
  refine ⟨s, hrun, transfers_complete exchange_matched (fun p buf q hmem => ?_) _ hrun⟩
  cases p <;> simp [exchange] at hmem <;> simp [hmem, bufferSize]

end ScoreP.Ipc
