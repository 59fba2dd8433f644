import ScoreP.Ipc.ShmemTransfers

/-!
# Safety of the transfers over SHMEM

The calls of two processing elements with each other are numbered, and the call number `k` of the one is
matched with the call number `k` of the other (`Matched.sends`, `Matched.receives`). `phase` is how far a
processing element has got with such a call: 0 before its first statement and 7 after its last one. The
invariant `TransferInv` says which phases of sender and receiver go together (`Joint`), and what the symmetric
memory of a processing element holds in its phase and the one of its partner (`LocalOk`). Every step moves one
phase by one (`Moved.phase_eq`). `transfers_safe` is what follows for every run.
-/

namespace ScoreP.Ipc

open Foundations Function List Option
open Foundations.Region

variable {PE : Type} [DecidableEq PE]

/-! ## Matched programs -/

theorem getElem?_filter_countP {α : Type} {l : List α} {P : α → Bool} {i : ℕ} {a : α} (h : l[i]? = some a)
    (ha : P a = true) : (l.filter P)[(l.take i).countP P]? = some a := by
  induction l generalizing i with
  | nil => cases h
  | cons b l ih =>
    cases i with
    | zero =>
      cases h
      rw [filter_cons_of_pos ha, take_zero, countP_nil]
      rfl
    | succ i =>
      rw [getElem?_cons_succ] at h
      rw [take_succ_cons]
      by_cases hb : P b = true
      · rw [filter_cons_of_pos hb, countP_cons_of_pos hb, getElem?_cons_succ]
        exact ih h
      · rw [filter_cons_of_neg hb, countP_cons_of_neg hb]
        exact ih h

section

variable {program : PE → List (TransferCall PE)} {pe partner : PE} {i : ℕ} {call : TransferCall PE}

theorem callsWith_callNumber (h : (program pe)[i]? = some call) (hpartner : call.partner = partner) :
    (callsWith program pe partner)[callNumber program pe partner i]? = some call :=
  getElem?_filter_countP h (decide_eq_true hpartner)

theorem callsWith_cons_self {rest : List (TransferCall PE)} (h : program pe = call :: rest)
    (hpartner : call.partner = partner) :
    callsWith program pe partner = call :: rest.filter fun call => call.partner = partner := by
  simp [callsWith, h, hpartner]

theorem callsWith_cons_other {rest : List (TransferCall PE)} (h : program pe = call :: rest)
    (hpartner : call.partner ≠ partner) :
    callsWith program pe partner = rest.filter fun call => call.partner = partner := by
  simp [callsWith, h, hpartner]

end

/-- The call number `k` of a processing element with another one is a send. -/
def Sends (program : PE → List (TransferCall PE)) (pe partner : PE) (k : ℕ) (buf : List Byte) : Prop :=
  (callsWith program pe partner)[k]? = some (TransferCall.send buf partner)

def Receives (program : PE → List (TransferCall PE)) (pe partner : PE) (k count : ℕ) : Prop :=
  (callsWith program pe partner)[k]? = some (TransferCall.recv count partner)

structure Paired (program : PE → List (TransferCall PE)) : Prop where
  ne : ∀ pe, ∀ call ∈ program pe, call.partner ≠ pe
  sends : ∀ p q k buf, Sends program p q k buf → Receives program q p k buf.length
  receives : ∀ p q k count, Receives program p q k count →
    ∃ buf : List Byte, Sends program q p k buf ∧ buf.length = count

theorem callsWith_transfer {program : PE → List (TransferCall PE)} {sender receiver : PE}
    {buf : List Byte} {rest rest' : List (TransferCall PE)} (hne : sender ≠ receiver)
    (hsend : program sender = .send buf receiver :: rest)
    (hrecv : program receiver = .recv buf.length sender :: rest') (p q : PE) :
    callsWith program p q = (if p = sender ∧ q = receiver then [.send buf receiver]
        else if p = receiver ∧ q = sender then [.recv buf.length sender] else []) ++
      callsWith (update (update program sender rest) receiver rest') p q := by
  by_cases hreceiver : p = receiver
  · subst hreceiver
    have hp : ¬ (p = sender ∧ q = p) := fun h => hne h.1.symm
    have hrest : callsWith (update (update program sender rest) p rest') p q =
        rest'.filter fun call => call.partner = q := by
      rw [callsWith, update_self]
    rw [if_neg hp, hrest]
    by_cases hq : q = sender
    · rw [if_pos ⟨rfl, hq⟩]
      exact callsWith_cons_self hrecv hq.symm
    · rw [if_neg fun h => hq h.2]
      exact callsWith_cons_other hrecv fun h => hq h.symm
  by_cases hsender : p = sender
  · subst hsender
    have hrest : callsWith (update (update program p rest) receiver rest') p q =
        rest.filter fun call => call.partner = q := by
      rw [callsWith, update_of_ne hne, update_self]
    rw [hrest]
    by_cases hq : q = receiver
    · rw [if_pos ⟨rfl, hq⟩]
      exact callsWith_cons_self hsend hq.symm
    · rw [if_neg fun h => hq h.2, if_neg fun h => hreceiver h.1]
      exact callsWith_cons_other hsend fun h => hq h.symm
  · rw [if_neg fun h => hsender h.1, if_neg fun h => hreceiver h.1, callsWith, callsWith,
      update_of_ne hreceiver, update_of_ne hsender]
    rfl

theorem Matched.paired {program : PE → List (TransferCall PE)} (h : Matched program) : Paired program := by
  induction h with
  | @done program hprogram =>
    constructor
    · intro pe call hmem
      rw [hprogram] at hmem
      cases hmem
    · intro p q k buf hcall
      rw [Sends, callsWith, hprogram] at hcall
      cases hcall
    · intro p q k count hcall
      rw [Receives, callsWith, hprogram] at hcall
      cases hcall
  | @transfer program sender receiver buf rest rest' hne hsend hrecv _ ih =>
    have hcalls := callsWith_transfer hne hsend hrecv
    constructor
    · intro p call hmem
      by_cases hreceiver : p = receiver
      · subst hreceiver
        rw [hrecv, mem_cons] at hmem
        rcases hmem with rfl | hmem
        · exact hne
        · exact ih.ne p call (by rwa [update_self])
      by_cases hsender : p = sender
      · subst hsender
        rw [hsend, mem_cons] at hmem
        rcases hmem with rfl | hmem
        · exact hne.symm
        · exact ih.ne p call (by rwa [update_of_ne hne, update_self])
      · exact ih.ne p call (by rwa [update_of_ne hreceiver, update_of_ne hsender])
    · intro p q k buf' hcall
      rw [Sends, hcalls p q] at hcall
      rw [Receives, hcalls q p]
      by_cases hpair : p = sender ∧ q = receiver
      · obtain ⟨rfl, rfl⟩ := hpair
        rw [if_pos ⟨rfl, rfl⟩] at hcall
        rw [if_neg fun h => hne h.1.symm, if_pos ⟨rfl, rfl⟩]
        cases k with
        | zero =>
          cases hcall
          rfl
        | succ k => exact ih.sends p q k buf' hcall
      by_cases hpair' : p = receiver ∧ q = sender
      · obtain ⟨rfl, rfl⟩ := hpair'
        rw [if_neg hpair, if_pos ⟨rfl, rfl⟩] at hcall
        rw [if_pos ⟨rfl, rfl⟩]
        cases k with
        | zero => cases hcall
        | succ k => exact ih.sends p q k buf' hcall
      · rw [if_neg hpair, if_neg hpair'] at hcall
        rw [if_neg fun h => hpair' h.symm, if_neg fun h => hpair h.symm]
        exact ih.sends p q k buf' hcall
    · intro p q k count hcall
      rw [Receives, hcalls p q] at hcall
      simp only [Sends, hcalls q p]
      by_cases hpair : p = sender ∧ q = receiver
      · obtain ⟨rfl, rfl⟩ := hpair
        rw [if_pos ⟨rfl, rfl⟩] at hcall
        rw [if_neg fun h => hne h.1.symm, if_pos ⟨rfl, rfl⟩]
        cases k with
        | zero => cases hcall
        | succ k => exact ih.receives p q k count hcall
      by_cases hpair' : p = receiver ∧ q = sender
      · obtain ⟨rfl, rfl⟩ := hpair'
        rw [if_neg hpair, if_pos ⟨rfl, rfl⟩] at hcall
        rw [if_pos ⟨rfl, rfl⟩]
        cases k with
        | zero =>
          cases hcall
          exact ⟨buf, rfl, rfl⟩
        | succ k => exact ih.receives p q k count hcall
      · rw [if_neg hpair, if_neg hpair'] at hcall
        rw [if_neg fun h => hpair' h.symm, if_neg fun h => hpair h.symm]
        exact ih.receives p q k count hcall

/-! ## Phases -/

def completed (program : PE → List (TransferCall PE)) (next : PE → ℕ) (p q : PE) : ℕ :=
  callNumber program p q (next p)

def engaged (program : PE → List (TransferCall PE)) (next : PE → ℕ) (p : PE) : Option PE :=
  (program p)[next p]?.map TransferCall.partner

/-- How far the call number `k` with a partner is. -/
def phase (program : PE → List (TransferCall PE)) (next pc : PE → ℕ) (p q : PE) (k : ℕ) : ℕ :=
  if k < completed program next p q then 7
  else if k = completed program next p q ∧ engaged program next p = some q then pc p
  else 0

variable {program : PE → List (TransferCall PE)} {next pc : PE → ℕ} {p q r : PE} {k x y : ℕ}

theorem phase_current (hengaged : engaged program next p = some q) :
    phase program next pc p q (completed program next p q) = pc p := by
  rw [phase, if_neg (Nat.lt_irrefl _), if_pos ⟨rfl, hengaged⟩]

theorem phase_of_ne {next' pc' : PE → ℕ} (hnext : next' r = next r) (hpc : pc' r = pc r) :
    phase program next' pc' r q k = phase program next pc r q k := by
  rw [phase, phase, completed, completed, engaged, engaged, hnext, hpc]

theorem phase_advance (hengaged : engaged program next p = some q) (r t : PE) (k : ℕ) :
    phase program next (update pc p (pc p + 1)) r t k =
      if r = p ∧ t = q ∧ k = completed program next p q then pc p + 1 else phase program next pc r t k := by
  by_cases hr : r = p
  · subst hr
    by_cases hcurrent : t = q ∧ k = completed program next r q
    · obtain ⟨rfl, rfl⟩ := hcurrent
      rw [phase_current hengaged, if_pos ⟨rfl, rfl, rfl⟩, update_self]
    · rw [if_neg fun h => hcurrent h.2, phase, phase]
      have hnot : ¬ (k = completed program next r t ∧ engaged program next r = some t) := by
        rintro ⟨hk, hengaged'⟩
        rw [hengaged] at hengaged'
        cases hengaged'
        exact hcurrent ⟨rfl, hk⟩
      rw [if_neg hnot, if_neg hnot]
  · rw [if_neg fun h => hr h.1]
    exact phase_of_ne rfl (update_of_ne hr _ _)

theorem completed_finish (hengaged : engaged program next p = some q) (r t : PE) :
    completed program (update next p (next p + 1)) r t =
      completed program next r t + if r = p ∧ t = q then 1 else 0 := by
  by_cases hr : r = p
  · subst hr
    obtain ⟨call, hcall, hpartner⟩ := map_eq_some_iff.1 hengaged
    rw [completed, completed, callNumber, callNumber, update_self, take_add_one, hcall,
      countP_append, toList_some, countP_singleton, hpartner]
    by_cases ht : t = q
    · subst ht
      simp
    · have ht' : ¬ q = t := fun h => ht h.symm
      simp [ht, ht']
  · rw [if_neg fun h => hr h.1, completed, completed, update_of_ne hr, Nat.add_zero]

theorem phase_finish (hengaged : engaged program next p = some q) (r t : PE) (k : ℕ) :
    phase program (update next p (next p + 1)) (update pc p 0) r t k =
      if r = p ∧ t = q ∧ k = completed program next p q then 7 else phase program next pc r t k := by
  by_cases hr : r = p
  · subst hr
    have hfinished := completed_finish hengaged r t
    rw [phase, hfinished, update_self, ite_self]
    by_cases ht : t = q
    · subst ht
      have hplus : (if r = r ∧ t = t then 1 else 0) = 1 := if_pos ⟨rfl, rfl⟩
      rw [hplus]
      by_cases hk : k = completed program next r t
      · have hlt : k < completed program next r t + 1 := by omega
        rw [if_pos hlt, if_pos ⟨rfl, rfl, hk⟩]
      · have hnot : ¬ (r = r ∧ t = t ∧ k = completed program next r t) := fun h => hk h.2.2
        have hnot' : ¬ (k = completed program next r t ∧ engaged program next r = some t) := fun h => hk h.1
        have hiff : k < completed program next r t + 1 ↔ k < completed program next r t := by omega
        rw [if_neg hnot, phase, if_neg hnot']
        simp only [hiff]
    · have hnot : ¬ (r = r ∧ t = q) := fun h => ht h.2
      have hnot' : ¬ (r = r ∧ t = q ∧ k = completed program next r q) := fun h => ht h.2.1
      have hnot'' : ¬ (k = completed program next r t ∧ engaged program next r = some t) := by
        rintro ⟨-, hengaged'⟩
        rw [hengaged] at hengaged'
        exact ht (some.inj hengaged').symm
      rw [if_neg hnot, if_neg hnot', Nat.add_zero, phase, if_neg hnot'']
  · rw [if_neg fun h => hr h.1]
    exact phase_of_ne (update_of_ne hr _ _) (update_of_ne hr _ _)

theorem phase_inside (hpositive : phase program next pc p q k ≠ 0) (hnot : phase program next pc p q k ≠ 7) :
    engaged program next p = some q ∧ completed program next p q = k ∧ phase program next pc p q k = pc p := by
  rw [phase] at hpositive hnot ⊢
  split at hnot
  · exact absurd rfl hnot
  next hlt =>
    rw [if_neg hlt] at hpositive
    split at hpositive
    next hcurrent => exact ⟨hcurrent.2, hcurrent.1.symm, by rw [if_neg hlt, if_pos hcurrent]⟩
    next => exact absurd rfl hpositive

/-- A step of a call of `p` with `q`. -/
structure Moved (program : PE → List (TransferCall PE)) (s s' : TransferState PE) (p q : PE) : Prop where
  next_eq : ∀ r ≠ p, s'.next r = s.next r
  pc_eq : ∀ r ≠ p, s'.pc r = s.pc r
  phase_eq : ∀ r t k, phase program s'.next s'.pc r t k =
    if r = p ∧ t = q ∧ k = completed program s.next p q then s.pc p + 1
    else phase program s.next s.pc r t k

theorem Moved.advance {s t : TransferState PE} (hengaged : engaged program s.next p = some q)
    (hnext : t.next = s.next) (hpc : t.pc = s.pc) : Moved program s (t.advance p) p q where
  next_eq _ _ := congrFun hnext _
  pc_eq r hr := by
    show update t.pc p (t.pc p + 1) r = s.pc r
    rw [update_of_ne hr, hpc]
  phase_eq r r' k := by
    rw [TransferState.advance]
    simp only [hnext, hpc]
    exact phase_advance hengaged r r' k

theorem Moved.finish {s t : TransferState PE} (hengaged : engaged program s.next p = some q)
    (hnext : t.next = s.next) (hpc : t.pc = s.pc) (hlast : s.pc p = 6) : Moved program s (t.finish p) p q where
  next_eq r hr := by
    show update t.next p (t.next p + 1) r = s.next r
    rw [update_of_ne hr, hnext]
  pc_eq r hr := by
    show update t.pc p 0 r = s.pc r
    rw [update_of_ne hr, hpc]
  phase_eq r r' k := by
    rw [TransferState.finish, hlast]
    simp only [hnext, hpc]
    exact phase_finish hengaged r r' k

/-! ## Which phases go together -/

/-- The phases `x` of the sender and `y` of the receiver. -/
structure Joint (x y : ℕ) : Prop where
  before : y = 0 → x ≤ 1
  counted : y = 1 → x ≤ 2
  polled : y = 2 → 1 ≤ x ∧ x ≤ 2
  started : y = 3 → 1 ≤ x ∧ x ≤ 5
  sent : y = 4 ∨ y = 5 → x = 5
  complete : 6 ≤ y → 5 ≤ x

theorem Moved.joint {s s' : TransferState PE} (hmoved : Moved program s s' p q) (hne : q ≠ p)
    (hengaged : engaged program s.next p = some q) (h : ∀ r t k buf, Sends program r t k buf →
      Joint (phase program s.next s.pc r t k) (phase program s.next s.pc t r k))
    (hsender : ∀ buf, Sends program p q (completed program s.next p q) buf →
      Joint (s.pc p + 1) (phase program s.next s.pc q p (completed program s.next p q)))
    (hreceiver : ∀ buf, Sends program q p (completed program s.next p q) buf →
      Joint (phase program s.next s.pc q p (completed program s.next p q)) (s.pc p + 1))
    (r t : PE) (k : ℕ) (buf : List Byte) (hsends : Sends program r t k buf) :
    Joint (phase program s'.next s'.pc r t k) (phase program s'.next s'.pc t r k) := by
  rw [hmoved.phase_eq, hmoved.phase_eq]
  by_cases hfirst : r = p ∧ t = q ∧ k = completed program s.next p q
  · obtain ⟨rfl, rfl, rfl⟩ := hfirst
    rw [if_pos ⟨rfl, rfl, rfl⟩, if_neg fun h => hne h.1]
    exact hsender buf hsends
  · by_cases hsecond : t = p ∧ r = q ∧ k = completed program s.next p q
    · obtain ⟨rfl, rfl, rfl⟩ := hsecond
      rw [if_neg hfirst, if_pos ⟨rfl, rfl, rfl⟩]
      exact hreceiver buf hsends
    · rw [if_neg hfirst, if_neg hsecond]
      exact h r t k buf hsends

/-! ## Symmetric memory -/

def senderStatus (y : ℕ) : TransferStatus :=
  if y ≤ 2 then .invalidTransferState else if y ≤ 5 then .transferStart else .transferReceiverComplete

/-- The memory of a sender in phase `x` when the receiver is in phase `y`. -/
structure SenderOk (x y : ℕ) (m : TransferMemory) : Prop where
  status : m.transferStatus = senderStatus y
  statusUnread : m.statusUnread = true ↔ 3 ≤ y ∧ y ≤ 5 ∧ x ≤ 2 ∨ 6 ≤ y ∧ x ≤ 5
  bufferUnread : m.bufferUnread = false

def receiverStatus (x : ℕ) : TransferStatus :=
  if x ≤ 4 then .invalidTransferState else .transferSenderComplete

/-- The memory of a receiver in phase `y` when the sender, who sends `buf`, is in phase `x`. -/
structure ReceiverOk (x y : ℕ) (buf : List Byte) (m : TransferMemory) : Prop where
  status : m.transferStatus = receiverStatus x
  statusUnread : m.statusUnread = true ↔ 5 ≤ x ∧ y ≤ 3
  bufferUnread : m.bufferUnread = true ↔ 4 ≤ x ∧ y ≤ 4
  contents : 4 ≤ x → y ≤ 4 → read m.symmetricBufferA 0 buf.length = buf

structure Quiet (m : TransferMemory) : Prop where
  status : m.transferStatus = .invalidTransferState
  statusUnread : m.statusUnread = false
  bufferUnread : m.bufferUnread = false

variable {m : TransferMemory} {buf : List Byte}

theorem Quiet.senderOk (h : Quiet m) (hjoint : Joint 0 y) : SenderOk 0 y m := by
  obtain ⟨-, -, hpolled, hstarted, hsent, hcomplete⟩ := hjoint
  have hy : y ≤ 1 := by omega
  constructor
  · rw [h.status, senderStatus, if_pos (by omega)]
  · rw [h.statusUnread]
    simp only [Bool.false_eq_true, false_iff]
    omega
  · exact h.bufferUnread

theorem Quiet.receiverOk (h : Quiet m) (hjoint : Joint x 0) : ReceiverOk x 0 buf m := by
  have hx := hjoint.before rfl
  constructor
  · rw [h.status, receiverStatus, if_pos (by omega)]
  · rw [h.statusUnread]
    simp only [Bool.false_eq_true, false_iff]
    omega
  · rw [h.bufferUnread]
    simp only [Bool.false_eq_true, false_iff]
    omega
  · omega

/-- The memory of a processing element that executes a call, the call number `k` with its partner. -/
def CallOk (program : PE → List (TransferCall PE)) (p : PE) (k x z : ℕ) (m : TransferMemory) :
    TransferCall PE → Prop
  | .send _ _ => SenderOk x z m
  | .recv _ source => ∀ buf, Sends program source p k buf → ReceiverOk z x buf m

def LocalOk (program : PE → List (TransferCall PE)) (next pc : PE → ℕ) (p : PE) (m : TransferMemory) : Prop :=
  match (program p)[next p]? with
  | some call =>
    CallOk program p (completed program next p call.partner) (pc p)
      (phase program next pc call.partner p (completed program next p call.partner)) m call
  | none => pc p = 0 ∧ Quiet m

structure TransferInv (program : PE → List (TransferCall PE)) (s : TransferState PE) : Prop where
  pc_le : ∀ p, s.pc p ≤ 6
  counter : ∀ p q, s.transferCounter p q =
    completed program s.next p q + if engaged program s.next p = some q ∧ 0 < s.pc p then 1 else 0
  joint : ∀ p q k buf, Sends program p q k buf →
    Joint (phase program s.next s.pc p q k) (phase program s.next s.pc q p k)
  memory : ∀ p, LocalOk program s.next s.pc p (s.memory p)
  received : ∀ p q i count buf, (program p)[i]? = some (TransferCall.recv count q) →
    i < s.next p ∨ i = s.next p ∧ 5 ≤ s.pc p → Sends program q p (callNumber program p q i) buf →
      s.buf p i = some buf
  overwritten : s.overwritten = false
  erased : s.erased = false

/-! ## Steps -/

variable {s s' t : TransferState PE} {call : TransferCall PE}

omit [DecidableEq PE] in
theorem engaged_of (hcall : (program p)[next p]? = some call) : engaged program next p = some call.partner := by
  rw [engaged, hcall, map_some]

theorem Moved.memory (hmoved : Moved program s s' p q) (hengaged : engaged program s.next p = some q)
    (h : ∀ r, LocalOk program s.next s.pc r (s.memory r))
    (hself : LocalOk program s'.next s'.pc p (s'.memory p))
    (hpartner : ∀ call, (program q)[s.next q]? = some call → call.partner = p →
      completed program s.next q p = completed program s.next p q →
      CallOk program q (completed program s.next p q) (s.pc q) (s.pc p) (s.memory q) call →
        CallOk program q (completed program s.next p q) (s.pc q) (s.pc p + 1) (s'.memory q) call)
    (hkeep : ¬ (engaged program s.next q = some p ∧
      completed program s.next q p = completed program s.next p q) → s'.memory q = s.memory q)
    (hothers : ∀ r, r ≠ p → r ≠ q → s'.memory r = s.memory r) (r : PE) :
    LocalOk program s'.next s'.pc r (s'.memory r) := by
  by_cases hp : r = p
  · subst hp
    exact hself
  have hnext := hmoved.next_eq r hp
  have hpc := hmoved.pc_eq r hp
  have hlocal := h r
  rw [LocalOk] at hlocal ⊢
  have hmemory : ¬ (r = q ∧ engaged program s.next q = some p ∧
      completed program s.next q p = completed program s.next p q) → s'.memory r = s.memory r := by
    intro hnot
    by_cases hq : r = q
    · subst hq
      exact hkeep fun h => hnot ⟨rfl, h⟩
    · exact hothers r hp hq
  rw [hnext, hpc]
  cases hcall : (program r)[s.next r]? with
  | none =>
    rw [hcall] at hlocal
    have hnot : ¬ (r = q ∧ engaged program s.next q = some p ∧
        completed program s.next q p = completed program s.next p q) := by
      rintro ⟨rfl, hengaged', -⟩
      rw [engaged, hcall] at hengaged'
      cases hengaged'
    rw [hmemory hnot]
    exact hlocal
  | some call =>
    rw [hcall] at hlocal
    simp only at hlocal ⊢
    have hcompleted : completed program s'.next r call.partner = completed program s.next r call.partner := by
      rw [completed, completed, hnext]
    rw [hcompleted, hmoved.phase_eq]
    by_cases hcurrent : call.partner = p ∧ r = q ∧
        completed program s.next r call.partner = completed program s.next p q
    · obtain ⟨hcallPartner, rfl, hnumber⟩ := hcurrent
      rw [hcallPartner] at hlocal hnumber ⊢
      rw [if_pos ⟨rfl, rfl, hnumber⟩]
      rw [hnumber, phase_current hengaged] at hlocal
      rw [hnumber]
      exact hpartner call hcall hcallPartner hnumber hlocal
    · rw [if_neg hcurrent, hmemory]
      · exact hlocal
      · rintro ⟨rfl, hengaged', hnumber⟩
        rw [engaged_of hcall, some.injEq] at hengaged'
        rw [hengaged'] at hcurrent
        exact hcurrent ⟨rfl, rfl, hnumber⟩

theorem countTransfer_apply (s : TransferState PE) (p q r u : PE) :
    (s.countTransfer p q).transferCounter r u = s.transferCounter r u + if r = p ∧ u = q then 1 else 0 := by
  show update s.transferCounter p _ r u = _
  by_cases hr : r = p
  · subst hr
    rw [update_self]
    by_cases hu : u = q
    · subst hu
      rw [update_self, if_pos ⟨rfl, rfl⟩]
    · rw [update_of_ne hu, if_neg fun h => hu h.2, Nat.add_zero]
  · rw [update_of_ne hr, if_neg fun h => hr h.1, Nat.add_zero]

theorem TransferInv.advance (h : TransferInv program s) (hcall : (program p)[s.next p]? = some call)
    (hq : call.partner = q) (hne : q ≠ p) (hnext : t.next = s.next) (hpc : t.pc = s.pc) (hlt : s.pc p < 6)
    (hcounter : t.transferCounter =
      if s.pc p = 0 then (s.countTransfer p q).transferCounter else s.transferCounter)
    (hsender : ∀ buf, Sends program p q (completed program s.next p q) buf →
      Joint (s.pc p + 1) (phase program s.next s.pc q p (completed program s.next p q)))
    (hreceiver : ∀ buf, Sends program q p (completed program s.next p q) buf →
      Joint (phase program s.next s.pc q p (completed program s.next p q)) (s.pc p + 1))
    (hself : CallOk program p (completed program s.next p q) (s.pc p + 1)
      (phase program s.next s.pc q p (completed program s.next p q)) (t.memory p) call)
    (hpartner : ∀ call, (program q)[s.next q]? = some call → call.partner = p →
      completed program s.next q p = completed program s.next p q →
      CallOk program q (completed program s.next p q) (s.pc q) (s.pc p) (s.memory q) call →
        CallOk program q (completed program s.next p q) (s.pc q) (s.pc p + 1) (t.memory q) call)
    (hkeep : t.memory q = s.memory q ∨ phase program s.next s.pc q p (completed program s.next p q) ≠ 0 ∧
      phase program s.next s.pc q p (completed program s.next p q) ≠ 7)
    (hothers : ∀ r, r ≠ p → r ≠ q → t.memory r = s.memory r)
    (hreceived : ∀ r u i count buf, (program r)[i]? = some (TransferCall.recv count u) →
      i < s.next r ∨ i = s.next r ∧ 5 ≤ (if r = p then s.pc p + 1 else s.pc r) →
        Sends program u r (callNumber program r u i) buf → t.buf r i = some buf)
    (hoverwritten : t.overwritten = false) (herased : t.erased = false) :
    TransferInv program (t.advance p) := by
  subst hq
  have hengaged := engaged_of hcall
  have hmoved := Moved.advance hengaged hnext hpc
  have hpcs : ∀ r, (t.advance p).pc r = if r = p then s.pc p + 1 else s.pc r := by
    intro r
    show update t.pc p (t.pc p + 1) r = _
    rw [hpc, update_apply]
  have hnexts : (t.advance p).next = s.next := hnext
  constructor
  · intro r
    rw [hpcs]
    split
    · omega
    · exact h.pc_le r
  · intro r u
    have hcounter : t.transferCounter r u =
        s.transferCounter r u + if s.pc p = 0 ∧ r = p ∧ u = call.partner then 1 else 0 := by
      rw [hcounter]
      split
      next hzero => simp only [countTransfer_apply, hzero, true_and]
      next hpos => simp only [hpos, false_and, if_false, Nat.add_zero]
    show t.transferCounter r u = _
    rw [hcounter, h.counter, hnexts, hpcs]
    by_cases hr : r = p
    · subst hr
      rw [hengaged]
      by_cases hu : u = call.partner
      · subst hu
        simp only [true_and, and_true, if_true, Nat.zero_lt_succ]
        by_cases hzero : s.pc r = 0
        · rw [if_neg (by omega), if_pos hzero]
        · rw [if_pos (by omega), if_neg hzero]
      · have hnot : ¬ some call.partner = some u := fun heq => hu (some.inj heq).symm
        simp [hu, hnot]
    · simp only [hr, false_and, and_false, if_false]
      rfl
  · exact hmoved.joint hne hengaged h.joint hsender hreceiver
  · apply hmoved.memory hengaged h.memory _ hpartner _ hothers
    swap
    · intro hnot
      rcases hkeep with hkeep | ⟨hpositive, hseven⟩
      · exact hkeep
      · obtain ⟨hengaged', hnumber, -⟩ := phase_inside hpositive hseven
        exact absurd ⟨hengaged', hnumber⟩ hnot
    have hz := hmoved.phase_eq call.partner p (completed program s.next p call.partner)
    rw [if_neg fun h => hne h.1] at hz
    rw [hnexts] at hz
    rw [LocalOk, hnexts, hcall, hpcs, if_pos rfl]
    simp only
    rw [hz]
    exact hself
  · intro r u i count buf hrecv hdone hsends
    rw [hnexts, hpcs] at hdone
    exact hreceived r u i count buf hrecv hdone hsends
  · exact hoverwritten
  · exact herased

theorem TransferInv.finish (h : TransferInv program s) (hcall : (program p)[s.next p]? = some call)
    (hq : call.partner = q) (hne : q ≠ p) (hlast : s.pc p = 6)
    (hsender : ∀ buf, Sends program p q (completed program s.next p q) buf →
      Joint 7 (phase program s.next s.pc q p (completed program s.next p q)))
    (hreceiver : ∀ buf, Sends program q p (completed program s.next p q) buf →
      Joint (phase program s.next s.pc q p (completed program s.next p q)) 7)
    (hstatus : (s.memory p).statusUnread = false) (hbuffer : (s.memory p).bufferUnread = false)
    (hpartner : ∀ call, (program q)[s.next q]? = some call → call.partner = p →
      completed program s.next q p = completed program s.next p q →
      CallOk program q (completed program s.next p q) (s.pc q) 6 (s.memory q) call →
        CallOk program q (completed program s.next p q) (s.pc q) 7 (s.memory q) call) :
    TransferInv program ((s.resetStatus p).finish p) := by
  subst hq
  have hengaged := engaged_of hcall
  have hmoved : Moved program s ((s.resetStatus p).finish p) p call.partner :=
    Moved.finish hengaged rfl rfl hlast
  have hjoint := hmoved.joint hne hengaged h.joint (by rwa [hlast]) (by rwa [hlast])
  have hself : ((s.resetStatus p).finish p).memory p =
      { s.memory p with transferStatus := .invalidTransferState, statusUnread := false } :=
    update_self _ _ _
  have hothers : ∀ r ≠ p, ((s.resetStatus p).finish p).memory r = s.memory r := fun r hr =>
    update_of_ne hr _ _
  have hquiet : Quiet (((s.resetStatus p).finish p).memory p) := by
    rw [hself]
    exact ⟨rfl, rfl, hbuffer⟩
  have hpcs : ((s.resetStatus p).finish p).pc p = 0 := update_self _ _ _
  constructor
  · intro r
    by_cases hr : r = p
    · subst hr
      rw [hpcs]
      exact Nat.zero_le 6
    · rw [hmoved.pc_eq r hr]
      exact h.pc_le r
  · intro r u
    have hcompleted : completed program ((s.resetStatus p).finish p).next r u =
        completed program s.next r u + if r = p ∧ u = call.partner then 1 else 0 :=
      completed_finish hengaged r u
    have hcounter : ((s.resetStatus p).finish p).transferCounter r u = s.transferCounter r u := rfl
    rw [hcounter, h.counter, hcompleted]
    by_cases hr : r = p
    · subst hr
      simp only [hpcs, hengaged, hlast, Nat.lt_irrefl, and_false, if_false, true_and, Nat.add_zero]
      by_cases hu : u = call.partner
      · subst hu
        simp
      · have hnot : ¬ some call.partner = some u := fun heq => hu (some.inj heq).symm
        simp [hu, hnot]
    · have hsame : engaged program ((s.resetStatus p).finish p).next r = engaged program s.next r := by
        rw [engaged, engaged, hmoved.next_eq r hr]
      simp [hr, hmoved.pc_eq r hr, hsame]
  · exact hjoint
  · apply hmoved.memory hengaged h.memory
    · -- the next call has not begun, nor has its partner got beyond its counter
      rw [LocalOk]
      cases hafter : (program p)[((s.resetStatus p).finish p).next p]? with
      | none => exact ⟨hpcs, hquiet⟩
      | some after =>
        have hcalls := callsWith_callNumber hafter rfl
        let next' := ((s.resetStatus p).finish p).next
        let pc' := ((s.resetStatus p).finish p).pc
        have hzero : phase program next' pc' p after.partner (completed program next' p after.partner) = 0 := by
          rw [phase_current (engaged_of hafter)]
          exact hpcs
        cases after with
        | send buf dest =>
          have hnew : Joint (phase program next' pc' p dest (completed program next' p dest))
              (phase program next' pc' dest p (completed program next' p dest)) :=
            hjoint p dest _ buf hcalls
          rw [TransferCall.partner] at hzero
          rw [hzero] at hnew
          simp only [hpcs, CallOk]
          exact hquiet.senderOk hnew
        | recv count source =>
          intro buf hsends
          have hnew : Joint (phase program next' pc' source p (completed program next' p source))
              (phase program next' pc' p source (completed program next' p source)) :=
            hjoint source p _ buf hsends
          rw [TransferCall.partner] at hzero
          rw [hzero] at hnew
          simp only [hpcs]
          exact hquiet.receiverOk hnew
    · rw [hlast, hothers _ hne]
      exact hpartner
    · intro _
      exact hothers _ hne
    · intro r hr _
      exact hothers r hr
  · intro r u i count buf hrecv hdone hsends
    show s.buf r i = some buf
    apply h.received r u i count buf hrecv _ hsends
    by_cases hr : r = p
    · subst hr
      rw [hpcs] at hdone
      have hnext : ((s.resetStatus r).finish r).next r = s.next r + 1 := update_self _ _ _
      rw [hnext] at hdone
      omega
    · rwa [hmoved.next_eq r hr, hmoved.pc_eq r hr] at hdone
  · exact h.overwritten
  · show (s.erased || (s.memory p).statusUnread) = false
    rw [h.erased, hstatus]
    rfl

theorem sends_inj {buf buf' : List Byte} (h : Sends program p q k buf) (h' : Sends program p q k buf') :
    buf' = buf := by
  rw [Sends] at h h'
  rw [h'] at h
  cases h
  rfl

section Sending

variable (h : TransferInv program s) (hpaired : Paired program)
  (hcall : (program p)[s.next p]? = some (TransferCall.send buf q))

include hcall in
theorem sends_current : Sends program p q (completed program s.next p q) buf :=
  callsWith_callNumber hcall rfl

include hpaired hcall in
theorem partner_ne_send : q ≠ p :=
  hpaired.ne p _ (mem_of_getElem? hcall)

include hpaired hcall in
theorem not_sends_back (buf' : List Byte) : ¬ Sends program q p (completed program s.next p q) buf' := by
  intro h'
  have hreceives := hpaired.sends _ _ _ _ (sends_current hcall)
  rw [Receives, h'] at hreceives
  cases hreceives

include hpaired hcall in
theorem partner_receives {call : TransferCall PE} (hpartner : (program q)[s.next q]? = some call)
    (hq : call.partner = p) (hnumber : completed program s.next q p = completed program s.next p q) :
    call = .recv buf.length p := by
  have hreceives := hpaired.sends _ _ _ _ (sends_current hcall)
  have hcurrent := callsWith_callNumber hpartner hq
  rw [Receives, ← hnumber] at hreceives
  rw [completed] at hreceives
  rw [hreceives] at hcurrent
  cases hcurrent
  rfl

include h hcall in
theorem sender_joint : Joint (s.pc p) (phase program s.next s.pc q p (completed program s.next p q)) := by
  have hengaged : engaged program s.next p = some q := engaged_of hcall
  have hjoint := h.joint p q _ buf (sends_current hcall)
  rwa [phase_current hengaged] at hjoint

include h hcall in
theorem sender_memory :
    SenderOk (s.pc p) (phase program s.next s.pc q p (completed program s.next p q)) (s.memory p) := by
  have hlocal := h.memory p
  rw [LocalOk, hcall] at hlocal
  exact hlocal

theorem partner_memory (h : TransferInv program s) (hpaired : Paired program)
    (hcall : (program p)[s.next p]? = some (TransferCall.send buf q))
    (hengaged : engaged program s.next q = some p)
    (hnumber : completed program s.next q p = completed program s.next p q) :
    ReceiverOk (s.pc p) (phase program s.next s.pc q p (completed program s.next p q)) buf (s.memory q) := by
  obtain ⟨call, hpartnerCall, hq⟩ := map_eq_some_iff.1 hengaged
  cases partner_receives hpaired hcall hpartnerCall hq hnumber
  have hengaged' : engaged program s.next p = some q := engaged_of hcall
  have hlocal := h.memory q
  rw [LocalOk, hpartnerCall] at hlocal
  have hsends := sends_current hcall
  rw [← hnumber] at hsends
  have hreceiver := hlocal buf hsends
  simp only [TransferCall.partner] at hreceiver
  rw [hnumber, phase_current hengaged'] at hreceiver
  rwa [← hnumber, phase_current hengaged]

theorem TransferInv.advance_send (h : TransferInv program s) (hpaired : Paired program)
    (hcall : (program p)[s.next p]? = some (TransferCall.send buf q))
    (hy : phase program s.next s.pc q p (completed program s.next p q) = y) (hx : s.pc p = x)
    (t : TransferState PE) (hnext : t.next = s.next) (hpc : t.pc = s.pc) (hlt : x < 6) (hcounter :
      t.transferCounter = if x = 0 then (s.countTransfer p q).transferCounter else s.transferCounter)
    (hjoint : Joint (x + 1) y) (hself : SenderOk (x + 1) y (t.memory p))
    (hpartner : ReceiverOk x y buf (s.memory q) → ReceiverOk (x + 1) y buf (t.memory q))
    (hkeep : t.memory q = s.memory q ∨ y ≠ 0 ∧ y ≠ 7)
    (hothers : ∀ r, r ≠ p → r ≠ q → t.memory r = s.memory r) (hbuf : t.buf = s.buf)
    (hoverwritten : t.overwritten = false) (herased : t.erased = false) :
    TransferInv program (t.advance p) := by
  subst hy hx
  have hdest : (TransferCall.send buf q).partner = q := rfl
  apply h.advance hcall hdest (partner_ne_send hpaired hcall) hnext hpc hlt hcounter
  · intro _ _
    exact hjoint
  · intro buf' hback
    exact absurd hback (not_sends_back hpaired hcall buf')
  · exact hself
  · intro call hpartnerCall hq hnumber hlocal
    cases partner_receives hpaired hcall hpartnerCall hq hnumber
    have hengaged : engaged program s.next q = some p := engaged_of hpartnerCall
    have hphase : phase program s.next s.pc q p (completed program s.next q p) = s.pc q :=
      phase_current hengaged
    rw [hnumber] at hphase
    rw [hphase] at hpartner
    intro buf' hsends
    cases sends_inj (sends_current hcall) hsends
    exact hpartner (hlocal _ hsends)
  · exact hkeep
  · exact hothers
  · intro r u i count buf' hrecv hdone hsends
    rw [hbuf]
    apply h.received r u i count buf' hrecv _ hsends
    by_cases hr : r = p
    · subst hr
      rcases hdone with hdone | ⟨rfl, -⟩
      · exact Or.inl hdone
      · rw [hcall] at hrecv
        cases hrecv
    · rwa [if_neg hr] at hdone
  · exact hoverwritten
  · exact herased

end Sending

section Receiving

variable {count : ℕ} (h : TransferInv program s) (hpaired : Paired program)
  (hcall : (program p)[s.next p]? = some (TransferCall.recv count q))

include hcall in
theorem receives_current : Receives program p q (completed program s.next p q) count :=
  callsWith_callNumber hcall rfl

include hpaired hcall in
theorem partner_ne_recv : q ≠ p :=
  hpaired.ne p _ (mem_of_getElem? hcall)

include hcall in
theorem not_sends_current (buf' : List Byte) : ¬ Sends program p q (completed program s.next p q) buf' := by
  intro h'
  have hreceives := receives_current hcall
  rw [Receives, h'] at hreceives
  cases hreceives

include h hcall in
theorem receiver_joint (hsends : Sends program q p (completed program s.next p q) buf) :
    Joint (phase program s.next s.pc q p (completed program s.next p q)) (s.pc p) := by
  have hengaged : engaged program s.next p = some q := engaged_of hcall
  have hjoint := h.joint q p _ buf hsends
  rwa [phase_current hengaged] at hjoint

include h hcall in
theorem receiver_memory (hsends : Sends program q p (completed program s.next p q) buf) :
    ReceiverOk (phase program s.next s.pc q p (completed program s.next p q)) (s.pc p) buf (s.memory p) := by
  have hlocal := h.memory p
  rw [LocalOk, hcall] at hlocal
  exact hlocal buf hsends

theorem partner_memory' (h : TransferInv program s)
    (hcall : (program p)[s.next p]? = some (TransferCall.recv count q))
    (hsends : Sends program q p (completed program s.next p q) buf)
    (hengaged : engaged program s.next q = some p)
    (hnumber : completed program s.next q p = completed program s.next p q) :
    SenderOk (phase program s.next s.pc q p (completed program s.next p q)) (s.pc p) (s.memory q) := by
  obtain ⟨call, hpartnerCall, hq⟩ := map_eq_some_iff.1 hengaged
  have hengaged' : engaged program s.next p = some q := engaged_of hcall
  have hcurrent := callsWith_callNumber hpartnerCall hq
  rw [← hnumber, Sends, completed, hcurrent] at hsends
  cases hsends
  have hlocal := h.memory q
  rw [LocalOk, hpartnerCall] at hlocal
  simp only [TransferCall.partner, CallOk] at hlocal
  rw [hnumber, phase_current hengaged'] at hlocal
  rwa [← hnumber, phase_current hengaged]

theorem copyBuffer_buf_self :
    (s.copyBuffer p count).buf p (s.next p) = some (read (s.memory p).symmetricBufferA 0 count) := by
  show update s.buf p _ p _ = _
  rw [update_self, update_self]

theorem copyBuffer_buf_of_ne {i : ℕ} (hnot : ¬ (r = p ∧ i = s.next p)) :
    (s.copyBuffer p count).buf r i = s.buf r i := by
  show update s.buf p _ r i = _
  by_cases hr : r = p
  · subst hr
    rw [update_self, update_of_ne fun h => hnot ⟨rfl, h⟩]
  · rw [update_of_ne hr]

theorem TransferInv.advance_recv (h : TransferInv program s) (hpaired : Paired program)
    (hcall : (program p)[s.next p]? = some (TransferCall.recv count q))
    (hsends : Sends program q p (completed program s.next p q) buf) (hlength : buf.length = count)
    (hx : phase program s.next s.pc q p (completed program s.next p q) = x) (hy : s.pc p = y)
    (t : TransferState PE) (hnext : t.next = s.next) (hpc : t.pc = s.pc) (hlt : y < 6) (hcounter :
      t.transferCounter = if y = 0 then (s.countTransfer p q).transferCounter else s.transferCounter)
    (hjoint : Joint x (y + 1)) (hself : ReceiverOk x (y + 1) buf (t.memory p))
    (hpartner : SenderOk x y (s.memory q) → SenderOk x (y + 1) (t.memory q))
    (hkeep : t.memory q = s.memory q ∨ x ≠ 0 ∧ x ≠ 7) (hothers : ∀ r, r ≠ p → r ≠ q → t.memory r = s.memory r)
    (hbuf : t.buf = if y = 4 then (s.copyBuffer p count).buf else s.buf)
    (hoverwritten : t.overwritten = false) (herased : t.erased = false) :
    TransferInv program (t.advance p) := by
  subst hx hy
  have hsource : (TransferCall.recv count q).partner = q := rfl
  apply h.advance hcall hsource (partner_ne_recv hpaired hcall) hnext hpc hlt hcounter
  · intro buf' hsends'
    exact absurd hsends' (not_sends_current hcall buf')
  · intro _ _
    exact hjoint
  · intro buf' hsends'
    cases sends_inj hsends hsends'
    exact hself
  · intro call hpartnerCall hq hnumber hlocal
    have hcurrent := callsWith_callNumber hpartnerCall hq
    rw [← hnumber] at hsends
    rw [Sends, completed, hcurrent] at hsends
    cases hsends
    have hengaged : engaged program s.next q = some p := engaged_of hpartnerCall
    have hphase : phase program s.next s.pc q p (completed program s.next q p) = s.pc q :=
      phase_current hengaged
    rw [hnumber] at hphase
    rw [hphase] at hpartner
    exact hpartner hlocal
  · exact hkeep
  · exact hothers
  · intro r u i count' buf' hrecv hdone hsends'
    by_cases hcopy : s.pc p = 4 ∧ r = p ∧ i = s.next p
    · obtain ⟨hfour, rfl, rfl⟩ := hcopy
      rw [hcall] at hrecv
      cases hrecv
      cases sends_inj hsends hsends'
      have hsent := (receiver_joint h hcall hsends).sent (Or.inl hfour)
      have hcontents := (receiver_memory h hcall hsends).contents (by omega) (by omega)
      rw [hbuf, if_pos hfour, copyBuffer_buf_self, ← hlength, hcontents]
    · have hbuf : t.buf r i = s.buf r i := by
        rw [hbuf]
        split
        next hfour => exact copyBuffer_buf_of_ne fun h => hcopy ⟨hfour, h⟩
        next => rfl
      rw [hbuf]
      apply h.received r u i count' buf' hrecv _ hsends'
      by_cases hr : r = p
      · subst hr
        rw [if_pos rfl] at hdone
        rcases hdone with hdone | ⟨hi, hfive⟩
        · exact Or.inl hdone
        · right
          refine ⟨hi, ?_⟩
          by_contra hlt
          exact hcopy ⟨by omega, rfl, hi⟩
      · rwa [if_neg hr] at hdone
  · exact hoverwritten
  · exact herased

end Receiving

/-! ## What the statements do -/

theorem TransferInv.polled (h : TransferInv program s) (hengaged : engaged program s.next p = some q)
    (hpos : 0 < s.pc p) (heq : s.transferCounter q p = s.transferCounter p q) :
    phase program s.next s.pc q p (completed program s.next p q) ≠ 0 := by
  rw [h.counter q p, h.counter p q] at heq
  have hown : (if engaged program s.next p = some q ∧ 0 < s.pc p then 1 else 0) = 1 :=
    if_pos ⟨hengaged, hpos⟩
  rw [hown] at heq
  rw [phase]
  split
  · decide
  next hlt =>
    by_cases hcounted : engaged program s.next q = some p ∧ 0 < s.pc q
    · rw [if_pos hcounted] at heq
      rw [if_pos ⟨by omega, hcounted.1⟩]
      exact Nat.ne_of_gt hcounted.2
    · rw [if_neg hcounted] at heq
      omega

theorem SenderOk.advance {x' : ℕ} (h : SenderOk x y m)
    (hiff : (3 ≤ y ∧ y ≤ 5 ∧ x ≤ 2 ∨ 6 ≤ y ∧ x ≤ 5) ↔ (3 ≤ y ∧ y ≤ 5 ∧ x' ≤ 2 ∨ 6 ≤ y ∧ x' ≤ 5)) :
    SenderOk x' y m :=
  ⟨h.status, h.statusUnread.trans hiff, h.bufferUnread⟩

theorem SenderOk.partner {y' : ℕ} (h : SenderOk x y m) (hstatus : senderStatus y = senderStatus y')
    (hiff : (3 ≤ y ∧ y ≤ 5 ∧ x ≤ 2 ∨ 6 ≤ y ∧ x ≤ 5) ↔ (3 ≤ y' ∧ y' ≤ 5 ∧ x ≤ 2 ∨ 6 ≤ y' ∧ x ≤ 5)) :
    SenderOk x y' m :=
  ⟨h.status.trans hstatus, h.statusUnread.trans hiff, h.bufferUnread⟩

theorem SenderOk.read {x' : ℕ} (h : SenderOk x y m) (hread : ¬ (3 ≤ y ∧ y ≤ 5 ∧ x' ≤ 2 ∨ 6 ≤ y ∧ x' ≤ 5)) :
    SenderOk x' y { m with statusUnread := false } :=
  ⟨h.status, ⟨fun hunread => absurd hunread Bool.false_ne_true, fun h => absurd h hread⟩, h.bufferUnread⟩

theorem SenderOk.started (h : SenderOk x y m) (hstatus : m.transferStatus = .transferStart) :
    3 ≤ y ∧ y ≤ 5 := by
  rw [h.status, senderStatus] at hstatus
  split at hstatus
  · cases hstatus
  · split at hstatus
    · omega
    · cases hstatus

theorem SenderOk.completed (h : SenderOk x y m) (hstatus : m.transferStatus = .transferReceiverComplete) :
    6 ≤ y := by
  rw [h.status, senderStatus] at hstatus
  split at hstatus
  · cases hstatus
  · split at hstatus
    · cases hstatus
    · omega

theorem ReceiverOk.completed (h : ReceiverOk x y buf m)
    (hstatus : m.transferStatus = .transferSenderComplete) : 5 ≤ x := by
  rw [h.status, receiverStatus] at hstatus
  split at hstatus
  · cases hstatus
  · omega

theorem ReceiverOk.advance {x' y' : ℕ} (h : ReceiverOk x y buf m)
    (hstatus : x ≤ 4 ↔ x' ≤ 4) (hunread : (5 ≤ x ∧ y ≤ 3) ↔ (5 ≤ x' ∧ y' ≤ 3))
    (hbuffer : (4 ≤ x ∧ y ≤ 4) ↔ (4 ≤ x' ∧ y' ≤ 4)) : ReceiverOk x' y' buf m where
  status := by
    rw [h.status, receiverStatus, receiverStatus]
    simp only [hstatus]
  statusUnread := h.statusUnread.trans hunread
  bufferUnread := h.bufferUnread.trans hbuffer
  contents := by
    intro hx hy
    have hboth := hbuffer.2 ⟨hx, hy⟩
    exact h.contents hboth.1 hboth.2

theorem ReceiverOk.putBuffer (h : ReceiverOk 3 3 buf m) : ReceiverOk 4 3 buf
    { m with symmetricBufferA := write m.symmetricBufferA 0 buf, bufferUnread := true } where
  status := h.status
  statusUnread := by
    rw [h.statusUnread]
    omega
  bufferUnread := by simp
  contents := by
    intro _ _
    rw [read_write_start (Nat.le_refl _)]
    exact take_length

theorem ReceiverOk.putStatus (h : ReceiverOk 4 3 buf m) : ReceiverOk 5 3 buf
    { m with transferStatus := .transferSenderComplete, statusUnread := true } where
  status := rfl
  statusUnread := by simp
  bufferUnread := by
    rw [h.bufferUnread]
    omega
  contents := by
    intro _ _
    exact h.contents (by omega) (by omega)

variable {value : TransferStatus}

theorem SenderOk.putStatus {y' : ℕ} (h : SenderOk x y m) (hvalue : value = senderStatus y')
    (hunread : 3 ≤ y' ∧ y' ≤ 5 ∧ x ≤ 2 ∨ 6 ≤ y' ∧ x ≤ 5) :
    SenderOk x y' { m with transferStatus := value, statusUnread := true } :=
  ⟨hvalue, ⟨fun _ => hunread, fun _ => rfl⟩, h.bufferUnread⟩

theorem ReceiverOk.read (h : ReceiverOk 5 3 buf m) : ReceiverOk 5 4 buf { m with statusUnread := false } where
  status := h.status
  statusUnread := by simp
  bufferUnread := by
    rw [h.bufferUnread]
    omega
  contents := by
    intro _ _
    exact h.contents (by omega) (by omega)

theorem ReceiverOk.copied (h : ReceiverOk 5 4 buf m) : ReceiverOk 5 5 buf { m with bufferUnread := false } where
  status := h.status
  statusUnread := by
    rw [h.statusUnread]
    omega
  bufferUnread := by simp
  contents := by omega

theorem readStatus_self : (s.readStatus p).memory p = { s.memory p with statusUnread := false } :=
  update_self _ _ _

theorem readStatus_of_ne (hr : r ≠ p) : (s.readStatus p).memory r = s.memory r :=
  update_of_ne hr _ _

variable {count : ℕ}

theorem copyBuffer_self : (s.copyBuffer p count).memory p = { s.memory p with bufferUnread := false } :=
  update_self _ _ _

theorem copyBuffer_of_ne (hr : r ≠ p) : (s.copyBuffer p count).memory r = s.memory r :=
  update_of_ne hr _ _

theorem putBuffer_self : (s.putBuffer buf q).memory q = { s.memory q with
      symmetricBufferA := write (s.memory q).symmetricBufferA 0 buf
      bufferUnread := true } :=
  update_self _ _ _

theorem putBuffer_of_ne (hr : r ≠ q) : (s.putBuffer buf q).memory r = s.memory r :=
  update_of_ne hr _ _

theorem putStatus_self : (s.putStatus value q).memory q =
    { s.memory q with transferStatus := value, statusUnread := true } :=
  update_self _ _ _

theorem putStatus_of_ne (hr : r ≠ q) : (s.putStatus value q).memory r = s.memory r :=
  update_of_ne hr _ _

/-! ## Runs -/

theorem TransferInv.send_step (h : TransferInv program s) (hpaired : Paired program)
    (hcall : (program p)[s.next p]? = some (TransferCall.send buf q)) (hstep : send p buf q s = some s') :
    TransferInv program s' := by
  have hne := partner_ne_send hpaired hcall
  have hengaged : engaged program s.next p = some q := engaged_of hcall
  have hjoint := sender_joint h hcall
  have hown := sender_memory h hcall
  obtain ⟨y, hy⟩ : ∃ y, phase program s.next s.pc q p (completed program s.next p q) = y := ⟨_, rfl⟩
  rw [hy] at hjoint hown
  obtain ⟨hbefore, hcounted, hpolled, hstarted, hsent, hcomplete⟩ := hjoint
  rw [send] at hstep
  obtain ⟨-, hstep⟩ := ite_none_left_eq_some.mp hstep
  have hinside : y ≠ 0 → y ≠ 7 → ReceiverOk (s.pc p) y buf (s.memory q) := by
    intro hpositive hseven
    rw [← hy] at hpositive hseven
    obtain ⟨hengaged', hnumber, -⟩ := phase_inside hpositive hseven
    have hother := partner_memory h hpaired hcall hengaged' hnumber
    rwa [hy] at hother
  rcases hpc : s.pc p with _ | _ | _ | _ | _ | _ | n <;> simp only [hpc, Nat.zero_add] at hstep
  · -- the counter
    cases hstep
    rw [hpc] at hown
    apply h.advance_send hpaired hcall hy hpc (s.countTransfer p q) rfl rfl (by omega) rfl
    · constructor <;> omega
    · exact hown.advance (by omega)
    · intro hother
      exact hother.advance (by omega) (by omega) (by omega)
    · exact Or.inl rfl
    · exact fun _ _ _ => rfl
    · rfl
    · exact h.overwritten
    · exact h.erased
  · -- a read of the counter of the partner
    cases hstep
    rw [TransferState.poll]
    split
    next heq =>
      have hpos := h.polled hengaged (by omega) heq
      rw [hy] at hpos
      rw [hpc] at hown
      apply h.advance_send hpaired hcall hy hpc s rfl rfl (by omega) rfl
      · constructor <;> omega
      · exact hown.advance (by omega)
      · intro hother
        exact hother.advance (by omega) (by omega) (by omega)
      · exact Or.inl rfl
      · exact fun _ _ _ => rfl
      · rfl
      · exact h.overwritten
      · exact h.erased
    next => exact h
  · -- the wait for the start
    obtain ⟨hstatus, hstep⟩ := ite_none_right_eq_some.mp hstep
    cases hstep
    have hstart := hown.started hstatus
    rw [hpc] at hown
    apply h.advance_send hpaired hcall hy hpc (s.readStatus p) rfl rfl (by omega) rfl
    · constructor <;> omega
    · rw [readStatus_self]
      exact hown.read (by omega)
    · rw [readStatus_of_ne hne]
      intro hother
      exact hother.advance (by omega) (by omega) (by omega)
    · exact Or.inl (readStatus_of_ne hne)
    · exact fun r hr _ => readStatus_of_ne hr
    · rfl
    · exact h.overwritten
    · exact h.erased
  · -- the data
    cases hstep
    have hthree : y = 3 := by omega
    subst hthree
    have hother := hinside (by omega) (by omega)
    rw [hpc] at hown hother
    apply h.advance_send hpaired hcall hy hpc (s.putBuffer buf q) rfl rfl (by omega) rfl
    · constructor <;> omega
    · rw [putBuffer_of_ne hne.symm]
      exact hown.advance (by omega)
    · rw [putBuffer_self]
      intro hother
      exact hother.putBuffer
    · exact Or.inr ⟨by omega, by omega⟩
    · exact fun r _ hr => putBuffer_of_ne hr
    · rfl
    · show (s.overwritten || (s.memory q).bufferUnread) = false
      rw [h.overwritten, Bool.false_or]
      exact Bool.eq_false_iff.2 (mt hother.bufferUnread.1 (by omega))
    · exact h.erased
  · -- the signal to the receiver
    cases hstep
    have hthree : y = 3 := by omega
    subst hthree
    have hother := hinside (by omega) (by omega)
    rw [hpc] at hown hother
    apply h.advance_send hpaired hcall hy hpc (s.putStatus .transferSenderComplete q) rfl rfl (by omega) rfl
    · constructor <;> omega
    · rw [putStatus_of_ne hne.symm]
      exact hown.advance (by omega)
    · rw [putStatus_self]
      intro hother
      exact hother.putStatus
    · exact Or.inr ⟨by omega, by omega⟩
    · exact fun r _ hr => putStatus_of_ne hr
    · rfl
    · show (s.overwritten || (s.memory q).statusUnread) = false
      rw [h.overwritten, Bool.false_or]
      exact Bool.eq_false_iff.2 (mt hother.statusUnread.1 (by omega))
    · exact h.erased
  · -- the wait for the receiver
    obtain ⟨hstatus, hstep⟩ := ite_none_right_eq_some.mp hstep
    cases hstep
    have hend := hown.completed hstatus
    rw [hpc] at hown
    apply h.advance_send hpaired hcall hy hpc (s.readStatus p) rfl rfl (by omega) rfl
    · constructor <;> omega
    · rw [readStatus_self]
      exact hown.read (by omega)
    · rw [readStatus_of_ne hne]
      intro hother
      exact hother.advance (by omega) (by omega) (by omega)
    · exact Or.inl (readStatus_of_ne hne)
    · exact fun r hr _ => readStatus_of_ne hr
    · rfl
    · exact h.overwritten
    · exact h.erased
  · -- the reset
    cases hstep
    have hlast : s.pc p = 6 := by
      have hle := h.pc_le p
      omega
    have hend : 6 ≤ y := by omega
    apply h.finish hcall rfl hne hlast
    · intro _ _
      show Joint 7 (phase program s.next s.pc q p (completed program s.next p q))
      rw [hy]
      constructor <;> omega
    · intro buf' hback
      exact absurd hback (not_sends_back hpaired hcall buf')
    · exact Bool.eq_false_iff.2 (mt hown.statusUnread.1 (by omega))
    · exact hown.bufferUnread
    · intro call hpartnerCall hq hnumber hlocal
      cases partner_receives hpaired hcall hpartnerCall hq hnumber
      intro buf' hsends
      exact (hlocal buf' hsends).advance (by omega) (by omega) (by omega)

theorem TransferInv.recv_step (h : TransferInv program s) (hpaired : Paired program)
    (hcall : (program p)[s.next p]? = some (TransferCall.recv count q)) (hstep : recv p count q s = some s') :
    TransferInv program s' := by
  have hne := partner_ne_recv hpaired hcall
  have hengaged : engaged program s.next p = some q := engaged_of hcall
  obtain ⟨buf, hsends, hlength⟩ := hpaired.receives _ _ _ _ (receives_current hcall)
  have hjoint := receiver_joint h hcall hsends
  have hown := receiver_memory h hcall hsends
  obtain ⟨x, hx⟩ : ∃ x, phase program s.next s.pc q p (completed program s.next p q) = x := ⟨_, rfl⟩
  rw [hx] at hjoint hown
  obtain ⟨hbefore, hcounted, hpolled, hstarted, hsent, hcomplete⟩ := hjoint
  rw [recv] at hstep
  have hinside : x ≠ 0 → x ≠ 7 → SenderOk x (s.pc p) (s.memory q) := by
    intro hpositive hseven
    rw [← hx] at hpositive hseven
    obtain ⟨hengaged', hnumber, -⟩ := phase_inside hpositive hseven
    have hother := partner_memory' h hcall hsends hengaged' hnumber
    rwa [hx] at hother
  rcases hpc : s.pc p with _ | _ | _ | _ | _ | _ | n <;> simp only [hpc, Nat.zero_add] at hstep
  · -- the counter
    cases hstep
    rw [hpc] at hown
    apply h.advance_recv hpaired hcall hsends hlength hx hpc (s.countTransfer p q) rfl rfl (by omega) rfl
    · constructor <;> omega
    · exact hown.advance (by omega) (by omega) (by omega)
    · intro hother
      exact hother.partner rfl (by omega)
    · exact Or.inl rfl
    · exact fun _ _ _ => rfl
    · rfl
    · exact h.overwritten
    · exact h.erased
  · -- a read of the counter of the partner
    cases hstep
    rw [TransferState.poll]
    split
    next heq =>
      have hpos := h.polled hengaged (by omega) heq
      rw [hx] at hpos
      rw [hpc] at hown
      apply h.advance_recv hpaired hcall hsends hlength hx hpc s rfl rfl (by omega) rfl
      · constructor <;> omega
      · exact hown.advance (by omega) (by omega) (by omega)
      · intro hother
        exact hother.partner rfl (by omega)
      · exact Or.inl rfl
      · exact fun _ _ _ => rfl
      · rfl
      · exact h.overwritten
      · exact h.erased
    next => exact h
  · -- the signal that the transfer starts
    cases hstep
    have hother := hinside (by omega) (by omega)
    rw [hpc] at hown hother
    apply h.advance_recv hpaired hcall hsends hlength hx hpc (s.putStatus .transferStart q) rfl rfl (by omega)
      rfl
    · constructor <;> omega
    · rw [putStatus_of_ne hne.symm]
      exact hown.advance (by omega) (by omega) (by omega)
    · rw [putStatus_self]
      intro hother
      exact hother.putStatus rfl (by omega)
    · exact Or.inr ⟨by omega, by omega⟩
    · exact fun r _ hr => putStatus_of_ne hr
    · rfl
    · show (s.overwritten || (s.memory q).statusUnread) = false
      rw [h.overwritten, Bool.false_or]
      exact Bool.eq_false_iff.2 (mt hother.statusUnread.1 (by omega))
    · exact h.erased
  · -- the wait for the sender
    obtain ⟨hstatus, hstep⟩ := ite_none_right_eq_some.mp hstep
    cases hstep
    have hfive : x = 5 := by
      have hend := hown.completed hstatus
      omega
    subst hfive
    rw [hpc] at hown
    apply h.advance_recv hpaired hcall hsends hlength hx hpc (s.readStatus p) rfl rfl (by omega) rfl
    · constructor <;> omega
    · rw [readStatus_self]
      exact hown.read
    · rw [readStatus_of_ne hne]
      intro hother
      exact hother.partner rfl (by omega)
    · exact Or.inl (readStatus_of_ne hne)
    · exact fun r hr _ => readStatus_of_ne hr
    · rfl
    · exact h.overwritten
    · exact h.erased
  · -- the copy
    cases hstep
    have hfive : x = 5 := by omega
    subst hfive
    rw [hpc] at hown
    apply h.advance_recv hpaired hcall hsends hlength hx hpc (s.copyBuffer p count) rfl rfl (by omega) rfl
    · constructor <;> omega
    · rw [copyBuffer_self]
      exact hown.copied
    · rw [copyBuffer_of_ne hne]
      intro hother
      exact hother.partner rfl (by omega)
    · exact Or.inl (copyBuffer_of_ne hne)
    · exact fun r hr _ => copyBuffer_of_ne hr
    · rfl
    · exact h.overwritten
    · exact h.erased
  · -- the signal to the sender
    cases hstep
    have hfive : x = 5 := by omega
    subst hfive
    have hother := hinside (by omega) (by omega)
    rw [hpc] at hown hother
    apply h.advance_recv hpaired hcall hsends hlength hx hpc (s.putStatus .transferReceiverComplete q) rfl rfl
      (by omega) rfl
    · constructor <;> omega
    · rw [putStatus_of_ne hne.symm]
      exact hown.advance (by omega) (by omega) (by omega)
    · rw [putStatus_self]
      intro hother
      exact hother.putStatus rfl (by omega)
    · exact Or.inr ⟨by omega, by omega⟩
    · exact fun r _ hr => putStatus_of_ne hr
    · rfl
    · show (s.overwritten || (s.memory q).statusUnread) = false
      rw [h.overwritten, Bool.false_or]
      exact Bool.eq_false_iff.2 (mt hother.statusUnread.1 (by omega))
    · exact h.erased
  · -- the reset
    cases hstep
    have hlast : s.pc p = 6 := by
      have hle := h.pc_le p
      omega
    rw [hlast] at hown
    have hsource : (TransferCall.recv count q).partner = q := rfl
    apply h.finish hcall hsource hne hlast
    · intro buf' hsends'
      exact absurd hsends' (not_sends_current hcall buf')
    · intro _ _
      show Joint (phase program s.next s.pc q p (completed program s.next p q)) 7
      rw [hx]
      constructor <;> omega
    · exact Bool.eq_false_iff.2 (mt hown.statusUnread.1 (by omega))
    · exact Bool.eq_false_iff.2 (mt hown.bufferUnread.1 (by omega))
    · intro call hpartnerCall hq hnumber hlocal
      have hcurrent := callsWith_callNumber hpartnerCall hq
      have hboth := hsends
      rw [← hnumber, Sends, completed, hcurrent] at hboth
      cases hboth
      have hsender : SenderOk (s.pc q) 6 (s.memory q) := hlocal
      exact hsender.partner rfl (by omega)

theorem TransferInv.step (h : TransferInv program s) (hpaired : Paired program)
    (hstep : transferStep program s p = some s') : TransferInv program s' := by
  rw [transferStep] at hstep
  cases hcall : s.current program p with
  | none =>
    rw [hcall] at hstep
    cases hstep
  | some call =>
    rw [hcall] at hstep
    cases call with
    | send buf dest => exact h.send_step hpaired hcall hstep
    | recv count source => exact h.recv_step hpaired hcall hstep

theorem phase_initial (symmetricBufferA : PE → ℕ → Byte) (p q : PE) (k : ℕ) :
    phase program (TransferState.initial symmetricBufferA).next
      (TransferState.initial symmetricBufferA).pc p q k = 0 := by
  have hcompleted : completed program (TransferState.initial symmetricBufferA).next p q = 0 := by
    simp [TransferState.initial, completed, callNumber]
  rw [phase, hcompleted, if_neg (Nat.not_lt_zero k)]
  exact ite_self 0

theorem initial_inv (symmetricBufferA : PE → ℕ → Byte) :
    TransferInv program (TransferState.initial symmetricBufferA) where
  pc_le _ := Nat.zero_le 6
  counter p q := by
    simp [TransferState.initial, completed, callNumber]
  joint p q k buf _ := by
    rw [phase_initial, phase_initial]
    constructor <;> omega
  memory p := by
    have hquiet : Quiet ((TransferState.initial symmetricBufferA).memory p) := ⟨rfl, rfl, rfl⟩
    have hjoint : Joint 0 0 := by constructor <;> omega
    rw [LocalOk]
    cases (program p)[(TransferState.initial symmetricBufferA).next p]? with
    | none => exact ⟨rfl, hquiet⟩
    | some call =>
      simp only [phase_initial]
      cases call with
      | send buf dest => exact hquiet.senderOk hjoint
      | recv count source =>
        intro buf _
        exact hquiet.receiverOk hjoint
  received p q i count buf _ hdone _ := by
    rcases hdone with hdone | ⟨-, hdone⟩
    · exact absurd hdone (Nat.not_lt_zero i)
    · exact absurd hdone (by decide : ¬ 5 ≤ 0)
  overwritten := rfl
  erased := rfl

def Inside (program : PE → List (TransferCall PE)) (s : TransferState PE) (p q : PE) : Prop :=
  (s.current program p).map TransferCall.partner = some q ∧ 0 < s.pc p

/-- What is claimed of a state. -/
structure TransferSafe (program : PE → List (TransferCall PE)) (s : TransferState PE) : Prop where
  /-- A call that has returned has copied the bytes of the matching send: the call with the same number of
  the calls of its source with it. -/
  received : ∀ p q i count, (program p)[i]? = some (TransferCall.recv count q) → i < s.next p →
    ∃ buf, Sends program q p (callNumber program p q i) buf ∧ s.buf p i = some buf
  overwritten : s.overwritten = false
  erased : s.erased = false
  counters : ∀ p q, ¬ Inside program s p q → ¬ Inside program s q p →
    s.transferCounter p q = s.transferCounter q p

theorem TransferInv.completed_le (h : TransferInv program s) (hpaired : Paired program)
    (hp : ¬ Inside program s p q) : completed program s.next q p ≤ completed program s.next p q := by
  by_contra hlt
  rw [Nat.not_le] at hlt
  have hdone : phase program s.next s.pc q p (completed program s.next p q) = 7 := if_pos hlt
  have hzero : phase program s.next s.pc p q (completed program s.next p q) = 0 := by
    rw [phase, if_neg (Nat.lt_irrefl _)]
    split
    next hengaged =>
      by_contra hpos
      exact hp ⟨hengaged.2, Nat.pos_of_ne_zero hpos⟩
    next => rfl
  have hlength : completed program s.next p q < (callsWith program q p).length := by
    apply Nat.lt_of_lt_of_le hlt
    rw [completed, callNumber, callsWith, ← countP_eq_length_filter]
    exact (take_sublist _ _).countP_le
  have hcall := getElem?_eq_getElem hlength
  have hmem : (callsWith program q p)[completed program s.next p q] ∈ callsWith program q p :=
    getElem_mem hlength
  have hpartner := of_decide_eq_true (mem_filter.1 hmem).2
  generalize (callsWith program q p)[completed program s.next p q] = call at hcall hpartner
  cases call with
  | send buf dest =>
    have hdest : dest = p := hpartner
    subst hdest
    have hjoint := h.joint q dest _ buf hcall
    rw [hdone, hzero] at hjoint
    exact absurd (hjoint.before rfl) (by decide)
  | recv count source =>
    have hsource : source = p := hpartner
    subst hsource
    obtain ⟨buf, hsends, -⟩ := hpaired.receives q source _ count hcall
    have hjoint := h.joint source q _ buf hsends
    rw [hdone, hzero] at hjoint
    exact absurd (hjoint.complete (by decide)) (by decide)

theorem TransferInv.safe (h : TransferInv program s) (hpaired : Paired program) : TransferSafe program s where
  received p q i count hcall hdone := by
    obtain ⟨buf, hsends, -⟩ := hpaired.receives p q _ count (callsWith_callNumber hcall rfl)
    exact ⟨buf, hsends, h.received p q i count buf hcall (Or.inl hdone) hsends⟩
  overwritten := h.overwritten
  erased := h.erased
  counters p q hp hq := by
    have hp' : ¬ (engaged program s.next p = some q ∧ 0 < s.pc p) := hp
    have hq' : ¬ (engaged program s.next q = some p ∧ 0 < s.pc q) := hq
    rw [h.counter, h.counter, if_neg hp', if_neg hq', Nat.add_zero, Nat.add_zero]
    exact Nat.le_antisymm (h.completed_le hpaired hq) (h.completed_le hpaired hp)

/-- Every state of every interleaving is safe. -/
theorem transfers_safe {program : PE → List (TransferCall PE)} (hmatched : Matched program)
    (symmetricBufferA : PE → ℕ → Byte) {pes : List PE} {s : TransferState PE}
    (hrun : TransferRun program (TransferState.initial symmetricBufferA) pes s) : TransferSafe program s := by
  have hpaired := hmatched.paired
  have hinv := hrun.invariant (fun _ _ _ h hstep => TransferInv.step h hpaired hstep)
    (initial_inv symmetricBufferA)
  exact hinv.safe hpaired

def exchange : Bool → List (TransferCall Bool)
  | false => [.send [7] true, .recv 2 true]
  | true => [.recv 1 false, .send [8, 9] false]

theorem exchange_matched : Matched exchange := by
  apply Matched.transfer (by decide : false ≠ true) rfl rfl
  apply Matched.transfer (by decide : true ≠ false) rfl rfl
  apply Matched.done
  intro pe
  cases pe <;> rfl

theorem transfers_safe_exchange : ∃ s, TransferRun exchange (TransferState.initial fun _ _ => 0)
    [false, true, false, true, true, false, false, false, true, true, true, true, true, true] s ∧
      TransferSafe exchange s := by
  have hrun : ∃ s, TransferRun exchange (TransferState.initial fun _ _ => 0)
      [false, true, false, true, true, false, false, false, true, true, true, true, true, true] s := by
    refine ⟨_, .cons rfl (.cons rfl (.cons rfl (.cons rfl (.cons rfl (.cons rfl (.cons rfl (.cons rfl
      (.cons rfl (.cons rfl (.cons rfl (.cons rfl (.cons rfl (.cons rfl (.nil _))))))))))))))⟩
  obtain ⟨s, hrun⟩ := hrun
  exact ⟨s, hrun, transfers_safe exchange_matched _ hrun⟩

end ScoreP.Ipc
