import ScoreP.Foundations.Tally
import ScoreP.RWLock.Lock

/-!
# Mutual exclusion of the reader-writer lock

The invariant compares the four counters with four counts of threads: readers in their section
(`active`), readers that wait for a release (`waiting`), readers that have left `pending` but not
yet `departing` (`leaving`), and readers about to signal the writer (`signalling`). `Balance` gives
the equations, by the position of the thread that holds the writer mutex:

* while no writer has taken `pending` below zero, every waiting reader has a ticket in
  `release_n_readers`, and `departing` and `release_writer` are 0;
* while a writer waits, the readers it waits for are the active ones, the tickets and the leaving
  ones; tickets may be taken by readers that came later;
* a writer in its section has no active reader, no ticket and no leaving reader beside it.

`Inv` adds that the mutex is held by exactly the threads between its two operations. One lemma per
party (`reader_move`, `writer_move`) shows that its moves keep the equations.
-/

namespace ScoreP.RWLock

open Foundations Function

/-! ## The counts -/

@[simp] def activeWeight : Pc → ℤ
  | .reading | .readerSub => 1
  | _ => 0

@[simp] def waitingWeight : Pc → ℤ
  | .readerLoad | .readerCas _ => 1
  | _ => 0

@[simp] def leavingWeight : Pc → ℤ
  | .readerDepart => 1
  | _ => 0

@[simp] def signallingWeight : Pc → ℤ
  | .readerSignal => 1
  | _ => 0

def holdsMutex : Pc → Bool
  | .writerSub | .writerDepart _ | .writerLoad | .writerCas _ | .writing | .writerAdd
  | .writerSignal _ | .writerMutexUnlock => true
  | _ => false

structure Counts where
  active : ℤ
  waiting : ℤ
  leaving : ℤ
  signalling : ℤ

def counts {n : ℕ} (pcs : Fin n → Pc) : Counts where
  active := tally activeWeight pcs
  waiting := tally waitingWeight pcs
  leaving := tally leavingWeight pcs
  signalling := tally signallingWeight pcs

/-- The counts after a thread has moved from `p` to `q`. -/
def Counts.move (k : Counts) (p q : Pc) : Counts where
  active := k.active - activeWeight p + activeWeight q
  waiting := k.waiting - waitingWeight p + waitingWeight q
  leaving := k.leaving - leavingWeight p + leavingWeight q
  signalling := k.signalling - signallingWeight p + signallingWeight q

variable {n : ℕ}

theorem counts_update (pcs : Fin n → Pc) (i : Fin n) (q : Pc) :
    counts (update pcs i q) = (counts pcs).move (pcs i) q := by
  simp [counts, Counts.move, tally_update]

/-- What holds of the counts of any `n` threads. -/
structure Counts.Bounded (k : Counts) (n : ℤ) : Prop where
  active : 0 ≤ k.active
  waiting : 0 ≤ k.waiting
  leaving : 0 ≤ k.leaving
  signalling : 0 ≤ k.signalling
  total : k.active + k.waiting + k.leaving + k.signalling ≤ n

theorem counts_bounded (pcs : Fin n → Pc) : (counts pcs).Bounded n where
  active := tally_nonneg (fun p => by cases p <;> simp [activeWeight]) pcs
  waiting := tally_nonneg (fun p => by cases p <;> simp [waitingWeight]) pcs
  leaving := tally_nonneg (fun p => by cases p <;> simp [leavingWeight]) pcs
  signalling := tally_nonneg (fun p => by cases p <;> simp [signallingWeight]) pcs
  total := by
    have hle := tally_le_card (f := fun p => activeWeight p + waitingWeight p + leavingWeight p +
      signallingWeight p) (fun p => by
        cases p <;> simp [activeWeight, waitingWeight, leavingWeight, signallingWeight]) pcs
    simp only [tally_add, Fintype.card_fin] at hle
    exact hle

/-! ## The balance of the counters -/

inductive Phase
  /-- `pending` is not lowered: nobody holds the mutex, or its holder has not yet lowered it, or has
  raised it again and released the waiting readers. -/
  | free
  /-- `pending` is lowered, and the value it had is about to be added to `departing`. -/
  | joining (pending : ℤ)
  | waiting
  | writing
  /-- `pending` is raised again, and its value is about to become the number of tickets. -/
  | releasing (pending : ℤ)

def phase : Option Pc → Phase
  | some (.writerDepart p) => .joining p
  | some .writerLoad | some (.writerCas _) => .waiting
  | some .writing | some .writerAdd => .writing
  | some (.writerSignal p) => .releasing p
  | _ => .free

def Balance {n : ℕ} (c : Shared n) (k : Counts) : Phase → Prop
  | .free =>
    c.pending = k.active + k.waiting ∧ c.releaseNReaders = k.waiting ∧ c.departing = 0 ∧
      c.releaseWriter = 0 ∧ k.leaving = 0 ∧ k.signalling = 0
  | .joining p =>
    c.pending = k.active + k.waiting - maxReaders ∧ 0 ≤ c.releaseNReaders ∧ c.releaseNReaders ≤ k.waiting ∧
      k.active + c.releaseNReaders + k.leaving = p + c.departing ∧ c.departing ≤ 0 ∧ p ≤ n ∧
      c.releaseWriter = 0 ∧ k.signalling = 0
  | .waiting =>
    c.pending = k.active + k.waiting - maxReaders ∧ 0 ≤ c.releaseNReaders ∧ c.releaseNReaders ≤ k.waiting ∧
      k.active + c.releaseNReaders + k.leaving = c.departing ∧ 0 ≤ c.releaseWriter ∧
      (0 < c.departing ∧ k.signalling + c.releaseWriter = 0 ∨
        c.departing = 0 ∧ k.signalling + c.releaseWriter = 1)
  | .writing =>
    c.pending = k.waiting - maxReaders ∧ c.releaseNReaders = 0 ∧ c.departing = 0 ∧
      c.releaseWriter = 0 ∧ k.active = 0 ∧ k.leaving = 0 ∧ k.signalling = 0
  | .releasing p =>
    c.pending = k.active + k.waiting ∧ c.releaseNReaders = 0 ∧ c.departing = 0 ∧
      c.releaseWriter = 0 ∧ k.waiting = p ∧ 0 < p ∧ k.leaving = 0 ∧ k.signalling = 0

def LoadedOk : Pc → Prop
  | .readerCas v => v ≠ 0
  | .writerCas v => v ≠ 0
  | _ => True

structure Inv {n : ℕ} (s : State n) : Prop where
  mutex : ∀ i, s.shared.writerMutex = some i ↔ holdsMutex (s.pcs i) = true
  balance : Balance s.shared (counts s.pcs) (phase (s.shared.writerMutex.map s.pcs))
  loaded : ∀ i, LoadedOk (s.pcs i)
  noBug : ∀ i, s.pcs i ≠ .bug

/-! ## One move -/

theorem maxReaders_eq : maxReaders = 16384 := rfl

structure Counts.Includes (k : Counts) (p : Pc) : Prop where
  active : activeWeight p ≤ k.active
  waiting : waitingWeight p ≤ k.waiting
  leaving : leavingWeight p ≤ k.leaving
  signalling : signallingWeight p ≤ k.signalling

theorem counts_includes (pcs : Fin n → Pc) (i : Fin n) : (counts pcs).Includes (pcs i) where
  active := le_tally (fun p => by cases p <;> simp [activeWeight]) pcs i
  waiting := le_tally (fun p => by cases p <;> simp [waitingWeight]) pcs i
  leaving := le_tally (fun p => by cases p <;> simp [leavingWeight]) pcs i
  signalling := le_tally (fun p => by cases p <;> simp [signallingWeight]) pcs i

section Moves

variable {n : ℕ} {i : Fin n} {c c' : Shared n} {p q : Pc} {k : Counts}

theorem reader_move (hn : n < 2 ^ 14) (hmove : Move i c p c' q) (hp : holdsMutex p = false)
    (hmutex : c'.writerMutex = c.writerMutex) (ph : Phase) (hbal : Balance c k ph)
    (hk : k.Bounded n) (hk' : (k.move p q).Bounded n) (hin : k.Includes p) (hload : LoadedOk p) :
    Balance c' (k.move p q) ph ∧ LoadedOk q ∧ q ≠ .bug ∧ holdsMutex q = false := by
  have hmax := maxReaders_eq
  obtain ⟨ha, hw, hl, hs, ht⟩ := hk
  have ht' := hk'.total
  obtain ⟨hia, -, hil, his⟩ := hin
  cases hmove with
  | readerLock | writerLock | readerUnlock | readerCasFail =>
    exact ⟨by simpa [Counts.move] using hbal, trivial, by decide, rfl⟩
  | readerLoad =>
    by_cases hzero : c.releaseNReaders = 0
    · rw [if_pos hzero]
      exact ⟨by simpa [Counts.move] using hbal, trivial, by decide, rfl⟩
    · rw [if_neg hzero]
      exact ⟨by simpa [Counts.move] using hbal, hzero, by simp, rfl⟩
  | readerAdd =>
    -- `pending + 1` is negative exactly while a writer has lowered `pending`
    by_cases hneg : c.pending + 1 < 0
    · rw [if_pos hneg] at ht' ⊢
      refine ⟨?_, trivial, by decide, rfl⟩
      simp only [Counts.move, activeWeight, waitingWeight, leavingWeight, signallingWeight] at ht' ⊢
      cases ph <;> simp only [Balance] at hbal ⊢ <;> omega
    · rw [if_neg hneg] at ht' ⊢
      refine ⟨?_, trivial, by decide, rfl⟩
      simp only [Counts.move, activeWeight, waitingWeight, leavingWeight, signallingWeight] at ht' ⊢
      cases ph <;> simp only [Balance] at hbal ⊢ <;> omega
  | readerCas v h =>
    refine ⟨?_, trivial, by decide, rfl⟩
    simp only [Counts.move, activeWeight, waitingWeight, leavingWeight, signallingWeight, LoadedOk] at hload ⊢
    cases ph <;> simp only [Balance] at hbal ⊢ <;> omega
  | readerSub =>
    simp only [activeWeight] at hia
    by_cases hneg : c.pending - 1 < 0
    · rw [if_pos hneg] at ht' ⊢
      refine ⟨?_, trivial, by decide, rfl⟩
      simp only [Counts.move, activeWeight, waitingWeight, leavingWeight, signallingWeight] at ht' ⊢
      cases ph <;> simp only [Balance] at hbal ⊢ <;> omega
    · rw [if_neg hneg] at ht' ⊢
      refine ⟨?_, trivial, by decide, rfl⟩
      simp only [Counts.move, activeWeight, waitingWeight, leavingWeight, signallingWeight] at ht' ⊢
      cases ph <;> simp only [Balance] at hbal ⊢ <;> omega
  | readerDepart =>
    simp only [leavingWeight] at hil
    by_cases hlast : c.departing - 1 = 0
    · rw [if_pos hlast]
      refine ⟨?_, trivial, by decide, rfl⟩
      simp only [Counts.move, activeWeight, waitingWeight, leavingWeight, signallingWeight]
      cases ph <;> simp only [Balance] at hbal ⊢ <;> omega
    · rw [if_neg hlast]
      refine ⟨?_, trivial, by decide, rfl⟩
      simp only [Counts.move, activeWeight, waitingWeight, leavingWeight, signallingWeight]
      cases ph <;> simp only [Balance] at hbal ⊢ <;> omega
  | readerSignal =>
    simp only [signallingWeight] at his
    have hzero : c.releaseWriter = 0 := by
      cases ph <;> simp only [Balance] at hbal <;> omega
    rw [if_neg (by simp [hzero])]
    refine ⟨?_, trivial, by decide, rfl⟩
    simp only [Counts.move, activeWeight, waitingWeight, leavingWeight, signallingWeight]
    cases ph <;> simp only [Balance] at hbal ⊢ <;> omega
  | writerMutexLock h => simp [h] at hmutex
  | _ => simp [holdsMutex] at hp

theorem writer_move (hn : n < 2 ^ 14) (hmove : Move i c p c' q) (hp : holdsMutex p = true)
    (hbal : Balance c k (phase (some p))) (hk : k.Bounded n) (hload : LoadedOk p) :
    Balance c' (k.move p q) (phase (some q)) ∧ LoadedOk q ∧ q ≠ .bug ∧
      (holdsMutex q = true ∧ c'.writerMutex = c.writerMutex ∨ q = .outside ∧ c'.writerMutex = none) := by
  have hmax := maxReaders_eq
  obtain ⟨ha, hw, hl, hs, ht⟩ := hk
  cases hmove with
  | writerSub =>
    simp only [phase, Balance] at hbal
    by_cases hzero : c.pending - maxReaders + maxReaders ≠ 0
    · rw [if_pos hzero]
      refine ⟨?_, trivial, by simp, .inl ⟨rfl, rfl⟩⟩
      simp only [phase, Balance, Counts.move, activeWeight, waitingWeight, leavingWeight, signallingWeight]
      omega
    · rw [if_neg hzero]
      refine ⟨?_, trivial, by decide, .inl ⟨rfl, rfl⟩⟩
      simp only [phase, Balance, Counts.move, activeWeight, waitingWeight, leavingWeight, signallingWeight]
      omega
  | writerDepart p =>
    simp only [phase, Balance] at hbal
    by_cases hzero : c.departing + p ≠ 0
    · rw [if_pos hzero]
      refine ⟨?_, trivial, by simp, .inl ⟨rfl, rfl⟩⟩
      simp only [phase, Balance, Counts.move, activeWeight, waitingWeight, leavingWeight, signallingWeight]
      omega
    · rw [if_neg hzero]
      refine ⟨?_, trivial, by decide, .inl ⟨rfl, rfl⟩⟩
      simp only [phase, Balance, Counts.move, activeWeight, waitingWeight, leavingWeight, signallingWeight]
      omega
  | writerLoad =>
    by_cases hzero : c.releaseWriter = 0
    · rw [if_pos hzero]
      exact ⟨by simpa [Counts.move] using hbal, trivial, by decide, .inl ⟨rfl, rfl⟩⟩
    · rw [if_neg hzero]
      exact ⟨by simpa [Counts.move, phase] using hbal, hzero, by simp, .inl ⟨rfl, rfl⟩⟩
  | writerCas v h =>
    refine ⟨?_, trivial, by decide, .inl ⟨rfl, rfl⟩⟩
    simp only [phase, Balance, Counts.move, activeWeight, waitingWeight, leavingWeight,
      signallingWeight, LoadedOk] at hbal hload ⊢
    omega
  | writerCasFail v =>
    exact ⟨by simpa [Counts.move, phase] using hbal, trivial, by decide, .inl ⟨rfl, rfl⟩⟩
  | writerUnlock =>
    exact ⟨by simpa [Counts.move, phase] using hbal, trivial, by decide, .inl ⟨rfl, rfl⟩⟩
  | writerAdd =>
    simp only [phase, Balance] at hbal
    have hconv : toUInt16 (c.pending + maxReaders) = k.waiting := by
      unfold toUInt16
      omega
    rw [hconv]
    by_cases hpos : 0 < k.waiting
    · rw [if_pos hpos]
      refine ⟨?_, trivial, by simp, .inl ⟨rfl, rfl⟩⟩
      simp only [phase, Balance, Counts.move, activeWeight, waitingWeight, leavingWeight, signallingWeight]
      omega
    · rw [if_neg hpos]
      refine ⟨?_, trivial, by decide, .inl ⟨rfl, rfl⟩⟩
      simp only [phase, Balance, Counts.move, activeWeight, waitingWeight, leavingWeight, signallingWeight]
      omega
  | writerSignal p =>
    simp only [phase, Balance] at hbal
    have hconv : toInt16 p = p := by
      unfold toInt16
      rw [Int.bmod_eq_of_le] <;> omega
    rw [hconv, if_neg (by simp [hbal.2.1])]
    refine ⟨?_, trivial, by decide, .inl ⟨rfl, rfl⟩⟩
    simp only [phase, Balance, Counts.move, activeWeight, waitingWeight, leavingWeight, signallingWeight]
    omega
  | writerMutexUnlock =>
    exact ⟨by simpa [Counts.move, phase, Balance] using hbal, trivial, by decide, .inr ⟨rfl, rfl⟩⟩
  | _ => simp [holdsMutex] at hp

end Moves

/-! ## Runs -/

theorem initial_inv (n : ℕ) : Inv (initial n) where
  mutex i := by simp [initial, holdsMutex]
  balance := by
    simp [initial, phase, Balance, counts, tally]
  loaded _ := trivial
  noBug _ := by simp [initial]

theorem mutex_update {s : State n} {i : Fin n} {q : Pc} (h : Inv s)
    (hq : holdsMutex q = holdsMutex (s.pcs i)) (j : Fin n) :
    s.shared.writerMutex = some j ↔ holdsMutex (update s.pcs i q j) = true := by
  by_cases hj : j = i
  · subst hj
    rw [update_self, hq]
    exact h.mutex j
  · rw [update_of_ne hj]
    exact h.mutex j

theorem forall_update {pcs : Fin n → Pc} {P : Pc → Prop} (h : ∀ j, P (pcs j)) {i : Fin n} {q : Pc}
    (hq : P q) (j : Fin n) : P (update pcs i q j) := by
  by_cases hj : j = i
  · subst hj
    rwa [update_self]
  · rw [update_of_ne hj]
    exact h j

theorem step_inv (hn : n < 2 ^ 14) {s t : State n} {i : Fin n} (h : Inv s) (hstep : step s i t) : Inv t := by
  obtain ⟨shared, pcs⟩ := t
  obtain ⟨q, hmove, hpcs⟩ := hstep
  simp only at hmove hpcs
  subst hpcs
  have hk := counts_bounded s.pcs
  have hk' := counts_bounded (update s.pcs i q)
  rw [counts_update] at hk'
  cases hp : holdsMutex (s.pcs i) with
  | true =>
    have howner := (h.mutex i).mpr hp
    have hbal := h.balance
    rw [howner, Option.map_some] at hbal
    obtain ⟨hbal', hload, hbug, hstay | ⟨rfl, hnone⟩⟩ := writer_move hn hmove hp hbal hk (h.loaded i)
    · refine ⟨fun j => ?_, ?_, forall_update h.loaded hload, forall_update (P := (· ≠ .bug)) h.noBug hbug⟩
      · rw [hstay.2]
        exact mutex_update h (hstay.1.trans hp.symm) j
      · rw [counts_update, hstay.2, howner, Option.map_some]
        show Balance shared _ (phase (some (update s.pcs i q i)))
        rw [update_self]
        exact hbal'
    · refine ⟨fun j => ?_, ?_, forall_update h.loaded hload, forall_update (P := (· ≠ .bug)) h.noBug hbug⟩
      · -- the holder was the only one, and it is outside now
        rw [hnone]
        by_cases hj : j = i
        · subst hj
          simp [holdsMutex]
        · have hne : ¬ holdsMutex (s.pcs j) = true := by
            rw [← h.mutex j, howner, Option.some.injEq]
            exact Ne.symm hj
          simpa [update_of_ne hj] using hne
      · rw [counts_update, hnone, Option.map_none]
        exact hbal'
  | false =>
    by_cases hsame : shared.writerMutex = s.shared.writerMutex
    · obtain ⟨hbal', hload, hbug, hq⟩ :=
        reader_move hn hmove hp hsame _ h.balance hk hk' (counts_includes s.pcs i) (h.loaded i)
      refine ⟨fun j => ?_, ?_, forall_update h.loaded hload, forall_update (P := (· ≠ .bug)) h.noBug hbug⟩
      · rw [hsame]
        exact mutex_update h (hq.trans hp.symm) j
      · have hphase : s.shared.writerMutex.map (update s.pcs i q) =
            s.shared.writerMutex.map s.pcs := by
          apply Option.map_congr
          intro j hj
          have hji : j ≠ i := by
            intro hji
            rw [hji, h.mutex i, hp] at hj
            exact absurd hj (by decide)
          exact update_of_ne hji q s.pcs
        rw [counts_update, hsame, hphase]
        exact hbal'
    · -- the only other move takes the mutex
      have hbal := h.balance
      generalize hpc : s.pcs i = p at hmove hp
      cases hmove with
      | writerMutexLock hfree =>
        rw [hfree, Option.map_none] at hbal
        refine ⟨fun j => ?_, ?_, forall_update h.loaded trivial, forall_update (P := (· ≠ .bug)) h.noBug (by decide)⟩
        · by_cases hj : j = i
          · subst hj
            simp [holdsMutex]
          · have hne : ¬ holdsMutex (s.pcs j) = true := by
              rw [← h.mutex j, hfree]
              simp
            simpa [update_of_ne hj, Ne.symm hj] using hne
        · rw [counts_update, hpc, Option.map_some]
          show Balance _ _ (phase (some (update s.pcs i Pc.writerSub i)))
          rw [update_self]
          simpa [Counts.move, phase, Balance] using hbal
      | writerMutexUnlock => simp [holdsMutex] at hp
      | _ => exact absurd rfl hsame

theorem inv_of_reachable (hn : n < 2 ^ 14) {s : State n} (h : Reachable s) : Inv s :=
  Foundations.Reachable.invariant (P := Inv) (by rintro _ rfl; exact initial_inv n)
    (fun _ _ _ hinv hstep => step_inv hn hinv hstep) h

/-- What the lock guarantees in a state. -/
structure Safe {n : ℕ} (s : State n) : Prop where
  writers : ∀ i j, s.pcs i = .writing → s.pcs j = .writing → i = j
  readers : ∀ i j, s.pcs i = .writing → s.pcs j ≠ .reading
  noBug : ∀ i, s.pcs i ≠ .bug
  /-- The counters hold values of type `int16_t`. -/
  range : ∀ v ∈ [s.shared.pending, s.shared.departing, s.shared.releaseNReaders,
    s.shared.releaseWriter], -2 ^ 15 ≤ v ∧ v < 2 ^ 15
  quiescent : (∀ i, s.pcs i = .outside) → s.shared.pending = 0 ∧ s.shared.departing = 0 ∧
    s.shared.releaseNReaders = 0 ∧ s.shared.releaseWriter = 0

theorem Inv.safe (hn : n < 2 ^ 14) {s : State n} (h : Inv s) : Safe s where
  writers i j hi hj := by
    have howner := (h.mutex i).mpr (by rw [hi]; rfl)
    have howner' := (h.mutex j).mpr (by rw [hj]; rfl)
    exact Option.some.inj (howner.symm.trans howner')
  readers i j hi hj := by
    have howner := (h.mutex i).mpr (by rw [hi]; rfl)
    have hbal := h.balance
    rw [howner, Option.map_some, hi] at hbal
    have hone := (counts_includes s.pcs j).active
    rw [hj] at hone
    simp only [phase, Balance, activeWeight] at hbal hone
    omega
  noBug := h.noBug
  range := by
    have hmax := maxReaders_eq
    obtain ⟨ha, hw, hl, hs, ht⟩ := counts_bounded s.pcs
    have hbal := h.balance
    have hn' : (n : ℤ) < 16384 := by omega
    generalize counts s.pcs = k at *
    generalize phase (s.shared.writerMutex.map s.pcs) = ph at hbal
    simp only [List.mem_cons, List.not_mem_nil, or_false, forall_eq_or_imp, forall_eq]
    cases ph <;> simp only [Balance] at hbal <;> omega
  quiescent hout := by
    have hnone : s.shared.writerMutex = none := by
      cases howner : s.shared.writerMutex with
      | none => rfl
      | some i =>
        have hholds := (h.mutex i).mp howner
        rw [hout i] at hholds
        exact absurd hholds (by decide)
    have hbal := h.balance
    rw [hnone, Option.map_none] at hbal
    have ha : tally activeWeight s.pcs = 0 := tally_const_zero fun i => by rw [hout i]; rfl
    have hw : tally waitingWeight s.pcs = 0 := tally_const_zero fun i => by rw [hout i]; rfl
    simp only [counts, ha, hw] at hbal
    simp only [phase, Balance] at hbal
    omega

/-- **Fewer than `2^14` threads use the lock safely, whatever sections they run and however their
operations interleave.** -/
theorem lock_safe {n : ℕ} (hn : n < 2 ^ 14) {s : State n} (h : Reachable s) : Safe s :=
  (inv_of_reachable hn h).safe hn

/-- Two threads, the first of which has taken the lock for writing. -/
theorem lock_safe_writing : Safe (n := 2) ⟨⟨0 - maxReaders, 0, 0, 0, some 0⟩, update (update
      (update (fun _ => .outside) 0 .writerMutexLock) 0 .writerSub) 0 .writing⟩ := by
  have hlower : Move (0 : Fin 2) ⟨0, 0, 0, 0, some 0⟩ .writerSub
      ⟨0 - maxReaders, 0, 0, 0, some 0⟩ .writing := .writerSub _
  refine lock_safe (by decide) ⟨initial 2, [0, 0, 0], rfl, ?_⟩
  refine .cons (t := ⟨⟨0, 0, 0, 0, none⟩, update (fun _ => .outside) 0
    .writerMutexLock⟩) ⟨_, .writerLock _, rfl⟩ ?_
  refine .cons (t := ⟨⟨0, 0, 0, 0, some 0⟩, update (update (fun _ => .outside) 0
    .writerMutexLock) 0 .writerSub⟩) ⟨_, .writerMutexLock _ rfl, rfl⟩ ?_
  exact .single ⟨.writing, hlower, rfl⟩

end ScoreP.RWLock
