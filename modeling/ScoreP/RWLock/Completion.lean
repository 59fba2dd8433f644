import ScoreP.Foundations.Completion
import ScoreP.RWLock.Safety

/-!
# The reader-writer lock has no dead end and prefers writers

Whatever state a run leads to, the threads that are in the lock can all leave it, with no other thread
entering it meanwhile: no wake-up is lost, and no order of the steps makes threads wait for each other. And
while a writer waits, only readers enter that take a ticket of the writer before it (`writer_preferred`).

A thread at an operation that cannot fail goes on (`exists_move`), which lowers its `distance` to the outside. If
there is none, then the equations of `Balance` say that a ticket is there for a waiting reader, that the
writer is released, or that the mutex is free (`exists_progress`). A waiting thread that is released needs
several steps, since it may have to load the counter again (`progresses_of_spin`).
-/

namespace ScoreP.RWLock

open Foundations Function

variable {n : ℕ} {s t : State n} {i w : Fin n} {k : ℤ}

/-- A step of a thread that is in the lock. -/
def stepInside (s : State n) (i : Fin n) (t : State n) : Prop :=
  s.pcs i ≠ .outside ∧ step s i t

/-- How many operations a thread needs to get outside when it never has to wait. -/
def distance : Pc → ℤ
  | .outside | .bug => 0
  | .readerSignal | .writerMutexUnlock => 1
  | .readerDepart | .writerSignal _ => 2
  | .readerSub | .writerAdd => 3
  | .reading | .writing => 4
  | .readerLoad | .readerCas _ | .writerLoad | .writerCas _ => 5
  | .readerAdd | .writerDepart _ => 6
  | .writerSub => 7
  | .writerMutexLock => 8

theorem distance_nonneg (p : Pc) : 0 ≤ distance p := by
  cases p <;> simp [distance]

/-- The next operation of the thread does not depend on other threads. -/
def goesOn : Pc → Bool
  | .readerAdd | .reading | .readerSub | .readerDepart | .readerSignal | .writerSub | .writerDepart _ | .writing
  | .writerAdd | .writerSignal _ | .writerMutexUnlock => true
  | _ => false

theorem exists_move (c : Shared n) {p : Pc} (hp : goesOn p = true) :
    ∃ c' q, Move i c p c' q ∧ distance q < distance p := by
  cases p with
  | readerAdd => exact ⟨_, _, .readerAdd c, by split <;> simp [distance]⟩
  | reading => exact ⟨_, _, .readerUnlock c, by decide⟩
  | readerSub => exact ⟨_, _, .readerSub c, by split <;> simp [distance]⟩
  | readerDepart => exact ⟨_, _, .readerDepart c, by split <;> simp [distance]⟩
  | readerSignal => exact ⟨_, _, .readerSignal c, by split <;> simp [distance]⟩
  | writerSub => exact ⟨_, _, .writerSub c, by split <;> simp [distance]⟩
  | writerDepart p => exact ⟨_, _, .writerDepart c p, by split <;> simp [distance]⟩
  | writing => exact ⟨_, _, .writerUnlock c, by decide⟩
  | writerAdd => exact ⟨_, _, .writerAdd c, by split <;> simp [distance]⟩
  | writerSignal p => exact ⟨_, _, .writerSignal c p, by split <;> simp [distance]⟩
  | writerMutexUnlock => exact ⟨_, _, .writerMutexUnlock c, by decide⟩
  | _ => cases hp

/-- The writer waits for `release_writer`. -/
def awaitsRelease : Pc → Bool
  | .writerLoad | .writerCas _ => true
  | _ => false

theorem balance_waiting (h : Inv s) (hw : awaitsRelease (s.pcs w) = true) :
    s.shared.writerMutex = some w ∧ Balance s.shared (counts s.pcs) .waiting := by
  have hpc : holdsMutex (s.pcs w) = true ∧ phase (some (s.pcs w)) = .waiting := by
    cases hpc : s.pcs w <;> simp [hpc, awaitsRelease, holdsMutex, phase] at hw ⊢
  have hmutex := (h.mutex w).mpr hpc.1
  have hbal := h.balance
  rw [hmutex, Option.map_some, hpc.2] at hbal
  exact ⟨hmutex, hbal⟩

theorem wait_cases {p : Pc} (hgo : goesOn p = false) (hbug : p ≠ .bug) : awaitsRelease p = true ∨
    holdsMutex p = false ∧ (p = .outside ∨ p = .writerMutexLock ∨ 0 < waitingWeight p) := by
  cases p <;> simp [goesOn, awaitsRelease, holdsMutex] at hgo hbug ⊢

/-! ## Runs of one thread -/

def Progresses (s : State n) : Prop :=
  ∃ as t, Steps stepInside s as t ∧ tally distance t.pcs < tally distance s.pcs

theorem progresses_of_move {c : Shared n} {q : Pc} (hmove : Move i s.shared (s.pcs i) c q)
    (hless : distance q < distance (s.pcs i)) : Progresses s := by
  have hinside : s.pcs i ≠ .outside := by
    intro h
    rw [h] at hless
    exact absurd (distance_nonneg q) (by simpa [distance] using hless)
  refine ⟨[i], ⟨c, update s.pcs i q⟩, .single ⟨hinside, q, hmove, rfl⟩, ?_⟩
  rw [tally_update]
  omega

/-- A weak exchange may have failed before, and then the counter is loaded again. -/
theorem progresses_of_spin {load target : Pc} {cas : ℤ → Pc} {c : Shared n} {v : ℤ}
    (hpc : s.pcs i = load ∨ ∃ w, s.pcs i = cas w) (hin : load ≠ .outside ∧ ∀ w, cas w ≠ .outside)
    (hfail : ∀ w, Move i s.shared (cas w) s.shared load) (hload : Move i s.shared load s.shared (cas v))
    (hcas : Move i s.shared (cas v) c target) (hless : distance target < distance (s.pcs i)) : Progresses s := by
  have hstart : ∃ as, Steps stepInside s as ⟨s.shared, update s.pcs i load⟩ := by
    obtain hpc | ⟨w, hpc⟩ := hpc
    · exact ⟨[], by rw [← hpc, update_eq_self]; exact .nil s⟩
    · exact ⟨[i], .single ⟨hpc ▸ hin.2 w, load, hpc ▸ hfail w, rfl⟩⟩
  obtain ⟨as, hrun⟩ := hstart
  have hspin : Steps stepInside ⟨s.shared, update s.pcs i load⟩ [i, i] ⟨c, update s.pcs i target⟩ := by
    refine .cons (t := ⟨s.shared, update s.pcs i (cas v)⟩) ⟨?_, cas v, ?_, ?_⟩ (.single ⟨?_, target, ?_, ?_⟩)
    all_goals simp only [update_self, update_idem]
    · exact hin.1
    · exact hload
    · exact hin.2 v
    · exact hcas
  refine ⟨_, _, hrun.append hspin, ?_⟩
  show tally distance (update s.pcs i target) < _
  rw [tally_update]
  omega

theorem progresses_reader (hwait : waitingWeight (s.pcs i) ≠ 0) (hticket : s.shared.releaseNReaders ≠ 0) :
    Progresses s := by
  have hpc : s.pcs i = .readerLoad ∨ ∃ w, s.pcs i = .readerCas w := by
    cases h : s.pcs i <;> simp [h] at hwait ⊢
  have hload := Move.readerLoad (i := i) s.shared
  rw [if_neg hticket] at hload
  refine progresses_of_spin hpc ⟨by decide, nofun⟩ (.readerCasFail s.shared) hload (.readerCas s.shared _ rfl) ?_
  obtain h | ⟨w, h⟩ := hpc <;> simp [h, distance]

theorem progresses_writer (hwait : awaitsRelease (s.pcs i) = true) (hreleased : s.shared.releaseWriter ≠ 0) :
    Progresses s := by
  have hpc : s.pcs i = .writerLoad ∨ ∃ w, s.pcs i = .writerCas w := by
    cases h : s.pcs i <;> simp [h, awaitsRelease] at hwait ⊢
  have hload := Move.writerLoad (i := i) s.shared
  rw [if_neg hreleased] at hload
  refine progresses_of_spin hpc ⟨by decide, nofun⟩ (.writerCasFail s.shared) hload (.writerCas s.shared _ rfl) ?_
  obtain h | ⟨w, h⟩ := hpc <;> simp [h, distance]

/-! ## No dead end -/

theorem exists_progress (h : Inv s) (hinside : ∃ i, s.pcs i ≠ .outside) : Progresses s := by
  by_cases hgoes : ∃ i, goesOn (s.pcs i) = true
  · obtain ⟨i, hi⟩ := hgoes
    obtain ⟨c, q, hmove, hless⟩ := exists_move s.shared hi
    exact progresses_of_move hmove hless
  · -- all threads wait, so that none is active, leaving or signalling
    have hwaits : ∀ i, goesOn (s.pcs i) = false := fun i => by simpa using not_exists.mp hgoes i
    have hcount {f : Pc → ℤ} (hf : ∀ p, goesOn p = false → f p = 0) : tally f s.pcs = 0 :=
      tally_const_zero fun i => hf _ (hwaits i)
    have hactive : (counts s.pcs).active = 0 := hcount fun p hp => by cases p <;> first | rfl | cases hp
    have hleaving : (counts s.pcs).leaving = 0 := hcount fun p hp => by cases p <;> first | rfl | cases hp
    have hsignalling : (counts s.pcs).signalling = 0 := hcount fun p hp => by cases p <;> first | rfl | cases hp
    have hreader (hwaiting : (counts s.pcs).waiting ≠ 0) (hticket : s.shared.releaseNReaders ≠ 0) : Progresses s := by
      obtain ⟨i, hi⟩ : ∃ i, waitingWeight (s.pcs i) ≠ 0 := by
        by_contra hnone
        exact hwaiting (tally_const_zero fun i => not_not.mp (not_exists.mp hnone i))
      exact progresses_reader hi hticket
    by_cases hwriter : ∃ j, awaitsRelease (s.pcs j) = true
    · obtain ⟨j, hj⟩ := hwriter
      obtain ⟨-, -, -, hle, hsum, -, hreleased⟩ := balance_waiting h hj
      by_cases hticket : s.shared.releaseNReaders = 0
      · exact progresses_writer hj (by omega)
      · exact hreader (by omega) hticket
    · have hmutex : s.shared.writerMutex = none := by
        refine Option.eq_none_iff_forall_ne_some.mpr fun j hj => hwriter ⟨j, ?_⟩
        have hholds := (h.mutex j).mp hj
        exact (wait_cases (hwaits j) (h.noBug j)).resolve_right fun hpc => by simp [hpc.1] at hholds
      have hbal := h.balance
      rw [hmutex] at hbal
      obtain ⟨-, htickets, -⟩ := hbal
      obtain ⟨i, hi⟩ := hinside
      obtain hpc | ⟨-, hpc | hpc | hpc⟩ := wait_cases (hwaits i) (h.noBug i)
      · exact absurd ⟨i, hpc⟩ hwriter
      · exact absurd hpc hi
      · have hlock := Move.writerMutexLock (i := i) s.shared hmutex
        rw [← hpc] at hlock
        exact progresses_of_move hlock (by rw [hpc]; decide)
      · have hle := (counts_includes s.pcs i).waiting
        exact hreader (by omega) (by omega)

theorem Inv.shared_eq (hn : n < 2 ^ 14) (h : Inv s) (hout : ∀ i, s.pcs i = .outside) :
    s.shared = ⟨0, 0, 0, 0, none⟩ := by
  obtain ⟨hpending, hdeparting, hreaders, hwriter⟩ := (h.safe hn).quiescent hout
  have hmutex : s.shared.writerMutex = none := by
    refine Option.eq_none_iff_forall_ne_some.mpr fun i hi => ?_
    simpa [hout i, holdsMutex] using (h.mutex i).mp hi
  cases hshared : s.shared
  simp_all

theorem Reachable.move {c : Shared n} {q : Pc} (hs : Reachable s) (hmove : Move i s.shared (s.pcs i) c q) :
    Reachable ⟨c, update s.pcs i q⟩ := by
  obtain ⟨s₀, as, h₀, hrun⟩ := hs
  exact ⟨s₀, as ++ [i], h₀, hrun.append (.single ⟨q, hmove, rfl⟩)⟩

theorem initial_reachable : Reachable (initial n) :=
  ⟨_, [], rfl, .nil _⟩

/-- Thread 0 reads, and thread 1 waits for it. -/
def writerWaits : State 2 :=
  ⟨⟨1 - maxReaders, 1, 0, 0, some ⟨1, Nat.one_lt_two⟩⟩, update (fun _ => .writerLoad) ⟨0, Nat.two_pos⟩ .reading⟩

theorem writerWaits_reachable : Reachable writerWaits := by
  have h := (((((initial_reachable (n := 2)).move (i := 0) (.readerLock _)).move (i := 0) (.readerAdd _)).move
    (i := 1) (.writerLock _)).move (i := 1) (.writerMutexLock _ rfl)).move (i := 1) (.writerSub _)
  have h := h.move (i := 1) (.writerDepart _ 1)
  convert h using 2
  · rfl
  · exact funext fun i => match i with | 0 => rfl | 1 => rfl

/-- From every state of every run, all threads that are in the lock can leave it, and then it is free. -/
theorem lock_completes (hn : n < 2 ^ 14) (h : Reachable s) :
    Completes stepInside (fun t => (∀ i, t.pcs i = .outside) ∧ t.shared = ⟨0, 0, 0, 0, none⟩) s := by
  refine completes_of_progress (P := Inv) (fun s => (tally distance s.pcs).toNat) (fun s hs hfinal => ?_)
    (inv_of_reachable hn h)
  have hinside : ∃ i, s.pcs i ≠ .outside := by
    by_contra hnone
    have hout : ∀ i, s.pcs i = .outside := fun i => not_not.mp (not_exists.mp hnone i)
    exact hfinal ⟨hout, hs.shared_eq hn hout⟩
  obtain ⟨as, t, hrun, hless⟩ := exists_progress hs hinside
  have hpos := tally_nonneg distance_nonneg t.pcs
  exact ⟨as, t, hrun, hrun.invariant (fun _ _ _ hinv hstep => step_inv hn hinv hstep.2) hs, by omega⟩

theorem lock_completes_writerWaits :
    Completes stepInside (fun t => (∀ i, t.pcs i = .outside) ∧ t.shared = ⟨0, 0, 0, 0, none⟩) writerWaits :=
  lock_completes (by decide) writerWaits_reachable

/-! ## The writer is preferred -/

def entering (p q : Pc) : ℤ :=
  if p ≠ .reading ∧ q = .reading then 1 else 0

/-- A run during which the writer `w` waits, and the number of readers that enter their section in it. -/
inductive Overtakes (w : Fin n) : State n → State n → ℤ → Prop
  | refl (s : State n) (h : awaitsRelease (s.pcs w) = true) : Overtakes w s s 0
  | step {s t u : State n} {i : Fin n} {k : ℤ} (h : awaitsRelease (s.pcs w) = true) (hstep : step s i t)
      (hrun : Overtakes w t u k) : Overtakes w s u (k + entering (s.pcs i) (t.pcs i))

theorem tickets_step (hn : n < 2 ^ 14) (h : Inv s) (hw : awaitsRelease (s.pcs w) = true) (hstep : step s i t) :
    t.shared.releaseNReaders + entering (s.pcs i) (t.pcs i) = s.shared.releaseNReaders ∧
      t.shared.departing ≤ s.shared.departing := by
  obtain ⟨hmutex, hpending, -⟩ := balance_waiting h hw
  have hown (hholds : holdsMutex (s.pcs i) = true) : awaitsRelease (s.pcs i) = true := by
    have hi := (h.mutex i).mpr hholds
    rw [hmutex, Option.some.injEq] at hi
    rwa [← hi]
  obtain ⟨shared, pcs⟩ := t
  obtain ⟨q, hmove, hpcs⟩ := hstep
  simp only at hmove hpcs ⊢
  subst hpcs
  obtain ⟨-, -, hleaving, hsignalling, -⟩ := counts_bounded s.pcs
  have hbound := (counts_bounded (update s.pcs i q)).total
  rw [counts_update] at hbound
  rw [update_self]
  generalize s.pcs i = p at hmove hown hbound ⊢
  have hmax := maxReaders_eq
  cases hmove with
  | readerAdd =>
    -- `pending` is so low that the reader has to wait
    have hneg : s.shared.pending + 1 < 0 := by
      by_contra hge
      simp [if_neg hge, Counts.move] at hbound
      omega
    simp [if_pos hneg, entering]
  | readerCas v hv => simp [entering, hv]
  | readerLoad | readerSub | readerDepart | readerSignal | writerLoad => split <;> simp [entering]
  | readerLock | readerCasFail | readerUnlock | writerLock | writerMutexLock | writerCas | writerCasFail =>
    simp [entering]
  | _ => simp [holdsMutex, awaitsRelease] at hown

theorem Overtakes.tickets (hn : n < 2 ^ 14) (h : Inv s) (hrun : Overtakes w s t k) :
    k + t.shared.releaseNReaders = s.shared.releaseNReaders ∧ t.shared.departing ≤ s.shared.departing ∧ Inv t ∧
      awaitsRelease (t.pcs w) = true := by
  induction hrun with
  | refl s hw => exact ⟨zero_add _, le_rfl, h, hw⟩
  | step hw hstep _ ih =>
    obtain ⟨htickets, hdeparting, hend⟩ := ih (step_inv hn h hstep)
    obtain ⟨hone, hless⟩ := tickets_step hn h hw hstep
    exact ⟨by omega, hdeparting.trans hless, hend⟩

/-- While a writer waits, the readers that enter are those that take a ticket of the writer before it, and the
readers that it waits for do not become more. -/
theorem writer_preferred (hn : n < 2 ^ 14) (hs : Reachable s) (hrun : Overtakes w s t k) :
    k = s.shared.releaseNReaders - t.shared.releaseNReaders ∧ 0 ≤ t.shared.releaseNReaders ∧
      t.shared.departing ≤ s.shared.departing := by
  obtain ⟨htickets, hdeparting, ht, hw⟩ := hrun.tickets hn (inv_of_reachable hn hs)
  obtain ⟨-, -, hnonneg, -⟩ := balance_waiting ht hw
  exact ⟨by omega, hnonneg, hdeparting⟩

theorem writer_preferred_waits : 0 + entering .reading .readerSub = 0 - 0 ∧ (0 : ℤ) ≤ 0 ∧ (1 : ℤ) ≤ 1 := by
  have hstep : step writerWaits 0 ⟨writerWaits.shared, update writerWaits.pcs 0 .readerSub⟩ :=
    ⟨_, .readerUnlock _, rfl⟩
  exact writer_preferred (w := 1) (by decide) writerWaits_reachable (.step rfl hstep (.refl _ rfl))

end ScoreP.RWLock
