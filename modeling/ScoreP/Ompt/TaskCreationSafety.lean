import ScoreP.Ompt.TaskCreation

/-!
# What the data of a created task stands for

`Laid` says how `init_parallel_obj` lays out the fields of a parallel region (`initParallelObj_laid`), and
`unpack_pack` that the fields are read back. `Inv` holds in every reachable state (`Reachable.inv`): each
parallel region but the implicit one is laid out, the tasks' objects belong to the regions that the runtime
put them in, and the generation numbers of created tasks are not above the counter of their thread.

`sound_iff` draws the conclusion: the callbacks access existing memory and keep the data of created tasks
`Consistent`, except where the initial task creates a task that is not undeferred. The implicit parallel
region has no array of generation numbers.
-/

namespace ScoreP.Ompt

open Foundations Function List

variable {process : Process} {bitWidth : ℕ}

/-! ## The process -/

theorem getMask_spec {width shift : ℕ} {mask : Word} (h : getMask width shift = .ok mask) :
    Mask mask shift (shift + width) ∧ 1 ≤ width ∧ shift + width ≤ 64 := by
  unfold getMask at h
  split at h
  · cases h
  · split at h
    · cases h
    · split at h
      · cases h
      · cases h
        exact ⟨mask_shifts (by omega) (by omega), by omega, by omega⟩

theorem getMask_ok (width shift : ℕ) (hwidth : 1 ≤ width) (hshift : shift ≤ 63)
    (hfits : shift + width ≤ 64) : ∃ mask, getMask width shift = .ok mask := by
  unfold getMask
  rw [if_neg (by omega), if_neg (by omega), if_neg (by omega)]
  exact ⟨_, rfl⟩

structure Process.Ready (process : Process) : Prop where
  nbits_pos : 1 ≤ process.nbitsRegion
  nbits_lt : process.nbitsRegion < 64
  shiftRegion_eq : process.shiftRegion = 64 - process.nbitsRegion
  maskRegion : Mask process.maskRegion process.shiftRegion 64
  shiftNewTask_eq : process.shiftNewTask = 0
  maskNewTask : Mask process.maskNewTask 0 1

theorem completeAdapterInit_ready (hwidth : bitWidth < 64)
    (h : completeAdapterInit bitWidth = .ok process) : process.Ready := by
  unfold completeAdapterInit at h
  cases hregion : getMask bitWidth (64 - bitWidth) with
  | error e =>
    rw [hregion] at h
    cases h
  | ok maskRegion =>
    cases hnew : getMask 1 0 with
    | error e =>
      rw [hregion, hnew] at h
      cases h
    | ok maskNewTask =>
      rw [hregion, hnew] at h
      cases h
      obtain ⟨hmask, hpos, -⟩ := getMask_spec hregion
      obtain ⟨hmask', -, -⟩ := getMask_spec hnew
      have htop : 64 - bitWidth + bitWidth = 64 := by omega
      rw [htop] at hmask
      exact ⟨hpos, hwidth, rfl, hmask, rfl, hmask'⟩

/-! ## The fields of a parallel region -/

structure Laid (process : Process) (parallel : ParallelT) (n g : ℕ) (numbers : List ℕ) : Prop where
  n_pos : 1 ≤ n
  g_pos : 1 ≤ g
  g_le : g ≤ 32
  room : process.nbitsRegion + n + g + 1 ≤ 64
  shift_requested : parallel.shiftRequestedParallelism = process.shiftRegion - n
  shift_generation : parallel.shiftTaskGenerationNumber = process.shiftRegion - n - g
  mask_requested : Mask parallel.maskRequestedParallelism (process.shiftRegion - n)
    (process.shiftRegion - n + n)
  mask_generation : Mask parallel.maskTaskGenerationNumber (process.shiftRegion - n - g)
    (process.shiftRegion - n - g + g)
  max_eq : parallel.maxExplicitTasks = 2 ^ g - 1
  numbers_eq : parallel.taskGenerationNumbers = some numbers
  length_le : numbers.length ≤ 2 ^ n
  n_le : n ≤ 31
  bounded : ∀ number ∈ numbers, number ≤ 2 ^ g - 1

theorem countBits_spec {number rounds nbits nbits' : ℕ} (h : countBits number rounds nbits = .ok nbits') :
    nbits ≤ nbits' ∧ nbits' < nbits + rounds ∧ number < 2 ^ nbits' := by
  induction rounds generalizing nbits with
  | zero => cases h
  | succ rounds ih =>
    unfold countBits at h
    split at h
    · rename_i hzero
      cases h
      rw [Nat.shiftRight_eq_div_pow, Nat.div_eq_zero_iff] at hzero
      refine ⟨le_rfl, by omega, hzero.resolve_left (Nat.two_pow_pos _).ne'⟩
    · obtain ⟨hle, hlt, hnumber⟩ := ih h
      exact ⟨by omega, by omega, hnumber⟩

theorem countBits_ok (number rounds nbits : ℕ) (hrounds : 1 ≤ rounds) (h : number < 2 ^ (nbits + rounds - 1)) :
    ∃ nbits', countBits number rounds nbits = .ok nbits' := by
  induction rounds generalizing nbits with
  | zero => omega
  | succ rounds ih =>
    unfold countBits
    split
    · exact ⟨nbits, rfl⟩
    · rename_i hne
      have hrest : 1 ≤ rounds := by
        by_contra hzero
        have hrounds : rounds = 0 := by omega
        subst hrounds
        rw [Nat.shiftRight_eq_div_pow, Nat.div_eq_of_lt (by simpa using h)] at hne
        exact hne rfl
      have hsum : nbits + 1 + rounds - 1 = nbits + (rounds + 1) - 1 := by omega
      exact ih (nbits + 1) hrest (hsum ▸ h)

theorem initParallelObj_laid (hready : process.Ready) {parallel parallel' : ParallelT}
    {parent requested region : ℕ}
    (h : initParallelObj process parallel (some parent) requested region = .ok parallel') :
    ∃ n g, Laid process parallel' n g (List.replicate requested 0) := by
  unfold initParallelObj at h
  split at h
  · cases h
  · rename_i hpos
    cases hcount : countBits (requested - 1) 31 1 with
    | error e =>
      simp only [hcount] at h
      cases h
    | ok n =>
      obtain ⟨hn, hn', hfits⟩ := countBits_spec hcount
      simp only [hcount, bind, Except.bind] at h
      split at h
      · cases h
      · rename_i hroom
        generalize hg : (if 64 - process.nbitsRegion - n - 1 > 32 then 32
          else 64 - process.nbitsRegion - n - 1) = g at h
        have hgle : g ≤ 32 ∧ 1 ≤ g ∧ process.nbitsRegion + n + g + 1 ≤ 64 := by
          split at hg <;> omega
        obtain ⟨hgle, hgpos, hgroom⟩ := hgle
        cases hreq : getMask n (process.shiftRegion - n) with
        | error e =>
          simp only [hreq] at h
          cases h
        | ok maskRequested =>
          cases hgen : getMask g (process.shiftRegion - n - g) with
          | error e =>
            simp only [hreq, hgen] at h
            cases h
          | ok maskGeneration =>
            simp only [hreq, hgen, pure, Except.pure, Except.ok.injEq] at h
            subst h
            refine ⟨n, g, hn, hgpos, hgle, hgroom, rfl, rfl, (getMask_spec hreq).1,
              (getMask_spec hgen).1, rfl, rfl, ?_, by omega, ?_⟩
            · rw [length_replicate]
              omega
            · intro number hnumber
              rw [eq_of_mem_replicate hnumber]
              exact Nat.zero_le _

theorem initParallelObj_defined (hready : process.Ready) (parallel : ParallelT) (parent region : ℕ)
    {requested : ℕ} (hle : requested ≤ 2 ^ 31) :
    initParallelObj process parallel (some parent) requested region ≠ .error .undefined := by
  have hshift := hready.shiftRegion_eq
  have hpos := hready.nbits_pos
  unfold initParallelObj
  split
  · exact nofun
  · rename_i hzero
    obtain ⟨n, hcount⟩ := countBits_ok (requested - 1) 31 1 (by omega) (by omega)
    obtain ⟨hn, hn', -⟩ := countBits_spec hcount
    simp only [hcount, bind, Except.bind]
    split
    · exact nofun
    · rename_i hroom
      generalize hg : (if 64 - process.nbitsRegion - n - 1 > 32 then 32
        else 64 - process.nbitsRegion - n - 1) = g
      have hgle : 1 ≤ g ∧ process.nbitsRegion + n + g + 1 ≤ 64 := by
        split at hg <;> omega
      obtain ⟨maskRequested, hreq⟩ := getMask_ok n (process.shiftRegion - n) hn (by omega) (by omega)
      obtain ⟨maskGeneration, hgen⟩ := getMask_ok g (process.shiftRegion - n - g)
        hgle.1 (by omega) (by omega)
      simp only [hreq, hgen, pure, Except.pure]
      exact nofun

/-! ## Packing and unpacking -/

theorem unpack_of_and {value mask : Word} {number shift width : ℕ}
    (hand : value &&& mask = field number shift) (hnumber : number < 2 ^ width)
    (hfits : shift + width ≤ 64) (hsmall : number < 2 ^ 32) : unpack value mask shift = number := by
  unfold unpack
  rw [hand, field_shiftRight hnumber hfits, Nat.mod_eq_of_lt hsmall]

structure Fields (process : Process) (parallel : ParallelT) (creation : Creation) (n g : ℕ) : Prop where
  region : Within (field creation.region process.shiftRegion) process.shiftRegion 64
  threadNum : Within (field creation.threadNum parallel.shiftRequestedParallelism)
    (process.shiftRegion - n) process.shiftRegion
  generation : Within (field creation.generation parallel.shiftTaskGenerationNumber)
    (process.shiftRegion - n - g) (process.shiftRegion - n)
  newTask : Within (field 1 process.shiftNewTask) 0 1
  bottom : 1 ≤ process.shiftRegion - n - g
  n_le : n ≤ process.shiftRegion
  g_le : g ≤ process.shiftRegion - n

variable {parallel : ParallelT} {creation : Creation} {n g : ℕ} {numbers : List ℕ}

theorem field_one_within : Within (field 1 0) 0 1 :=
  field_within (show 1 < 2 ^ 1 by decide)

theorem Laid.fields (hlaid : Laid process parallel n g numbers) (hready : process.Ready)
    (hregion : creation.region < 2 ^ process.nbitsRegion) (hthread : creation.threadNum < 2 ^ n)
    (hgeneration : creation.generation < 2 ^ g) : Fields process parallel creation n g := by
  have hshift := hready.shiftRegion_eq
  have hroom := hlaid.room
  refine ⟨?_, ?_, ?_, ?_, by omega, by omega, by omega⟩
  · exact (field_within hregion).mono le_rfl (by omega)
  · rw [hlaid.shift_requested]
    exact (field_within hthread).mono le_rfl (by omega)
  · rw [hlaid.shift_generation]
    exact (field_within hgeneration).mono le_rfl (by omega)
  · rw [hready.shiftNewTask_eq]
    exact field_one_within

theorem Laid.masks (hlaid : Laid process parallel n g numbers) (hready : process.Ready) :
    Mask parallel.maskRequestedParallelism (process.shiftRegion - n) process.shiftRegion ∧
      Mask parallel.maskTaskGenerationNumber (process.shiftRegion - n - g) (process.shiftRegion - n) := by
  have hshift := hready.shiftRegion_eq
  have hroom := hlaid.room
  have hrequested := hlaid.mask_requested
  have hgeneration := hlaid.mask_generation
  rw [show process.shiftRegion - n + n = process.shiftRegion by omega] at hrequested
  rw [show process.shiftRegion - n - g + g = process.shiftRegion - n by omega] at hgeneration
  exact ⟨hrequested, hgeneration⟩

theorem unpack_pack (hlaid : Laid process parallel n g numbers) (hready : process.Ready)
    (hregion : process.Handle creation.region) (hthread : creation.threadNum < 2 ^ n)
    (hgeneration : creation.generation < 2 ^ g) :
    unpackNewTask process parallel (packNewTask process parallel creation.region creation.threadNum
      creation.generation) = creation := by
  have hshift := hready.shiftRegion_eq
  obtain ⟨hmaskRequested, hmaskGeneration⟩ := hlaid.masks hready
  obtain ⟨hR, hT, hG, hB, hbottom, hn, hg⟩ := hlaid.fields hready hregion.2.1 hthread hgeneration
  have hpow : 2 ^ n ≤ 2 ^ 32 := Nat.pow_le_pow_right (by omega) (by have hle := hlaid.n_le; omega)
  have hpow' : 2 ^ g ≤ 2 ^ 32 := Nat.pow_le_pow_right (by omega) hlaid.g_le
  have hunpackRegion : unpackRegion process (packNewTask process parallel creation.region
      creation.threadNum creation.generation) = creation.region := by
    refine unpack_of_and ?_ hregion.2.1 (by omega) hregion.2.2
    unfold packNewTask
    rw [or_and_mask, or_and_mask, or_and_mask, hR.and_eq_self hready.maskRegion,
      hT.and_eq_zero hready.maskRegion (Or.inl le_rfl), hG.and_eq_zero hready.maskRegion (by omega),
      hB.and_eq_zero hready.maskRegion (by omega)]
    simp
  have hunpackThread : unpack (packNewTask process parallel creation.region creation.threadNum
      creation.generation) parallel.maskRequestedParallelism parallel.shiftRequestedParallelism =
      creation.threadNum := by
    refine unpack_of_and ?_ hthread (by rw [hlaid.shift_requested]; omega) (by omega)
    unfold packNewTask
    rw [or_and_mask, or_and_mask, or_and_mask, hR.and_eq_zero hmaskRequested (Or.inr le_rfl),
      hT.and_eq_self hmaskRequested, hG.and_eq_zero hmaskRequested (Or.inl le_rfl),
      hB.and_eq_zero hmaskRequested (by omega)]
    simp
  have hunpackGeneration : unpack (packNewTask process parallel creation.region creation.threadNum
      creation.generation) parallel.maskTaskGenerationNumber parallel.shiftTaskGenerationNumber =
      creation.generation := by
    refine unpack_of_and ?_ hgeneration (by rw [hlaid.shift_generation]; omega) (by omega)
    unfold packNewTask
    rw [or_and_mask, or_and_mask, or_and_mask, hR.and_eq_zero hmaskGeneration (by omega),
      hT.and_eq_zero hmaskGeneration (Or.inr le_rfl), hG.and_eq_self hmaskGeneration,
      hB.and_eq_zero hmaskGeneration (by omega)]
    simp
  unfold unpackNewTask
  rw [hunpackRegion, hunpackThread, hunpackGeneration]

theorem field_one_bit : (field 1 0).getLsbD 0 = true := by
  decide

theorem pack_odd (hready : process.Ready) (parallel : ParallelT) (creation : Creation) :
    (packNewTask process parallel creation.region creation.threadNum creation.generation).getLsbD 0 = true := by
  unfold packNewTask
  rw [BitVec.getLsbD_or, hready.shiftNewTask_eq, field_one_bit, Bool.or_true]

theorem packUndeferred_odd (hready : process.Ready) : (packUndeferred process).getLsbD 0 = true := by
  unfold packUndeferred
  rw [BitVec.getLsbD_or, hready.shiftNewTask_eq, field_one_bit, Bool.or_true]

theorem unpackRegion_undeferred (hready : process.Ready) :
    unpackRegion process (packUndeferred process) = invalidRegion := by
  have hshift := hready.shiftRegion_eq
  have hlt := hready.nbits_lt
  have hwithin : Within (field 1 process.shiftNewTask) 0 1 := by
    rw [hready.shiftNewTask_eq]
    exact field_one_within
  refine unpack_of_and ?_ (Nat.two_pow_pos process.nbitsRegion) (by omega) (by decide)
  unfold packUndeferred
  have hzero : field invalidRegion process.shiftRegion = 0 := by
    unfold field invalidRegion
    simp
  rw [or_and_mask, hwithin.and_eq_zero hready.maskRegion (by omega), hzero]
  simp

theorem and_maskNewTask (hready : process.Ready) (value : Word) :
    value &&& process.maskNewTask ≠ 0 ↔ value.getLsbD 0 = true := by
  constructor
  · intro hne
    by_contra hbit
    have hwithin : Within value 1 64 := by
      intro j hj hset
      refine ⟨?_, hj⟩
      by_contra hzero
      have hzero : j = 0 := by omega
      exact hbit (hzero ▸ hset)
    exact hne (hwithin.and_eq_zero hready.maskNewTask (Or.inr le_rfl))
  · intro hbit hzero
    have hand : (value &&& process.maskNewTask).getLsbD 0 = false := by
      rw [hzero]
      exact BitVec.getLsbD_zero
    rw [BitVec.getLsbD_and, hready.maskNewTask 0 (by decide), hbit] at hand
    simp at hand

/-! ## The invariant -/

structure Coded (process : Process) (parallel : ParallelT) (c : Created) : Prop where
  value_eq : c.value = packNewTask process parallel c.creation.region c.creation.threadNum
    c.creation.generation
  handle : process.Handle c.creation.region
  counted : ∃ numbers number, parallel.taskGenerationNumbers = some numbers ∧
    numbers[c.creation.threadNum]? = some number ∧ c.creation.generation ≤ number

structure Inv (process : Process) (s : State) : Prop where
  implicit : (s.objects implicitParallel).taskGenerationNumbers = none
  laid : ∀ p, p ≠ implicitParallel → s.size p ≠ 0 →
    ∃ n g numbers, Laid process (s.objects p) n g numbers ∧ s.size p ≤ numbers.length
  aligned : ∀ address object, s.tasks address = some object → address.getLsbD 0 = false ∧ address ≠ 0
  started : ∀ task p, s.phase task = .started p →
    ∃ object, s.tasks (s.data task) = some object ∧ object.parallelRegion = p
  generated : ∀ task p, s.phase task = .generated p →
    (∃ c ∈ s.created, c.task = task ∧ c.parallel = p ∧ s.data task = c.value) ∨
      s.data task = packUndeferred process
  coded : ∀ c ∈ s.created, c.parallel ≠ implicitParallel ∧ s.size c.parallel ≠ 0 ∧
    s.phase c.task ≠ .unused ∧ Coded process (s.objects c.parallel) c
  nodup : (s.created.map Created.task).Nodup
  distinct : s.created.Pairwise fun c c' => c.parallel = c'.parallel →
    c.creation.threadNum = c'.creation.threadNum → c.creation.generation ≠ c'.creation.generation
  begun : ∀ entry ∈ s.begun, ∃ c ∈ s.created,
    c.task = entry.1 ∧ c.parallel = entry.2.1 ∧ c.creation = entry.2.2

variable {s s' : State} {address : Word}

theorem initial_inv (haligned : address.getLsbD 0 = false) (hne : address ≠ 0)
    (h : State.initial process address = .ok s) : Inv process s := by
  cases h
  refine ⟨rfl, ?_, ?_, ?_, ?_, by simp, by simp, by simp, by simp⟩
  · intro p hp hsize
    simp [hp] at hsize
  · intro a object ha
    dsimp only at ha
    split at ha
    · rename_i heq
      cases ha
      exact ⟨heq ▸ haligned, heq ▸ hne⟩
    · cases ha
  · intro task p hphase
    dsimp only at hphase ⊢
    split at hphase
    · rename_i htask
      cases hphase
      rw [if_pos htask]
      exact ⟨_, if_pos rfl, rfl⟩
    · cases hphase
  · intro task p hphase
    dsimp only at hphase
    split at hphase <;> cases hphase

theorem Coded.lt {c : Created} (h : Coded process parallel c) (hlaid : Laid process parallel n g numbers) :
    c.creation.threadNum < 2 ^ n ∧ c.creation.generation < 2 ^ g := by
  obtain ⟨numbers', number, hnumbers, hnumber, hle⟩ := h.counted
  have heq : numbers = numbers' := Option.some.inj (hlaid.numbers_eq.symm.trans hnumbers)
  subst heq
  have hlt := (List.getElem?_eq_some_iff.1 hnumber).1
  have hlen := hlaid.length_le
  have hbound := hlaid.bounded number (mem_of_getElem? hnumber)
  have hpow := Nat.two_pow_pos g
  exact ⟨by omega, by omega⟩

theorem Inv.unpack_created (h : Inv process s) (hready : process.Ready) {c : Created} (hc : c ∈ s.created) :
    unpackNewTask process (s.objects c.parallel) c.value = c.creation := by
  obtain ⟨hp, hsize, -, hcoded⟩ := h.coded c hc
  obtain ⟨n, g, numbers, hlaid, -⟩ := h.laid c.parallel hp hsize
  obtain ⟨hthread, hgeneration⟩ := hcoded.lt hlaid
  rw [hcoded.value_eq]
  exact unpack_pack hlaid hready hcoded.handle hthread hgeneration

/-! ## What keeps the invariant -/

theorem Inv.setTask (h : Inv process s) (address : Word) (object : Option TaskT)
    (haligned : ∀ o, object = some o → address.getLsbD 0 = false ∧ address ≠ 0)
    (hstarted : ∀ task p, s.phase task = .started p → s.data task = address →
      ∃ o, object = some o ∧ o.parallelRegion = p) : Inv process (s.setTask address object) := by
  refine ⟨h.implicit, h.laid, ?_, ?_, h.generated, h.coded, h.nodup, h.distinct, h.begun⟩
  · intro a o ha
    by_cases heq : a = address
    · subst heq
      exact haligned o (by simpa [State.setTask] using ha)
    · exact h.aligned a o (by simpa [State.setTask, heq] using ha)
  · intro task p hphase
    by_cases heq : s.data task = address
    · obtain ⟨o, ho, hp⟩ := hstarted task p hphase heq
      exact ⟨o, by simp [State.setTask, heq, ho], hp⟩
    · obtain ⟨o, ho, hp⟩ := h.started task p hphase
      exact ⟨o, by simpa [State.setTask, heq] using ho, hp⟩

theorem Inv.setData (h : Inv process s) (task : ℕ) (value : Word) (phase : Phase) (hphase : phase ≠ .unused)
    (hstarted : ∀ p, phase = .started p → ∃ o, s.tasks value = some o ∧ o.parallelRegion = p)
    (hgenerated : ∀ p, phase = .generated p →
      (∃ c ∈ s.created, c.task = task ∧ c.parallel = p ∧ value = c.value) ∨ value = packUndeferred process) :
    Inv process (s.setData task value phase) := by
  refine ⟨h.implicit, h.laid, h.aligned, ?_, ?_, ?_, h.nodup, h.distinct, h.begun⟩
  · intro task' p hp
    by_cases heq : task' = task
    · subst heq
      obtain ⟨o, ho, hregion⟩ := hstarted p (by simpa [State.setData] using hp)
      exact ⟨o, by simpa [State.setData] using ho, hregion⟩
    · obtain ⟨o, ho, hregion⟩ := h.started task' p (by simpa [State.setData, heq] using hp)
      exact ⟨o, by simpa [State.setData, heq] using ho, hregion⟩
  · intro task' p hp
    by_cases heq : task' = task
    · subst heq
      simpa [State.setData] using hgenerated p (by simpa [State.setData] using hp)
    · simpa [State.setData, heq] using h.generated task' p (by simpa [State.setData, heq] using hp)
  · intro c hc
    obtain ⟨hp, hsize, hused, hcoded⟩ := h.coded c hc
    refine ⟨hp, hsize, ?_, hcoded⟩
    by_cases heq : c.task = task
    · simpa [State.setData, heq] using hphase
    · simpa [State.setData, heq] using hused

theorem Inv.endTask (h : Inv process s) (task : ℕ) :
    Inv process { s with phase := update s.phase task .ended } := by
  have hend := h.setData task (s.data task) .ended nofun nofun nofun
  rw [State.setData, update_eq_self] at hend
  exact hend

theorem Inv.setTeamSize (h : Inv process s) (p teamSize : ℕ) : Inv process { s with
      objects := update s.objects p { s.objects p with teamSize := teamSize } } := by
  have hobject : ∀ p', ∃ size, update s.objects p { s.objects p with teamSize := teamSize } p' =
      { s.objects p' with teamSize := size } := by
    intro p'
    by_cases heq : p' = p
    · subst heq
      exact ⟨teamSize, update_self _ _ _⟩
    · exact ⟨(s.objects p').teamSize, update_of_ne heq _ _⟩
  refine ⟨?_, ?_, h.aligned, h.started, h.generated, ?_, h.nodup, h.distinct, h.begun⟩
  · obtain ⟨size, hsize⟩ := hobject implicitParallel
    dsimp only
    rw [hsize]
    exact h.implicit
  · intro p' hp' hsize'
    obtain ⟨n, g, numbers, hlaid, hle⟩ := h.laid p' hp' hsize'
    obtain ⟨size, hsize⟩ := hobject p'
    refine ⟨n, g, numbers, ?_, hle⟩
    dsimp only
    rw [hsize]
    exact ⟨hlaid.n_pos, hlaid.g_pos, hlaid.g_le, hlaid.room, hlaid.shift_requested,
      hlaid.shift_generation, hlaid.mask_requested, hlaid.mask_generation, hlaid.max_eq,
      hlaid.numbers_eq, hlaid.length_le, hlaid.n_le, hlaid.bounded⟩
  · intro c hc
    obtain ⟨hp, hsize', hused, hcoded⟩ := h.coded c hc
    obtain ⟨size, hsize⟩ := hobject c.parallel
    refine ⟨hp, hsize', hused, ?_⟩
    dsimp only
    rw [hsize]
    exact ⟨hcoded.value_eq, hcoded.handle, hcoded.counted⟩

/-! ## The callbacks keep it -/

theorem parallelBegin_inv (hready : process.Ready) (h : Inv process s) {p parent requested actual region : ℕ}
    (hallowed : Allowed process s (.parallelBegin p parent requested actual region))
    (hstep : parallelBegin process s p parent requested actual region = .ok s') : Inv process s' := by
  obtain ⟨hp, hempty, hactual, hle, -⟩ := hallowed
  unfold parallelBegin at hstep
  cases hinit : initParallelObj process (getParallelRegionFromPool (s.objects p)) (some parent)
      requested region with
  | error e =>
    rw [hinit] at hstep
    cases hstep
  | ok parallel =>
    rw [hinit] at hstep
    cases hstep
    obtain ⟨n, g, hlaid⟩ := initParallelObj_laid hready hinit
    refine ⟨?_, ?_, h.aligned, h.started, ?_, ?_, ?_, ?_, ?_⟩
    · dsimp only
      rw [update_of_ne hp.symm]
      exact h.implicit
    · intro p' hp' hsize
      dsimp only at hsize ⊢
      by_cases heq : p' = p
      · subst heq
        rw [update_self, update_self]
        exact ⟨n, g, _, hlaid, by rwa [length_replicate]⟩
      · rw [update_of_ne heq] at hsize
        rw [update_of_ne heq, update_of_ne heq]
        exact h.laid p' hp' hsize
    · intro task p' hphase
      cases h.generated task p' hphase with
      | inl hcreated =>
        obtain ⟨c, hc, htask, hparallel, hvalue⟩ := hcreated
        have hne : c.parallel ≠ p := by
          intro heq
          refine hempty task ?_
          have hphase' : s.phase task = .generated p' := hphase
          unfold State.regionOf
          rw [hphase', ← heq, hparallel]
        exact Or.inl ⟨c, mem_filter.2 ⟨hc, by simpa using hne⟩, htask, hparallel, hvalue⟩
      | inr hundeferred => exact Or.inr hundeferred
    · intro c hc
      obtain ⟨hc, hne⟩ := mem_filter.1 hc
      have hne : c.parallel ≠ p := by simpa using hne
      obtain ⟨hp', hsize, hused, hcoded⟩ := h.coded c hc
      dsimp only
      rw [update_of_ne hne, update_of_ne hne]
      exact ⟨hp', hsize, hused, hcoded⟩
    · exact h.nodup.sublist (filter_sublist.map _)
    · exact h.distinct.sublist filter_sublist
    · intro entry hentry
      obtain ⟨hentry, hne⟩ := mem_filter.1 hentry
      have hne : entry.2.1 ≠ p := by simpa using hne
      obtain ⟨c, hc, htask, hparallel, hcreation⟩ := h.begun entry hentry
      exact ⟨c, mem_filter.2 ⟨hc, by simpa [hparallel] using hne⟩, htask, hparallel, hcreation⟩

theorem parallelBegin_spec (hready : process.Ready) (p parent actual region : ℕ) {requested : ℕ}
    (hle : requested ≤ 2 ^ 31) : parallelBegin process s p parent requested actual region ≠ .error .undefined ∧
      ∀ s', parallelBegin process s p parent requested actual region = .ok s' → s'.tasks = s.tasks := by
  have hdefined := initParallelObj_defined hready (getParallelRegionFromPool (s.objects p)) parent region
    hle
  unfold parallelBegin
  cases hinit : initParallelObj process (getParallelRegionFromPool (s.objects p)) (some parent)
      requested region with
  | error e =>
    rw [hinit] at hdefined
    refine ⟨?_, nofun⟩
    intro heq
    cases heq
    exact hdefined rfl
  | ok parallel =>
    refine ⟨nofun, ?_⟩
    intro s' heq
    cases heq
    rfl

theorem Inv.data_ne (h : Inv process s) {task p : ℕ} (hphase : s.phase task = .started p)
    (hfree : s.tasks address = none) : s.data task ≠ address := by
  intro heq
  obtain ⟨o, ho, -⟩ := h.started task p hphase
  rw [heq, hfree] at ho
  cases ho

theorem implicitTaskBegin_inv (h : Inv process s) {task p index : ℕ} {address : Word}
    (hallowed : Allowed process s (.implicitTaskBegin task p index address)) :
    Inv process (implicitTaskBegin s task p index (s.size p) address) := by
  obtain ⟨-, -, -, haligned, hne, hfree⟩ := hallowed
  have hobjects : Inv process { s with
      objects := if index = 0 then
          update s.objects p { s.objects p with teamSize := s.size p }
        else s.objects } := by
    by_cases hindex : index = 0
    · rw [if_pos hindex]
      exact h.setTeamSize p (s.size p)
    · rw [if_neg hindex]
      exact h
  unfold implicitTaskBegin
  refine (hobjects.setTask address _ (fun _ _ => ⟨haligned, hne⟩) ?_).setData task address (.started p)
    nofun ?_ nofun
  · intro task' p' hphase heq
    exact absurd heq (h.data_ne hphase hfree)
  · intro p' hp'
    cases hp'
    exact ⟨_, update_self _ _ _, rfl⟩

theorem implicitTaskEnd_inv (h : Inv process s) {task : ℕ} (hsole : s.Sole task) :
    Inv process (implicitTaskEnd s task) := by
  have hend := h.endTask task
  refine hend.setTask (s.data task) none nofun ?_
  intro task' p hphase heq
  dsimp only at hphase heq
  by_cases htask : task' = task
  · rw [htask, update_self] at hphase
    cases hphase
  · rw [update_of_ne htask] at hphase
    exact absurd heq (hsole task' p htask hphase)

theorem nextGeneration_cases {parallel parallel' : ParallelT} {threadNum generation : ℕ}
    (hlaid : Laid process parallel n g numbers)
    (h : nextGeneration parallel threadNum = .ok (parallel', generation)) :
    ∃ number, numbers[threadNum]? = some number ∧ generation = number + 1 ∧ generation ≤ 2 ^ g - 1 ∧
      parallel' = { parallel with taskGenerationNumbers := some (numbers.set threadNum generation) } := by
  unfold nextGeneration at h
  rw [hlaid.numbers_eq] at h
  dsimp only at h
  cases hnumber : numbers[threadNum]? with
  | none =>
    rw [hnumber] at h
    cases h
  | some number =>
    simp only [hnumber] at h
    split at h
    · cases h
    · rename_i hmax
      rw [hlaid.max_eq] at hmax
      have hbound := hlaid.bounded number (mem_of_getElem? hnumber)
      have hpow : 2 ^ g ≤ 2 ^ 32 := Nat.pow_le_pow_right (by omega) hlaid.g_le
      have hmod : (number + 1) % 2 ^ 32 = number + 1 := Nat.mod_eq_of_lt (by omega)
      rw [hmod] at h
      cases h
      exact ⟨number, rfl, rfl, by omega, rfl⟩

theorem Laid.setNumbers (hlaid : Laid process parallel n g numbers) {threadNum generation : ℕ}
    (hle : generation ≤ 2 ^ g - 1) :
    Laid process { parallel with taskGenerationNumbers := some (numbers.set threadNum generation) } n g
      (numbers.set threadNum generation) := by
  refine ⟨hlaid.n_pos, hlaid.g_pos, hlaid.g_le, hlaid.room, hlaid.shift_requested,
    hlaid.shift_generation, hlaid.mask_requested, hlaid.mask_generation, hlaid.max_eq, rfl, ?_,
    hlaid.n_le, ?_⟩
  · rw [length_set]
    exact hlaid.length_le
  · intro number hnumber
    cases mem_or_eq_of_mem_set hnumber with
    | inl hmem => exact hlaid.bounded number hmem
    | inr heq => exact heq ▸ hle

theorem Inv.create (h : Inv process s) {newTask p n g : ℕ} {numbers : List ℕ}
    {region threadNum number : ℕ} (hp : p ≠ implicitParallel) (hsize : s.size p ≠ 0)
    (hlaid : Laid process (s.objects p) n g numbers) (hle : s.size p ≤ numbers.length)
    (hunused : s.phase newTask = .unused) (hregion : process.Handle region)
    (hnumber : numbers[threadNum]? = some number) (hgeneration : number + 1 ≤ 2 ^ g - 1)
    {value : Word} (hvalue : value = packNewTask process (s.objects p) region threadNum (number + 1)) :
    Inv process { s.setData newTask value (.generated p) with
      objects := update s.objects p { s.objects p with
        taskGenerationNumbers := some (numbers.set threadNum (number + 1)) }
      created := { task := newTask, parallel := p,
                   creation := { region := region, threadNum := threadNum, generation := number + 1 },
                   value := value } :: s.created } := by
  have hthread := (List.getElem?_eq_some_iff.1 hnumber).1
  have hnew : ∀ c ∈ s.created, c.task ≠ newTask := by
    intro c hc heq
    exact (h.coded c hc).2.2.1 (heq ▸ hunused)
  refine ⟨?_, ?_, h.aligned, ?_, ?_, ?_, ?_, ?_, ?_⟩
  · dsimp only
    rw [update_of_ne hp.symm]
    exact h.implicit
  · intro p' hp' hsize'
    dsimp only
    by_cases heq : p' = p
    · subst heq
      rw [update_self]
      refine ⟨n, g, _, hlaid.setNumbers hgeneration, ?_⟩
      rw [length_set]
      exact hle
    · rw [update_of_ne heq]
      exact h.laid p' hp' hsize'
  · intro task' p' hphase
    have hne : task' ≠ newTask := by
      intro heq
      simp [State.setData, heq] at hphase
    have hphase' : s.phase task' = .started p' := by simpa [State.setData, hne] using hphase
    obtain ⟨o, ho, hregion'⟩ := h.started task' p' hphase'
    exact ⟨o, by simpa [State.setData, hne] using ho, hregion'⟩
  · intro task' p' hphase
    by_cases heq : task' = newTask
    · subst heq
      have hpp : p' = p := by simpa [State.setData, eq_comm] using hphase
      exact Or.inl ⟨_, mem_cons_self, rfl, hpp.symm, by simp [State.setData]⟩
    · have hphase' : s.phase task' = .generated p' := by simpa [State.setData, heq] using hphase
      have hdata : (s.setData newTask value (.generated p)).data task' = s.data task' := by
        simp [State.setData, heq]
      cases h.generated task' p' hphase' with
      | inl hcreated =>
        obtain ⟨c, hc, htask, hparallel, hcvalue⟩ := hcreated
        exact Or.inl ⟨c, mem_cons_of_mem _ hc, htask, hparallel, hdata.trans hcvalue⟩
      | inr hundeferred => exact Or.inr (hdata.trans hundeferred)
  · intro c hc
    cases mem_cons.1 hc with
    | inl heq =>
      subst heq
      refine ⟨hp, hsize, by simp [State.setData], ?_⟩
      dsimp only
      rw [update_self]
      exact ⟨hvalue, hregion, _, _, rfl, by rw [getElem?_set_self hthread], le_rfl⟩
    | inr hmem =>
      obtain ⟨hp', hsize', hused, hcoded⟩ := h.coded c hmem
      refine ⟨hp', hsize', by simpa [State.setData, hnew c hmem] using hused, ?_⟩
      dsimp only
      by_cases heq : c.parallel = p
      · rw [heq, update_self]
        rw [heq] at hcoded
        obtain ⟨numbers', number', hnumbers', hnumber', hle'⟩ := hcoded.counted
        have hsame : numbers = numbers' := Option.some.inj (hlaid.numbers_eq.symm.trans hnumbers')
        subst hsame
        refine ⟨hcoded.value_eq, hcoded.handle, numbers.set threadNum (number + 1), ?_⟩
        by_cases hsame : c.creation.threadNum = threadNum
        · rw [hsame, hnumber] at hnumber'
          cases hnumber'
          exact ⟨number + 1, rfl, by rw [hsame, getElem?_set_self hthread], by omega⟩
        · exact ⟨number', rfl, by rw [getElem?_set_ne (Ne.symm hsame), hnumber'], hle'⟩
      · rw [update_of_ne heq]
        exact hcoded
  · rw [map_cons, nodup_cons]
    refine ⟨?_, h.nodup⟩
    intro hmem
    obtain ⟨c, hc, htask⟩ := mem_map.1 hmem
    exact hnew c hc htask
  · refine List.Pairwise.cons ?_ h.distinct
    intro c hc hparallel hsame heq
    obtain ⟨-, -, -, hcoded⟩ := h.coded c hc
    dsimp only at hparallel hsame heq
    rw [← hparallel] at hcoded
    obtain ⟨numbers', number', hnumbers', hnumber', hle'⟩ := hcoded.counted
    have hnumbers : numbers = numbers' := Option.some.inj (hlaid.numbers_eq.symm.trans hnumbers')
    subst hnumbers
    rw [← hsame, hnumber] at hnumber'
    cases hnumber'
    omega
  · intro entry hentry
    obtain ⟨c, hc, hrest⟩ := h.begun entry hentry
    exact ⟨c, mem_cons_of_mem _ hc, hrest⟩

theorem Inv.encountering (h : Inv process s) {task p : ℕ} (hphase : s.phase task = .started p) :
    ∃ object, s.tasks (s.data task) = some object ∧ object.parallelRegion = p ∧ s.regionOf task = some p := by
  obtain ⟨object, hobject, hregion⟩ := h.started task p hphase
  exact ⟨object, hobject, hregion, by simp [State.regionOf, hphase]⟩

variable {getRegion : ToolEvent → ℕ} {encountering newTask : ℕ}

theorem taskCreate_inv (h : Inv process s) {flags : TaskFlags} {threadNum : ℕ}
    (hallowed : Allowed process s (.taskCreate encountering newTask flags getRegion threadNum))
    (hstep : taskCreate process s encountering newTask flags getRegion threadNum = .ok s') :
    Inv process s' := by
  obtain ⟨⟨p, hphase, hthread⟩, hunused, hhandles⟩ := hallowed
  obtain ⟨object, hobject, hregion, hhome⟩ := h.encountering hphase
  unfold taskCreate at hstep
  simp only [hobject, hhome] at hstep
  split at hstep
  · cases hstep
    refine h.setData newTask _ _ nofun ?_ nofun
    intro p' hp'
    cases hp'
    exact ⟨object, hobject, hregion⟩
  · split at hstep
    · cases hstep
      exact h.setData newTask _ _ nofun nofun nofun
    · split at hstep
      · cases hstep
        exact h.setData newTask _ _ nofun nofun fun _ _ => Or.inr rfl
      · generalize hhandle : getRegion (if flags.untied = true then ToolEvent.taskUntied
          else ToolEvent.task) = region at hstep
        have hok : process.Handle region := hhandle ▸ hhandles _
        rw [if_neg hok.1, hregion] at hstep
        cases hnext : nextGeneration (s.objects p) threadNum with
        | error e =>
          rw [hnext] at hstep
          cases hstep
        | ok result =>
          obtain ⟨parallel', generation⟩ := result
          simp only [hnext, bind, Except.bind, pure, Except.pure, Except.ok.injEq] at hstep
          have hp : p ≠ implicitParallel := by
            intro heq
            unfold nextGeneration at hnext
            rw [heq, h.implicit] at hnext
            cases hnext
          have hsize : s.size p ≠ 0 := by omega
          obtain ⟨n, g, numbers, hlaid, hle⟩ := h.laid p hp hsize
          obtain ⟨number, hnumber, rfl, hgeneration, hparallel⟩ := nextGeneration_cases hlaid hnext
          subst hparallel
          subst hstep
          exact h.create hp hsize hlaid hle hunused hok hnumber hgeneration rfl

theorem taskCreate_tasks {flags : TaskFlags} {threadNum : ℕ}
    (hstep : taskCreate process s encountering newTask flags getRegion threadNum = .ok s') :
    s'.tasks = s.tasks := by
  unfold taskCreate at hstep
  split at hstep
  · rename_i task home _ _
    split at hstep
    · cases hstep
      rfl
    · split at hstep
      · cases hstep
        rfl
      · split at hstep
        · cases hstep
          rfl
        · generalize getRegion (if flags.untied = true then ToolEvent.taskUntied
            else ToolEvent.task) = region at hstep
          by_cases hregion : region = invalidRegion
          · rw [if_pos hregion] at hstep
            cases hstep
          · rw [if_neg hregion] at hstep
            cases hnext : nextGeneration (s.objects task.parallelRegion) threadNum with
            | error e =>
              rw [hnext] at hstep
              cases hstep
            | ok result =>
              rw [hnext] at hstep
              cases hstep
              rfl
  · cases hstep

theorem taskCreate_defined (h : Inv process s) {flags : TaskFlags} {threadNum : ℕ}
    (hallowed : Allowed process s (.taskCreate encountering newTask flags getRegion threadNum)) :
    taskCreate process s encountering newTask flags getRegion threadNum = .error .undefined ↔
      flags.deferred ∧ s.phase encountering = .started implicitParallel := by
  obtain ⟨⟨p, hphase, hthread⟩, -, hhandles⟩ := hallowed
  obtain ⟨object, hobject, hregion, hhome⟩ := h.encountering hphase
  unfold taskCreate TaskFlags.deferred
  simp only [hobject, hhome, hphase, Phase.started.injEq]
  cases hmerged : flags.merged with
  | true => simp
  | false =>
    cases hwait : flags.taskwait with
    | true => simp
    | false =>
      cases hundeferred : flags.undeferred with
      | true => simp
      | false =>
        simp only [Bool.false_eq_true, if_false]
        generalize hhandle : getRegion (if flags.untied = true then ToolEvent.taskUntied
          else ToolEvent.task) = region
        have hok : process.Handle region := hhandle ▸ hhandles _
        rw [if_neg hok.1, hregion]
        by_cases hp : p = implicitParallel
        · subst hp
          have hnext : nextGeneration (s.objects implicitParallel) threadNum = .error .undefined := by
            unfold nextGeneration
            rw [h.implicit]
          simp [hnext, bind, Except.bind]
        · obtain ⟨n, g, numbers, hlaid, hle⟩ := h.laid p hp (by omega)
          have hnumber : numbers[threadNum]? = some numbers[threadNum] :=
            getElem?_eq_getElem (by omega)
          have hnext : nextGeneration (s.objects p) threadNum ≠ .error .undefined := by
            unfold nextGeneration
            simp only [hlaid.numbers_eq, hnumber]
            split <;> exact nofun
          cases hresult : nextGeneration (s.objects p) threadNum with
          | error e =>
            cases e with
            | undefined => exact absurd hresult hnext
            | bugOn => simp [hp, bind, Except.bind]
          | ok result => simp [hp, bind, Except.bind, pure, Except.pure]

/-! ## Scheduling -/

def Levels (s : State) : Prop :=
  ∀ address object, s.tasks address = some object → 0 ≤ object.undeferredLevel

variable {status : TaskStatus}

theorem handlePriorTask_cases {prior prior' : TaskT}
    (h : (if status = .cancel then .ok prior else handlePriorTask prior status) = Except.ok prior') :
    prior' = prior ∨ status.ends ∧ prior' = { prior with undeferredLevel := prior.undeferredLevel - 1 } := by
  cases status with
  | cancel => exact Or.inl (Except.ok.inj h).symm
  | complete =>
    rw [if_neg nofun, handlePriorTask] at h
    split at h
    · cases h
    · exact Or.inr ⟨rfl, (Except.ok.inj h).symm⟩
  | detach =>
    rw [if_neg nofun, handlePriorTask] at h
    split at h
    · cases h
    · exact Or.inr ⟨rfl, (Except.ok.inj h).symm⟩
  | switch => exact Or.inl (Except.ok.inj h).symm
  | yield => exact Or.inl (Except.ok.inj h).symm
  | earlyFulfill => cases h
  | lateFulfill => cases h
  | taskwaitComplete => cases h

theorem handlePriorTask_defined (prior : TaskT) (status : TaskStatus) :
    (if status = .cancel then .ok prior else handlePriorTask prior status) ≠
      Except.error Failure.undefined := by
  cases status with
  | cancel => exact nofun
  | complete =>
    rw [if_neg nofun, handlePriorTask]
    split <;> exact nofun
  | detach =>
    rw [if_neg nofun, handlePriorTask]
    split <;> exact nofun
  | switch => exact nofun
  | yield => exact nofun
  | earlyFulfill => exact nofun
  | lateFulfill => exact nofun
  | taskwaitComplete => exact nofun

structure Next (process : Process) (s : State) (priorAddress : Word) (prior : TaskT) (nextTask : ℕ)
    (fresh : Word) : Prop where
  free : s.Free fresh
  object : s.tasks priorAddress = some prior
  phase : s.phase nextTask = .generated prior.parallelRegion ∨
    s.phase nextTask = .started prior.parallelRegion

theorem handleNextTask_cases (hready : process.Ready) (h : Inv process s) {priorAddress : Word}
    {prior : TaskT} {nextTask : ℕ} {fresh : Word} (hnext : Next process s priorAddress prior nextTask fresh) :
    (∃ object, s.data nextTask = packUndeferred process ∧
        object = { prior with undeferredLevel := prior.undeferredLevel + 1 } ∧
        handleNextTask process s priorAddress prior nextTask fresh =
          .ok ((s.setTask priorAddress (some object)).setData nextTask priorAddress
            (.started prior.parallelRegion))) ∨
      (∃ c ∈ s.created, ∃ object : TaskT, c.task = nextTask ∧ c.parallel = prior.parallelRegion ∧
        object.parallelRegion = prior.parallelRegion ∧ object.undeferredLevel = 0 ∧
        handleNextTask process s priorAddress prior nextTask fresh =
          .ok { (s.setTask fresh (some object)).setData nextTask fresh
                  (.started prior.parallelRegion) with
                begun := (nextTask, prior.parallelRegion, c.creation) :: s.begun }) ∨
      s.phase nextTask = .started prior.parallelRegion ∧
        handleNextTask process s priorAddress prior nextTask fresh = .ok s := by
  have hodd : ∀ value : Word, value.getLsbD 0 = true → value ≠ 0 := by
    rintro value hbit rfl
    exact absurd hbit (by decide)
  unfold handleNextTask
  cases hnext.phase with
  | inl hgenerated =>
    cases h.generated nextTask _ hgenerated with
    | inl hcreated =>
      obtain ⟨c, hc, htask, hparallel, hvalue⟩ := hcreated
      obtain ⟨-, -, -, hcoded⟩ := h.coded c hc
      have hbit : c.value.getLsbD 0 = true := hcoded.value_eq ▸ pack_odd hready (s.objects c.parallel) _
      have hunpack := h.unpack_created hready hc
      have hregion : unpackRegion process c.value = c.creation.region := congrArg Creation.region hunpack
      have hne : c.creation.region ≠ invalidRegion := hcoded.handle.1
      rw [hparallel] at hunpack
      refine Or.inr (Or.inl ⟨c, hc, ⟨true, prior.parallelRegion, c.creation.region, 0⟩, htask, hparallel,
        rfl, rfl, ?_⟩)
      simp only [hvalue]
      rw [if_neg (hodd _ hbit), if_pos ((and_maskNewTask hready _).2 hbit), hregion, if_neg hne, hunpack]
    | inr hundeferred =>
      have hbit := packUndeferred_odd hready
      refine Or.inl ⟨_, hundeferred, rfl, ?_⟩
      simp only [hundeferred]
      rw [if_neg (hodd _ hbit), if_pos ((and_maskNewTask hready _).2 hbit),
        if_pos (unpackRegion_undeferred hready)]
  | inr hstarted =>
    obtain ⟨object, hobject, -⟩ := h.started nextTask _ hstarted
    obtain ⟨heven, hne⟩ := h.aligned _ _ hobject
    have hmask : ¬ s.data nextTask &&& process.maskNewTask ≠ 0 := by
      rw [and_maskNewTask hready, heven]
      exact nofun
    refine Or.inr (Or.inr ⟨hstarted, ?_⟩)
    simp only
    rw [if_neg hne, if_neg hmask]
    simp only [hobject]

def afterPrior (s : State) (priorTask : ℕ) (status : TaskStatus) (prior : TaskT) : State :=
  let s := s.setTask (s.data priorTask) (some prior)
  if status.ends then { s with phase := update s.phase priorTask .ended } else s

variable {priorTask : ℕ}

theorem afterPrior_inv (h : Inv process s) (status : TaskStatus) {prior prior' : TaskT}
    (hprior : s.tasks (s.data priorTask) = some prior)
    (hregion : prior'.parallelRegion = prior.parallelRegion) :
    Inv process (afterPrior s priorTask status prior') := by
  have hset : Inv process (s.setTask (s.data priorTask) (some prior')) := by
    refine h.setTask _ _ (fun _ _ => h.aligned _ _ hprior) ?_
    intro task p' hphase' heq
    obtain ⟨o, ho, hp⟩ := h.started task p' hphase'
    rw [heq, hprior] at ho
    cases ho
    exact ⟨prior', rfl, hregion.trans hp⟩
  unfold afterPrior
  by_cases hends : status.ends = true
  · simp only [hends, if_true]
    exact hset.endTask priorTask
  · simp only [hends]
    exact hset

theorem afterPrior_phase {priorTask task : ℕ} (status : TaskStatus) (prior : TaskT)
    (hne : task ≠ priorTask) : (afterPrior s priorTask status prior).phase task = s.phase task := by
  unfold afterPrior
  by_cases hends : status.ends = true
  · simp only [hends, if_true]
    exact update_of_ne hne _ _
  · simp only [hends]
    rfl

theorem afterPrior_data (status : TaskStatus) (prior : TaskT) :
    (afterPrior s priorTask status prior).data = s.data := by
  unfold afterPrior
  by_cases hends : status.ends = true
  · simp only [hends, if_true]
    rfl
  · simp only [hends]
    rfl

theorem afterPrior_tasks (status : TaskStatus) (prior : TaskT) : (afterPrior s priorTask status prior).tasks =
      update s.tasks (s.data priorTask) (some prior) := by
  unfold afterPrior
  by_cases hends : status.ends = true
  · simp only [hends, if_true]
    rfl
  · simp only [hends]
    rfl

theorem Inv.begin (h : Inv process s) {task p : ℕ} {c : Created} (hc : c ∈ s.created)
    (htask : c.task = task) (hparallel : c.parallel = p) :
    Inv process { s with begun := (task, p, c.creation) :: s.begun } := by
  refine ⟨h.implicit, h.laid, h.aligned, h.started, h.generated, h.coded, h.nodup, h.distinct, ?_⟩
  intro entry hentry
  cases mem_cons.1 hentry with
  | inl heq =>
    subst heq
    exact ⟨c, hc, htask, hparallel, rfl⟩
  | inr hmem => exact h.begun entry hmem

theorem Inv.release (h : Inv process s) (hsole : ∀ task p, s.phase task = .started p → s.data task ≠ address) :
    Inv process (s.setTask address none) :=
  h.setTask address none nofun fun task p hphase heq => absurd heq (hsole task p hphase)

theorem Levels.setTask (h : Levels s) {object : Option TaskT}
    (hobject : ∀ o, object = some o → 0 ≤ o.undeferredLevel) : Levels (s.setTask address object) := by
  intro a o ha
  by_cases heq : a = address
  · subst heq
    exact hobject o (by simpa [State.setTask] using ha)
  · exact h a o (by simpa [State.setTask, heq] using ha)

theorem afterPrior_levels (h : Levels s) {prior : TaskT} {a : Word} {o : TaskT}
    (hne : a ≠ s.data priorTask) (ha : (afterPrior s priorTask status prior).tasks a = some o) :
    0 ≤ o.undeferredLevel := by
  rw [afterPrior_tasks, update_of_ne hne] at ha
  exact h a o ha

theorem handleNextTask_spec (hready : process.Ready) (h : Inv process s) {priorAddress : Word}
    {prior : TaskT} {nextTask : ℕ} {fresh : Word} (hnext : Next process s priorAddress prior nextTask fresh)
    (hlevel : -1 ≤ prior.undeferredLevel)
    (hlevels : ∀ a o, a ≠ priorAddress → s.tasks a = some o → 0 ≤ o.undeferredLevel)
    (hsole : prior.undeferredLevel = -1 → ∀ task p, s.phase task = .started p → s.data task ≠ priorAddress) :
    ∃ s' object, handleNextTask process s priorAddress prior nextTask fresh = .ok s' ∧
      Inv process s' ∧ s'.tasks priorAddress = some object ∧ -1 ≤ object.undeferredLevel ∧
      (∀ a o, a ≠ priorAddress → s'.tasks a = some o → 0 ≤ o.undeferredLevel) ∧ (object.undeferredLevel = -1 →
        ∀ task p, s'.phase task = .started p → s'.data task ≠ priorAddress) := by
  have hfresh : priorAddress ≠ fresh := by
    intro heq
    have hobject := hnext.object
    rw [heq, hnext.free.2.2] at hobject
    cases hobject
  rcases handleNextTask_cases hready h hnext with hundeferred | hdeferred | hresumed
  · obtain ⟨object, -, rfl, hcall⟩ := hundeferred
    rw [hcall]
    refine ⟨_, { prior with undeferredLevel := prior.undeferredLevel + 1 }, rfl, ?_,
      update_self _ _ _, ?_, ?_, ?_⟩
    · refine (h.setTask priorAddress _ (fun _ _ => h.aligned _ _ hnext.object) ?_).setData nextTask _ _
        nofun ?_ nofun
      · intro task p hphase heq
        obtain ⟨o, ho, hp⟩ := h.started task p hphase
        rw [heq, hnext.object] at ho
        cases ho
        exact ⟨_, rfl, hp⟩
      · intro p hp
        cases hp
        exact ⟨_, update_self _ _ _, rfl⟩
    · dsimp only
      omega
    · intro a o hne ha
      exact hlevels a o hne (by simpa [State.setTask, State.setData, hne] using ha)
    · intro hend
      dsimp only at hend
      omega
  · obtain ⟨c, hc, object, htask, hparallel, hregion, hzero, hcall⟩ := hdeferred
    rw [hcall]
    refine ⟨_, prior, rfl, ?_, ?_, hlevel, ?_, ?_⟩
    · have hset : Inv process (s.setTask fresh (some object)) := by
        refine h.setTask fresh _ (fun _ _ => ⟨hnext.free.1, hnext.free.2.1⟩) ?_
        intro task p hphase heq
        exact absurd heq (h.data_ne hphase hnext.free.2.2)
      have hdata : Inv process ((s.setTask fresh (some object)).setData nextTask fresh
          (.started prior.parallelRegion)) := by
        refine hset.setData nextTask _ _ nofun ?_ nofun
        intro p hp
        cases hp
        exact ⟨_, update_self _ _ _, hregion⟩
      exact hdata.begin hc htask hparallel
    · simpa [State.setTask, State.setData, hfresh] using hnext.object
    · intro a o hne ha
      by_cases heq : a = fresh
      · have hobject : object = o := by simpa [State.setTask, State.setData, heq] using ha
        rw [← hobject, hzero]
      · exact hlevels a o hne (by simpa [State.setTask, State.setData, heq] using ha)
    · intro hend task p hphase
      by_cases heq : task = nextTask
      · simpa [State.setTask, State.setData, heq] using hfresh.symm
      · simpa [State.setTask, State.setData, heq] using
          hsole hend task p (by simpa [State.setTask, State.setData, heq] using hphase)
  · exact ⟨s, prior, hresumed.2, h, hnext.object, hlevel, hlevels, hsole⟩

theorem taskSchedule_spec (hready : process.Ready) (h : Inv process s) (hlevels : Levels s)
    {priorTask nextTask : ℕ} {fresh : Word}
    (hallowed : Allowed process s (.taskSchedule priorTask status nextTask fresh)) :
    taskSchedule process s priorTask status nextTask fresh ≠ .error .undefined ∧
      ∀ s', taskSchedule process s priorTask status nextTask fresh = .ok s' → Inv process s' ∧ Levels s' := by
  obtain ⟨hne, hfree, ⟨p, hphase, hnextPhase⟩, hends⟩ := hallowed
  obtain ⟨prior, hprior, hregion⟩ := h.started priorTask p hphase
  have hsame : ∀ s', (Except.ok s : Except Failure State) = .ok s' → Inv process s' ∧ Levels s' := by
    intro s' heq
    cases heq
    exact ⟨h, hlevels⟩
  unfold taskSchedule
  split
  · exact ⟨nofun, hsame⟩
  · exact ⟨nofun, hsame⟩
  · exact ⟨nofun, hsame⟩
  · simp only [hprior]
    cases hcall : (if status = .cancel then .ok prior else handlePriorTask prior status) with
    | error e =>
      simp only [bind, Except.bind]
      refine ⟨?_, nofun⟩
      intro heq
      cases heq
      exact handlePriorTask_defined prior status hcall
    | ok prior' =>
      have hcases := handlePriorTask_cases hcall
      have hlevel := hlevels _ _ hprior
      have hregion' : prior'.parallelRegion = prior.parallelRegion := by
        rcases hcases with rfl | ⟨-, rfl⟩ <;> rfl
      have hlevel' : -1 ≤ prior'.undeferredLevel := by
        rcases hcases with rfl | ⟨-, rfl⟩
        · omega
        · dsimp only
          omega
      have hinv := afterPrior_inv h status hprior hregion'
      have hnext : Next process (afterPrior s priorTask status prior') (s.data priorTask) prior' nextTask
          fresh := by
        refine ⟨⟨hfree.1, hfree.2.1, ?_⟩, ?_, ?_⟩
        · rw [afterPrior_tasks, update_of_ne (h.data_ne hphase hfree.2.2).symm]
          exact hfree.2.2
        · rw [afterPrior_tasks, update_self]
        · rw [afterPrior_phase status prior' hne.symm, hregion', hregion]
          exact hnextPhase
      have hsole : prior'.undeferredLevel = -1 → ∀ task p,
          (afterPrior s priorTask status prior').phase task = .started p →
            (afterPrior s priorTask status prior').data task ≠ s.data priorTask := by
        intro hend task p' hphase'
        rcases hcases with rfl | ⟨hstatus, rfl⟩
        · omega
        · have hzero : prior.undeferredLevel = 0 := by
            dsimp only at hend
            omega
          have htask : task ≠ priorTask := by
            rintro rfl
            simp [afterPrior, hstatus] at hphase'
          rw [afterPrior_data]
          rw [afterPrior_phase status _ htask] at hphase'
          exact hends hstatus prior hprior hzero task p' htask hphase'
      obtain ⟨s₂, object, hhandle, hinv₂, hobject, hlevel₂, hlevels₂, hsole₂⟩ :=
        handleNextTask_spec hready hinv hnext hlevel' (fun a o => afterPrior_levels hlevels) hsole
      have hfinal : ∀ s', (if object.undeferredLevel = -1 then .ok (s₂.setTask (s.data priorTask) none)
          else (.ok s₂ : Except Failure State)) = .ok s' → Inv process s' ∧ Levels s' := by
        intro s' heq
        split at heq
        · rename_i hend
          cases heq
          refine ⟨hinv₂.release (hsole₂ hend), ?_⟩
          intro a o ha
          by_cases heq : a = s.data priorTask
          · simp [State.setTask, heq] at ha
          · exact hlevels₂ a o heq (by simpa [State.setTask, heq] using ha)
        · rename_i hend
          cases heq
          refine ⟨hinv₂, ?_⟩
          intro a o ha
          by_cases heq : a = s.data priorTask
          · rw [heq, hobject] at ha
            cases ha
            omega
          · exact hlevels₂ a o heq ha
      have hdefined : (if object.undeferredLevel = -1 then .ok (s₂.setTask (s.data priorTask) none)
          else (.ok s₂ : Except Failure State)) ≠ .error .undefined := by
        split <;> exact nofun
      unfold afterPrior at hhandle
      simp only [bind, Except.bind, hhandle, hobject]
      exact ⟨hdefined, hfinal⟩

/-! ## Runs -/

def Action.PacksInImplicit (s : State) : Action → Prop
  | .taskCreate encountering _ flags _ _ =>
    flags.deferred ∧ s.phase encountering = .started implicitParallel
  | _ => False

theorem step_spec (hready : process.Ready) (h : Inv process s) (hlevels : Levels s) {a : Action}
    (hallowed : Allowed process s a) : (step process s a = .error .undefined ↔ a.PacksInImplicit s) ∧
      ∀ s', step process s a = .ok s' → Inv process s' ∧ Levels s' := by
  cases a with
  | parallelBegin p parent requested actual region =>
    obtain ⟨hdefined, htasks⟩ := parallelBegin_spec (s := s) hready p parent actual region hallowed.2.2.2.2
    refine ⟨iff_of_false hdefined not_false, ?_⟩
    intro s' hstep
    refine ⟨parallelBegin_inv hready h hallowed hstep, ?_⟩
    intro a o ha
    exact hlevels a o (htasks s' hstep ▸ ha)
  | implicitTaskBegin task p index address =>
    refine ⟨iff_of_false nofun not_false, ?_⟩
    intro s' hstep
    cases hstep
    refine ⟨implicitTaskBegin_inv h hallowed, ?_⟩
    have hset : Levels (s.setTask address (some ⟨false, p, invalidRegion, 0⟩)) := by
      refine hlevels.setTask ?_
      intro o ho
      cases ho
      exact le_rfl
    exact hset
  | implicitTaskEnd task =>
    refine ⟨iff_of_false nofun not_false, ?_⟩
    intro s' hstep
    cases hstep
    have hset : Levels (s.setTask (s.data task) none) := hlevels.setTask nofun
    exact ⟨implicitTaskEnd_inv h hallowed.2, hset⟩
  | taskCreate encountering newTask flags getRegion threadNum =>
    refine ⟨taskCreate_defined h hallowed, ?_⟩
    intro s' hstep
    refine ⟨taskCreate_inv h hallowed hstep, ?_⟩
    have htasks := taskCreate_tasks hstep
    intro a o ha
    exact hlevels a o (htasks ▸ ha)
  | taskSchedule priorTask status nextTask fresh =>
    obtain ⟨hdefined, hkeeps⟩ := taskSchedule_spec hready h hlevels hallowed
    exact ⟨iff_of_false hdefined not_false, hkeeps⟩
  | mergedEnd task =>
    refine ⟨iff_of_false nofun not_false, ?_⟩
    intro s' hstep
    cases hstep
    exact ⟨h.endTask task, hlevels⟩

theorem Reachable.inv (hready : process.Ready) (haligned : address.getLsbD 0 = false)
    (hne : address ≠ 0) (h : Reachable process address s) : Inv process s ∧ Levels s := by
  induction h with
  | initial hinitial =>
    refine ⟨initial_inv haligned hne hinitial, ?_⟩
    cases hinitial
    intro a o ha
    dsimp only at ha
    split at ha
    · cases ha
      exact le_rfl
    · cases ha
  | step a _ hallowed hstep ih => exact (step_spec hready ih.1 ih.2 hallowed).2 _ hstep

structure Consistent (process : Process) (s : State) : Prop where
  unpacked : ∀ c ∈ s.created, unpackNewTask process (s.objects c.parallel) c.value = c.creation
  /-- `SCOREP_ThreadForkJoin_TaskBegin` got what `SCOREP_ThreadForkJoin_TaskCreate` got. -/
  begun : ∀ entry ∈ s.begun, ∃ c ∈ s.created, c.task = entry.1 ∧ c.creation = entry.2.2
  nodup : (s.created.map Created.task).Nodup
  apart : ∀ c ∈ s.created, [process.maskRegion, (s.objects c.parallel).maskRequestedParallelism,
    (s.objects c.parallel).maskTaskGenerationNumber, process.maskNewTask].Pairwise
      fun mask mask' => mask &&& mask' = 0
  told : (∀ c ∈ s.created, c.value.getLsbD 0 = true ∧ unpackRegion process c.value ≠ invalidRegion) ∧
    (packUndeferred process).getLsbD 0 = true ∧
    unpackRegion process (packUndeferred process) = invalidRegion ∧
    ∀ address object, s.tasks address = some object → address.getLsbD 0 = false
  distinct : s.created.Pairwise fun c c' => c.parallel = c'.parallel →
    (c.creation.threadNum, c.creation.generation) ≠ (c'.creation.threadNum, c'.creation.generation)

theorem Inv.consistent (hready : process.Ready) (h : Inv process s) : Consistent process s where
  unpacked := fun c hc => h.unpack_created hready hc
  begun := by
    intro entry hentry
    obtain ⟨c, hc, htask, -, hcreation⟩ := h.begun entry hentry
    exact ⟨c, hc, htask, hcreation⟩
  nodup := h.nodup
  apart := by
    intro c hc
    obtain ⟨hp, hsize, -, -⟩ := h.coded c hc
    obtain ⟨n, g, numbers, hlaid, -⟩ := h.laid c.parallel hp hsize
    obtain ⟨hrequested, hgeneration⟩ := hlaid.masks hready
    have hregion := hready.maskRegion.within
    have hshift := hready.shiftRegion_eq
    have hroom := hlaid.room
    simp only [pairwise_cons, mem_cons, not_mem_nil, or_false, forall_eq_or_imp,
      forall_eq, List.Pairwise.nil, and_true, false_imp_iff, implies_true]
    exact ⟨⟨hregion.and_eq_zero hrequested (Or.inr le_rfl),
      hregion.and_eq_zero hgeneration (Or.inr (by omega)),
      hregion.and_eq_zero hready.maskNewTask (Or.inr (by omega))⟩,
      ⟨hrequested.within.and_eq_zero hgeneration (Or.inr le_rfl),
      hrequested.within.and_eq_zero hready.maskNewTask (Or.inr (by omega))⟩,
      hgeneration.within.and_eq_zero hready.maskNewTask (Or.inr (by omega))⟩
  told := by
    refine ⟨?_, packUndeferred_odd hready, unpackRegion_undeferred hready, ?_⟩
    · intro c hc
      obtain ⟨-, -, -, hcoded⟩ := h.coded c hc
      refine ⟨hcoded.value_eq ▸ pack_odd hready (s.objects c.parallel) c.creation, ?_⟩
      have hregion : unpackRegion process c.value = c.creation.region :=
        congrArg Creation.region (h.unpack_created hready hc)
      rw [hregion]
      exact hcoded.handle.1
    · intro a o ha
      exact (h.aligned a o ha).1
  distinct := by
    refine h.distinct.imp ?_
    intro c c' hne hparallel heq
    exact hne hparallel (congrArg Prod.fst heq) (congrArg Prod.snd heq)

def Sound (process : Process) (s : State) (a : Action) : Prop :=
  step process s a ≠ .error .undefined ∧ ∀ s', step process s a = .ok s' → Consistent process s'

/-- Every call of every run is sound, but for those that create a task from the initial task which is not
undeferred. -/
theorem sound_iff {bitWidth : ℕ} (hwidth : bitWidth < 64)
    (hinit : completeAdapterInit bitWidth = .ok process) (haligned : address.getLsbD 0 = false)
    (hne : address ≠ 0) (h : Reachable process address s) {a : Action}
    (hallowed : Allowed process s a) : Sound process s a ↔ ¬ a.PacksInImplicit s := by
  have hready := completeAdapterInit_ready hwidth hinit
  obtain ⟨hinv, hlevels⟩ := h.inv hready haligned hne
  obtain ⟨hdefined, hkeeps⟩ := step_spec hready hinv hlevels hallowed
  unfold Sound
  rw [ne_eq, hdefined]
  refine and_iff_left ?_
  intro s' hstep
  exact (hkeeps s' hstep).1.consistent hready

def narrow : Process where
  nbitsRegion := 20
  shiftRegion := 44
  shiftNewTask := 0
  maskRegion := (BitVec.allOnes 64 <<< 44) >>> 0
  maskNewTask := (BitVec.allOnes 64 <<< 63) >>> 63

def createInitial (undeferred : Bool) : Action :=
  .taskCreate 0 1 { merged := false, taskwait := false, undeferred := undeferred, untied := false }
    (fun _ => 7) 0

theorem createInitial_allowed (undeferred : Bool) (h : State.initial narrow 64 = .ok s) :
    Allowed narrow s (createInitial undeferred) := by
  cases h
  refine ⟨⟨implicitParallel, rfl, Nat.zero_lt_one⟩, rfl, ?_⟩
  intro event
  have hhandle : narrow.Handle 7 := by
    unfold Process.Handle narrow
    decide
  exact hhandle

theorem sound_iff_undeferred : ∃ s, State.initial narrow 64 = .ok s ∧ Sound narrow s (createInitial true) := by
  refine ⟨_, rfl, (sound_iff (show 20 < 64 by decide) rfl (by decide) (by decide) (.initial rfl)
    (createInitial_allowed true rfl)).2 ?_⟩
  intro hpacks
  cases hpacks.1

/-- A task that is not undeferred: the array of generation numbers of the implicit parallel region is a
null pointer. -/
theorem not_sound_initial : ¬ ∀ (bitWidth : ℕ) (process : Process) (address : Word) (s : State)
    (a : Action), bitWidth < 64 → completeAdapterInit bitWidth = .ok process →
      address.getLsbD 0 = false → address ≠ 0 → Reachable process address s → Allowed process s a →
        Sound process s a := by
  intro hall
  have hsound := hall 20 narrow 64 _ (createInitial false) (by decide) rfl (by decide) (by decide)
    (.initial rfl) (createInitial_allowed false rfl)
  exact hsound.1 rfl

end ScoreP.Ompt
