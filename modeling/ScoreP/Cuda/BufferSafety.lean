import ScoreP.Cuda.Buffers
import ScoreP.Foundations.Chain
import ScoreP.Foundations.Transition

/-!
# When the buffer pool is safe

`Timely` names the accesses that have to come in time: a buffer is marked as committed while it is
still free, a new buffer is linked behind the last one and fits beside those that were added since
the scan, and a lookup in the global queue comes to contexts whose activity part is set up. The code
takes no lock there. `pool_sound_of_timely`: in a run of such steps no buffer is handed out twice, none
with records is overwritten, missed, processed twice or lost from its list, every completed buffer
is found, the assertion holds, and the sizes of a context's buffers stay below the limit.

`Inv` says what the threads rely on. `Place` is where a thread stands in the list of a context,
`Load` what it knows of the buffer it works on; `Inv.touch` is the rule for a step of one thread.
-/

namespace ScoreP.Cuda.Buffers

open Foundations Function List

/-! ## Timely steps -/

def TimelyAt (cfg : Config) (s : State) : Pc → Prop
  | .commit _ buffer => s.state buffer = .free
  | .grow context _ total => total + cfg.chunkSize + cfg.alignSize ≤ cfg.bufferSize →
    s.sizeOf context + cfg.chunkSize ≤ cfg.bufferSize
  | .link _ (some prev) _ => s.next prev = none
  | .link context none _ => s.head context = none
  | .findAny (context :: _) _ _ => s.activity context = true
  | _ => True

def Timely (cfg : Config) (s : State) : Action → Prop
  | .advance thread => TimelyAt cfg s (s.pcs thread)
  | _ => True

structure Sound (cfg : Config) (s : State) : Prop where
  noFault : s.faults = []
  kept : ∀ buffer, s.use buffer = .waiting → s.state buffer = .pending ∧
    ∃ buffers, Chain s.next (s.head (s.owner buffer)) buffers ∧ buffer ∈ buffers
  fits : ∀ context, s.sizeOf context ≤ cfg.bufferSize

/-! ## Places in a list -/

/-- A walk along `l` that stands at `c` has still to come to `d`. -/
def Ahead (l : List ℕ) (c d : ℕ) : Prop :=
  ∃ before after, l = before ++ c :: after ∧ d ∈ c :: after

section Places

variable {l : List ℕ} {c c' d : ℕ} {next : ℕ → Option ℕ} {p : Option ℕ}

theorem ahead_head (h : Chain next p l) (hp : p = some c) (hd : d ∈ l) : Ahead l c d := by
  cases l with
  | nil => cases hd
  | cons a l =>
    have ha := (chain_cons.1 h).1
    rw [hp] at ha
    cases ha
    exact ⟨[], l, rfl, hd⟩

theorem Ahead.append (h : Ahead l c d) (ext : List ℕ) : Ahead (l ++ ext) c d := by
  obtain ⟨before, after, rfl, hd⟩ := h
  refine ⟨before, after ++ ext, by simp, ?_⟩
  rw [← cons_append]
  exact mem_append_left _ hd

theorem Ahead.mem_right (h : Ahead l c d) : d ∈ l := by
  obtain ⟨before, after, rfl, hd⟩ := h
  exact mem_append_right _ hd

theorem Ahead.step (h : Ahead l c d) (hchain : Chain next p l) (hne : d ≠ c) :
    ∃ c', next c = some c' ∧ Ahead l c' d := by
  obtain ⟨before, after, rfl, hd⟩ := h
  obtain ⟨q, -, hq⟩ := segment_append.1 hchain
  obtain ⟨rfl, hafter⟩ := segment_cons.1 hq
  have hd' : d ∈ after := (mem_cons.mp hd).resolve_left hne
  cases after with
  | nil => cases hd'
  | cons a after =>
    exact ⟨a, (segment_cons.1 hafter).1, before ++ [c], after, by simp, hd'⟩

theorem next_mem (hchain : Chain next p l) (hc : c ∈ l) (hnext : next c = some c') : c' ∈ l := by
  obtain ⟨before, after, rfl⟩ := append_of_mem hc
  obtain ⟨q, -, hq⟩ := segment_append.1 hchain
  obtain ⟨rfl, hafter⟩ := segment_cons.1 hq
  cases after with
  | nil =>
    rw [segment_nil.1 hafter] at hnext
    cases hnext
  | cons a after =>
    rw [(segment_cons.1 hafter).1] at hnext
    cases hnext
    simp

theorem last_of_next_eq_none (hchain : Chain next p l) (hc : c ∈ l) (hnext : next c = none) :
    ∃ before, l = before ++ [c] := by
  obtain ⟨before, after, rfl⟩ := append_of_mem hc
  obtain ⟨q, -, hq⟩ := segment_append.1 hchain
  obtain ⟨rfl, hafter⟩ := segment_cons.1 hq
  cases after with
  | nil => exact ⟨before, rfl⟩
  | cons a after =>
    rw [(segment_cons.1 hafter).1] at hnext
    cases hnext

end Places

/-! ## What the threads rely on -/

def grip : Pc → Option ℕ
  | .link _ _ buffer | .check buffer | .find _ buffer _ | .findAny _ buffer _
  | .findIn _ _ buffer _ | .setValid buffer _ | .setState buffer => some buffer
  | _ => none

def sweeps : Pc → Bool
  | .flush .. | .handle .. | .clear .. | .release .. | .flushNext .. => true
  | _ => false

def Sweeping : Pc → ℕ → Prop
  | .clear _ current _, buffer | .release _ current _, buffer => current = buffer
  | _, _ => False

/-- Where a thread stands; `pool` lists the buffers of a context in order. -/
def Place (pool : ℕ → List ℕ) (s : State) : Pc → Prop
  | .idle | .setup _ => True
  | .scan context current _ | .scanNext context current _ | .commit context current =>
    current ∈ pool context
  | .grow context prev _ => (∀ p, prev = some p → p ∈ pool context) ∧
    context ∈ s.contexts ∧ s.activity context = true
  | .link context prev buffer => (∀ p, prev = some p → p ∈ pool context) ∧
    buffer < s.allocated ∧ s.owner buffer = context ∧ ∀ context', buffer ∉ pool context'
  | .check buffer | .setValid buffer _ | .setState buffer => buffer ∈ pool (s.owner buffer)
  | .find current buffer _ => Ahead (pool (s.owner buffer)) current buffer
  | .findAny contexts buffer _ => s.owner buffer ∈ contexts ∧ buffer ∈ pool (s.owner buffer)
  | .findIn current contexts buffer _ => ∃ context, current ∈ pool context ∧ buffer ∈ pool (s.owner buffer) ∧
    (context = s.owner buffer → Ahead (pool context) current buffer) ∧
    (context ≠ s.owner buffer → s.owner buffer ∈ contexts)
  | .flush context current due | .handle context current due =>
    current ∈ pool context ∧ ∀ d ∈ due, Ahead (pool context) current d
  | .clear context current due | .release context current due | .flushNext context current due =>
    current ∈ pool context ∧ ∀ d ∈ due, Ahead (pool context) current d ∧ d ≠ current

def Load (s : State) : Pc → Prop
  | .link _ _ buffer => s.state buffer = .committed ∧ s.use buffer = .free ∧
    s.validSize buffer = 0 ∧ s.next buffer = none
  | .check buffer => s.state buffer = .committed ∧ s.use buffer = .free ∧ s.validSize buffer = 0
  | .find _ buffer _ | .findAny _ buffer _ | .findIn _ _ buffer _ | .setValid buffer _ =>
    s.state buffer = .committed ∧ s.use buffer = .completing ∧ s.validSize buffer = 0
  | .setState buffer => s.state buffer = .committed ∧ s.use buffer = .completing
  | .flush _ _ due | .flushNext _ _ due => ∀ d ∈ due, s.use d = .waiting
  | .handle _ current due => s.use current = .waiting ∧ ∀ d ∈ due, s.use d = .waiting
  | .clear _ current due => s.state current = .pending ∧ s.use current = .free ∧ ∀ d ∈ due, s.use d = .waiting
  | .release _ current due => s.state current = .pending ∧ s.use current = .free ∧
    s.validSize current = 0 ∧ ∀ d ∈ due, s.use d = .waiting
  | _ => True

structure BufferInv (pool : ℕ → List ℕ) (s : State) (buffer : ℕ) : Prop where
  held : s.use buffer = .held → buffer < s.allocated ∧ s.state buffer = .committed ∧
    s.validSize buffer = 0 ∧ buffer ∈ pool (s.owner buffer)
  waiting : s.use buffer = .waiting → buffer < s.allocated ∧ s.state buffer = .pending ∧
    buffer ∈ pool (s.owner buffer)
  free : s.state buffer = .free → s.use buffer = .free ∧ s.validSize buffer = 0
  pending : s.state buffer = .pending → s.use buffer = .waiting ∨ ∃ thread, Sweeping (s.pcs thread) buffer

structure Inv (cfg : Config) (pool : ℕ → List ℕ) (s : State) : Prop where
  noFault : s.faults = []
  chain : ∀ context, Chain s.next (s.head context) (pool context)
  nodup : ∀ context, (pool context).Nodup
  owned : ∀ context, ∀ buffer ∈ pool context, s.owner buffer = context ∧ buffer < s.allocated
  known : ∀ buffer < s.allocated, s.owner buffer ∈ s.contexts ∧ s.activity (s.owner buffer) = true
  unborn : ∀ buffer, s.allocated ≤ buffer → s.state buffer = .free ∧ s.use buffer = .free
  buffers : ∀ buffer, BufferInv pool s buffer
  place : ∀ thread, Place pool s (s.pcs thread)
  load : ∀ thread, Load s (s.pcs thread)
  grips : ∀ thread thread' buffer, grip (s.pcs thread) = some buffer →
    grip (s.pcs thread') = some buffer → thread = thread'
  lock : ∀ thread, sweeps (s.pcs thread) = true ↔ s.lock = some thread
  fits : ∀ context, s.sizeOf context ≤ cfg.bufferSize

theorem inv_initial (cfg : Config) : Inv cfg (fun _ => []) initial where
  noFault := rfl
  chain := fun _ => rfl
  nodup := fun _ => nodup_nil
  owned := nofun
  known := fun _ h => absurd h (Nat.not_lt_zero _)
  unborn := fun _ _ => ⟨rfl, rfl⟩
  buffers := fun _ => ⟨nofun, nofun, fun _ => ⟨rfl, rfl⟩, nofun⟩
  place := fun _ => trivial
  load := fun _ => trivial
  grips := nofun
  lock := by simp [initial, sweeps]
  fits := fun _ => Nat.zero_le _

variable {cfg : Config} {pool : ℕ → List ℕ} {s t : State} {thread : ℕ} {pc : Pc} {buffer : ℕ}

theorem Inv.sound (h : Inv cfg pool s) : Sound cfg s where
  noFault := h.noFault
  kept := by
    intro buffer hwaiting
    obtain ⟨-, hstate, hmem⟩ := (h.buffers buffer).waiting hwaiting
    exact ⟨hstate, pool (s.owner buffer), h.chain _, hmem⟩
  fits := h.fits

/-! ## A step of one thread -/

theorem Load.grip_committed (h : Load s pc) (hgrip : grip pc = some buffer) :
    s.state buffer = .committed ∧ (s.use buffer = .free ∨ s.use buffer = .completing) := by
  cases pc <;> simp only [grip, Option.some_inj, reduceCtorEq] at hgrip
  all_goals subst hgrip
  case link => exact ⟨h.1, .inl h.2.1⟩
  case check => exact ⟨h.1, .inl h.2.1⟩
  case setState => exact ⟨h.1, .inr h.2⟩
  all_goals exact ⟨h.1, .inr h.2.1⟩

theorem Inv.grip_lt (h : Inv cfg pool s) (hgrip : grip (s.pcs thread) = some buffer) :
    buffer < s.allocated := by
  have hload := (h.load thread).grip_committed hgrip
  by_contra hge
  have hunborn := (h.unborn buffer (Nat.le_of_not_lt hge)).1
  rw [hload.1] at hunborn
  cases hunborn

structure Touches (touched : ℕ → Prop) (s t : State) : Prop where
  faults : t.faults = s.faults
  head : t.head = s.head
  next : t.next = s.next
  size : t.size = s.size
  owner : t.owner = s.owner
  allocated : t.allocated = s.allocated
  contexts : ∀ context ∈ s.contexts, context ∈ t.contexts
  activity : ∀ context, s.activity context = true → t.activity context = true
  state : ∀ buffer, ¬ touched buffer → t.state buffer = s.state buffer
  use : ∀ buffer, ¬ touched buffer → t.use buffer = s.use buffer
  validSize : ∀ buffer, ¬ touched buffer → t.validSize buffer = s.validSize buffer

variable {touched : ℕ → Prop}

theorem Touches.goto (h : Touches touched s t) : Touches touched s (t.goto thread pc) :=
  { h with }

theorem Place.touch (h : Place pool s pc) (ht : Touches touched s t) : Place pool t pc := by
  cases pc <;> simp only [Place, ht.owner, ht.allocated] at h ⊢
  case grow context prev total => exact ⟨h.1, ht.contexts _ h.2.1, ht.activity _ h.2.2⟩
  all_goals exact h

theorem Load.agree (touched : ℕ → Prop) (h : Load s pc)
    (hsame : ∀ buffer, ¬ touched buffer → t.state buffer = s.state buffer ∧
      t.use buffer = s.use buffer ∧ t.validSize buffer = s.validSize buffer)
    (hnext : ∀ context prev buffer, pc = .link context prev buffer → t.next buffer = s.next buffer)
    (hgrip : ∀ buffer, touched buffer → grip pc ≠ some buffer)
    (hsweep : sweeps pc = true → ∀ buffer, touched buffer →
      s.use buffer ≠ .waiting ∧ s.state buffer ≠ .pending) : Load t pc := by
  have hdue : ∀ {due : List ℕ}, sweeps pc = true → (∀ d ∈ due, s.use d = .waiting) →
      ∀ d ∈ due, t.use d = .waiting := by
    intro due hs hd d hmem
    have hnot : ¬ touched d := fun htouched => (hsweep hs d htouched).1 (hd d hmem)
    rw [(hsame d hnot).2.1]
    exact hd d hmem
  cases pc with
  | idle | scan | scanNext | commit | grow | setup => trivial
  | link context prev buffer =>
    have hnot : ¬ touched buffer := fun htouched => hgrip buffer htouched rfl
    obtain ⟨hs, hu, hv⟩ := hsame buffer hnot
    rw [Load, hs, hu, hv, hnext context prev buffer rfl]
    exact h
  | check buffer | setState buffer =>
    have hnot : ¬ touched buffer := fun htouched => hgrip buffer htouched rfl
    obtain ⟨hs, hu, hv⟩ := hsame buffer hnot
    simp only [Load, hs, hu, hv]
    exact h
  | find current buffer | findAny contexts buffer | findIn current contexts buffer
  | setValid buffer =>
    have hnot : ¬ touched buffer := fun htouched => hgrip buffer htouched rfl
    obtain ⟨hs, hu, hv⟩ := hsame buffer hnot
    rw [Load, hs, hu, hv]
    exact h
  | flush context current due | flushNext context current due => exact hdue rfl h
  | handle context current due =>
    have hnot : ¬ touched current := fun htouched => (hsweep rfl current htouched).1 h.1
    obtain ⟨-, hu, -⟩ := hsame current hnot
    exact ⟨hu.trans h.1, hdue rfl h.2⟩
  | clear context current due =>
    have hnot : ¬ touched current := fun htouched => (hsweep rfl current htouched).2 h.1
    obtain ⟨hs, hu, -⟩ := hsame current hnot
    exact ⟨hs.trans h.1, hu.trans h.2.1, hdue rfl h.2.2⟩
  | release context current due =>
    have hnot : ¬ touched current := fun htouched => (hsweep rfl current htouched).2 h.1
    obtain ⟨hs, hu, hv⟩ := hsame current hnot
    exact ⟨hs.trans h.1, hu.trans h.2.1, hv.trans h.2.2.1, hdue rfl h.2.2.2⟩

theorem Load.touch (h : Load s pc) (ht : Touches touched s t)
    (hgrip : ∀ buffer, touched buffer → grip pc ≠ some buffer)
    (hsweep : sweeps pc = true → ∀ buffer, touched buffer →
      s.use buffer ≠ .waiting ∧ s.state buffer ≠ .pending) : Load t pc :=
  h.agree touched (fun b hb => ⟨ht.state b hb, ht.use b hb, ht.validSize b hb⟩)
    (fun _ _ b _ => congrFun ht.next b) hgrip hsweep

/-- The rule for a step of `thread` to `pc`: it keeps to buffers that are its own, and says what
they are afterwards. -/
theorem Inv.touch (h : Inv cfg pool s) (ht : Touches touched s t) (hpcs : t.pcs = s.pcs)
    (hborn : ∀ buffer, touched buffer → buffer < s.allocated)
    (hothers : ∀ thread', thread' ≠ thread → ∀ buffer, touched buffer → grip (s.pcs thread') ≠ some buffer)
    (hsweepers : ∀ thread', thread' ≠ thread → sweeps (s.pcs thread') = true →
      ∀ buffer, touched buffer → s.use buffer ≠ .waiting ∧ s.state buffer ≠ .pending)
    (hbuffers : ∀ buffer, touched buffer → BufferInv pool (t.goto thread pc) buffer)
    (hsweeping : ∀ buffer, ¬ touched buffer → Sweeping (s.pcs thread) buffer → Sweeping pc buffer)
    (hplace : Place pool t pc) (hload : Load t pc)
    (hgrip : ∀ buffer, grip pc = some buffer → touched buffer ∨ grip (s.pcs thread) = some buffer)
    (hlock : sweeps pc = true ↔ t.lock = some thread)
    (hlock' : ∀ thread', thread' ≠ thread → (t.lock = some thread' ↔ s.lock = some thread')) :
    Inv cfg pool (t.goto thread pc) := by
  have hself : (t.goto thread pc).pcs thread = pc := by simp [State.goto]
  have hother : ∀ thread', thread' ≠ thread → (t.goto thread pc).pcs thread' = s.pcs thread' := by
    intro thread' hne
    simp [State.goto, hne, hpcs]
  constructor
  · exact ht.faults.trans h.noFault
  · intro context
    change Chain t.next (t.head context) (pool context)
    rw [ht.next, ht.head]
    exact h.chain context
  · exact h.nodup
  · intro context buffer hmem
    change t.owner buffer = context ∧ buffer < t.allocated
    rw [ht.owner, ht.allocated]
    exact h.owned context buffer hmem
  · intro buffer hlt
    change buffer < t.allocated at hlt
    rw [ht.allocated] at hlt
    obtain ⟨hknown, hactive⟩ := h.known buffer hlt
    change t.owner buffer ∈ t.contexts ∧ t.activity (t.owner buffer) = true
    rw [ht.owner]
    exact ⟨ht.contexts _ hknown, ht.activity _ hactive⟩
  · intro buffer hge
    change t.allocated ≤ buffer at hge
    rw [ht.allocated] at hge
    have hnot : ¬ touched buffer := fun htouched => by
      have hlt := hborn buffer htouched
      omega
    change t.state buffer = _ ∧ t.use buffer = _
    rw [ht.state buffer hnot, ht.use buffer hnot]
    exact h.unborn buffer hge
  · intro buffer
    by_cases htouched : touched buffer
    · exact hbuffers buffer htouched
    · have hold := h.buffers buffer
      have hs := ht.state buffer htouched
      have hu := ht.use buffer htouched
      have hv := ht.validSize buffer htouched
      constructor
      · intro hheld
        change t.use buffer = _ at hheld
        rw [hu] at hheld
        change buffer < t.allocated ∧ t.state buffer = _ ∧ t.validSize buffer = 0 ∧
          buffer ∈ pool (t.owner buffer)
        rw [hs, hv, ht.owner, ht.allocated]
        exact hold.held hheld
      · intro hwaiting
        change t.use buffer = _ at hwaiting
        rw [hu] at hwaiting
        change buffer < t.allocated ∧ t.state buffer = _ ∧ buffer ∈ pool (t.owner buffer)
        rw [hs, ht.owner, ht.allocated]
        exact hold.waiting hwaiting
      · intro hfree
        change t.state buffer = _ at hfree
        rw [hs] at hfree
        change t.use buffer = _ ∧ t.validSize buffer = 0
        rw [hu, hv]
        exact hold.free hfree
      · intro hpending
        change t.state buffer = _ at hpending
        rw [hs] at hpending
        change t.use buffer = _ ∨ _
        rw [hu]
        rcases hold.pending hpending with hwaiting | ⟨thread', hthread⟩
        · exact .inl hwaiting
        · refine .inr ⟨thread', ?_⟩
          by_cases hne : thread' = thread
          · subst hne
            rw [hself]
            exact hsweeping buffer htouched hthread
          · rwa [hother thread' hne]
  · intro thread'
    by_cases hne : thread' = thread
    · subst hne
      rw [hself]
      exact hplace
    · rw [hother thread' hne]
      exact (h.place thread').touch ht.goto
  · intro thread'
    by_cases hne : thread' = thread
    · subst hne
      rw [hself]
      exact hload
    · rw [hother thread' hne]
      exact (h.load thread').touch ht.goto (hothers thread' hne) (hsweepers thread' hne)
  · have hmine : ∀ thread' buffer, thread' ≠ thread → grip (s.pcs thread') = some buffer →
        grip pc ≠ some buffer := by
      intro thread' buffer hne hthread hpc
      rcases hgrip buffer hpc with htouched | hold
      · exact hothers thread' hne buffer htouched hthread
      · exact hne (h.grips thread' thread buffer hthread hold)
    intro thread₁ thread₂ buffer h₁ h₂
    by_cases hne₁ : thread₁ = thread
    · by_cases hne₂ : thread₂ = thread
      · rw [hne₁, hne₂]
      · rw [hne₁, hself] at h₁
        rw [hother thread₂ hne₂] at h₂
        exact absurd h₁ (hmine thread₂ buffer hne₂ h₂)
    · by_cases hne₂ : thread₂ = thread
      · rw [hne₂, hself] at h₂
        rw [hother thread₁ hne₁] at h₁
        exact absurd h₂ (hmine thread₁ buffer hne₁ h₁)
      · rw [hother thread₁ hne₁] at h₁
        rw [hother thread₂ hne₂] at h₂
        exact h.grips thread₁ thread₂ buffer h₁ h₂
  · intro thread'
    by_cases hne : thread' = thread
    · subst hne
      rw [hself]
      exact hlock
    · rw [hother thread' hne, h.lock thread']
      exact (hlock' thread' hne).symm
  · intro context
    change ((((List.range t.allocated).filter fun b => t.owner b = context).map t.size).sum) ≤ _
    rw [ht.allocated, ht.owner, ht.size]
    exact h.fits context

theorem touches_refl (s : State) : Touches (fun _ => False) s s where
  faults := rfl
  head := rfl
  next := rfl
  size := rfl
  owner := rfl
  allocated := rfl
  contexts := fun _ h => h
  activity := fun _ h => h
  state := fun _ _ => rfl
  use := fun _ _ => rfl
  validSize := fun _ _ => rfl

/-- The rule for a step that touches no buffer. -/
theorem Inv.touchNone (h : Inv cfg pool s) (ht : Touches (fun _ => False) s t) (hpcs : t.pcs = s.pcs)
    {pc₀ : Pc} (hpc : s.pcs thread = pc₀) (hplace : Place pool t pc) (hload : Load t pc)
    (hgrip : ∀ buffer, grip pc = some buffer → grip pc₀ = some buffer)
    (hsweeping : ∀ buffer, Sweeping pc₀ buffer → Sweeping pc buffer)
    (hlock : sweeps pc = true ↔ t.lock = some thread)
    (hlock' : ∀ thread', thread' ≠ thread → (t.lock = some thread' ↔ s.lock = some thread')) :
    Inv cfg pool (t.goto thread pc) := by
  subst hpc
  apply h.touch ht hpcs
  · exact fun _ hfalse => hfalse.elim
  · exact fun _ _ _ hfalse => hfalse.elim
  · exact fun _ _ _ _ hfalse => hfalse.elim
  · exact fun _ hfalse => hfalse.elim
  · exact fun buffer _ => hsweeping buffer
  · exact hplace
  · exact hload
  · exact fun buffer hb => .inr (hgrip buffer hb)
  · exact hlock
  · exact hlock'

theorem Inv.goto (h : Inv cfg pool s) {pc₀ : Pc} (hpc : s.pcs thread = pc₀) (hplace : Place pool s pc)
    (hload : Load s pc) (hgrip : ∀ buffer, grip pc = some buffer → grip pc₀ = some buffer)
    (hsweeps : sweeps pc = sweeps pc₀) (hsweeping : ∀ buffer, Sweeping pc₀ buffer → Sweeping pc buffer) :
    Inv cfg pool (s.goto thread pc) := by
  refine h.touchNone (touches_refl s) rfl hpc hplace hload hgrip hsweeping ?_ fun _ _ => Iff.rfl
  rw [hsweeps, ← hpc]
  exact h.lock thread

theorem Inv.stands (h : Inv cfg pool s) (hpc : s.pcs thread = pc) : Place pool s pc ∧ Load s pc :=
  ⟨hpc ▸ h.place thread, hpc ▸ h.load thread⟩

variable {context current : ℕ}

theorem Inv.mem_of_head (h : Inv cfg pool s) (hhead : s.head context = some current) :
    current ∈ pool context := by
  have hchain := h.chain context
  rw [hhead] at hchain
  cases hpool : pool context with
  | nil =>
    rw [hpool] at hchain
    cases hchain
  | cons a l =>
    rw [hpool] at hchain
    cases (chain_cons.1 hchain).1
    exact mem_cons_self

/-! ## Requests -/

theorem inv_request (h : Inv cfg pool s) (hpc : s.pcs thread = .idle) (context : ℕ) :
    Inv cfg pool (request thread context s) := by
  unfold request
  split
  · rename_i hknown
    cases hhead : s.head context with
    | some current =>
      exact h.goto hpc (h.mem_of_head hhead) trivial nofun rfl nofun
    | none =>
      exact h.goto hpc ⟨nofun, hknown⟩ trivial nofun rfl nofun
  · exact h

theorem inv_scan {context current total : ℕ} (h : Inv cfg pool s)
    (hpc : s.pcs thread = .scan context current total) : Inv cfg pool (advance cfg thread s) := by
  have hplace := (h.stands hpc).1
  rw [advance, hpc]
  dsimp only
  split
  · exact h.goto hpc hplace trivial nofun rfl nofun
  · exact h.goto hpc hplace trivial nofun rfl nofun

theorem inv_scanNext {context current total : ℕ} (h : Inv cfg pool s)
    (hpc : s.pcs thread = .scanNext context current total) : Inv cfg pool (advance cfg thread s) := by
  have hplace := (h.stands hpc).1
  rw [advance, hpc]
  dsimp only
  cases hnext : s.next current with
  | some current' =>
    have hmem : current' ∈ pool context := next_mem (h.chain context) hplace hnext
    exact h.goto hpc hmem trivial nofun rfl nofun
  | none =>
    obtain ⟨howner, hlt⟩ := h.owned context current hplace
    have hknown := h.known current hlt
    rw [howner] at hknown
    refine h.goto hpc ⟨?_, hknown⟩ trivial nofun rfl nofun
    intro p hp
    cases hp
    exact hplace

/-! ## Steps that touch one buffer -/

theorem touches_setState (s : State) (buffer : ℕ) (state : BufferState) :
    Touches (· = buffer) s (s.setState buffer state) :=
  ⟨rfl, rfl, rfl, rfl, rfl, rfl, fun _ h => h, fun _ h => h,
    fun _ hne => update_of_ne hne _ _, fun _ _ => rfl, fun _ _ => rfl⟩

theorem touches_setUse (s : State) (buffer : ℕ) (use : Use) : Touches (· = buffer) s (s.setUse buffer use) :=
  ⟨rfl, rfl, rfl, rfl, rfl, rfl, fun _ h => h, fun _ h => h, fun _ _ => rfl,
    fun _ hne => update_of_ne hne _ _, fun _ _ => rfl⟩

theorem touches_setValidSize (s : State) (buffer validSize : ℕ) :
    Touches (· = buffer) s (s.setValidSize buffer validSize) :=
  ⟨rfl, rfl, rfl, rfl, rfl, rfl, fun _ h => h, fun _ h => h, fun _ _ => rfl, fun _ _ => rfl,
    fun _ hne => update_of_ne hne _ _⟩

theorem Touches.trans {u : State} (h : Touches touched s t) (h' : Touches touched t u) :
    Touches touched s u where
  faults := h'.faults.trans h.faults
  head := h'.head.trans h.head
  next := h'.next.trans h.next
  size := h'.size.trans h.size
  owner := h'.owner.trans h.owner
  allocated := h'.allocated.trans h.allocated
  contexts := fun c hc => h'.contexts c (h.contexts c hc)
  activity := fun c hc => h'.activity c (h.activity c hc)
  state := fun b hb => (h'.state b hb).trans (h.state b hb)
  use := fun b hb => (h'.use b hb).trans (h.use b hb)
  validSize := fun b hb => (h'.validSize b hb).trans (h.validSize b hb)

theorem Sweeping.sweeps (h : Sweeping pc buffer) : sweeps pc = true := by
  cases pc <;> first | rfl | cases h

theorem sweeps_of_grip (h : grip pc = some buffer) : sweeps pc = false := by
  cases pc <;> first | rfl | cases h

theorem Inv.touchOne (h : Inv cfg pool s) (ht : Touches (· = buffer) s t) (hpcs : t.pcs = s.pcs)
    (hlock : t.lock = s.lock) (hborn : buffer < s.allocated)
    (hothers : ∀ thread', thread' ≠ thread → grip (s.pcs thread') ≠ some buffer)
    (huse : s.use buffer ≠ .waiting) (hstate : s.state buffer ≠ .pending)
    (hbuffer : BufferInv pool (t.goto thread pc) buffer) (hplace : Place pool t pc)
    (hload : Load t pc) (hgrip : ∀ b, grip pc = some b → b = buffer)
    (hsweeps : sweeps (s.pcs thread) = false) (hsweeps' : sweeps pc = false) :
    Inv cfg pool (t.goto thread pc) := by
  have hnot : ¬ s.lock = some thread := by
    intro hlocked
    rw [(h.lock thread).mpr hlocked] at hsweeps
    cases hsweeps
  apply h.touch ht hpcs
  · rintro b rfl
    exact hborn
  · rintro thread' hne b rfl
    exact hothers thread' hne
  · rintro thread' - - b rfl
    exact ⟨huse, hstate⟩
  · rintro b rfl
    exact hbuffer
  · rintro b - hsweeping
    rw [hsweeping.sweeps] at hsweeps
    cases hsweeps
  · exact hplace
  · exact hload
  · exact fun b hb => .inl (hgrip b hb)
  · rw [hsweeps', hlock]
    simp [hnot]
  · intro thread' _
    rw [hlock]

theorem Inv.touchOwn (h : Inv cfg pool s) (hown : grip (s.pcs thread) = some buffer)
    (ht : Touches (· = buffer) s t) (hpcs : t.pcs = s.pcs) (hlock : t.lock = s.lock)
    (hbuffer : BufferInv pool (t.goto thread pc) buffer) (hplace : Place pool t pc)
    (hload : Load t pc) (hgrip : ∀ b, grip pc = some b → b = buffer) (hsweeps' : sweeps pc = false) :
    Inv cfg pool (t.goto thread pc) := by
  obtain ⟨hstate, huse⟩ := (h.load thread).grip_committed hown
  apply h.touchOne ht hpcs hlock (h.grip_lt hown) ?_ ?_ ?_ hbuffer hplace hload hgrip ?_ hsweeps'
  · intro thread' hne hgrip'
    exact hne (h.grips thread' thread buffer hgrip' hown)
  · rcases huse with huse | huse <;> rw [huse] <;> nofun
  · rw [hstate]
    nofun
  · exact sweeps_of_grip hown

theorem Inv.touchSwept (h : Inv cfg pool s) (ht : Touches (· = buffer) s t) (hpcs : t.pcs = s.pcs)
    (hlock : t.lock = s.lock) (hborn : buffer < s.allocated) (hstate : s.state buffer = .pending)
    (hbuffer : BufferInv pool (t.goto thread pc) buffer) (hplace : Place pool t pc)
    (hload : Load t pc) (hgrip : grip pc = none) (hsweeps : sweeps (s.pcs thread) = true)
    (hsweeps' : sweeps pc = true) (hsweeping : ∀ b, b ≠ buffer → Sweeping (s.pcs thread) b → Sweeping pc b) :
    Inv cfg pool (t.goto thread pc) := by
  have hlocked := (h.lock thread).mp hsweeps
  apply h.touch ht hpcs
  · rintro b rfl
    exact hborn
  · rintro thread' - b rfl hgrip'
    rw [((h.load thread').grip_committed hgrip').1] at hstate
    cases hstate
  · intro thread' hne hsweeps''
    have hlocked' := (h.lock thread').mp hsweeps''
    rw [hlocked] at hlocked'
    exact absurd (Option.some_inj.mp hlocked').symm hne
  · rintro b rfl
    exact hbuffer
  · exact hsweeping
  · exact hplace
  · exact hload
  · intro b hb
    rw [hgrip] at hb
    cases hb
  · rw [hsweeps', hlock, hlocked]
    simp
  · intro thread' _
    rw [hlock]

theorem BufferInv.of_committed {use : Use} (hstate : s.state buffer = .committed) (huse : s.use buffer = use)
    (hheld : use ≠ .held) (hwaiting : use ≠ .waiting) : BufferInv pool s buffer where
  held := fun h => absurd (huse.symm.trans h) hheld
  waiting := fun h => absurd (huse.symm.trans h) hwaiting
  free := fun h => absurd (hstate.symm.trans h) (by nofun)
  pending := fun h => absurd (hstate.symm.trans h) (by nofun)

theorem BufferInv.of_swept (hstate : s.state buffer = .pending) (huse : s.use buffer = .free)
    (hsweeping : ∃ thread, Sweeping (s.pcs thread) buffer) : BufferInv pool s buffer where
  held := fun h => absurd (huse.symm.trans h) (by nofun)
  waiting := fun h => absurd (huse.symm.trans h) (by nofun)
  free := fun h => absurd (hstate.symm.trans h) (by nofun)
  pending := fun _ => .inr hsweeping

theorem BufferInv.of_free (hstate : s.state buffer = .free) (huse : s.use buffer = .free)
    (hvalid : s.validSize buffer = 0) : BufferInv pool s buffer where
  held := fun h => absurd (huse.symm.trans h) (by nofun)
  waiting := fun h => absurd (huse.symm.trans h) (by nofun)
  free := fun _ => ⟨huse, hvalid⟩
  pending := fun h => absurd (hstate.symm.trans h) (by nofun)

variable {context : ℕ}

theorem inv_commit (h : Inv cfg pool s) (hpc : s.pcs thread = .commit context buffer)
    (htimely : s.state buffer = .free) : Inv cfg pool (advance cfg thread s) := by
  have hmem : buffer ∈ pool context := (h.stands hpc).1
  obtain ⟨howner, hlt⟩ := h.owned context buffer hmem
  obtain ⟨huse, hvalid⟩ := (h.buffers buffer).free htimely
  have hmem' : buffer ∈ pool (s.owner buffer) := by rwa [howner]
  rw [advance, hpc]
  apply h.touchOne (touches_setState s buffer .committed) rfl rfl hlt
  · intro thread' _ hgrip
    rw [((h.load thread').grip_committed hgrip).1] at htimely
    cases htimely
  · rw [huse]
    nofun
  · rw [htimely]
    nofun
  · exact .of_committed (update_self _ _ _) huse nofun nofun
  · exact hmem'
  · exact ⟨by simp [State.setState], huse, hvalid⟩
  · intro b hb
    exact (Option.some_inj.mp hb).symm
  · rw [hpc]
    rfl
  · rfl

theorem inv_check (h : Inv cfg pool s) (hpc : s.pcs thread = .check buffer) :
    Inv cfg pool (advance cfg thread s) := by
  obtain ⟨hmem, hstate, huse, hvalid⟩ := h.stands hpc
  have hlt := (h.owned _ buffer hmem).2
  rw [advance, hpc]
  simp only [State.require, hvalid, huse, decide_true, if_true]
  apply h.touchOwn (by rw [hpc]; rfl) (touches_setUse s buffer .held) rfl rfl
  · constructor
    · intro _
      exact ⟨hlt, hstate, hvalid, hmem⟩
    · intro hwaiting
      simp [State.goto, State.setUse] at hwaiting
    · intro hfree
      exact absurd (hstate.symm.trans hfree) (by nofun)
    · intro hpending
      exact absurd (hstate.symm.trans hpending) (by nofun)
  · trivial
  · trivial
  · nofun
  · rfl

/-! ## Completions -/

theorem inv_complete_start {s' : State} (h : Inv cfg pool s) (hpc : s.pcs thread = .idle)
    (hheld : s.use buffer = .held) (hs' : s' = s.setUse buffer .completing)
    (hplace : Place pool s' pc) (hload : Load s' pc) (hgrip : grip pc = some buffer)
    (hsweeps : sweeps pc = false) : Inv cfg pool (s'.goto thread pc) := by
  obtain ⟨hlt, hstate, hvalid, hmem⟩ := (h.buffers buffer).held hheld
  subst hs'
  apply h.touchOne (touches_setUse s buffer .completing) rfl rfl hlt
  · intro thread' _ hgrip'
    rcases ((h.load thread').grip_committed hgrip').2 with huse | huse <;>
      rw [hheld] at huse <;> cases huse
  · rw [hheld]
    nofun
  · rw [hstate]
    nofun
  · exact .of_committed hstate (update_self _ _ _) nofun nofun
  · exact hplace
  · exact hload
  · intro b hb
    rw [hgrip] at hb
    exact (Option.some_inj.mp hb).symm
  · rw [hpc]
    rfl
  · exact hsweeps

theorem Inv.head_of_mem (h : Inv cfg pool s) (hmem : buffer ∈ pool context) :
    ∃ current, s.head context = some current ∧ Ahead (pool context) current buffer := by
  have hchain := h.chain context
  cases hhead : s.head context with
  | none =>
    rw [hhead] at hchain
    rw [hchain.eq_nil_iff.mpr rfl] at hmem
    cases hmem
  | some current => exact ⟨current, rfl, ahead_head hchain hhead hmem⟩

theorem inv_complete (h : Inv cfg pool s) (hpc : s.pcs thread = .idle)
    (hheld : s.use buffer = .held) (validSize : ℕ) : Inv cfg pool (complete thread buffer validSize s) := by
  obtain ⟨hlt, hstate, hvalid, hmem⟩ := (h.buffers buffer).held hheld
  have hknown := h.known buffer hlt
  obtain ⟨current, hhead, hahead⟩ := h.head_of_mem hmem
  have hcomplete : complete thread buffer validSize s =
      (s.setUse buffer .completing).goto thread (.find current buffer validSize) := by
    unfold complete
    dsimp only [State.setUse]
    rw [if_pos hknown, hhead]
  rw [hcomplete]
  exact inv_complete_start h hpc hheld rfl hahead ⟨hstate, by simp [State.setUse], hvalid⟩ rfl rfl

theorem inv_completeGlobal (h : Inv cfg pool s) (hpc : s.pcs thread = .idle)
    (hheld : s.use buffer = .held) (validSize : ℕ) :
    Inv cfg pool (completeGlobal thread buffer validSize s) := by
  obtain ⟨hlt, hstate, hvalid, hmem⟩ := (h.buffers buffer).held hheld
  exact inv_complete_start h hpc hheld rfl ⟨(h.known buffer hlt).1, hmem⟩
    ⟨hstate, by simp [State.setUse], hvalid⟩ rfl rfl

theorem inv_find {current validSize : ℕ} (h : Inv cfg pool s)
    (hpc : s.pcs thread = .find current buffer validSize) : Inv cfg pool (advance cfg thread s) := by
  obtain ⟨hplace, hload⟩ := h.stands hpc
  rw [advance, hpc]
  dsimp only
  split
  · exact h.goto hpc hplace.mem_right hload (fun _ => id) rfl nofun
  · rename_i hne
    obtain ⟨current', hnext, hahead⟩ := hplace.step (h.chain _) (Ne.symm hne)
    rw [hnext]
    exact h.goto hpc hahead hload (fun _ => id) rfl nofun

theorem inv_findAny {contexts : List ℕ} {validSize : ℕ} (h : Inv cfg pool s)
    (hpc : s.pcs thread = .findAny contexts buffer validSize)
    (htimely : TimelyAt cfg s (s.pcs thread)) : Inv cfg pool (advance cfg thread s) := by
  obtain ⟨hplace, hload⟩ := h.stands hpc
  rw [hpc] at htimely
  obtain ⟨howner, hmem⟩ := hplace
  cases contexts with
  | nil => cases howner
  | cons context contexts =>
    have hactive : s.activity context = true := htimely
    have hrest : context ≠ s.owner buffer → s.owner buffer ∈ contexts := by
      intro hne
      exact (mem_cons.mp howner).resolve_left (Ne.symm hne)
    rw [advance, hpc]
    simp only [State.require, hactive, if_true]
    cases hhead : s.head context with
    | some current =>
      refine h.goto hpc ⟨context, h.mem_of_head hhead, hmem, ?_, hrest⟩ hload (fun _ => id) rfl nofun
      rintro rfl
      exact ahead_head (h.chain _) hhead hmem
    | none =>
      have hne : context ≠ s.owner buffer := by
        rintro rfl
        obtain ⟨current, hhead', -⟩ := h.head_of_mem hmem
        rw [hhead] at hhead'
        cases hhead'
      exact h.goto hpc ⟨hrest hne, hmem⟩ hload (fun _ => id) rfl nofun

theorem inv_findIn {current validSize : ℕ} {contexts : List ℕ} (h : Inv cfg pool s)
    (hpc : s.pcs thread = .findIn current contexts buffer validSize) : Inv cfg pool (advance cfg thread s) := by
  obtain ⟨hplace, hload⟩ := h.stands hpc
  obtain ⟨context, hin, hmem, hhere, hrest⟩ := hplace
  rw [advance, hpc]
  dsimp only
  split
  · exact h.goto hpc hmem hload (fun _ => id) rfl nofun
  · rename_i hne
    have hstep : context = s.owner buffer →
        ∃ current', s.next current = some current' ∧ Ahead (pool context) current' buffer :=
      fun heq => (hhere heq).step (h.chain _) (Ne.symm hne)
    cases hnext : s.next current with
    | some current' =>
      have hin' := next_mem (h.chain context) hin hnext
      refine h.goto hpc ⟨context, hin', hmem, ?_, hrest⟩ hload (fun _ => id) rfl nofun
      intro heq
      obtain ⟨current'', hnext', hahead⟩ := hstep heq
      rw [hnext] at hnext'
      cases hnext'
      exact hahead
    | none =>
      have hother : context ≠ s.owner buffer := by
        intro heq
        obtain ⟨current', hnext', -⟩ := hstep heq
        rw [hnext] at hnext'
        cases hnext'
      exact h.goto hpc ⟨hrest hother, hmem⟩ hload (fun _ => id) rfl nofun

theorem inv_setValid {validSize : ℕ} (h : Inv cfg pool s)
    (hpc : s.pcs thread = .setValid buffer validSize) : Inv cfg pool (advance cfg thread s) := by
  obtain ⟨hplace, hload⟩ := h.stands hpc
  obtain ⟨hstate, huse, hvalid⟩ := hload
  rw [advance, hpc]
  simp only [State.require, hvalid, decide_true, if_true]
  apply h.touchOwn (by rw [hpc]; rfl) (touches_setValidSize s buffer validSize) rfl rfl
  · exact .of_committed hstate huse nofun nofun
  · exact hplace
  · exact ⟨hstate, huse⟩
  · intro b hb
    exact (Option.some_inj.mp hb).symm
  · rfl

theorem inv_setState (h : Inv cfg pool s) (hpc : s.pcs thread = .setState buffer) :
    Inv cfg pool (advance cfg thread s) := by
  obtain ⟨hplace, hload⟩ := h.stands hpc
  have hmem : buffer ∈ pool (s.owner buffer) := hplace
  have hlt := (h.owned _ buffer hmem).2
  have hown : grip (s.pcs thread) = some buffer := by
    rw [hpc]
    rfl
  rw [advance, hpc]
  dsimp only
  split
  · have ht := (touches_setState s buffer .pending).trans (touches_setUse _ buffer .waiting)
    apply h.touchOwn hown ht rfl rfl
    · constructor
      · intro hheld
        simp [State.goto, State.setUse] at hheld
      · intro _
        exact ⟨hlt, by simp [State.goto, State.setUse, State.setState], hmem⟩
      · intro hfree
        simp [State.goto, State.setUse, State.setState] at hfree
      · intro _
        exact .inl (by simp [State.goto, State.setUse])
    · trivial
    · trivial
    · nofun
    · rfl
  · rename_i hvalid
    have ht := (touches_setState s buffer .free).trans (touches_setUse _ buffer .free)
    apply h.touchOwn hown ht rfl rfl
    · exact .of_free (update_self _ _ _) (update_self _ _ _) (Nat.eq_zero_of_not_pos hvalid)
    · trivial
    · trivial
    · nofun
    · rfl

/-! ## Flushes -/

variable {due : List ℕ}

theorem inv_flush (h : Inv cfg pool s) (hpc : s.pcs thread = .flush context current due) :
    Inv cfg pool (advance cfg thread s) := by
  obtain ⟨hplace, hload⟩ := h.stands hpc
  rw [advance, hpc]
  dsimp only
  split
  · rename_i hpending
    have hwaiting : s.use current = .waiting := by
      rcases (h.buffers current).pending hpending with hwaiting | ⟨thread', hsweeping⟩
      · exact hwaiting
      · -- a buffer that is being swept is swept by the flush itself
        have hlock := (h.lock thread').mp hsweeping.sweeps
        rw [(h.lock thread).mp (by rw [hpc]; rfl)] at hlock
        cases hlock
        rw [hpc] at hsweeping
        cases hsweeping
    exact h.goto hpc hplace ⟨hwaiting, hload⟩ nofun rfl nofun
  · rename_i hother
    refine h.goto hpc ⟨hplace.1, fun d hd => ⟨hplace.2 d hd, ?_⟩⟩ hload nofun rfl nofun
    rintro rfl
    exact hother ((h.buffers d).waiting (hload d hd)).2.1

theorem inv_handle (h : Inv cfg pool s) (hpc : s.pcs thread = .handle context current due) :
    Inv cfg pool (advance cfg thread s) := by
  obtain ⟨hplace, hload⟩ := h.stands hpc
  obtain ⟨hwaiting, hdue⟩ := hload
  obtain ⟨hlt, hpending, hmem⟩ := (h.buffers current).waiting hwaiting
  rw [advance, hpc]
  simp only [State.require, hwaiting, decide_true, if_true]
  apply h.touchSwept (touches_setUse s current .free) rfl rfl hlt hpending
  · exact .of_swept hpending (update_self _ _ _) ⟨thread, by simp [State.goto, Sweeping]⟩
  · refine ⟨hplace.1, fun d hd => ?_⟩
    rw [mem_filter] at hd
    exact ⟨hplace.2 d hd.1, by simpa using hd.2⟩
  · refine ⟨hpending, by simp [State.setUse], fun d hd => ?_⟩
    rw [mem_filter] at hd
    have hne : d ≠ current := by simpa using hd.2
    simpa [State.setUse, hne] using hdue d hd.1
  · rfl
  · rw [hpc]
    rfl
  · rfl
  · rw [hpc]
    nofun

theorem inv_clear (h : Inv cfg pool s) (hpc : s.pcs thread = .clear context current due) :
    Inv cfg pool (advance cfg thread s) := by
  obtain ⟨hplace, hload⟩ := h.stands hpc
  obtain ⟨hpending, huse, hdue⟩ := hload
  have hlt := (h.owned context current hplace.1).2
  rw [advance, hpc]
  apply h.touchSwept (touches_setValidSize s current 0) rfl rfl hlt hpending
  · exact .of_swept hpending huse ⟨thread, by simp [State.goto, Sweeping]⟩
  · exact hplace
  · exact ⟨hpending, huse, by simp [State.setValidSize], hdue⟩
  · rfl
  · rw [hpc]
    rfl
  · rfl
  · rintro b hne hsweeping
    rw [hpc] at hsweeping
    exact absurd hsweeping.symm hne

theorem inv_release (h : Inv cfg pool s) (hpc : s.pcs thread = .release context current due) :
    Inv cfg pool (advance cfg thread s) := by
  obtain ⟨hplace, hload⟩ := h.stands hpc
  obtain ⟨hpending, huse, hvalid, hdue⟩ := hload
  have hlt := (h.owned context current hplace.1).2
  rw [advance, hpc]
  apply h.touchSwept (touches_setState s current .free) rfl rfl hlt hpending
  · exact .of_free (update_self _ _ _) huse hvalid
  · exact hplace
  · exact hdue
  · rfl
  · rw [hpc]
    rfl
  · rfl
  · rintro b hne hsweeping
    rw [hpc] at hsweeping
    exact absurd hsweeping.symm hne

theorem touches_lock (s : State) (lock : Option ℕ) : Touches (fun _ => False) s { s with lock := lock } :=
  { touches_refl s with }

theorem inv_flushNext (h : Inv cfg pool s) (hpc : s.pcs thread = .flushNext context current due) :
    Inv cfg pool (advance cfg thread s) := by
  obtain ⟨hplace, hload⟩ := h.stands hpc
  obtain ⟨hmem, hahead⟩ := hplace
  rw [advance, hpc]
  dsimp only
  cases hnext : s.next current with
  | some current' =>
    have hmem' := next_mem (h.chain context) hmem hnext
    refine h.goto hpc ⟨hmem', fun d hd => ?_⟩ hload nofun rfl nofun
    obtain ⟨current'', hnext', hahead'⟩ := (hahead d hd).1.step (h.chain context) (hahead d hd).2
    rw [hnext] at hnext'
    cases hnext'
    exact hahead'
  | none =>
    have hdue : due = [] := by
      cases due with
      | nil => rfl
      | cons d due =>
        obtain ⟨hd, hne⟩ := hahead d mem_cons_self
        obtain ⟨current', hnext', -⟩ := hd.step (h.chain context) hne
        rw [hnext] at hnext'
        cases hnext'
    have hlocked : s.lock = some thread := (h.lock thread).mp (by rw [hpc]; rfl)
    subst hdue
    simp only [State.require, isEmpty_nil, if_true]
    refine h.touchNone (touches_lock s none) rfl hpc trivial trivial nofun nofun ?_ ?_
    · simp [sweeps]
    · intro thread' hne
      simp [hlocked, Ne.symm hne]

theorem inv_beginFlush (h : Inv cfg pool s) (hpc : s.pcs thread = .idle) (hlock : s.lock = none)
    (context : ℕ) : Inv cfg pool (beginFlush thread context s) := by
  -- no flush is under way, so every pending buffer waits
  have hdue : ∀ d ∈ s.pendingOf context, s.use d = .waiting ∧ d ∈ pool context := by
    intro d hd
    rw [State.pendingOf, mem_filter, State.buffersOf, mem_filter] at hd
    have howner : s.owner d = context := by simpa using hd.1.2
    rcases (h.buffers d).pending (by simpa using hd.2) with hwaiting | ⟨thread', hsweeping⟩
    · refine ⟨hwaiting, ?_⟩
      have hmem := ((h.buffers d).waiting hwaiting).2.2
      rwa [howner] at hmem
    · have hlock' := (h.lock thread').mp hsweeping.sweeps
      rw [hlock] at hlock'
      cases hlock'
  unfold beginFlush
  split
  · cases hhead : s.head context with
    | some current =>
      refine h.touchNone (touches_lock s (some thread)) rfl hpc ?_ (fun d hd => (hdue d hd).1) nofun nofun ?_ ?_
      · exact ⟨h.mem_of_head hhead, fun d hd => ahead_head (h.chain context) hhead (hdue d hd).2⟩
      · simp [sweeps]
      · intro thread' hne
        simp [hlock, Ne.symm hne]
    | none =>
      have hempty : s.pendingOf context = [] := by
        rw [eq_nil_iff_forall_not_mem]
        intro d hd
        obtain ⟨current, hhead', -⟩ := h.head_of_mem (hdue d hd).2
        rw [hhead] at hhead'
        cases hhead'
      simpa [State.require, hempty] using h
  · exact h

/-! ## New buffers -/

theorem Place.extend {pool' : ℕ → List ℕ} (h : Place pool s pc)
    (hborn : ∀ context, ∀ b ∈ pool context, b < s.allocated)
    (hpool : ∀ context, ∃ added, pool' context = pool context ++ added)
    (hout : ∀ context prev b, pc = .link context prev b → ∀ context', b ∉ pool' context')
    (howner : ∀ b < s.allocated, t.owner b = s.owner b) (hallocated : s.allocated ≤ t.allocated)
    (hcontexts : t.contexts = s.contexts) (hactivity : t.activity = s.activity) : Place pool' t pc := by
  have hmem : ∀ {context b}, b ∈ pool context → b ∈ pool' context := by
    intro context b hb
    obtain ⟨added, hadded⟩ := hpool context
    rw [hadded]
    exact mem_append_left _ hb
  have hahead : ∀ {context c d}, Ahead (pool context) c d → Ahead (pool' context) c d := by
    intro context c d hc
    obtain ⟨added, hadded⟩ := hpool context
    rw [hadded]
    exact hc.append added
  cases pc with
  | idle | setup => trivial
  | scan | scanNext | commit => exact hmem h
  | grow context prev total =>
    rw [Place, hcontexts, hactivity]
    exact ⟨fun p hp => hmem (h.1 p hp), h.2⟩
  | link context prev buffer =>
    obtain ⟨hprev, hlt, hcontext, -⟩ := h
    refine ⟨fun p hp => hmem (hprev p hp), by omega, ?_, hout context prev buffer rfl⟩
    rwa [howner buffer hlt]
  | check buffer | setValid buffer | setState buffer =>
    rw [Place, howner buffer (hborn _ _ h)]
    exact hmem h
  | find current buffer =>
    rw [Place, howner buffer (hborn _ _ h.mem_right)]
    exact hahead h
  | findAny contexts buffer =>
    rw [Place, howner buffer (hborn _ _ h.2)]
    exact ⟨h.1, hmem h.2⟩
  | findIn current contexts buffer =>
    obtain ⟨context, hin, hb, hhere, hrest⟩ := h
    rw [Place, howner buffer (hborn _ _ hb)]
    exact ⟨context, hmem hin, hmem hb, fun heq => hahead (hhere heq), hrest⟩
  | flush context current due | handle context current due =>
    exact ⟨hmem h.1, fun d hd => hahead (h.2 d hd)⟩
  | clear context current due | release context current due | flushNext context current due =>
    exact ⟨hmem h.1, fun d hd => ⟨hahead (h.2 d hd).1, (h.2 d hd).2⟩⟩

theorem sizeOf_grow (context size : ℕ) (howner : ∀ b < s.allocated, t.owner b = s.owner b)
    (hsize : ∀ b < s.allocated, t.size b = s.size b) (hallocated : t.allocated = s.allocated + 1)
    (hnew : t.owner s.allocated = context) (hnewSize : t.size s.allocated = size) (context' : ℕ) :
    t.sizeOf context' = s.sizeOf context' + if context = context' then size else 0 := by
  have hrange : ∀ b ∈ List.range s.allocated, b < s.allocated := fun b hb => mem_range.mp hb
  have hold : ((List.range s.allocated).filter fun b => t.owner b = context') =
      (List.range s.allocated).filter fun b => s.owner b = context' := by
    apply filter_congr
    intro b hb
    rw [howner b (hrange b hb)]
  have hmap : (((List.range s.allocated).filter fun b => s.owner b = context').map t.size) =
      ((List.range s.allocated).filter fun b => s.owner b = context').map s.size := by
    apply map_congr_left
    intro b hb
    exact hsize b (hrange b (mem_of_mem_filter hb))
  rw [State.sizeOf, State.buffersOf, hallocated, range_succ, filter_append, hold,
    map_append, hmap, sum_append, State.sizeOf, State.buffersOf]
  congr 1
  by_cases heq : context = context' <;> simp [hnew, heq, hnewSize]

theorem forall_pcs {P : Pc → Prop} (hself : P pc)
    (hother : ∀ thread', thread' ≠ thread → P (s.pcs thread')) (thread' : ℕ) :
    P ((s.goto thread pc).pcs thread') := by
  by_cases hne : thread' = thread
  · subst hne
    simpa [State.goto] using hself
  · simpa [State.goto, hne] using hother thread' hne

theorem grips_goto (h : ∀ thread thread' buffer, grip (s.pcs thread) = some buffer →
      grip (s.pcs thread') = some buffer → thread = thread')
    (hnew : ∀ thread' buffer, thread' ≠ thread → grip pc = some buffer → grip (s.pcs thread') ≠ some buffer) :
    ∀ thread₁ thread₂ buffer, grip ((s.goto thread pc).pcs thread₁) = some buffer →
      grip ((s.goto thread pc).pcs thread₂) = some buffer → thread₁ = thread₂ := by
  intro thread₁ thread₂ buffer h₁ h₂
  by_cases hne₁ : thread₁ = thread
  · by_cases hne₂ : thread₂ = thread
    · rw [hne₁, hne₂]
    · rw [hne₁] at h₁
      simp only [State.goto, update_self, update_of_ne hne₂] at h₁ h₂
      exact absurd h₂ (hnew thread₂ buffer hne₂ h₁)
  · by_cases hne₂ : thread₂ = thread
    · rw [hne₂] at h₂
      simp only [State.goto, update_self, update_of_ne hne₁] at h₁ h₂
      exact absurd h₁ (hnew thread₁ buffer hne₁ h₂)
    · simp only [State.goto, update_of_ne hne₁, update_of_ne hne₂] at h₁ h₂
      exact h thread₁ thread₂ buffer h₁ h₂

theorem inv_grow {context total : ℕ} {prev : Option ℕ} (h : Inv cfg pool s)
    (hpc : s.pcs thread = .grow context prev total) (htimely : TimelyAt cfg s (s.pcs thread)) :
    Inv cfg pool (advance cfg thread s) := by
  have hplace := h.place thread
  have hsweeps : sweeps (s.pcs thread) = false := by
    rw [hpc]
    rfl
  have hlock := h.lock thread
  rw [hpc] at hplace htimely
  rw [advance, hpc]
  dsimp only
  split
  · exact h.goto hpc trivial trivial nofun rfl nofun
  · rename_i hroom
    have hfit : s.sizeOf context + cfg.chunkSize ≤ cfg.bufferSize := htimely (by omega)
    have hne : ∀ {b}, b < s.allocated → b ≠ s.allocated := fun hb heq => by omega
    have hborn : ∀ context, ∀ b ∈ pool context, b < s.allocated := fun c b hb => (h.owned c b hb).2
    obtain ⟨hunborn, hunborn'⟩ := h.unborn s.allocated (Nat.le_refl _)
    constructor
    · exact h.noFault
    · intro context'
      refine (h.chain context').congr fun b hb => ?_
      exact update_of_ne (hne (hborn _ b hb)) _ _
    · exact h.nodup
    · intro context' b hb
      obtain ⟨howner, hlt⟩ := h.owned context' b hb
      exact ⟨by simpa [State.goto, hne hlt] using howner, Nat.lt_succ_of_lt hlt⟩
    · intro b hb
      by_cases heq : b = s.allocated
      · subst heq
        simpa [State.goto] using hplace.2
      · have hlt : b < s.allocated := by
          have hb' : b < s.allocated + 1 := hb
          omega
        simpa [State.goto, heq] using h.known b hlt
    · intro b hb
      have hb' : s.allocated + 1 ≤ b := hb
      have heq : b ≠ s.allocated := by omega
      simpa [State.goto, heq] using h.unborn b (by omega)
    · intro b
      by_cases heq : b = s.allocated
      · subst heq
        constructor <;> intro hb <;> simp [State.goto] at hb
      · have hold := h.buffers b
        constructor
        · intro hheld
          simp only [State.goto, update_of_ne heq] at hheld ⊢
          obtain ⟨hlt, hrest⟩ := hold.held hheld
          exact ⟨Nat.lt_succ_of_lt hlt, hrest⟩
        · intro hwaiting
          simp only [State.goto, update_of_ne heq] at hwaiting ⊢
          obtain ⟨hlt, hrest⟩ := hold.waiting hwaiting
          exact ⟨Nat.lt_succ_of_lt hlt, hrest⟩
        · intro hfree
          simp only [State.goto, update_of_ne heq] at hfree ⊢
          exact hold.free hfree
        · intro hpending
          simp only [State.goto, update_of_ne heq] at hpending
          rcases hold.pending hpending with hwaiting | ⟨thread', hsweeping⟩
          · exact .inl (by simpa [State.goto, heq] using hwaiting)
          · refine .inr ⟨thread', ?_⟩
            have hother : thread' ≠ thread := by
              rintro rfl
              rw [hsweeping.sweeps] at hsweeps
              cases hsweeps
            simpa [State.goto, hother] using hsweeping
    · apply forall_pcs
      · refine ⟨hplace.1, Nat.lt_succ_self _, by simp [State.goto], fun context' hb => ?_⟩
        exact hne (hborn context' _ hb) rfl
      · intro thread' _
        refine (h.place thread').extend hborn (fun c => ⟨[], by simp⟩) ?_ ?_ ?_ rfl rfl
        · intro context' prev' b hpc' c hb
          have hplace' := h.place thread'
          rw [hpc'] at hplace'
          exact hplace'.2.2.2 c hb
        · intro b hb
          exact update_of_ne (hne hb) _ _
        · exact Nat.le_succ _
    · apply forall_pcs
      · simp [Load, State.goto]
      · intro thread' _
        apply (h.load thread').agree (· = s.allocated)
        · intro b hb
          simp [State.goto, hb]
        · intro context' prev' b hpc'
          have hplace' := h.place thread'
          rw [hpc'] at hplace'
          exact update_of_ne (hne hplace'.2.1) _ _
        · rintro b rfl hgrip
          exact hne (h.grip_lt hgrip) rfl
        · rintro - b rfl
          rw [hunborn, hunborn']
          exact ⟨by nofun, by nofun⟩
    · apply grips_goto h.grips
      rintro thread' b - hb hgrip
      cases hb
      exact hne (h.grip_lt hgrip) rfl
    · intro thread'
      by_cases heq : thread' = thread
      · subst heq
        rw [hsweeps] at hlock
        simpa [State.goto, sweeps] using hlock
      · simpa [State.goto, heq] using h.lock thread'
    · intro context'
      have hold := h.fits context'
      refine (sizeOf_grow (s := s) context cfg.chunkSize ?_ ?_ rfl ?_ ?_ context').trans_le ?_
      · intro b hb
        exact update_of_ne (hne hb) _ _
      · intro b hb
        exact update_of_ne (hne hb) _ _
      · simp [State.goto]
      · simp [State.goto]
      · split
        · rename_i heq
          subst heq
          exact hfit
        · exact hold

theorem inv_linked {prev : Option ℕ} {next head : ℕ → Option ℕ} (h : Inv cfg pool s)
    (hpc : s.pcs thread = .link context prev buffer)
    (hchain : ∀ c, Chain next (head c) (update pool context (pool context ++ [buffer]) c))
    (hnext : ∀ b, (∀ c, b ∉ pool c) → b ≠ buffer → next b = s.next b) :
    Inv cfg (update pool context (pool context ++ [buffer]))
      ({ s with next := next, head := head }.goto thread (.check buffer)) := by
  have hplace := h.place thread
  have hload := h.load thread
  have hlock := h.lock thread
  have hgrip : grip (s.pcs thread) = some buffer := by
    rw [hpc]
    rfl
  have hsweeps : sweeps (s.pcs thread) = false := sweeps_of_grip hgrip
  rw [hpc] at hplace hload
  obtain ⟨-, hlt, howner, hout⟩ := hplace
  obtain ⟨hstate, huse, hvalid, -⟩ := hload
  have hborn : ∀ context, ∀ b ∈ pool context, b < s.allocated := fun c b hb => (h.owned c b hb).2
  have hmem : ∀ {c b}, b ∈ pool c → b ∈ update pool context (pool context ++ [buffer]) c := by
    intro c b hb
    by_cases heq : c = context
    · subst heq
      simp [hb]
    · simpa [heq] using hb
  have hcases : ∀ {c b}, b ∈ update pool context (pool context ++ [buffer]) c →
      b ∈ pool c ∨ c = context ∧ b = buffer := by
    intro c b hb
    by_cases heq : c = context
    · subst heq
      simpa using hb
    · exact .inl (by simpa [heq] using hb)
  constructor
  · exact h.noFault
  · exact hchain
  · intro c
    by_cases heq : c = context
    · subst heq
      rw [update_self, nodup_append]
      refine ⟨h.nodup c, nodup_singleton _, ?_⟩
      rintro a ha b hb rfl
      rw [mem_singleton] at hb
      subst hb
      exact hout c ha
    · rw [update_of_ne heq]
      exact h.nodup c
  · intro c b hb
    rcases hcases hb with hold | ⟨rfl, rfl⟩
    · exact h.owned c b hold
    · exact ⟨howner, hlt⟩
  · exact h.known
  · exact h.unborn
  · intro b
    have hold := h.buffers b
    constructor
    · intro hheld
      obtain ⟨hb, hs, hv, hin⟩ := hold.held hheld
      exact ⟨hb, hs, hv, hmem hin⟩
    · intro hwaiting
      obtain ⟨hb, hs, hin⟩ := hold.waiting hwaiting
      exact ⟨hb, hs, hmem hin⟩
    · exact hold.free
    · intro hpending
      rcases hold.pending hpending with hwaiting | ⟨thread', hsweeping⟩
      · exact .inl hwaiting
      · refine .inr ⟨thread', ?_⟩
        have hother : thread' ≠ thread := by
          rintro rfl
          rw [hsweeping.sweeps] at hsweeps
          cases hsweeps
        simpa [State.goto, hother] using hsweeping
  · apply forall_pcs
    · change buffer ∈ update pool context (pool context ++ [buffer]) (s.owner buffer)
      rw [howner, update_self]
      exact mem_append_right _ (mem_singleton_self _)
    · intro thread' hother
      refine (h.place thread').extend hborn ?_ ?_ (fun _ _ => rfl) (Nat.le_refl _) rfl rfl
      · intro c
        by_cases heq : c = context
        · subst heq
          exact ⟨[buffer], by simp⟩
        · exact ⟨[], by simp [heq]⟩
      · intro c prev' b hpc' c' hb
        have hplace' := h.place thread'
        rw [hpc'] at hplace'
        rcases hcases hb with hold | ⟨-, rfl⟩
        · exact hplace'.2.2.2 c' hold
        · have hgrip' : grip (s.pcs thread') = some b := by
            rw [hpc']
            rfl
          exact hother (h.grips thread' thread b hgrip' hgrip)
  · apply forall_pcs
    · exact ⟨hstate, huse, hvalid⟩
    · intro thread' hother
      apply (h.load thread').agree (fun _ => False)
      · exact fun _ _ => ⟨rfl, rfl, rfl⟩
      · intro c prev' b hpc'
        have hplace' := h.place thread'
        rw [hpc'] at hplace'
        refine hnext b hplace'.2.2.2 ?_
        rintro rfl
        have hgrip' : grip (s.pcs thread') = some b := by
          rw [hpc']
          rfl
        exact hother (h.grips thread' thread b hgrip' hgrip)
      · exact fun _ hfalse => hfalse.elim
      · exact fun _ _ hfalse => hfalse.elim
  · apply grips_goto h.grips
    intro thread' b hne hb hgrip'
    cases hb
    exact hne (h.grips thread' thread buffer hgrip' hgrip)
  · intro thread'
    by_cases heq : thread' = thread
    · subst heq
      rw [hsweeps] at hlock
      simpa [State.goto, sweeps] using hlock
    · simpa [State.goto, heq] using h.lock thread'
  · exact h.fits

theorem inv_link {prev : Option ℕ} (h : Inv cfg pool s)
    (hpc : s.pcs thread = .link context prev buffer) (htimely : TimelyAt cfg s (s.pcs thread)) :
    Inv cfg (update pool context (pool context ++ [buffer])) (advance cfg thread s) := by
  obtain ⟨hplace, hload⟩ := h.stands hpc
  rw [hpc] at htimely
  obtain ⟨hprev, -, howner, hout⟩ := hplace
  obtain ⟨-, -, -, hlast⟩ := hload
  rw [advance, hpc]
  cases prev with
  | none =>
    have hhead : s.head context = none := htimely
    have hempty : pool context = [] := by
      have hchain := h.chain context
      rw [hhead] at hchain
      exact hchain.eq_nil_iff.mpr rfl
    apply inv_linked h hpc
    · intro c
      by_cases heq : c = context
      · subst heq
        rw [update_self, update_self, hempty]
        exact ⟨rfl, hlast⟩
      · rw [update_of_ne heq, update_of_ne heq]
        exact h.chain c
    · exact fun _ _ _ => rfl
  | some p =>
    have hp : s.next p = none := htimely
    have hin : p ∈ pool context := hprev p rfl
    obtain ⟨before, hpool⟩ := last_of_next_eq_none (h.chain context) hin hp
    have hne : buffer ≠ p := by
      rintro rfl
      exact hout context hin
    apply inv_linked h hpc
    · intro c
      by_cases heq : c = context
      · subst heq
        have hnodup := h.nodup c
        have hchain := h.chain c
        rw [hpool] at hnodup hchain
        rw [update_self, hpool]
        apply hchain.snoc
        · intro x hx
          have hxp : x ≠ p := by
            rintro rfl
            exact (nodup_append.mp hnodup).2.2 x hx x (mem_singleton_self _) rfl
          exact update_of_ne hxp _ _
        · exact update_self _ _ _
        · rw [update_of_ne hne]
          exact hlast
      · rw [update_of_ne heq]
        refine (h.chain c).congr fun x hx => ?_
        have hxp : x ≠ p := by
          rintro rfl
          have hc := (h.owned c x hx).1
          rw [(h.owned context x hin).1] at hc
          exact heq hc.symm
        exact update_of_ne hxp _ _
    · intro b hb _
      have hbp : b ≠ p := by
        rintro rfl
        exact hb context hin
      exact update_of_ne hbp _ _

/-! ## Contexts -/

theorem inv_create (h : Inv cfg pool s) (hpc : s.pcs thread = .idle) (context : ℕ) :
    Inv cfg pool (create thread context s) := by
  have ht : Touches (fun _ => False) s { s with contexts := context :: s.contexts } :=
    { touches_refl s with contexts := fun _ hc => mem_cons_of_mem _ hc }
  have hlock := h.lock thread
  rw [hpc] at hlock
  exact h.touchNone ht rfl hpc trivial trivial nofun nofun hlock fun _ _ => Iff.rfl

theorem inv_setup (h : Inv cfg pool s) (hpc : s.pcs thread = .setup context) :
    Inv cfg pool (advance cfg thread s) := by
  have ht : Touches (fun _ => False) s { s with activity := update s.activity context true } := by
    refine { touches_refl s with activity := fun c hc => ?_ }
    by_cases heq : c = context <;> simp [heq, hc]
  rw [advance, hpc]
  have hlock := h.lock thread
  rw [hpc] at hlock
  exact h.touchNone ht rfl hpc trivial trivial nofun nofun hlock fun _ _ => Iff.rfl

/-! ## Whole runs -/

theorem inv_advance (h : Inv cfg pool s) (hbusy : s.pcs thread ≠ .idle)
    (htimely : TimelyAt cfg s (s.pcs thread)) : ∃ pool', Inv cfg pool' (advance cfg thread s) := by
  cases hpc : s.pcs thread with
  | idle => exact absurd hpc hbusy
  | scan context current total => exact ⟨pool, inv_scan h hpc⟩
  | scanNext context current total => exact ⟨pool, inv_scanNext h hpc⟩
  | commit context buffer =>
    rw [hpc] at htimely
    exact ⟨pool, inv_commit h hpc htimely⟩
  | grow context prev total => exact ⟨pool, inv_grow h hpc htimely⟩
  | link context prev buffer => exact ⟨_, inv_link h hpc htimely⟩
  | check buffer => exact ⟨pool, inv_check h hpc⟩
  | find current buffer validSize => exact ⟨pool, inv_find h hpc⟩
  | findAny contexts buffer validSize => exact ⟨pool, inv_findAny h hpc htimely⟩
  | findIn current contexts buffer validSize => exact ⟨pool, inv_findIn h hpc⟩
  | setValid buffer validSize => exact ⟨pool, inv_setValid h hpc⟩
  | setState buffer => exact ⟨pool, inv_setState h hpc⟩
  | flush context current due => exact ⟨pool, inv_flush h hpc⟩
  | handle context current due => exact ⟨pool, inv_handle h hpc⟩
  | clear context current due => exact ⟨pool, inv_clear h hpc⟩
  | release context current due => exact ⟨pool, inv_release h hpc⟩
  | flushNext context current due => exact ⟨pool, inv_flushNext h hpc⟩
  | setup context => exact ⟨pool, inv_setup h hpc⟩

theorem inv_step {a : Action} (h : Inv cfg pool s) (htimely : Timely cfg s a)
    (hstep : step cfg s a = some t) : ∃ pool', Inv cfg pool' t := by
  cases a with
  | request thread context =>
    rw [step, Option.ite_none_right_eq_some] at hstep
    obtain ⟨hpc, ht⟩ := hstep
    cases ht
    exact ⟨pool, inv_request h hpc context⟩
  | complete thread buffer validSize =>
    rw [step, Option.ite_none_right_eq_some] at hstep
    obtain ⟨⟨hpc, hheld⟩, ht⟩ := hstep
    cases ht
    exact ⟨pool, inv_complete h hpc hheld validSize⟩
  | completeGlobal thread buffer validSize =>
    rw [step, Option.ite_none_right_eq_some] at hstep
    obtain ⟨⟨hpc, hheld⟩, ht⟩ := hstep
    cases ht
    exact ⟨pool, inv_completeGlobal h hpc hheld validSize⟩
  | flush thread context =>
    rw [step, Option.ite_none_right_eq_some] at hstep
    obtain ⟨⟨hpc, hlock⟩, ht⟩ := hstep
    cases ht
    exact ⟨pool, inv_beginFlush h hpc hlock context⟩
  | create thread context =>
    rw [step, Option.ite_none_right_eq_some] at hstep
    obtain ⟨⟨hpc, -, -⟩, ht⟩ := hstep
    cases ht
    exact ⟨pool, inv_create h hpc context⟩
  | advance thread =>
    rw [step, Option.ite_none_left_eq_some] at hstep
    obtain ⟨hbusy, ht⟩ := hstep
    cases ht
    exact inv_advance h hbusy htimely

/-- In every run of timely steps the buffer pool stays sound. -/
theorem pool_sound_of_timely {acts : List Action}
    (hrun : Steps (fun s a t => Timely cfg s a ∧ step cfg s a = some t) initial acts s) : Sound cfg s := by
  have hinv : ∃ pool, Inv cfg pool s :=
    Steps.invariant_of_guard (P := fun s => ∃ pool, Inv cfg pool s)
      (fun _ _ _ h htimely hstep => h.elim fun _ hinv => inv_step hinv htimely hstep) hrun
      ⟨_, inv_initial cfg⟩
  obtain ⟨pool, hpool⟩ := hinv
  exact hpool.sound

def smallPool : Config where
  bufferSize := 100
  chunkSize := 10
  alignSize := 1

def firstBuffer : List Action :=
  [.create 0 0, .advance 0, .request 1 0, .advance 1, .advance 1, .advance 1,
    .complete 1 0 0, .advance 1, .advance 1, .advance 1]

def sameBuffer : List Action :=
  firstBuffer ++ [.request 1 0, .request 2 0, .advance 1, .advance 2, .advance 1, .advance 2,
    .advance 1, .advance 2]

theorem pool_sound_of_timely_first :
    ∃ s, Steps (fun s a t => step smallPool s a = some t) initial firstBuffer s ∧ Sound smallPool s := by
  have hrun : ∃ s, Steps (fun s a t => Timely smallPool s a ∧ step smallPool s a = some t)
      initial firstBuffer s :=
    ⟨_, .cons ⟨trivial, rfl⟩ (.cons ⟨trivial, rfl⟩ (.cons ⟨trivial, rfl⟩
      (.cons ⟨fun _ => by decide, rfl⟩ (.cons ⟨rfl, rfl⟩ (.cons ⟨trivial, rfl⟩
      (.cons ⟨trivial, rfl⟩ (.cons ⟨trivial, rfl⟩ (.cons ⟨trivial, rfl⟩
      (.cons ⟨trivial, rfl⟩ (.nil _))))))))))⟩
  obtain ⟨s, hs⟩ := hrun
  exact ⟨s, hs.mono fun _ _ _ h => h.2, pool_sound_of_timely hs⟩

theorem not_sound_sameBuffer : ∃ s, Steps (fun s a t => step smallPool s a = some t) initial sameBuffer s ∧
      ¬ Sound smallPool s := by
  refine ⟨_, .cons rfl (.cons rfl (.cons rfl (.cons rfl (.cons rfl (.cons rfl (.cons rfl (.cons rfl
    (.cons rfl (.cons rfl (.cons rfl (.cons rfl (.cons rfl (.cons rfl (.cons rfl (.cons rfl
    (.cons rfl (.cons rfl (.nil _)))))))))))))))))), ?_⟩
  intro hsound
  have hfaults := hsound.noFault
  cases hfaults

end ScoreP.Cuda.Buffers
