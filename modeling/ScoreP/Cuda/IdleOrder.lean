import ScoreP.Cuda.Idle

/-!
# What the locations of a CUDA context record

For every sequence of stream creations and flushes, with the records of one stream in time order:

* the idle region is entered and left in turn on the first stream's location, `gpuIdle` tells
  which was last, and the regions of every location nest (`Inv`);
* the times of a location decrease in exactly the steps that are not `Timely`.

`wellRecorded_iff` puts this together with the final exit of the idle region. What is not timely
is an activity that is delivered after an idle region was closed or opened at a later time: the
last GPU time is shared by all streams while a stream's own order says nothing about the others.
-/

namespace ScoreP.Cuda

open Foundations.Journal List

/-! ## Reading a trace -/

namespace Event

def time : Event → ℕ
  | .enterRegion time _ | .exitRegion time _ | .parameter time _ _ | .rmaGet time _ _
  | .rmaPut time _ _ | .rmaOpCompleteBlocking time => time

def bracket : Event → Bracket Region
  | .enterRegion _ region => .enter region
  | .exitRegion _ region => .leave region
  | _ => .plain

def idleMark : Event → Option Bool
  | .enterRegion _ .idle => some true
  | .exitRegion _ .idle => some false
  | _ => none

end Event

namespace Context

def times (s : Context) (location : ℕ) : List ℕ :=
  (s.trace location).map Event.time

def brackets (s : Context) (location : ℕ) : List (Bracket Region) :=
  (s.trace location).map Event.bracket

def idleMarks (s : Context) (location : ℕ) : List Bool :=
  (s.trace location).filterMap Event.idleMark

def lastTime (s : Context) (location : ℕ) : ℕ :=
  newest (s.times location)

def firstStream (s : Context) : Option ℕ :=
  s.streams.head?.map (·.streamId)

def firstTime (s : Context) : ℕ :=
  (s.firstStream.map s.lastTime).getD 0

def Ordered (s : Context) : Prop :=
  ∀ location, Ascends (s.times location)

end Context

/-! ## The timely steps -/

def LeavesTimely (s : Context) (start : ℕ) : Prop :=
  if s.gpuIdle = true then s.firstTime ≤ start
  else s.lastGpuTime < start → s.firstTime ≤ s.lastGpuTime

def FollowsTimely (s : Context) (start : ℕ) : Prop :=
  s.gpuIdle = false → start ≤ s.lastGpuTime → s.firstTime ≤ start

def ActivityTimely (s : Context) (streamId start : ℕ) (recorded : Prop) : Prop :=
  LeavesTimely s start ∧ (s.firstStream = some streamId → recorded → FollowsTimely s start)

def CopyTimely (cfg : Config) (s : Context) (streamId start : ℕ) (recorded : Prop) : Prop :=
  if s.gpuIdle = false ∧ streamId = cfg.defaultStrmId then
    s.firstTime ≤ s.lastGpuTime ∧ (s.firstStream = some streamId → recorded → s.lastGpuTime ≤ start)
  else s.firstStream = some streamId → recorded → s.firstTime ≤ start

def RecordTimely (cfg : Config) (s : Context) : Record → Prop
  | .kernel k =>
    let s := streamGetCreate cfg k.streamId s
    match truncate cfg s k.streamId k.start k.stop with
    | none => True
    | some (start, _) => ActivityTimely s k.streamId start (cfg.filtered k.name = false)
  | .memcpy m =>
    let s := streamGetCreate cfg m.streamId s
    match truncate cfg s m.streamId m.start m.stop with
    | none => True
    | some (start, _) =>
      let recorded := m.srcDevice = true ∨ m.dstDevice = true
      m.copyKindDtod = false → if cfg.recordIdle = .pureIdle then ActivityTimely s m.streamId start recorded
        else CopyTimely cfg s m.streamId start recorded

def Timely (cfg : Config) (s : Context) : Action → Prop
  | .create _ => True
  | .flush hostStop gpuDiff records =>
    let s := { s with hostStop := hostStop }
    cfg.registerTimestampCallback = false ∧ gpuDiff = 0 ∨
      EachStep (writeRecord cfg) (RecordTimely cfg) s records ∧
        let s := records.foldl (writeRecord cfg) s
        (s.gpuIdle = false → s.firstTime ≤ s.lastGpuTime)
  | .replaced hostStop record => RecordTimely cfg { s with hostStop := hostStop } record

/-! ## Which sequences CUPTI delivers -/

def Action.records (cfg : Config) : Action → List Record
  | .create _ => []
  | .flush _ gpuDiff records =>
    if cfg.registerTimestampCallback = false ∧ gpuDiff = 0 then [] else records
  | .replaced _ record => [record]

structure InOrder (records : List Record) : Prop where
  start_le_stop : ∀ r ∈ records, r.start ≤ r.stop
  spaced : records.Pairwise fun r r' => r.streamId = r'.streamId → r.stop ≤ r'.start

/-- A sequence of actions that CUPTI's records can lead to, all before `idleEnd`. -/
structure Delivered (cfg : Config) (acts : List Action) (idleEnd : ℕ) : Prop where
  order : InOrder (acts.flatMap (·.records cfg))
  begins : cfg.beginEpoch ≤ idleEnd
  ends : ∀ r ∈ acts.flatMap (·.records cfg), r.stop ≤ idleEnd

/-- The idle region has been recorded as it was meant to be, at the end and at every point before
it: on the first stream's location enter and exit alternate, an exit being last, and everywhere
times do not decrease and regions nest. -/
def WellRecorded (cfg : Config) (acts : List Action) (idleEnd : ℕ) : Prop :=
  let final := contextFinalize cfg idleEnd (run cfg acts)
  (∀ first, (run cfg acts).firstStream = some first →
    Alternates (final.idleMarks first) ∧ (final.idleMarks first).head? = some false) ∧
  (∀ before first, before <+: acts → (run cfg before).firstStream = some first →
    ((run cfg before).gpuIdle = true ↔ ((run cfg before).idleMarks first).head? = some true)) ∧
  ∀ location, Ascends (final.times location) ∧ openRegions (final.brackets location) = some []

namespace Context

variable {s : Context} {location other first : ℕ} {e : Event} {events : List Event}

@[simp] theorem streams_write : (s.write location e).streams = s.streams := rfl

@[simp] theorem gpuIdle_write : (s.write location e).gpuIdle = s.gpuIdle := rfl

@[simp] theorem lastGpuTime_write : (s.write location e).lastGpuTime = s.lastGpuTime := rfl

@[simp] theorem firstStream_write : (s.write location e).firstStream = s.firstStream := rfl

@[simp] theorem trace_write_self : (s.write location e).trace location = e :: s.trace location := by
  simp [write]

@[simp] theorem trace_write_of_ne (h : other ≠ location) :
    (s.write location e).trace other = s.trace other := by
  simp [write, h]

theorem ordered_write : (s.write location e).Ordered ↔ s.Ordered ∧ s.lastTime location ≤ e.time := by
  have hself : (s.write location e).times location = e.time :: s.times location := by
    simp [times]
  have hother : ∀ l, l ≠ location → (s.write location e).times l = s.times l := by
    intro l hl
    simp [times, hl]
  constructor
  · intro h
    have hnew := h location
    rw [hself, ascends_cons] at hnew
    refine ⟨fun l => ?_, hnew.1⟩
    by_cases hl : l = location
    · subst hl
      exact hnew.2
    · rw [← hother l hl]
      exact h l
  · rintro ⟨hold, hlast⟩ l
    by_cases hl : l = location
    · subst hl
      rw [hself, ascends_cons]
      exact ⟨hlast, hold l⟩
    · rw [hother l hl]
      exact hold l

@[simp] theorem lastTime_write_self : (s.write location e).lastTime location = e.time := by
  simp [lastTime, times]

@[simp] theorem lastTime_write_of_ne (h : other ≠ location) :
    (s.write location e).lastTime other = s.lastTime other := by
  simp [lastTime, times, h]

theorem writeAll_cons : s.writeAll location (e :: events) = (s.write location e).writeAll location events :=
  rfl

@[simp] theorem streams_writeAll : (s.writeAll location events).streams = s.streams := by
  induction events generalizing s with
  | nil => rfl
  | cons e events ih => rw [writeAll_cons, ih, streams_write]

@[simp] theorem gpuIdle_writeAll : (s.writeAll location events).gpuIdle = s.gpuIdle := by
  induction events generalizing s with
  | nil => rfl
  | cons e events ih => rw [writeAll_cons, ih, gpuIdle_write]

@[simp] theorem lastGpuTime_writeAll : (s.writeAll location events).lastGpuTime = s.lastGpuTime := by
  induction events generalizing s with
  | nil => rfl
  | cons e events ih => rw [writeAll_cons, ih, lastGpuTime_write]

@[simp] theorem firstStream_writeAll : (s.writeAll location events).firstStream = s.firstStream := by
  rw [firstStream, streams_writeAll, firstStream]

@[simp] theorem trace_writeAll_of_ne (h : other ≠ location) :
    (s.writeAll location events).trace other = s.trace other := by
  induction events generalizing s with
  | nil => rfl
  | cons e events ih => rw [writeAll_cons, ih, trace_write_of_ne h]

theorem trace_writeAll_self :
    (s.writeAll location events).trace location = events.reverse ++ s.trace location := by
  induction events generalizing s with
  | nil => rfl
  | cons e events ih => rw [writeAll_cons, ih]; simp

theorem lastTime_writeAll_of_ne (h : other ≠ location) :
    (s.writeAll location events).lastTime other = s.lastTime other := by
  simp [lastTime, times, h]

theorem ordered_writeAll (hrise : (events.map Event.time).IsChain (· ≤ ·)) :
    (s.writeAll location events).Ordered ↔ s.Ordered ∧ ∀ e ∈ events.head?, s.lastTime location ≤ e.time := by
  induction events generalizing s with
  | nil => simp [writeAll]
  | cons e events ih =>
    rw [map_cons, isChain_cons] at hrise
    obtain ⟨hhead, hrest⟩ := hrise
    have hnext : ∀ e' ∈ events.head?, (s.write location e).lastTime location ≤ e'.time := by
      intro e' he'
      rw [lastTime_write_self]
      apply hhead
      rw [head?_map]
      exact Option.mem_map_of_mem _ he'
    rw [writeAll_cons, ih hrest, ordered_write]
    simp only [head?_cons, Option.mem_some_iff, forall_eq']
    exact and_iff_left hnext

theorem firstStream_eq_none : s.firstStream = none ↔ s.streams = [] := by
  simp [firstStream]

/-! ## The idle events -/

theorem firstTime_eq (h : s.firstStream = some first) : s.firstTime = s.lastTime first := by
  simp [firstTime, h]

theorem writeFirst_eq (h : s.firstStream = some first) : s.writeFirst e = s.write first e := by
  rw [firstStream, Option.map_eq_some_iff] at h
  obtain ⟨stream, hhead, rfl⟩ := h
  simp [writeFirst, hhead]

theorem leaveIdle_idle (h : s.firstStream = some first) (hidle : s.gpuIdle = true) (start : ℕ) :
    s.leaveIdle start = { s.write first (.exitRegion start .idle) with gpuIdle := false } := by
  simp [leaveIdle, hidle, writeFirst_eq h]

theorem leaveIdle_gap (h : s.firstStream = some first) (hidle : s.gpuIdle = false) {start : ℕ}
    (hgap : s.lastGpuTime < start) : s.leaveIdle start =
      (s.write first (.enterRegion s.lastGpuTime .idle)).write first (.exitRegion start .idle) := by
  have hnext : (s.write first (.enterRegion s.lastGpuTime .idle)).firstStream = some first := h
  simp [leaveIdle, hidle, hgap, writeFirst_eq h, writeFirst_eq hnext]

theorem leaveIdle_busy (hidle : s.gpuIdle = false) {start : ℕ} (hgap : start ≤ s.lastGpuTime) :
    s.leaveIdle start = s := by
  simp [leaveIdle, hidle, Nat.not_lt.mpr hgap]

theorem enterIdle_eq (h : s.firstStream = some first) : s.enterIdle =
      { s.write first (.enterRegion s.lastGpuTime .idle) with gpuIdle := true } := by
  rw [enterIdle, writeFirst_eq h]

theorem leaveIdle_cases (s : Context) (start : ℕ) :
    s.gpuIdle = true ∨ s.gpuIdle = false ∧ s.lastGpuTime < start ∨
      s.gpuIdle = false ∧ start ≤ s.lastGpuTime := by
  cases s.gpuIdle with
  | true => exact .inl rfl
  | false =>
    rcases Nat.lt_or_ge s.lastGpuTime start with hgap | hgap
    · exact .inr (.inl ⟨rfl, hgap⟩)
    · exact .inr (.inr ⟨rfl, hgap⟩)

theorem firstStream_leaveIdle (h : s.firstStream = some first) (start : ℕ) :
    (s.leaveIdle start).firstStream = some first := by
  rcases s.leaveIdle_cases start with hidle | ⟨hidle, hgap⟩ | ⟨hidle, hgap⟩
  · rw [leaveIdle_idle h hidle]
    exact h
  · rw [leaveIdle_gap h hidle hgap]
    exact h
  · rwa [leaveIdle_busy hidle hgap]

theorem trace_leaveIdle_of_ne (h : s.firstStream = some first) (start : ℕ) (hne : other ≠ first) :
    (s.leaveIdle start).trace other = s.trace other := by
  rcases s.leaveIdle_cases start with hidle | ⟨hidle, hgap⟩ | ⟨hidle, hgap⟩
  · rw [leaveIdle_idle h hidle]
    exact trace_write_of_ne hne
  · rw [leaveIdle_gap h hidle hgap, trace_write_of_ne hne, trace_write_of_ne hne]
  · rw [leaveIdle_busy hidle hgap]

theorem ordered_leaveIdle (h : s.firstStream = some first) (start : ℕ) :
    (s.leaveIdle start).Ordered ↔ s.Ordered ∧ LeavesTimely s start := by
  rw [LeavesTimely, firstTime_eq h]
  rcases s.leaveIdle_cases start with hidle | ⟨hidle, hgap⟩ | ⟨hidle, hgap⟩
  · rw [leaveIdle_idle h hidle, if_pos hidle]
    exact ordered_write
  · rw [leaveIdle_gap h hidle hgap, ordered_write, ordered_write, lastTime_write_self,
      if_neg (by simp [hidle])]
    simp [Event.time, hgap, hgap.le]
  · rw [leaveIdle_busy hidle hgap, if_neg (by simp [hidle])]
    simp [Nat.not_lt.mpr hgap]

theorem lastTime_leaveIdle (h : s.firstStream = some first) (start : ℕ) : (s.leaveIdle start).lastTime first =
      if s.gpuIdle = false ∧ start ≤ s.lastGpuTime then s.lastTime first else start := by
  rcases s.leaveIdle_cases start with hidle | ⟨hidle, hgap⟩ | ⟨hidle, hgap⟩
  · rw [leaveIdle_idle h hidle, if_neg (by simp [hidle])]
    exact lastTime_write_self
  · rw [leaveIdle_gap h hidle hgap, lastTime_write_self, if_neg (by omega)]
    rfl
  · rw [leaveIdle_busy hidle hgap, if_pos ⟨hidle, hgap⟩]

theorem firstStream_enterIdle (h : s.firstStream = some first) : s.enterIdle.firstStream = some first := by
  rw [enterIdle_eq h]
  exact h

theorem ordered_enterIdle (h : s.firstStream = some first) :
    s.enterIdle.Ordered ↔ s.Ordered ∧ s.firstTime ≤ s.lastGpuTime := by
  rw [enterIdle_eq h, firstTime_eq h]
  exact ordered_write

theorem trace_enterIdle_of_ne (h : s.firstStream = some first) (hne : other ≠ first) :
    s.enterIdle.trace other = s.trace other := by
  rw [enterIdle_eq h]
  exact trace_write_of_ne hne

theorem lastTime_enterIdle (h : s.firstStream = some first) : s.enterIdle.lastTime first = s.lastGpuTime := by
  rw [enterIdle_eq h]
  exact lastTime_write_self

theorem lastTime_congr {t : Context} (h : t.trace other = s.trace other) :
    t.lastTime other = s.lastTime other := by
  rw [lastTime, times, h, lastTime, times]

end Context

/-! ## When an activity is written in order -/

variable {cfg : Config} {s : Context} {first streamId start stop : ℕ} {events : List Event}

structure Spans (start stop : ℕ) (events : List Event) : Prop where
  head : ∀ e ∈ events.head?, e.time = start
  rise : (events.map Event.time).IsChain (· ≤ ·)
  last : ∀ e ∈ events.getLast?, e.time = stop

theorem Spans.ordered (h : Spans start stop events) (location : ℕ) : (s.writeAll location events).Ordered ↔
      s.Ordered ∧ (events ≠ [] → s.lastTime location ≤ start) := by
  rw [Context.ordered_writeAll h.rise]
  cases events with
  | nil => simp
  | cons e events =>
    have hstart : e.time = start := h.head e rfl
    simp [hstart]

theorem Spans.lastTime_le (h : Spans start stop events) (location : ℕ) :
    (s.writeAll location events).lastTime location ≤ max (s.lastTime location) stop := by
  rw [Context.lastTime, Context.times, Context.trace_writeAll_self, map_append]
  rcases eq_nil_or_concat events with rfl | ⟨before, e, rfl⟩
  · exact le_max_left _ _
  · have hstop : e.time = stop := h.last e (by simp)
    simpa [hstop] using le_max_right (s.lastTime location) stop

theorem ordered_activity (h : s.firstStream = some first) (hevents : Spans start stop events)
    (hahead : streamId ≠ first → s.lastTime streamId ≤ start) :
    ((s.leaveIdle start).writeAll streamId events).Ordered ↔
      s.Ordered ∧ ActivityTimely s streamId start (events ≠ []) := by
  rw [hevents.ordered, Context.ordered_leaveIdle h, ActivityTimely, and_assoc, h, Option.some_inj]
  refine and_congr_right fun _ => and_congr_right fun _ => ?_
  by_cases hfirst : streamId = first
  · subst hfirst
    rw [Context.lastTime_leaveIdle h, FollowsTimely, Context.firstTime_eq h]
    split
    · rename_i hbusy
      simp [hbusy]
    · rename_i hbusy
      grind
  · have hsame := Context.lastTime_congr (Context.trace_leaveIdle_of_ne h start hfirst)
    rw [hsame]
    have hlast := hahead hfirst
    simp [hlast, Ne.symm hfirst]

theorem ordered_copy (cfg : Config) (h : s.firstStream = some first) (hevents : Spans start stop events)
    (hahead : streamId ≠ first → s.lastTime streamId ≤ start) :
    ((if s.gpuIdle = false ∧ streamId = cfg.defaultStrmId then s.enterIdle
      else s).writeAll streamId events).Ordered ↔
      s.Ordered ∧ CopyTimely cfg s streamId start (events ≠ []) := by
  rw [hevents.ordered, CopyTimely, h, Option.some_inj]
  by_cases hdefault : s.gpuIdle = false ∧ streamId = cfg.defaultStrmId
  · rw [if_pos hdefault, if_pos hdefault, Context.ordered_enterIdle h, and_assoc]
    refine and_congr_right fun _ => and_congr_right fun _ => ?_
    by_cases hfirst : streamId = first
    · subst hfirst
      simp [Context.lastTime_enterIdle h]
    · have hsame := Context.lastTime_congr (Context.trace_enterIdle_of_ne h hfirst)
      have hlast := hahead hfirst
      simp [hsame, hlast, Ne.symm hfirst]
  · rw [if_neg hdefault, if_neg hdefault]
    refine and_congr_right fun _ => ?_
    by_cases hfirst : streamId = first
    · subst hfirst
      simp [Context.firstTime_eq h]
    · have hlast := hahead hfirst
      simp [hlast, Ne.symm hfirst]

/-! ## Streams, times and events of a record -/

theorem streamGetCreate_cases (hidle : cfg.recordIdle ≠ .noIdle) (streamId : ℕ) (s : Context) :
    (∃ first, s.firstStream = some first ∧ (streamGetCreate cfg streamId s).firstStream = some first ∧
      (streamGetCreate cfg streamId s).trace = s.trace ∧ (streamGetCreate cfg streamId s).gpuIdle = s.gpuIdle ∧
      (streamGetCreate cfg streamId s).lastGpuTime = s.lastGpuTime) ∨
    (s.streams = [] ∧ ∃ first, (streamGetCreate cfg streamId s).firstStream = some first ∧
      (streamGetCreate cfg streamId s).trace = (s.write first (.enterRegion cfg.beginEpoch .idle)).trace ∧
      (streamGetCreate cfg streamId s).gpuIdle = true ∧
      (streamGetCreate cfg streamId s).lastGpuTime = s.lastGpuTime) := by
  cases hstreams : s.streams with
  | nil =>
    right
    refine ⟨rfl, ?_⟩
    by_cases hdefault : streamId ≠ cfg.defaultStrmId ∧ cfg.recordMemcpy = true
    · refine ⟨cfg.defaultStrmId, ?_⟩
      simp [streamGetCreate, streamCreate, hstreams, hidle, hdefault, Context.firstStream, Context.write]
    · refine ⟨streamId, ?_⟩
      simp [streamGetCreate, streamCreate, hstreams, hidle, hdefault, Context.firstStream, Context.write]
  | cons stream streams =>
    left
    refine ⟨stream.streamId, by simp [Context.firstStream, hstreams], ?_⟩
    by_cases hfound : s.streams.any (·.streamId = streamId) = true
    · rw [streamGetCreate, if_pos hfound]
      simp [Context.firstStream, hstreams]
    · rw [streamGetCreate, if_neg hfound]
      simp [streamCreate, Context.firstStream, hstreams]

@[simp] theorem firstStream_setLastTimestamp (s : Context) (streamId time : ℕ) :
    (s.setLastTimestamp streamId time).firstStream = s.firstStream := by
  rw [Context.firstStream, Context.setLastTimestamp, head?_map, Option.map_map, Context.firstStream]
  congr 1
  funext stream
  simp only [Function.comp_apply]
  split <;> rfl

theorem truncate_within {a b : ℕ} (hrun : start ≤ stop)
    (h : truncate cfg s streamId start stop = some (a, b)) : start ≤ a ∧ a ≤ b ∧ b ≤ stop := by
  rw [truncate] at h
  split at h
  · cases h
    exact ⟨le_refl _, hrun, le_refl _⟩
  · dsimp only at h
    split at h
    · cases h
    · rename_i hskip
      have hstart : start ≤ if start < s.lastTimestamp streamId then s.lastTimestamp streamId
          else start := by
        split <;> omega
      generalize (if start < s.lastTimestamp streamId then s.lastTimestamp streamId
        else start) = begun at h hstart
      split at h
      · cases h
      · split at h
        · split at h
          · cases h
            omega
          · cases h
        · cases h
          omega

theorem chain_of_const {times : List ℕ} (hconst : ∀ time ∈ times, time = start)
    (hstop : start ≤ stop) : (start :: (times ++ [stop])).IsChain (· ≤ ·) := by
  induction times with
  | nil => simpa using hstop
  | cons time times ih =>
    have htime : time = start := hconst time (by simp)
    subst htime
    have hrest := ih fun t ht => hconst t (by simp [ht])
    rw [cons_append, isChain_cons_cons]
    exact ⟨le_refl _, hrest⟩

theorem time_kernelParameters (cfg : Config) (k : Kernel) (start : ℕ) :
    ∀ e ∈ kernelParameters cfg k start, e.time = start ∧ e.bracket = .plain ∧ e.idleMark = none := by
  intro e he
  rw [kernelParameters] at he
  rcases mem_append.mp he with he | he
  · split at he
    · simp only [mem_singleton] at he
      subst he
      exact ⟨rfl, rfl, rfl⟩
    · cases he
  · split at he
    · simp only [mem_cons, not_mem_nil, or_false] at he
      rcases he with rfl | rfl | rfl | rfl | rfl | rfl | rfl <;> exact ⟨rfl, rfl, rfl⟩
    · cases he

theorem kernelEvents_spans (k : Kernel) (hstop : start ≤ stop) :
    Spans start stop (kernelEvents cfg k start stop) := by
  rw [kernelEvents]
  split
  · exact ⟨by simp, by simp, by simp⟩
  · refine ⟨by simp [Event.time], ?_, ?_⟩
    · rw [map_cons, map_append]
      apply chain_of_const
      · intro time htime
        obtain ⟨e, he, rfl⟩ := mem_map.mp htime
        exact (time_kernelParameters cfg k start e he).1
      · exact hstop
    · rw [← cons_append, getLast?_concat]
      simp [Event.time]

theorem memcpyEvents_spans (m : Memcpy) (hstop : start ≤ stop) :
    Spans start stop (memcpyEvents m start stop) := by
  rw [memcpyEvents]
  split
  all_goals exact ⟨by simp [Event.time], by simp [Event.time, hstop], by simp [Event.time]⟩

theorem kernelEvents_ne_nil (cfg : Config) (k : Kernel) (start stop : ℕ) :
    kernelEvents cfg k start stop ≠ [] ↔ cfg.filtered k.name = false := by
  rw [kernelEvents]
  cases cfg.filtered k.name <;> simp

theorem memcpyEvents_ne_nil (m : Memcpy) (start stop : ℕ) :
    memcpyEvents m start stop ≠ [] ↔ m.srcDevice = true ∨ m.dstDevice = true := by
  rw [memcpyEvents]
  cases m.srcDevice <;> cases m.dstDevice <;> simp

/-! ## What is idle, and what is open -/

structure Inv (s : Context) : Prop where
  unborn : s.streams = [] → s.gpuIdle = true ∧ ∀ location, s.trace location = []
  idleOpen : ∀ first, s.firstStream = some first →
    openRegions (s.brackets first) = some (if s.gpuIdle = true then [.idle] else [])
  idleMarks : ∀ first, s.firstStream = some first →
    ∃ marks, s.idleMarks first = s.gpuIdle :: marks ∧ Alternates (s.gpuIdle :: marks)
  closed : ∀ location, s.firstStream ≠ some location → openRegions (s.brackets location) = some []

theorem Inv.congr {t : Context} (h : Inv s) (hstreams : t.firstStream = s.firstStream)
    (htrace : t.trace = s.trace) (hidle : t.gpuIdle = s.gpuIdle) : Inv t := by
  have hbrackets : t.brackets = s.brackets := by
    funext location
    rw [Context.brackets, htrace, Context.brackets]
  have hmarks : t.idleMarks = s.idleMarks := by
    funext location
    rw [Context.idleMarks, htrace, Context.idleMarks]
  have hnone : t.streams = [] → s.streams = [] := by
    intro hempty
    rw [← Context.firstStream_eq_none, ← hstreams, Context.firstStream_eq_none]
    exact hempty
  constructor
  · rw [hidle, htrace]
    exact fun hempty => h.unborn (hnone hempty)
  · rw [hstreams, hbrackets, hidle]
    exact h.idleOpen
  · rw [hstreams, hmarks, hidle]
    exact h.idleMarks
  · rw [hstreams, hbrackets]
    exact h.closed

theorem Inv.toggle (h : Inv s) (hfirst : s.firstStream = some first) {idle : Bool} {e : Event}
    (hidle : s.gpuIdle = !idle) (hmark : e.idleMark = some idle)
    (hopen : openRegions (e.bracket :: s.brackets first) = some (if idle = true then [.idle] else [])) :
    Inv { s.write first e with gpuIdle := idle } := by
  obtain ⟨marks, hmarks, halternates⟩ := h.idleMarks first hfirst
  rw [hidle] at hmarks halternates
  constructor
  · intro hempty
    have hstreams : s.streams = [] := hempty
    simp [Context.firstStream, hstreams] at hfirst
  · intro first' hfirst'
    cases hfirst.symm.trans hfirst'
    simpa [Context.brackets] using hopen
  · intro first' hfirst'
    cases hfirst.symm.trans hfirst'
    refine ⟨(!idle) :: marks, ?_, ?_⟩
    · rw [← hmarks]
      simp [Context.idleMarks, hmark]
    · cases idle with
      | true => exact alternates_on halternates
      | false => exact alternates_off halternates
  · intro location hother
    have hne : location ≠ first := fun heq => hother (heq ▸ hfirst)
    have hclosed := h.closed location hother
    simpa [Context.brackets, hne] using hclosed

theorem Inv.enter (h : Inv s) (hfirst : s.firstStream = some first) (hidle : s.gpuIdle = false) (time : ℕ) :
    Inv { s.write first (.enterRegion time .idle) with gpuIdle := true } := by
  have hopen := h.idleOpen first hfirst
  rw [hidle] at hopen
  exact h.toggle hfirst hidle rfl (openRegions_enter Region.idle hopen)

theorem Inv.leave (h : Inv s) (hfirst : s.firstStream = some first) (hidle : s.gpuIdle = true) (time : ℕ) :
    Inv { s.write first (.exitRegion time .idle) with gpuIdle := false } := by
  have hopen := h.idleOpen first hfirst
  rw [hidle] at hopen
  exact h.toggle hfirst hidle rfl (openRegions_leave hopen)

theorem Inv.leaveIdle (h : Inv s) (hfirst : s.firstStream = some first) (start : ℕ) :
    Inv (s.leaveIdle start) := by
  rcases s.leaveIdle_cases start with hidle | ⟨hidle, hgap⟩ | ⟨hidle, hgap⟩
  · rw [Context.leaveIdle_idle hfirst hidle]
    exact h.leave hfirst hidle start
  · have hentered := h.enter hfirst hidle s.lastGpuTime
    have hleft := hentered.leave hfirst rfl start
    rw [Context.leaveIdle_gap hfirst hidle hgap]
    exact hleft.congr rfl rfl hidle
  · rwa [Context.leaveIdle_busy hidle hgap]

theorem Inv.enterIdle (h : Inv s) (hfirst : s.firstStream = some first)
    (hidle : s.gpuIdle = false) : Inv s.enterIdle := by
  rw [Context.enterIdle_eq hfirst]
  exact h.enter hfirst hidle s.lastGpuTime

structure Balanced (events : List Event) : Prop where
  nested : ∀ (entries : List (Bracket Region)) (outer : List Region), openRegions entries = some outer →
      openRegions (events.reverse.map Event.bracket ++ entries) = some outer
  unmarked : ∀ e ∈ events, e.idleMark = none

theorem Inv.writeAll (h : Inv s) (hborn : s.firstStream = some first) (hevents : Balanced events)
    (location : ℕ) : Inv (s.writeAll location events) := by
  have hbrackets : ∀ l outer, openRegions (s.brackets l) = some outer →
      openRegions ((s.writeAll location events).brackets l) = some outer := by
    intro l outer hl
    by_cases heq : l = location
    · subst heq
      rw [Context.brackets, Context.trace_writeAll_self, map_append]
      exact hevents.nested _ outer hl
    · rwa [Context.brackets, Context.trace_writeAll_of_ne heq]
  have hmarks : ∀ l, (s.writeAll location events).idleMarks l = s.idleMarks l := by
    intro l
    by_cases heq : l = location
    · subst heq
      have hnone : events.reverse.filterMap Event.idleMark = [] := by
        rw [filterMap_eq_nil_iff]
        intro e he
        exact hevents.unmarked e (mem_reverse.mp he)
      rw [Context.idleMarks, Context.trace_writeAll_self, filterMap_append, hnone,
        nil_append, Context.idleMarks]
    · rw [Context.idleMarks, Context.trace_writeAll_of_ne heq, Context.idleMarks]
  constructor
  · intro hempty
    rw [Context.streams_writeAll] at hempty
    simp [Context.firstStream, hempty] at hborn
  · intro first' hfirst'
    rw [Context.firstStream_writeAll] at hfirst'
    rw [Context.gpuIdle_writeAll]
    exact hbrackets first' _ (h.idleOpen first' hfirst')
  · intro first' hfirst'
    rw [Context.firstStream_writeAll] at hfirst'
    rw [Context.gpuIdle_writeAll, hmarks]
    exact h.idleMarks first' hfirst'
  · intro l hl
    rw [Context.firstStream_writeAll] at hl
    exact hbrackets l _ (h.closed l hl)

theorem Inv.streamGetCreate (h : Inv s) (hidle : cfg.recordIdle ≠ .noIdle) (streamId : ℕ) :
    Inv (streamGetCreate cfg streamId s) := by
  rcases streamGetCreate_cases hidle streamId s with
    ⟨first, hfirst, hfirst', htrace, hgpu, -⟩ | ⟨hstreams, first, hfirst, htrace, hgpu, -⟩
  · exact h.congr (hfirst'.trans hfirst.symm) htrace hgpu
  · obtain ⟨-, hempty⟩ := h.unborn hstreams
    have hself : (Cuda.streamGetCreate cfg streamId s).trace first =
        [.enterRegion cfg.beginEpoch .idle] := by
      rw [htrace, Context.trace_write_self, hempty]
    have hother : ∀ l, l ≠ first → (Cuda.streamGetCreate cfg streamId s).trace l = [] := by
      intro l hl
      rw [htrace, Context.trace_write_of_ne hl, hempty]
    constructor
    · intro hnone
      simp [Context.firstStream, hnone] at hfirst
    · intro first' hfirst'
      cases hfirst.symm.trans hfirst'
      simp [Context.brackets, hself, hgpu, Event.bracket, openRegions]
    · intro first' hfirst'
      cases hfirst.symm.trans hfirst'
      exact ⟨[], by simp [Context.idleMarks, hself, hgpu, Event.idleMark], by simp [hgpu, Alternates]⟩
    · intro l hl
      have hne : l ≠ first := fun heq => hl (heq ▸ hfirst)
      simp [Context.brackets, hother l hne]

theorem kernelEvents_balanced (k : Kernel) : Balanced (kernelEvents cfg k start stop) := by
  rw [kernelEvents]
  split
  · exact ⟨fun _ _ h => h, by simp⟩
  · constructor
    · intro entries outer h
      have hplain : (kernelParameters cfg k start).reverse.map Event.bracket =
          List.replicate (kernelParameters cfg k start).length .plain := by
        rw [eq_replicate_iff]
        refine ⟨by simp, ?_⟩
        intro b hb
        obtain ⟨e, he, rfl⟩ := mem_map.mp hb
        exact (time_kernelParameters cfg k start e (mem_reverse.mp he)).2.1
      have hentered := openRegions_enter (Region.kernel k.name) h
      simp only [reverse_cons, reverse_append, reverse_nil, nil_append,
        map_append, map_cons, map_nil, hplain, append_assoc, cons_append]
      apply openRegions_leave
      rwa [openRegions_replicate_plain]
    · intro e he
      rw [mem_cons, mem_append, mem_singleton] at he
      rcases he with rfl | he | rfl
      · rfl
      · exact (time_kernelParameters cfg k start e he).2.2
      · rfl

theorem memcpyEvents_balanced (m : Memcpy) : Balanced (memcpyEvents m start stop) := by
  rw [memcpyEvents]
  split
  all_goals exact ⟨fun _ _ h => by simpa [Event.bracket] using h, by simp [Event.idleMark]⟩

/-! ## What is still to come -/

structure Ahead (idleEnd : ℕ) (s : Context) (future : List Record) : Prop where
  order : InOrder future
  ends : ∀ r ∈ future, r.stop ≤ idleEnd
  follows : ∀ r ∈ future, s.firstStream ≠ some r.streamId → s.lastTime r.streamId ≤ r.start
  bounded : ∀ location, s.lastTime location ≤ idleEnd
  gpuTime : s.lastGpuTime ≤ idleEnd

variable {idleEnd : ℕ} {future : List Record} {r : Record}

theorem InOrder.tail (h : InOrder (r :: future)) : InOrder future :=
  ⟨fun r' hr' => h.start_le_stop r' (mem_cons_of_mem r hr'), h.spaced.of_cons⟩

namespace Ahead

theorem tail (h : Ahead idleEnd s (r :: future)) : Ahead idleEnd s future where
  order := h.order.tail
  ends := fun r' hr' => h.ends r' (mem_cons_of_mem r hr')
  follows := fun r' hr' => h.follows r' (mem_cons_of_mem r hr')
  bounded := h.bounded
  gpuTime := h.gpuTime

theorem congr {t : Context} (h : Ahead idleEnd s future) (hstreams : t.firstStream = s.firstStream)
    (htrace : t.trace = s.trace) (hgpu : t.lastGpuTime ≤ idleEnd) : Ahead idleEnd t future where
  order := h.order
  ends := h.ends
  follows := by
    intro r hr hother
    rw [hstreams] at hother
    rw [Context.lastTime_congr (congrFun htrace _)]
    exact h.follows r hr hother
  bounded := by
    intro location
    rw [Context.lastTime_congr (congrFun htrace _)]
    exact h.bounded location
  gpuTime := hgpu

theorem write (h : Ahead idleEnd s future) (hfirst : s.firstStream = some first) {e : Event}
    (htime : e.time ≤ idleEnd) : Ahead idleEnd (s.write first e) future where
  order := h.order
  ends := h.ends
  follows := by
    intro r hr hother
    have hne : r.streamId ≠ first := fun heq => hother (heq ▸ hfirst)
    rw [Context.lastTime_write_of_ne hne]
    exact h.follows r hr hother
  bounded := by
    intro location
    by_cases heq : location = first
    · subst heq
      rwa [Context.lastTime_write_self]
    · rw [Context.lastTime_write_of_ne heq]
      exact h.bounded location
  gpuTime := h.gpuTime

theorem leaveIdle (h : Ahead idleEnd s future) (hfirst : s.firstStream = some first)
    (hstart : start ≤ idleEnd) : Ahead idleEnd (s.leaveIdle start) future := by
  rcases s.leaveIdle_cases start with hidle | ⟨hidle, hgap⟩ | ⟨hidle, hgap⟩
  · have hleft := h.write hfirst (e := .exitRegion start .idle) hstart
    rw [Context.leaveIdle_idle hfirst hidle]
    exact hleft.congr rfl rfl h.gpuTime
  · have hentered := h.write hfirst (e := .enterRegion s.lastGpuTime .idle) h.gpuTime
    rw [Context.leaveIdle_gap hfirst hidle hgap]
    exact hentered.write hfirst hstart
  · rwa [Context.leaveIdle_busy hidle hgap]

theorem enterIdle (h : Ahead idleEnd s future) (hfirst : s.firstStream = some first) :
    Ahead idleEnd s.enterIdle future := by
  have hentered := h.write hfirst (e := .enterRegion s.lastGpuTime .idle) h.gpuTime
  rw [Context.enterIdle_eq hfirst]
  exact hentered.congr rfl rfl h.gpuTime

theorem advanceGpuTime (h : Ahead idleEnd s future) (hstop : stop ≤ idleEnd) :
    Ahead idleEnd (s.advanceGpuTime stop) future := by
  refine h.congr rfl rfl ?_
  have hgpu := h.gpuTime
  dsimp only [Context.advanceGpuTime]
  split <;> omega

theorem writeAll (h : Ahead idleEnd s (r :: future)) (hevents : Spans start stop events)
    (hstop : stop ≤ r.stop) : Ahead idleEnd (s.writeAll r.streamId events) future where
  order := h.order.tail
  ends := h.tail.ends
  follows := by
    intro r' hr' hother
    rw [Context.firstStream_writeAll] at hother
    have hold := h.tail.follows r' hr' hother
    by_cases heq : r'.streamId = r.streamId
    · have hlast := hevents.lastTime_le (s := s) r.streamId
      have hspaced := (pairwise_cons.mp h.order.spaced).1 r' hr' heq.symm
      rw [heq] at hold ⊢
      omega
    · rwa [Context.lastTime_writeAll_of_ne heq]
  bounded := by
    intro location
    have hold := h.bounded location
    by_cases heq : location = r.streamId
    · have hlast := hevents.lastTime_le (s := s) r.streamId
      have hends := h.ends r mem_cons_self
      rw [heq] at hold ⊢
      omega
    · rwa [Context.lastTime_writeAll_of_ne heq]
  gpuTime := by
    rw [Context.lastGpuTime_writeAll]
    exact h.gpuTime

theorem streamGetCreate (h : Ahead idleEnd s future) (hs : Inv s) (hidle : cfg.recordIdle ≠ .noIdle)
    (hbegin : cfg.beginEpoch ≤ idleEnd) (streamId : ℕ) :
    Ahead idleEnd (streamGetCreate cfg streamId s) future := by
  rcases streamGetCreate_cases hidle streamId s with
    ⟨first, hfirst, hfirst', htrace, -, hgpu⟩ | ⟨hstreams, first, hfirst, htrace, -, hgpu⟩
  · apply h.congr (hfirst'.trans hfirst.symm) htrace
    rw [hgpu]
    exact h.gpuTime
  · obtain ⟨-, hempty⟩ := hs.unborn hstreams
    have hself : (Cuda.streamGetCreate cfg streamId s).lastTime first = cfg.beginEpoch := by
      simp [Context.lastTime, Context.times, htrace, Event.time]
    have hother : ∀ l, l ≠ first → (Cuda.streamGetCreate cfg streamId s).lastTime l = 0 := by
      intro l hl
      simp [Context.lastTime, Context.times, htrace, hl, hempty, newest]
    constructor
    · exact h.order
    · exact h.ends
    · intro r hr hne
      have hne' : r.streamId ≠ first := fun heq => hne (heq ▸ hfirst)
      rw [hother r.streamId hne']
      exact Nat.zero_le _
    · intro location
      by_cases heq : location = first
      · subst heq
        rwa [hself]
      · rw [hother location heq]
        exact Nat.zero_le _
    · rw [hgpu]
      exact h.gpuTime

end Ahead

theorem ordered_streamGetCreate (hs : Inv s) (hidle : cfg.recordIdle ≠ .noIdle) (streamId : ℕ) :
    (streamGetCreate cfg streamId s).Ordered ↔ s.Ordered := by
  rcases streamGetCreate_cases hidle streamId s with
    ⟨first, -, -, htrace, -⟩ | ⟨hstreams, first, -, htrace, -⟩
  · rw [Context.Ordered, Context.Ordered]
    simp [Context.times, htrace]
  · obtain ⟨-, hempty⟩ := hs.unborn hstreams
    have hzero : s.lastTime first = 0 := by
      simp [Context.lastTime, Context.times, hempty, newest]
    have hwrite : (s.write first (.enterRegion cfg.beginEpoch .idle)).Ordered ↔
        s.Ordered ∧ s.lastTime first ≤ cfg.beginEpoch := Context.ordered_write
    rw [hzero] at hwrite
    rw [Context.Ordered] at hwrite ⊢
    simp only [Context.times, htrace] at hwrite ⊢
    rw [hwrite]
    exact and_iff_left (Nat.zero_le _)

/-! ## One record -/

structure Kept (idleEnd : ℕ) (s : Context) (future : List Record) : Prop where
  inv : Inv s
  ahead : Ahead idleEnd s future

theorem Kept.create (h : Kept idleEnd s future) (hidle : cfg.recordIdle ≠ .noIdle)
    (hbegin : cfg.beginEpoch ≤ idleEnd) (streamId : ℕ) : Kept idleEnd (streamGetCreate cfg streamId s) future :=
  ⟨h.inv.streamGetCreate hidle streamId, h.ahead.streamGetCreate h.inv hidle hbegin streamId⟩

theorem exists_firstStream (hidle : cfg.recordIdle ≠ .noIdle) (streamId : ℕ) (s : Context) :
    ∃ first, (streamGetCreate cfg streamId s).firstStream = some first := by
  rcases streamGetCreate_cases hidle streamId s with ⟨first, -, hfirst, -⟩ | ⟨-, first, hfirst, -⟩
  · exact ⟨first, hfirst⟩
  · exact ⟨first, hfirst⟩

theorem firstTime_setLastTimestamp (s : Context) (id time : ℕ) :
    (s.setLastTimestamp id time).firstTime = s.firstTime := by
  rw [Context.firstTime, firstStream_setLastTimestamp]
  rfl

theorem LeavesTimely.setLastTimestamp (s : Context) (id time : ℕ) :
    LeavesTimely (s.setLastTimestamp id time) start ↔ LeavesTimely s start := by
  rw [LeavesTimely, firstTime_setLastTimestamp]
  rfl

theorem ActivityTimely.setLastTimestamp (s : Context) (id time : ℕ) (recorded : Prop) :
    ActivityTimely (s.setLastTimestamp id time) streamId start recorded ↔
      ActivityTimely s streamId start recorded := by
  rw [ActivityTimely, ActivityTimely, LeavesTimely.setLastTimestamp, firstStream_setLastTimestamp,
    FollowsTimely, firstTime_setLastTimestamp]
  rfl

theorem CopyTimely.setLastTimestamp (s : Context) (id time : ℕ) (recorded : Prop) :
    CopyTimely cfg (s.setLastTimestamp id time) streamId start recorded ↔
      CopyTimely cfg s streamId start recorded := by
  rw [CopyTimely, CopyTimely, firstStream_setLastTimestamp, firstTime_setLastTimestamp]
  rfl

theorem Kept.setLastTimestamp (h : Kept idleEnd s future) (id time : ℕ) :
    Kept idleEnd (s.setLastTimestamp id time) future :=
  ⟨h.inv.congr (firstStream_setLastTimestamp s id time) rfl rfl,
    h.ahead.congr (firstStream_setLastTimestamp s id time) rfl h.ahead.gpuTime⟩

theorem Kept.leaveIdle (h : Kept idleEnd s future) (hfirst : s.firstStream = some first)
    (hstart : start ≤ idleEnd) : Kept idleEnd (s.leaveIdle start) future :=
  ⟨h.inv.leaveIdle hfirst start, h.ahead.leaveIdle hfirst hstart⟩

theorem Kept.enterIdle (h : Kept idleEnd s future) (hfirst : s.firstStream = some first)
    (hidle : s.gpuIdle = false) : Kept idleEnd s.enterIdle future :=
  ⟨h.inv.enterIdle hfirst hidle, h.ahead.enterIdle hfirst⟩

theorem Kept.advanceGpuTime (h : Kept idleEnd s future) (hstop : stop ≤ idleEnd) :
    Kept idleEnd (s.advanceGpuTime stop) future :=
  ⟨h.inv.congr rfl rfl rfl, h.ahead.advanceGpuTime hstop⟩

theorem Kept.writeAll (h : Kept idleEnd s (r :: future)) (hfirst : s.firstStream = some first)
    (hspans : Spans start stop events) (hbalanced : Balanced events) (hstop : stop ≤ r.stop) :
    Kept idleEnd (s.writeAll r.streamId events) future :=
  ⟨h.inv.writeAll hfirst hbalanced r.streamId, h.ahead.writeAll hspans hstop⟩

theorem Kept.lastTime_le (h : Kept idleEnd s (r :: future)) (hfirst : s.firstStream = some first)
    (hstart : r.start ≤ start) (hother : r.streamId ≠ first) : s.lastTime r.streamId ≤ start := by
  have hne : s.firstStream ≠ some r.streamId := by
    rw [hfirst]
    exact fun heq => hother (Option.some_inj.mp heq).symm
  exact (h.ahead.follows r mem_cons_self hne).trans hstart

theorem writeKernel_step {k : Kernel} (h : Kept idleEnd s (.kernel k :: future))
    (hidle : cfg.recordIdle ≠ .noIdle) (hbegin : cfg.beginEpoch ≤ idleEnd) :
    Kept idleEnd (writeKernel cfg k s) future ∧
      ((writeKernel cfg k s).Ordered ↔ s.Ordered ∧ RecordTimely cfg s (.kernel k)) := by
  have hcreate := h.create hidle hbegin k.streamId
  obtain ⟨first, hfirst⟩ := exists_firstStream hidle k.streamId s
  have hordered := ordered_streamGetCreate h.inv hidle k.streamId
  dsimp only [writeKernel, RecordTimely]
  rw [← hordered]
  generalize streamGetCreate cfg k.streamId s = t at hcreate hfirst hordered ⊢
  have hrun : k.start ≤ k.stop := h.ahead.order.start_le_stop _ mem_cons_self
  have hend : k.stop ≤ idleEnd := h.ahead.ends _ mem_cons_self
  cases htruncate : truncate cfg t k.streamId k.start k.stop with
  | none => exact ⟨⟨hcreate.inv, hcreate.ahead.tail⟩, by simp⟩
  | some times =>
    obtain ⟨start, stop⟩ := times
    obtain ⟨hstart, hspan, hstop⟩ := truncate_within hrun htruncate
    have hmarked := hcreate.setLastTimestamp k.streamId stop
    have hfirst' : (t.setLastTimestamp k.streamId stop).firstStream = some first := by
      rwa [firstStream_setLastTimestamp]
    have hspans : Spans start stop (kernelEvents cfg k start stop) := kernelEvents_spans k hspan
    have hactivity := ordered_activity hfirst' hspans (hmarked.lastTime_le hfirst' hstart)
    have hleft : Kept idleEnd ((t.setLastTimestamp k.streamId stop).leaveIdle start)
        (.kernel k :: future) := hmarked.leaveIdle hfirst' (by omega)
    have hfirst'' := Context.firstStream_leaveIdle hfirst' start
    have hwritten := hleft.writeAll hfirst'' hspans (kernelEvents_balanced k) hstop
    simp only [if_pos hidle]
    refine ⟨hwritten.advanceGpuTime (by omega), ?_⟩
    rw [← kernelEvents_ne_nil cfg k start stop, ← ActivityTimely.setLastTimestamp t k.streamId stop]
    exact hactivity

theorem writeMemcpy_step {m : Memcpy} (h : Kept idleEnd s (.memcpy m :: future))
    (hidle : cfg.recordIdle ≠ .noIdle) (hbegin : cfg.beginEpoch ≤ idleEnd) :
    Kept idleEnd (writeMemcpy cfg m s) future ∧
      ((writeMemcpy cfg m s).Ordered ↔ s.Ordered ∧ RecordTimely cfg s (.memcpy m)) := by
  by_cases hkind : m.copyKindDtod = true
  · have htimely : RecordTimely cfg s (.memcpy m) := by
      dsimp only [RecordTimely]
      split
      · trivial
      · intro hother
        simp [hkind] at hother
    rw [writeMemcpy, if_pos hkind]
    exact ⟨⟨h.inv, h.ahead.tail⟩, (and_iff_left htimely).symm⟩
  · have hkind' : m.copyKindDtod = false := Bool.eq_false_iff.mpr hkind
    have hcreate := h.create hidle hbegin m.streamId
    obtain ⟨first, hfirst⟩ := exists_firstStream hidle m.streamId s
    have hordered := ordered_streamGetCreate h.inv hidle m.streamId
    rw [writeMemcpy, if_neg hkind]
    dsimp only [RecordTimely]
    rw [← hordered]
    generalize streamGetCreate cfg m.streamId s = t at hcreate hfirst hordered ⊢
    have hrun : m.start ≤ m.stop := h.ahead.order.start_le_stop _ mem_cons_self
    have hend : m.stop ≤ idleEnd := h.ahead.ends _ mem_cons_self
    cases htruncate : truncate cfg t m.streamId m.start m.stop with
    | none => exact ⟨⟨hcreate.inv, hcreate.ahead.tail⟩, by simp⟩
    | some times =>
      obtain ⟨start, stop⟩ := times
      obtain ⟨hstart, hspan, hstop⟩ := truncate_within hrun htruncate
      have hmarked := hcreate.setLastTimestamp m.streamId stop
      have hfirst' : (t.setLastTimestamp m.streamId stop).firstStream = some first := by
        rwa [firstStream_setLastTimestamp]
      have hspans : Spans start stop (memcpyEvents m start stop) := memcpyEvents_spans m hspan
      have hfollows := hmarked.lastTime_le hfirst' hstart
      dsimp only
      rw [← memcpyEvents_ne_nil m start stop]
      by_cases hpure : cfg.recordIdle = .pureIdle
      · have hactivity := ordered_activity hfirst' hspans hfollows
        have hleft : Kept idleEnd ((t.setLastTimestamp m.streamId stop).leaveIdle start)
            (.memcpy m :: future) := hmarked.leaveIdle hfirst' (by omega)
        have hfirst'' := Context.firstStream_leaveIdle hfirst' start
        have hadvanced : Kept idleEnd
            (((t.setLastTimestamp m.streamId stop).leaveIdle start).advanceGpuTime stop)
            (.memcpy m :: future) := hleft.advanceGpuTime (by omega)
        rw [if_pos hpure, if_pos hpure, ← ActivityTimely.setLastTimestamp t m.streamId stop]
        refine ⟨hadvanced.writeAll hfirst'' hspans (memcpyEvents_balanced m) hstop, ?_⟩
        have hsame : ((((t.setLastTimestamp m.streamId stop).leaveIdle start).advanceGpuTime
              stop).writeAll m.streamId (memcpyEvents m start stop)).Ordered ↔
            (((t.setLastTimestamp m.streamId stop).leaveIdle start).writeAll m.streamId
              (memcpyEvents m start stop)).Ordered := by
          rw [hspans.ordered, hspans.ordered]
          rfl
        rw [forall_prop_of_true hkind', hsame]
        exact hactivity
      · rw [if_neg hpure, if_neg hpure, ← CopyTimely.setLastTimestamp t m.streamId stop]
        have hcopy := ordered_copy cfg hfirst' hspans hfollows
        refine ⟨?_, by rwa [forall_prop_of_true hkind']⟩
        split
        · rename_i hdefault
          have hentered := hmarked.enterIdle hfirst' hdefault.1
          have hfirst'' := Context.firstStream_enterIdle hfirst'
          exact hentered.writeAll hfirst'' hspans (memcpyEvents_balanced m) hstop
        · exact hmarked.writeAll hfirst' hspans (memcpyEvents_balanced m) hstop

theorem writeRecord_step (h : Kept idleEnd s (r :: future)) (hidle : cfg.recordIdle ≠ .noIdle)
    (hbegin : cfg.beginEpoch ≤ idleEnd) : Kept idleEnd (writeRecord cfg s r) future ∧
      ((writeRecord cfg s r).Ordered ↔ s.Ordered ∧ RecordTimely cfg s r) := by
  cases r with
  | kernel k => exact writeKernel_step h hidle hbegin
  | memcpy m => exact writeMemcpy_step h hidle hbegin

/-! ## One action -/

theorem Kept.synchronize (h : Kept idleEnd s future) (hostStop : ℕ) :
    Kept idleEnd { s with hostStop := hostStop } future :=
  ⟨h.inv.congr rfl rfl rfl, h.ahead.congr rfl rfl h.ahead.gpuTime⟩

theorem Kept.writeRecords {records : List Record} (h : Kept idleEnd s (records ++ future))
    (hidle : cfg.recordIdle ≠ .noIdle) (hbegin : cfg.beginEpoch ≤ idleEnd) :
    Kept idleEnd (records.foldl (writeRecord cfg) s) future :=
  foldl_inv (Kept idleEnd) (fun _ _ _ hs => (writeRecord_step hs hidle hbegin).1) records future h

theorem ordered_writeRecords {records : List Record} (h : Kept idleEnd s (records ++ future))
    (hidle : cfg.recordIdle ≠ .noIdle) (hbegin : cfg.beginEpoch ≤ idleEnd) :
    (records.foldl (writeRecord cfg) s).Ordered ↔
      s.Ordered ∧ EachStep (writeRecord cfg) (RecordTimely cfg) s records :=
  foldl_iff (Kept idleEnd) (fun _ _ _ hs => (writeRecord_step hs hidle hbegin).1)
    (fun _ _ _ hs => (writeRecord_step hs hidle hbegin).2) records future h

theorem Inv.exists_first (h : Inv s) (hidle : s.gpuIdle = false) : ∃ first, s.firstStream = some first := by
  cases hfirst : s.firstStream with
  | some first => exact ⟨first, rfl⟩
  | none =>
    have hidle' := (h.unborn (Context.firstStream_eq_none.mp hfirst)).1
    rw [hidle] at hidle'
    cases hidle'

theorem act_step (a : Action) (h : Kept idleEnd s (a.records cfg ++ future))
    (hidle : cfg.recordIdle ≠ .noIdle) (hbegin : cfg.beginEpoch ≤ idleEnd) :
    Kept idleEnd (act cfg s a) future ∧ ((act cfg s a).Ordered ↔ s.Ordered ∧ Timely cfg s a) := by
  cases a with
  | create streamId =>
    have hordered := ordered_streamGetCreate h.inv hidle streamId
    exact ⟨h.create hidle hbegin streamId, hordered.trans (and_iff_left trivial).symm⟩
  | replaced hostStop record => exact writeRecord_step (h.synchronize hostStop) hidle hbegin
  | flush hostStop gpuDiff records =>
    dsimp only [act, contextFlush, Timely]
    by_cases hrefused : cfg.registerTimestampCallback = false ∧ gpuDiff = 0
    · rw [Action.records, if_pos hrefused] at h
      rw [if_pos hrefused]
      exact ⟨h.synchronize hostStop, (and_iff_left (.inl hrefused)).symm⟩
    · rw [Action.records, if_neg hrefused] at h
      rw [if_neg hrefused]
      have hsync := h.synchronize hostStop
      have hwritten := hsync.writeRecords hidle hbegin
      have hordered := ordered_writeRecords hsync hidle hbegin
      by_cases hgpu : (records.foldl (writeRecord cfg) { s with hostStop := hostStop }).gpuIdle = false
      · obtain ⟨first, hfirst⟩ := hwritten.inv.exists_first hgpu
        rw [if_pos hgpu]
        refine ⟨hwritten.enterIdle hfirst hgpu, ?_⟩
        rw [Context.ordered_enterIdle hfirst, hordered, or_iff_right hrefused,
          forall_prop_of_true hgpu, and_assoc]
        rfl
      · rw [if_neg hgpu]
        refine ⟨hwritten, ?_⟩
        rw [hordered, or_iff_right hrefused, and_iff_left (fun hbusy => absurd hbusy hgpu)]
        rfl

/-! ## Whole runs -/

variable {acts before : List Action}

theorem kept_contextCreate (h : Delivered cfg acts idleEnd) :
    Kept idleEnd (contextCreate cfg) (acts.flatMap (·.records cfg)) := by
  constructor
  · constructor
    · exact fun _ => ⟨rfl, fun _ => rfl⟩
    · nofun
    · nofun
    · exact fun _ _ => rfl
  · exact ⟨h.order, h.ends, fun _ _ _ => Nat.zero_le _, fun _ => Nat.zero_le _, h.begins⟩

theorem Kept.act (hidle : cfg.recordIdle ≠ .noIdle) (hbegin : cfg.beginEpoch ≤ idleEnd) (a : Action)
    (acts : List Action) (h : Kept idleEnd s ((a :: acts).flatMap (·.records cfg))) :
    Kept idleEnd (act cfg s a) (acts.flatMap (·.records cfg)) := by
  rw [flatMap_cons] at h
  exact (act_step a h hidle hbegin).1

theorem kept_run (hidle : cfg.recordIdle ≠ .noIdle) (h : Delivered cfg acts idleEnd)
    (hbefore : before <+: acts) : ∃ future, Kept idleEnd (run cfg before) future := by
  obtain ⟨rest, rfl⟩ := hbefore
  have hstart := kept_contextCreate h
  have hrun := foldl_inv (fun s acts => Kept idleEnd s (acts.flatMap (·.records cfg)))
    (fun _ a acts hs => hs.act hidle h.begins a acts) before rest hstart
  exact ⟨_, hrun⟩

theorem ordered_run_iff (hidle : cfg.recordIdle ≠ .noIdle) (h : Delivered cfg acts idleEnd) :
    (run cfg acts).Ordered ↔ EachStep (act cfg) (Timely cfg) (contextCreate cfg) acts := by
  have hstart := kept_contextCreate h
  have hsteps := foldl_iff (fun s acts => Kept idleEnd s (acts.flatMap (·.records cfg)))
    (fun _ a acts hs => hs.act hidle h.begins a acts)
    (fun s a acts hs => (act_step a (flatMap_cons ▸ hs) hidle h.begins).2) acts []
    (by simpa using hstart)
  have hempty : (contextCreate cfg).Ordered := fun _ => ascends_nil
  rw [run, hsteps]
  exact and_iff_right hempty

theorem contextFinalize_spec (h : Kept idleEnd s future) (hidle : cfg.recordIdle ≠ .noIdle) :
    ((contextFinalize cfg idleEnd s).Ordered ↔ s.Ordered) ∧
    (∀ first, s.firstStream = some first → Alternates ((contextFinalize cfg idleEnd s).idleMarks first) ∧
        ((contextFinalize cfg idleEnd s).idleMarks first).head? = some false) ∧
    ∀ location, openRegions ((contextFinalize cfg idleEnd s).brackets location) = some [] := by
  have hreport : ∀ t : Context, Inv t → t.gpuIdle = false → ∀ first, t.firstStream = some first →
      Alternates (t.idleMarks first) ∧ (t.idleMarks first).head? = some false := by
    intro t ht hgpu first hfirst
    obtain ⟨marks, hmarks, halternates⟩ := ht.idleMarks first hfirst
    rw [hmarks, hgpu]
    rw [hgpu] at halternates
    exact ⟨halternates, rfl⟩
  have hclosed : ∀ t : Context, Inv t → t.gpuIdle = false → ∀ location,
      openRegions (t.brackets location) = some [] := by
    intro t ht hgpu location
    by_cases hfirst : t.firstStream = some location
    · simpa [hgpu] using ht.idleOpen location hfirst
    · exact ht.closed location hfirst
  by_cases hopen : cfg.recordIdle ≠ .noIdle ∧ s.streams ≠ [] ∧ s.gpuIdle = true
  · have hborn : s.firstStream ≠ none := fun hnone =>
      hopen.2.1 (Context.firstStream_eq_none.mp hnone)
    obtain ⟨first, hfirst⟩ := Option.ne_none_iff_exists'.mp hborn
    have hleft := h.inv.leave hfirst hopen.2.2 idleEnd
    have hmarks := hreport _ hleft rfl
    have hnested := hclosed _ hleft rfl
    rw [contextFinalize, if_pos hopen, Context.writeFirst_eq hfirst]
    refine ⟨?_, hmarks, hnested⟩
    have hlast : s.lastTime first ≤ idleEnd := h.ahead.bounded first
    have hwrite : (s.write first (.exitRegion idleEnd .idle)).Ordered ↔
        s.Ordered ∧ s.lastTime first ≤ idleEnd := Context.ordered_write
    exact hwrite.trans (and_iff_left hlast)
  · rw [contextFinalize, if_neg hopen]
    cases hfirst : s.firstStream with
    | none =>
      refine ⟨Iff.rfl, by simp, fun location => ?_⟩
      exact h.inv.closed location (by simp [hfirst])
    | some first =>
      have hstreams : s.streams ≠ [] := by
        intro hempty
        simp [Context.firstStream, hempty] at hfirst
      have hgpu : s.gpuIdle = false := by
        cases hs : s.gpuIdle with
        | false => rfl
        | true => exact absurd ⟨hidle, hstreams, hs⟩ hopen
      have hmarks := hreport s h.inv hgpu
      rw [hfirst] at hmarks
      exact ⟨Iff.rfl, hmarks, hclosed s h.inv hgpu⟩

/-- With the idle region enabled, a sequence of stream creations and flushes is recorded well
exactly if each of its steps is timely. -/
theorem wellRecorded_iff (cfg : Config) (hidle : cfg.recordIdle ≠ .noIdle) (acts : List Action)
    (idleEnd : ℕ) (h : Delivered cfg acts idleEnd) :
    WellRecorded cfg acts idleEnd ↔ EachStep (act cfg) (Timely cfg) (contextCreate cfg) acts := by
  obtain ⟨future, hkept⟩ := kept_run hidle h (prefix_refl acts)
  obtain ⟨hordered, hmarks, hclosed⟩ := contextFinalize_spec hkept hidle
  have hgpu : ∀ before first, before <+: acts → (run cfg before).firstStream = some first →
      ((run cfg before).gpuIdle = true ↔ ((run cfg before).idleMarks first).head? = some true) := by
    intro before first hbefore hfirst
    obtain ⟨future', hkept'⟩ := kept_run hidle h hbefore
    obtain ⟨marks, hmarks', -⟩ := hkept'.inv.idleMarks first hfirst
    simp [hmarks']
  rw [← ordered_run_iff hidle h, ← hordered]
  constructor
  · intro hwell location
    exact (hwell.2.2 location).1
  · intro htimes
    exact ⟨hmarks, hgpu, fun location => ⟨htimes location, hclosed location⟩⟩

def pureIdle : Config where
  recordIdle := .pureIdle
  recordMemcpy := true
  recordCallsites := false
  kernelAndCounter := false
  registerTimestampCallback := true
  beginEpoch := 0
  defaultStrmId := 7
  filtered := fun _ => false

def kernelOn (streamId start stop : ℕ) : Kernel where
  streamId := streamId
  start := start
  stop := stop
  name := "saxpy"
  callsiteHash := 0
  block := (1, 1, 1)
  grid := (1, 1, 1)
  staticSharedMemory := 0
  dynamicSharedMemory := 0
  localMemoryTotal := 0
  registersPerThread := 0

def overlappingFlushes : List Action :=
  [.flush 0 0 [.kernel (kernelOn 7 10 20)], .flush 0 0 [.kernel (kernelOn 8 15 30)]]

def overlappingKernels : List Action :=
  [.flush 0 0 [.kernel (kernelOn 7 10 20), .kernel (kernelOn 8 15 30)]]

theorem wellRecorded_iff_overlapping : WellRecorded pureIdle overlappingKernels 100 ↔
      EachStep (act pureIdle) (Timely pureIdle) (contextCreate pureIdle) overlappingKernels :=
  wellRecorded_iff pureIdle (by decide) overlappingKernels 100
    ⟨⟨by decide, by decide⟩, by decide, by decide⟩

/-- The second kernel leaves at 15 the idle region that the first flush entered at 20. -/
theorem not_wellRecorded_overlapping :
    Delivered pureIdle overlappingFlushes 100 ∧ ¬ WellRecorded pureIdle overlappingFlushes 100 := by
  refine ⟨⟨⟨by decide, by decide⟩, by decide, by decide⟩, ?_⟩
  intro hwell
  have htimes : Ascends [100, 30, 15, 20, 20, 10, 10, 0] := (hwell.2.2 7).1
  simp [Ascends] at htimes

end ScoreP.Cuda
