import Mathlib.Algebra.Group.Nat.Defs
import ScoreP.Foundations.Journal

/-!
# Activity records and the idle region of a CUDA context

One CUDA context as `scorep_cupti_activity.c`, `scorep_cupti4_activity.c` and `scorep_cupti.c`
treat it: `streamGetCreate`, `writeKernel`, `writeMemcpy`, `contextFlush` and `contextFinalize`
write events to the locations of the context's streams. The idle region is written to the location
of the first stream in the context's list, from a last GPU time that the streams share.

Times of a record are those after the conversion to host time. The location of a stream goes by
the stream's id, its trace has the newest event first.
-/

namespace ScoreP.Cuda

/-! ## Settings, records and events -/

inductive RecordIdle where
  | noIdle
  | computeIdle
  | pureIdle
deriving DecidableEq

/-- What is fixed when the context's records are written. `registerTimestampCallback` is the build
with `HAVE( CUPTIACTIVITYREGISTERTIMESTAMPCALLBACK )`, in which CUPTI itself delivers host times. -/
structure Config where
  recordIdle : RecordIdle
  recordMemcpy : Bool
  recordCallsites : Bool
  kernelAndCounter : Bool
  registerTimestampCallback : Bool
  beginEpoch : ℕ
  defaultStrmId : ℕ
  filtered : String → Bool

inductive Region where
  | idle
  | kernel (name : String)
deriving DecidableEq

/-- The remote side of a memory copy: the context's `location_id` or a stream's. -/
inductive Remote where
  | context
  | stream (streamId : ℕ)
deriving DecidableEq

inductive Event where
  | enterRegion (time : ℕ) (region : Region)
  | exitRegion (time : ℕ) (region : Region)
  | parameter (time : ℕ) (name : String) (value : ℕ)
  | rmaGet (time : ℕ) (remote : Remote) (bytes : ℕ)
  | rmaPut (time : ℕ) (remote : Remote) (bytes : ℕ)
  | rmaOpCompleteBlocking (time : ℕ)
deriving DecidableEq

/-- A `CUpti_ActivityKernelType`. `callsiteHash` is what the callsite hash has for its
`correlationId`. -/
structure Kernel where
  streamId : ℕ
  start : ℕ
  stop : ℕ
  name : String
  callsiteHash : ℕ
  block : ℕ × ℕ × ℕ
  grid : ℕ × ℕ × ℕ
  staticSharedMemory : ℕ
  dynamicSharedMemory : ℕ
  localMemoryTotal : ℕ
  registersPerThread : ℕ

/-- A `CUpti_ActivityMemcpy`. `copyKindDtod`, `srcDevice` and `dstDevice` are the comparisons of
`copyKind`, `srcKind` and `dstKind` with the device kinds. -/
structure Memcpy where
  streamId : ℕ
  start : ℕ
  stop : ℕ
  copyKindDtod : Bool
  srcDevice : Bool
  dstDevice : Bool
  bytes : ℕ

inductive Record where
  | kernel (k : Kernel)
  | memcpy (m : Memcpy)

def Record.streamId : Record → ℕ
  | .kernel k => k.streamId
  | .memcpy m => m.streamId

def Record.start : Record → ℕ
  | .kernel k => k.start
  | .memcpy m => m.start

def Record.stop : Record → ℕ
  | .kernel k => k.stop
  | .memcpy m => m.stop

/-! ## The context -/

/-- A `scorep_cupti_stream`. -/
structure Stream where
  streamId : ℕ
  lastTimestamp : ℕ

/-- A `scorep_cupti_context` with its activity part and the traces of its streams' locations.
`hostStop` is `sync.host_stop`. -/
structure Context where
  streams : List Stream
  lastGpuTime : ℕ
  gpuIdle : Bool
  hostStop : ℕ
  trace : ℕ → List Event

/-- `scorep_cupti_context_create` and `scorep_cupti_activity_context_create`. -/
def contextCreate (cfg : Config) : Context where
  streams := []
  lastGpuTime := cfg.beginEpoch
  gpuIdle := true
  hostStop := 0
  trace := fun _ => []

namespace Context

def write (s : Context) (location : ℕ) (e : Event) : Context :=
  { s with trace := Function.update s.trace location (e :: s.trace location) }

def writeAll (s : Context) (location : ℕ) (events : List Event) : Context :=
  events.foldl (fun s e => s.write location e) s

/-- An event on `context->streams->scorep_location`. -/
def writeFirst (s : Context) (e : Event) : Context :=
  match s.streams.head? with
  | some stream => s.write stream.streamId e
  | none => s

def lastTimestamp (s : Context) (streamId : ℕ) : ℕ :=
  ((s.streams.find? (·.streamId = streamId)).map (·.lastTimestamp)).getD 0

def setLastTimestamp (s : Context) (streamId : ℕ) (time : ℕ) : Context :=
  { s with streams := s.streams.map fun stream =>
      if stream.streamId = streamId then { stream with lastTimestamp := time } else stream }

def leaveIdle (s : Context) (start : ℕ) : Context :=
  if s.gpuIdle = true then
    { s.writeFirst (.exitRegion start .idle) with gpuIdle := false }
  else if start > s.lastGpuTime then
    (s.writeFirst (.enterRegion s.lastGpuTime .idle)).writeFirst (.exitRegion start .idle)
  else s

def enterIdle (s : Context) : Context :=
  { s.writeFirst (.enterRegion s.lastGpuTime .idle) with gpuIdle := true }

def advanceGpuTime (s : Context) (stop : ℕ) : Context :=
  { s with lastGpuTime := if s.lastGpuTime < stop then stop else s.lastGpuTime }

end Context

/-! ## Streams -/

def streamCreate (cfg : Config) (streamId : ℕ) (s : Context) : Stream × Context :=
  let stream : Stream := ⟨streamId, cfg.beginEpoch⟩
  if s.streams = [] ∧ cfg.recordIdle ≠ .noIdle then
    (stream, { s.write streamId (.enterRegion stream.lastTimestamp .idle) with gpuIdle := true })
  else (stream, s)

/-- `scorep_cupti_stream_get_create`; the stream is then found in the list. -/
def streamGetCreate (cfg : Config) (streamId : ℕ) (s : Context) : Context :=
  if s.streams.any (·.streamId = streamId) then s
  else
    let s :=
      if s.streams = [] ∧ streamId ≠ cfg.defaultStrmId ∧ cfg.recordIdle ≠ .noIdle ∧
          cfg.recordMemcpy = true then
        let (stream, s) := streamCreate cfg cfg.defaultStrmId s
        { s with streams := [stream] }
      else s
    let (stream, s) := streamCreate cfg streamId s
    { s with streams := s.streams ++ [stream] }

/-! ## Records -/

/-- The start and stop time a record is written with, `none` where it is skipped. Only the build
without the timestamp callback looks at them. -/
def truncate (cfg : Config) (s : Context) (streamId start stop : ℕ) : Option (ℕ × ℕ) :=
  if cfg.registerTimestampCallback then some (start, stop)
  else
    let last := s.lastTimestamp streamId
    if start < last ∧ ¬ last < stop then none
    else
      let start := if start < last then last else start
      if stop < start then none
      else if s.hostStop < stop then
        if s.hostStop > start then some (start, s.hostStop) else none
      else some (start, stop)

def kernelParameters (cfg : Config) (k : Kernel) (start : ℕ) : List Event :=
  let threadsPerBlock := k.block.1 * k.block.2.1 * k.block.2.2 % 2 ^ 32
  let blocksPerGrid := k.grid.1 * k.grid.2.1 * k.grid.2.2 % 2 ^ 32
  (if cfg.recordCallsites then [.parameter start "callsite id" k.callsiteHash] else []) ++
  (if cfg.kernelAndCounter then
    [.parameter start "blocks per grid" blocksPerGrid, .parameter start "threads per block" threadsPerBlock,
     .parameter start "threads per kernel" (threadsPerBlock * blocksPerGrid % 2 ^ 32),
     .parameter start "static shared memory" k.staticSharedMemory,
     .parameter start "dynamic shared memory" k.dynamicSharedMemory,
     .parameter start "total local memory" k.localMemoryTotal,
     .parameter start "registers per thread" k.registersPerThread]
  else [])

def kernelEvents (cfg : Config) (k : Kernel) (start stop : ℕ) : List Event :=
  if cfg.filtered k.name then []
  else
    .enterRegion start (.kernel k.name) ::
      (kernelParameters cfg k start ++ [.exitRegion stop (.kernel k.name)])

def writeKernel (cfg : Config) (k : Kernel) (s : Context) : Context :=
  let s := streamGetCreate cfg k.streamId s
  match truncate cfg s k.streamId k.start k.stop with
  | none => s
  | some (start, stop) =>
    let s := s.setLastTimestamp k.streamId stop
    let s := if cfg.recordIdle ≠ .noIdle then s.leaveIdle start else s
    let s := s.writeAll k.streamId (kernelEvents cfg k start stop)
    s.advanceGpuTime stop

def memcpyEvents (m : Memcpy) (start stop : ℕ) : List Event :=
  match m.srcDevice, m.dstDevice with
  | true, true =>
    [.rmaGet start (.stream m.streamId) m.bytes, .rmaOpCompleteBlocking stop]
  | true, false => [.rmaPut start .context m.bytes, .rmaOpCompleteBlocking stop]
  | false, true => [.rmaGet start .context m.bytes, .rmaOpCompleteBlocking stop]
  | false, false => []

def writeMemcpy (cfg : Config) (m : Memcpy) (s : Context) : Context :=
  if m.copyKindDtod then s
  else
    let s := streamGetCreate cfg m.streamId s
    match truncate cfg s m.streamId m.start m.stop with
    | none => s
    | some (start, stop) =>
      let s := s.setLastTimestamp m.streamId stop
      let s :=
        if cfg.recordIdle = .pureIdle then (s.leaveIdle start).advanceGpuTime stop
        else if s.gpuIdle = false ∧ m.streamId = cfg.defaultStrmId then s.enterIdle
        else s
      s.writeAll m.streamId (memcpyEvents m start stop)

/-- `write_cupti_activity_record`. -/
def writeRecord (cfg : Config) (s : Context) : Record → Context
  | .kernel k => writeKernel cfg k s
  | .memcpy m => writeMemcpy cfg m s

/-! ## Flush and finalization -/

/-- `scorep_cupti_activity_context_flush` with the records of the completed buffers. Without the
timestamp callback it stops where no GPU time has passed, `gpuDiff = 0`. -/
def contextFlush (cfg : Config) (hostStop gpuDiff : ℕ) (records : List Record) (s : Context) : Context :=
  let s := { s with hostStop := hostStop }
  if cfg.registerTimestampCallback = false ∧ gpuDiff = 0 then s
  else
    let s := records.foldl (writeRecord cfg) s
    if s.gpuIdle = false then s.enterIdle else s

/-- `scorep_cupti_context_finalize` at the time `idleEnd`. -/
def contextFinalize (cfg : Config) (idleEnd : ℕ) (s : Context) : Context :=
  let s :=
    if cfg.recordIdle ≠ .noIdle ∧ s.streams ≠ [] ∧ s.gpuIdle = true then
      s.writeFirst (.exitRegion idleEnd .idle)
    else s
  { s with streams := [] }

/-- What happens to a context. `replaced` is a record of this context in a buffer that another
context flushes, whose synchronization data it is written with. -/
inductive Action where
  | create (streamId : ℕ)
  | flush (hostStop gpuDiff : ℕ) (records : List Record)
  | replaced (hostStop : ℕ) (record : Record)

def act (cfg : Config) (s : Context) : Action → Context
  | .create streamId => streamGetCreate cfg streamId s
  | .flush hostStop gpuDiff records => contextFlush cfg hostStop gpuDiff records s
  | .replaced hostStop record => writeRecord cfg { s with hostStop := hostStop } record

def run (cfg : Config) (acts : List Action) : Context :=
  acts.foldl (act cfg) (contextCreate cfg)

end ScoreP.Cuda
