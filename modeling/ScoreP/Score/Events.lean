import Mathlib.Algebra.GroupWithZero.Nat
import ScoreP.Foundations.FirstEntry
import ScoreP.Score.EventLists
import ScoreP.Score.Profile

/-!
# The events of the estimator

The constructor of the estimator registers an event for each list of region names, sets the sizes that
`otf2-estimator` returns, and computes the bytes of a visit of every region from the events that the region
contributes to. The events are kept under their names, so an event that is registered a second time is
lost.
-/

namespace ScoreP.Score

/-- The names of the events. `Metric` and `ProgramBegin` are followed by a number. -/
inductive EventName where
  | timestamp | enter | leave
  | callingContextEnter | callingContextLeave | callingContextSample
  | metric (numDense : ℕ)
  | parameterInt | parameterString
  | programBegin (numberOfArguments : ℕ) | programEnd
  | mpiSend | mpiIsend | mpiIsendComplete | mpiIrecvRequest | mpiRecv | mpiIrecv
  | mpiCollectiveBegin | mpiCollectiveEnd
  | commCreate | commDestroy
  | nonBlockingCollectiveRequest | nonBlockingCollectiveComplete
  | threadAcquireLock | threadReleaseLock
  | rmaPut | rmaOpCompleteBlocking | rmaOpCompleteRemote | rmaAtomic
  | rmaCollectiveBegin | rmaCollectiveEnd | rmaWaitChange | rmaRequestLock | rmaReleaseLock
  | threadFork | threadJoin | threadTeamBegin | threadTeamEnd
  | threadTaskCreate | threadTaskComplete | threadTaskSwitch
  | threadCreate | threadBegin | threadWait | threadEnd
  | bufferFlush | measurementOnOff
  | ioDestroyHandle | ioCreateHandle | ioDeleteFile | ioSeek
  | ioOperationComplete | ioOperationBegin | ioOperationIssued | ioOperationTest
  | ioDuplicateHandle | ioTryLock | ioAcquireLock | ioOperationCancelled | ioReleaseLock
deriving DecidableEq

/-- The classes derived from `SCOREP_Score_Event`. -/
inductive EventClass where
  | timestamp | enter | leave
  | callingContextEnter | callingContextLeave | callingContextSample
  | metric | parameterInt | parameterString | programBegin | programEnd
  | nameMatch (regionNames : List String) (hasTimestamp : Bool)
  | prefixMatch (regionPrefix : List String) (hasTimestamp : Bool)
deriving DecidableEq

structure Event where
  name : EventName
  kind : EventClass
  size : ℕ
deriving DecidableEq

namespace Event

def new (name : EventName) (kind : EventClass) : Event := ⟨name, kind, 0⟩

def setEventSize (event : Event) (size : ℕ) : Event :=
  match event.kind with
  | .metric => { event with size := 2 * size % 2 ^ 32 }
  | _ => { event with size := size }

def hasTimestamp (event : Event) : Bool :=
  match event.kind with
  | .timestamp => false
  | .nameMatch _ hasTimestamp => hasTimestamp
  | .prefixMatch _ hasTimestamp => hasTimestamp
  | _ => true

def contributes (profile : Profile) (region : Fin profile.numberOfRegions) (event : Event) : Bool :=
  match event.kind with
  | .timestamp | .callingContextSample | .parameterInt | .parameterString => false
  | .enter | .leave => !(profile.hasHits || profile.omitInTraceEnterLeaveEvents region)
  | .callingContextEnter | .callingContextLeave => !(!profile.hasHits || profile.isDynamicRegion region)
  | .metric => !profile.isDynamicRegion region
  | .programBegin | .programEnd => profile.isRootRegion region &&
      profile.getRegionParadigm region ≠ "cuda" && profile.getRegionParadigm region ≠ "opencl"
  | .nameMatch regionNames _ => regionNames.contains (profile.getRegionName region)
  | .prefixMatch regionPrefix _ => regionPrefix.any (startsWith (profile.getRegionName region))

end Event

/-! ## Registrations -/

variable (profile : Profile) (denseNum : ℕ)

def generalEvents : List Event :=
  [.new .timestamp .timestamp, .new .enter .enter, .new .leave .leave] ++ (if profile.hasHits then
      [.new .callingContextEnter .callingContextEnter, .new .callingContextLeave .callingContextLeave,
        .new .callingContextSample .callingContextSample]
    else []) ++
    (if 0 < denseNum then [.new (.metric denseNum) .metric] else []) ++
    [.new .parameterInt .parameterInt, .new .parameterString .parameterString] ++
    (if 0 ≤ profile.getNumberOfProgramArguments then
      [.new (.programBegin profile.getNumberOfProgramArguments.toNat) .programBegin,
        .new .programEnd .programEnd]
    else [])

def listEvents : List Event :=
  [.new .mpiSend (.nameMatch mpiSend true), .new .mpiIsend (.nameMatch mpiIsend true),
    .new .mpiIsendComplete (.nameMatch mpiIsendcomplete true),
    .new .mpiIrecvRequest (.nameMatch mpiIrecvrequest true),
    .new .mpiRecv (.nameMatch mpiRecv true),
    .new .mpiIrecv (.nameMatch mpiIrecv true),
    .new .mpiCollectiveBegin (.nameMatch mpiCollective false),
    .new .mpiCollectiveEnd (.nameMatch mpiCollective true),
    .new .commCreate (.nameMatch commCreate true),
    .new .commDestroy (.nameMatch commDestroy true),
    .new .nonBlockingCollectiveRequest (.nameMatch mpiNonBlockingCollective false),
    .new .nonBlockingCollectiveComplete (.nameMatch mpiNonBlockingCollective true),
    .new .threadAcquireLock (.nameMatch threadAcquirelock true),
    .new .threadReleaseLock (.nameMatch threadReleaselock true),
    .new .rmaPut (.nameMatch rmaOp true),
    .new .rmaOpCompleteBlocking (.nameMatch rmaOp true),
    .new .rmaOpCompleteRemote (.nameMatch rmaOpCompleteRemote true),
    .new .rmaAtomic (.nameMatch rmaAtomic false),
    .new .rmaOpCompleteBlocking (.nameMatch rmaAtomic true),
    .new .rmaCollectiveBegin (.nameMatch rmaCollective true),
    .new .rmaCollectiveEnd (.nameMatch rmaCollective true),
    .new .rmaWaitChange (.nameMatch rmaWaitChange false),
    .new .rmaRequestLock (.nameMatch rmaLock false),
    .new .rmaReleaseLock (.nameMatch rmaReleaseLock false),
    .new .threadFork (.prefixMatch threadFork true),
    .new .threadJoin (.prefixMatch threadJoin true),
    .new .threadTeamBegin (.prefixMatch threadTeam true),
    .new .threadTeamEnd (.prefixMatch threadTeam true),
    .new .threadTaskCreate (.prefixMatch threadTaskCreate false),
    .new .threadTaskComplete (.prefixMatch threadTaskCreate true),
    .new .threadTaskSwitch (.prefixMatch threadTaskSwitch true),
    .new .threadCreate (.prefixMatch threadCreateWaitCreate true),
    .new .threadBegin (.prefixMatch threadCreateWaitBegin true),
    .new .threadWait (.prefixMatch threadCreateWaitWait true),
    .new .threadEnd (.prefixMatch threadCreateWaitEnd true),
    .new .bufferFlush (.prefixMatch measurementBufferFlush true),
    .new .measurementOnOff (.prefixMatch measurementOnOff false),
    .new .ioDestroyHandle (.nameMatch ioCreate true),
    .new .ioCreateHandle (.nameMatch ioCreate true),
    .new .ioDestroyHandle (.nameMatch ioDelete true),
    .new .ioDeleteFile (.nameMatch ioDelete true),
    .new .ioSeek (.nameMatch ioSeek true),
    .new .ioOperationComplete (.nameMatch ioBlockingTransfer true),
    .new .ioOperationBegin (.nameMatch ioBlockingTransfer true),
    .new .ioOperationIssued (.nameMatch ioNonblockingTransferBegin true),
    .new .ioOperationBegin (.nameMatch ioNonblockingTransferBegin true),
    .new .ioOperationComplete (.nameMatch ioNonblockingTransferEnd true),
    .new .ioOperationTest (.nameMatch ioNonblockingTransferEnd true),
    .new .ioDestroyHandle (.nameMatch ioClose true),
    .new .ioDuplicateHandle (.nameMatch ioDuplicate true),
    .new .ioDestroyHandle (.nameMatch ioDuplicate true),
    .new .ioTryLock (.nameMatch ioAcquireLock true),
    .new .ioAcquireLock (.nameMatch ioAcquireLock true),
    .new .ioOperationCancelled (.nameMatch ioOperationCancelled true),
    .new .ioReleaseLock (.nameMatch ioReleaseLock true)]

def registrations : List Event :=
  generalEvents profile denseNum ++ listEvents

/-- `m_events`: `registerEvent` inserts an event unless there is one with its name. -/
def registeredEvents : List Event :=
  Foundations.FirstEntry.build Event.name (registrations profile denseNum)

/-! ## Sizes -/

def getEventSize (events : List Event) (name : EventName) : ℕ :=
  match events.find? fun event => event.name = name with
  | some event => event.size
  | none => 0

def setEventSize (events : List Event) (name : EventName) (size : ℕ) : List Event :=
  events.map fun event => if event.name = name then event.setEventSize size else event

/-- The lines that `otf2-estimator` returns. -/
abbrev EstimatorOutput := List (EventName × ℕ)

/-- The sizes are `uint64_t` in the lines and `uint32_t` in the events. -/
def calculateEventSizes (events : List Event) (output : EstimatorOutput) : List Event :=
  output.foldl (fun events line => setEventSize events line.1 (line.2 % 2 ^ 32)) events

/-- The events at the end of the constructor. One visit to `MeasurementOnOff` corresponds to two events, and
their timestamps are counted in the size. -/
def estimatorEvents (output : EstimatorOutput) : List Event :=
  let events := calculateEventSizes (registeredEvents profile denseNum) output
  setEventSize events .measurementOnOff
    (2 * (getEventSize events .measurementOnOff + getEventSize events .timestamp) % 2 ^ 32)

def bytesPerVisit (events : List Event) (region : Fin profile.numberOfRegions) : ℕ :=
  (events.map fun event =>
    if event.contributes profile region then
      event.size + (if event.hasTimestamp then getEventSize events .timestamp else 0)
    else 0).sum

/-- `m_bytes_per_visits`: visits of sampled regions are not recorded in the trace. -/
def bytesPerVisits (output : EstimatorOutput) (region : Fin profile.numberOfRegions) : ℕ :=
  if profile.getRegionParadigm region ≠ "sampling" then
    bytesPerVisit profile (estimatorEvents profile denseNum output) region
  else 0

def bytesPerNumParameter (output : EstimatorOutput) : ℕ :=
  (getEventSize (estimatorEvents profile denseNum output) .parameterInt +
    getEventSize (estimatorEvents profile denseNum output) .timestamp) % 2 ^ 32

def bytesPerStrParameter (output : EstimatorOutput) : ℕ :=
  (getEventSize (estimatorEvents profile denseNum output) .parameterString +
    getEventSize (estimatorEvents profile denseNum output) .timestamp) % 2 ^ 32

def bytesPerHit (output : EstimatorOutput) : ℕ :=
  if profile.hasHits then
    (getEventSize (estimatorEvents profile denseNum output) .callingContextSample +
      getEventSize (estimatorEvents profile denseNum output) .timestamp) % 2 ^ 32
  else 0

end ScoreP.Score
