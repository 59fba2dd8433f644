import Mathlib.Data.List.Perm.Basic

/-!
# The data of target regions and device operations

The host callbacks of `scorep_ompt_events_device_target.inc.c`, `..._data_op.inc.c` and
`..._submit.inc.c` for devices with device tracing, and `device_tracing_evaluate_buffer`, share an
object for each target region and each operation outside of one. A callback finds it through the
runtime's `target_data->value`, a record through the copy of this value in its `target_id`; the
object is freed by the record that brings `processedRecords` up to `numRecords`.

Every callback and every record of a buffer is one step. `faults` lists what the code must not do:
access or free an object that is freed, free one too early, miss one, or take up an entry of the
record array that was never written.
-/

namespace ScoreP.Ompt.Target

open Function

/-! ## Objects, records and cells -/

/-- The types of a data operation. `associate` stands for all that `get_source_device_num` finds no
device for. -/
inductive OpType where
  | transfer
  | alloc
  | delete
  | associate
deriving DecidableEq

/-- `get_source_device_num` finds a device; without one the callback is fatal. -/
def OpType.hasDevice : OpType → Bool
  | .associate => false
  | _ => true

/-- `get_target_data_op_region` gives a valid region. -/
def OpType.hasRegion : OpType → Bool
  | .associate => false
  | _ => true

inductive RecordKind where
  | dataOp (optype : OpType)
  | submit
deriving DecidableEq

/-- A `scorep_ompt_target_data_t`; `targetId` is `none` for `ompt_id_none`. `active` is no field of
it but tells whether its target region has begun and not yet ended. -/
structure TargetData where
  targetId : Option ℕ
  numRecords : ℕ
  processedRecords : ℕ
  active : Bool
deriving DecidableEq

/-- What the runtime is doing with an `ompt_data_t`: nothing, an operation outside of a target
region, or a target region with a number of operations that have begun and not ended. -/
inductive Phase where
  | idle
  | operation
  | region (operations : ℕ)
deriving DecidableEq

/-- An `ompt_data_t`. Its value is an object or `ompt_id_none`. -/
structure Cell where
  value : Option ℕ
  phase : Phase
deriving DecidableEq

/-- A record that the device has still to write; `targetId` is the value of the cell. -/
structure Issue where
  targetId : Option ℕ
  kind : RecordKind
deriving DecidableEq

/-- An `ompt_record_ompt_t`; `time` is `none` for `ompt_time_none`. -/
structure Record where
  targetId : Option ℕ
  kind : RecordKind
  time : Option ℕ
deriving DecidableEq

def Record.issue (r : Record) : Issue := ⟨r.targetId, r.kind⟩

inductive Fault where
  | accessFreed (object : ℕ)
  | freedTwice (object : ℕ)
  | freedEarly (object : ℕ)
  | noTargetData
  | tooManyRecords (object : ℕ)
  | unwrittenEntry
deriving DecidableEq

/-- The adapter's objects, the runtime's cells, and the records on their way. `frees` counts how
often an object has been freed. -/
structure State where
  data : ℕ → TargetData
  allocated : ℕ
  frees : ℕ → ℕ
  uniqueId : ℕ
  cells : ℕ → Cell
  issued : List Issue
  buffers : List (List Record)
  faults : List Fault

def initial : State where
  data := fun _ => ⟨none, 0, 0, false⟩
  allocated := 0
  frees := fun _ => 0
  uniqueId := 1
  cells := fun _ => ⟨none, .idle⟩
  issued := []
  buffers := []
  faults := []

namespace State

def fault (s : State) (f : Fault) : State :=
  { s with faults := s.faults ++ [f] }

def setPhase (s : State) (cell : ℕ) (phase : Phase) : State :=
  { s with cells := update s.cells cell { s.cells cell with phase := phase } }

def setValue (s : State) (cell : ℕ) (value : Option ℕ) : State :=
  { s with cells := update s.cells cell { s.cells cell with value := value } }

def access (s : State) (object : ℕ) : State :=
  if s.frees object = 0 then s else s.fault (.accessFreed object)

def modify (s : State) (object : ℕ) (f : TargetData → TargetData) : State :=
  let s := s.access object
  { s with data := update s.data object (f (s.data object)) }

/-- A new object, and `set_target_data` for it. -/
def allocate (s : State) (cell : ℕ) (d : TargetData) : State :=
  { s with
    data := update s.data s.allocated d
    allocated := s.allocated + 1
    cells := update s.cells cell { s.cells cell with value := some s.allocated } }

/-- The `SCOREP_Memory_AlignedFree` of an object. -/
def release (s : State) (object : ℕ) : State :=
  let s := if s.frees object = 0 then s else s.fault (.freedTwice object)
  let d := s.data object
  let s :=
    if d.active = true ∨ d.processedRecords < d.numRecords then s.fault (.freedEarly object) else s
  { s with frees := update s.frees object (s.frees object + 1) }

def issue (s : State) (targetId : Option ℕ) (kind : RecordKind) : State :=
  { s with issued := s.issued ++ [⟨targetId, kind⟩] }

end State

/-! ## The callbacks -/

def Phase.beginOperation : Phase → Phase
  | .region operations => .region (operations + 1)
  | _ => .operation

def Phase.endOperation : Phase → Phase
  | .region operations => .region (operations - 1)
  | _ => .idle

/-- `target_emi_device_tracing` for `ompt_scope_begin`. -/
def targetBegin (cell : ℕ) (s : State) : State :=
  let s := { s.allocate cell ⟨some s.uniqueId, 0, 0, true⟩ with uniqueId := s.uniqueId + 1 }
  s.setPhase cell (.region 0)

/-- `target_emi_device_tracing` for `ompt_scope_end`. -/
def targetEnd (cell : ℕ) (s : State) : State :=
  match (s.cells cell).value with
  | none => s.fault .noTargetData
  | some object =>
    let s := s.modify object fun d => { d with active := false }
    s.setPhase cell .idle

/-- `target_data_op_emi_device_tracing` once the object is known. -/
def dataOpCount (cell : ℕ) (optype : OpType) (object : ℕ) (s : State) : State :=
  let s := s.access object
  if optype.hasRegion = false then
    if (s.data object).targetId = none then (s.release object).setValue cell none else s
  else
    let s := s.modify object fun d => { d with numRecords := d.numRecords + 1 }
    s.issue (s.cells cell).value (.dataOp optype)

/-- `target_data_op_emi_device_tracing` for `ompt_scope_begin`. Without an object, or with one of an
earlier operation outside of a target region, there is a new one. -/
def dataOpBegin (cell : ℕ) (optype : OpType) (s : State) : State :=
  let standalone : TargetData := ⟨none, 0, 0, false⟩
  let t :=
    match (s.cells cell).value with
    | none => dataOpCount cell optype s.allocated (s.allocate cell standalone)
    | some object =>
      let t := s.access object
      if (s.data object).targetId = none then
        dataOpCount cell optype t.allocated (t.allocate cell standalone)
      else dataOpCount cell optype object t
  t.setPhase cell (s.cells cell).phase.beginOperation

/-- `target_data_op_emi_device_tracing` for `ompt_scope_end`. -/
def dataOpEnd (cell : ℕ) (optype : OpType) (s : State) : State :=
  let t :=
    match (s.cells cell).value with
    | none => s.fault .noTargetData
    | some object =>
      let t := s.access object
      if optype.hasRegion = false ∧ (s.data object).targetId = none then
        (t.release object).setValue cell none
      else t
  t.setPhase cell (s.cells cell).phase.endOperation

/-- `scorep_ompt_cb_target_submit_emi` for `ompt_scope_begin`. -/
def submitBegin (cell : ℕ) (s : State) : State :=
  let t :=
    match (s.cells cell).value with
    | none => s
    | some object =>
      (s.modify object fun d => { d with numRecords := d.numRecords + 1 }).issue
        (s.cells cell).value .submit
  t.setPhase cell (s.cells cell).phase.beginOperation

/-- `scorep_ompt_cb_target_submit_emi` for `ompt_scope_end`. -/
def submitEnd (cell : ℕ) (s : State) : State :=
  let t :=
    match (s.cells cell).value with
    | none => s
    | some object => s.access object
  t.setPhase cell (s.cells cell).phase.endOperation

/-! ## Buffers -/

/-- The first part of `device_tracing_evaluate_buffer`: `order` are the records with a time, sorted
by it. The array has room for all records; sorting takes up the entries that were not written. -/
def evaluateBuffer (records order : List Record) (s : State) : State :=
  let s := if records.any (·.time = none) then s.fault .unwrittenEntry else s
  { s with buffers := s.buffers ++ [order] }

/-- One round of the last loop of `device_tracing_evaluate_buffer`. -/
def handleRecord (r : Record) (s : State) : State :=
  match r.targetId with
  | none => s.fault .noTargetData
  | some object =>
    let s := s.access object
    -- the first `free_target_data` sets the record's `target_id` to `ompt_id_none`
    let first : State × Option ℕ :=
      if r.kind = .dataOp .transfer ∧ (s.data object).targetId = none then
        (s.release object, none)
      else (s, some object)
    let s := first.1.modify object fun d => { d with processedRecords := d.processedRecords + 1 }
    let d := s.data object
    let s := if d.processedRecords > d.numRecords then s.fault (.tooManyRecords object) else s
    if d.processedRecords = d.numRecords then
      match first.2 with
      | none => s
      | some object => s.release object
    else s

/-! ## Steps -/

inductive Action where
  | targetBegin (cell : ℕ)
  | targetEnd (cell : ℕ)
  | dataOpBegin (cell : ℕ) (optype : OpType)
  | dataOpEnd (cell : ℕ) (optype : OpType)
  | submitBegin (cell : ℕ)
  | submitEnd (cell : ℕ)
  | clear (cell : ℕ)
  | complete (records order : List Record) (rest : List Issue)
  | handle (buffer : ℕ)

/-- The runtime begins a construct on a cell that has none, ends what has begun, submits kernels
in target regions, clears the value of an idle cell, and delivers every issued record once. -/
def step (s : State) : Action → Option State
  | .targetBegin cell => if (s.cells cell).phase = .idle then some (targetBegin cell s) else none
  | .targetEnd cell => if (s.cells cell).phase = .region 0 then some (targetEnd cell s) else none
  | .dataOpBegin cell optype =>
    if (s.cells cell).phase ≠ .operation ∧ optype.hasDevice = true then
      some (dataOpBegin cell optype s)
    else none
  | .dataOpEnd cell optype =>
    if (s.cells cell).phase ≠ .idle ∧ (s.cells cell).phase ≠ .region 0 ∧ optype.hasDevice = true then
      some (dataOpEnd cell optype s)
    else none
  | .submitBegin cell =>
    match (s.cells cell).phase with
    | .region _ => some (submitBegin cell s)
    | _ => none
  | .submitEnd cell =>
    match (s.cells cell).phase with
    | .region (_ + 1) => some (submitEnd cell s)
    | _ => none
  | .clear cell =>
    if (s.cells cell).phase = .idle then some (s.setValue cell none) else none
  | .complete records order rest =>
    if s.issued.Perm (records.map Record.issue ++ rest) ∧ order.Perm (records.filter (·.time ≠ none)) ∧
        order.Pairwise (fun r r' => r.time.getD 0 ≤ r'.time.getD 0) then
      some (evaluateBuffer records order { s with issued := rest })
    else none
  | .handle buffer =>
    match s.buffers[buffer]? with
    | some (r :: rest) => some (handleRecord r { s with buffers := s.buffers.set buffer rest })
    | _ => none

end ScoreP.Ompt.Target
