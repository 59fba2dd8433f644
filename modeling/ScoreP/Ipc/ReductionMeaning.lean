import ScoreP.Foundations.Binary64
import ScoreP.Ipc.ShmemReductions

/-!
# What the reductions over SHMEM compute

`ReductionCall.deliver` is the reduction of the elements in the datatype of the call. A call meets the claim
of its name when its work array is large enough and every processing element has what is delivered
(`ReductionCall.Meets`). Two things go wrong. `get_pwork` shrinks the work array and never lets it grow
(`WorkFits`). And the routine of another type is called: bytes in pairs, unsigned numbers as signed ones,
doubles as integers (`Sound`). A sequence of calls meets the claim, whatever the buffers hold, exactly when
all its calls avoid both (`runMeets_iff_allFine`).
-/

namespace ScoreP.Ipc

open Foundations List
open Foundations.Region
open Foundations.Reduction (reducedMemory)

def Datatype.less (datatype : Datatype) (x y : ℕ) : Bool :=
  match datatype with
  | .byte | .unsignedChar | .unsigned | .uint32T | .uint64T => x < y
  | .char | .int | .int32T | .int64T => toSigned datatype.sizeof x < toSigned datatype.sizeof y
  | .double => Binary64.less x y

def Datatype.combine (datatype : Datatype) (operation : Operation) (x y : ℕ) : ℕ :=
  match operation with
  | .band => x &&& y
  | .bor => x ||| y
  | .min => if datatype.less y x then y else x
  | .max => if datatype.less x y then y else x
  | .sum => if datatype = .double then Binary64.add x y else (x + y) % 256 ^ datatype.sizeof

def Datatype.reductionType : Datatype → ReductionType
  | .byte | .char | .unsignedChar => .short
  | .int | .unsigned | .int32T | .uint32T => .int
  | .int64T | .uint64T | .double => .longlong

namespace ReductionCall

def deliver (size : ℕ) (sendbuf recvbuf : ℕ → ℕ → Byte) (call : ReductionCall) (pe : ℕ) : ℕ → Byte :=
  if call.root.getD pe = pe then
    write (recvbuf pe) 0
      (read (reducedMemory (call.datatype.combine call.operation) call.datatype.sizeof size sendbuf) 0
        (call.count * call.datatype.sizeof))
  else recvbuf pe

def reductionType (call : ReductionCall) : ReductionType :=
  call.datatype.reductionType

def nreduce (call : ReductionCall) : ℕ :=
  if call.datatype.isOneByte then ceil call.count 2 else call.count

/-- A routine is called: `SCOREP_IpcGroup_Reduce` returns early when there are no elements. -/
def Reduces (call : ReductionCall) : Prop :=
  call.root = none ∨ call.count ≠ 0

instance (call : ReductionCall) : Decidable call.Reduces :=
  inferInstanceAs (Decidable (_ ∨ _))

def Legal (size : ℕ) (call : ReductionCall) : Prop :=
  ∀ root, call.root = some root → root < size

def Fits (call : ReductionCall) : Prop :=
  (if call.datatype.isOneByte then roundUpTo call.count 2 else call.count) * call.datatype.sizeof ≤ bufferSize

instance (call : ReductionCall) : Decidable call.Fits :=
  inferInstanceAs (Decidable (_ ≤ _))

variable (library : ReductionLibrary) (size : ℕ)

def Meets (sendbuf recvbuf : ℕ → ℕ → Byte) (call : ReductionCall)
    (result : (ℕ → ℕ → Byte) × ReductionState) : Prop :=
  (call.Reduces → library.requiredWork call.reductionType call.nreduce ≤ result.2.currentPworkSize) ∧
    ∀ pe < size, result.1 pe = call.deliver size sendbuf recvbuf pe

def workAfter (call : ReductionCall) (currentPworkSize : ℕ) : ℕ :=
  if call.Reduces then
    match call.reductionType with
    | .short | .int => getPwork call.reductionType.sizeof call.nreduce currentPworkSize
    | .longlong => currentPworkSize
  else currentPworkSize

/-- The work array is large enough: one that `get_pwork` has cut to the size of the call needs to have been
as large before, and the library must not require more. -/
def WorkFits (call : ReductionCall) (currentPworkSize : ℕ) : Prop :=
  call.Reduces →
    match call.reductionType with
    | .short | .int => library.minWrkdataSize ≤ call.nreduce / 2 + 1 ∧
        (call.nreduce / 2 + 1) * call.reductionType.sizeof ≤ currentPworkSize
    | .longlong => library.requiredWork .longlong call.count ≤ currentPworkSize

def Sound (call : ReductionCall) : Prop :=
  size ≤ 1 ∨ call.count = 0 ∨
    match call.datatype, call.operation with
    | _, .band | _, .bor => True
    | .byte, .sum | .char, .sum | .unsignedChar, .sum => call.count ≤ 1
    | .unsigned, .sum | .uint32T, .sum | .uint64T, .sum => True
    | .int, _ | .int32T, _ | .int64T, _ => True
    | _, _ => False

variable {library size} {call : ReductionCall} {sendbuf recvbuf : ℕ → ℕ → Byte} {state : ReductionState}

/-! ## One call -/

def source (call : ReductionCall) (sendbuf : ℕ → ℕ → Byte) (state : ReductionState) (pe : ℕ) : ℕ → Byte :=
  memcpy (state.buffers pe).symmetricBufferA 0 (sendbuf pe) 0 (call.count * call.datatype.sizeof)

def target (library : ReductionLibrary) (size : ℕ) (call : ReductionCall) (sendbuf : ℕ → ℕ → Byte)
    (state : ReductionState) : ℕ → ℕ → Byte :=
  library.toAll call.reductionType call.operation call.nreduce size
    (call.workAfter state.currentPworkSize) (fun pe => (state.buffers pe).symmetricBufferB)
    (call.source sendbuf state)

def stateAfter (library : ReductionLibrary) (size : ℕ) (call : ReductionCall) (sendbuf : ℕ → ℕ → Byte)
    (state : ReductionState) : ReductionState :=
  ⟨call.workAfter state.currentPworkSize,
    fun pe => ⟨call.source sendbuf state pe, call.target library size sendbuf state pe⟩⟩

theorem reduction_eq (library : ReductionLibrary) (size : ℕ) (sendbuf : ℕ → ℕ → Byte)
    (state : ReductionState) (hfits : call.Fits) (hreduces : call.Reduces) :
    reduction library size call.datatype call.operation sendbuf state call.count =
      some (call.stateAfter library size sendbuf state) := by
  obtain ⟨datatype, operation, count, root⟩ := call
  have hcheck := Nat.not_lt_of_le hfits
  rw [reduction, if_neg hcheck]
  cases datatype <;> simp only [stateAfter, target, workAfter, if_pos hreduces] <;> rfl

theorem perform_reduces (hfits : call.Fits) (hreduces : call.Reduces) :
    call.perform library size sendbuf recvbuf state = some (fun pe => if call.root.getD pe = pe then
            memcpy (recvbuf pe) 0 (call.target library size sendbuf state pe) 0
              (call.count * call.datatype.sizeof) else recvbuf pe,
        call.stateAfter library size sendbuf state) := by
  have hreduction := reduction_eq library size sendbuf state hfits hreduces
  obtain ⟨datatype, operation, count, root⟩ := call
  cases root with
  | none =>
    simp only [perform, allreduce]
    rw [hreduction]
    simp [stateAfter]
  | some root =>
    have hcount : count ≠ 0 := hreduces.resolve_left (Option.some_ne_none root)
    simp only [perform, Ipc.reduce, if_neg hcount]
    rw [hreduction]
    simp [stateAfter, eq_comm]

theorem perform_skips (hreduces : ¬ call.Reduces) :
    call.perform library size sendbuf recvbuf state = some (recvbuf, state) := by
  obtain ⟨datatype, operation, count, root⟩ := call
  cases root with
  | none => exact absurd (Or.inl rfl) hreduces
  | some root =>
    have hcount : count = 0 := by
      by_contra hne
      exact hreduces (Or.inr hne)
    simp only [perform, Ipc.reduce, if_pos hcount]

theorem getPwork_eq (size count currentPworkSize : ℕ) :
    getPwork size count currentPworkSize = min ((count / 2 + 1) * size) currentPworkSize := by
  rw [getPwork]
  split <;> omega

theorem workFits_iff (hreduces : call.Reduces) (currentPworkSize : ℕ) :
    library.requiredWork call.reductionType call.nreduce ≤ call.workAfter currentPworkSize ↔
      call.WorkFits library currentPworkSize := by
  rw [ReductionLibrary.requiredWork, workAfter, if_pos hreduces, WorkFits]
  have hshrunk : ∀ (least w : ℕ), 0 < w →
      (max (call.nreduce / 2 + 1) least * w ≤ getPwork w call.nreduce currentPworkSize ↔
        least ≤ call.nreduce / 2 + 1 ∧ (call.nreduce / 2 + 1) * w ≤ currentPworkSize) := by
    intro least w hw
    rw [getPwork_eq, Nat.le_min, Nat.mul_le_mul_right_iff hw, Nat.max_le]
    constructor
    · rintro ⟨⟨-, hleast⟩, hfits⟩
      rw [Nat.max_eq_left hleast] at hfits
      exact ⟨hleast, hfits⟩
    · rintro ⟨hleast, hfits⟩
      rw [Nat.max_eq_left hleast]
      exact ⟨⟨Nat.le_refl _, hleast⟩, hfits⟩
  obtain ⟨datatype, operation, count, root⟩ := call
  cases datatype <;> simp [reductionType, Datatype.reductionType, hreduces]
  all_goals first | exact hshrunk _ _ (by decide) | rfl

theorem le_nreduce (call : ReductionCall) :
    call.count * call.datatype.sizeof ≤ call.nreduce * call.reductionType.sizeof := by
  obtain ⟨datatype, operation, count, root⟩ := call
  have hle : count * 1 ≤ ceil count 2 * 2 := by
    rw [ceil]
    split <;> omega
  cases datatype <;> first | exact hle | exact Nat.le_refl _

theorem read_target (hlibrary : library.Specified)
    (hwork : library.requiredWork call.reductionType call.nreduce ≤ call.workAfter state.currentPworkSize)
    {pe : ℕ} (hpe : pe < size) :
    read (call.target library size sendbuf state pe) 0 (call.count * call.datatype.sizeof) =
      read (reducedMemory (combineSigned call.reductionType.sizeof call.operation)
        call.reductionType.sizeof size (call.source sendbuf state)) 0 (call.count * call.datatype.sizeof) := by
  rw [target, hlibrary.toAll _ _ _ _ _ _ _ hwork pe hpe]
  apply read_write_part
  rw [Nat.zero_add]
  exact le_nreduce call

/-! ## Elements -/

theorem source_cell {k : ℕ} (hk : k < call.count * call.datatype.sizeof) (pe : ℕ) :
    call.source sendbuf state pe k = sendbuf pe k := by
  rw [source, memcpy, write_zero_apply, getElem?_read hk, Option.getD_some, Nat.zero_add]

theorem reducedMemory_source {c : ℕ → ℕ → ℕ} {k : ℕ} (hpos : 0 < size)
    (hk : k < call.count * call.datatype.sizeof) :
    reducedMemory c call.datatype.sizeof size (call.source sendbuf state) k =
      reducedMemory c call.datatype.sizeof size sendbuf k := by
  apply Reduction.reducedMemory_congr hpos
  intro i _
  apply read_write_part
  rw [← Nat.succ_mul]
  exact Nat.mul_le_mul_right _ (Nat.div_lt_of_lt_mul (Nat.mul_comm call.count _ ▸ hk))

theorem sizeof_reductionType (hone : call.datatype.isOneByte = false) :
    call.reductionType.sizeof = call.datatype.sizeof := by
  obtain ⟨datatype, operation, count, root⟩ := call
  cases datatype <;> first | rfl | exact absurd hone.symm Bool.false_ne_true

theorem combine_of_sound (hsound : call.Sound size) (hsize : 1 < size) (hcount : call.count ≠ 0)
    (hone : call.datatype.isOneByte = false) :
    combineSigned call.datatype.sizeof call.operation = call.datatype.combine call.operation := by
  have hcase := (hsound.resolve_left (Nat.not_le_of_lt hsize)).resolve_left hcount
  obtain ⟨datatype, operation, count, root⟩ := call
  funext x y
  cases datatype <;> cases operation <;> first
    | rfl
    | exact hcase.elim
    | exact absurd hone.symm Bool.false_ne_true
    | simp [combineSigned, Datatype.combine, Datatype.less]

theorem reducedMemory_bytes (hsound : call.Sound size) (hsize : 1 < size)
    (hone : call.datatype.isOneByte = true) (m : ℕ → ℕ → Byte) {k : ℕ} (hk : k < call.count) :
    reducedMemory (combineSigned 2 call.operation) 2 size m k =
      reducedMemory (call.datatype.combine call.operation) 1 size m k := by
  have hcount : call.count ≠ 0 := Nat.ne_zero_of_lt hk
  have hcase := (hsound.resolve_left (Nat.not_le_of_lt hsize)).resolve_left hcount
  have hsizeof := sizeof_of_isOneByte hone
  obtain ⟨datatype, operation, count, root⟩ := call
  have hdouble : datatype ≠ .double := by
    rintro rfl
    exact absurd hone Bool.false_ne_true
  apply Reduction.reducedMemory_byte Nat.two_pos
  intro a b
  cases operation with
  | band => exact Reduction.and_byte a b (k % 2)
  | bor => exact Reduction.or_byte a b (k % 2)
  | sum =>
    have hle : count ≤ 1 := by
      cases datatype <;> first | exact hcase | exact absurd hone Bool.false_ne_true
    have hzero : k % 2 = 0 := by
      simp only at hk
      omega
    rw [hzero, Nat.pow_zero, Nat.div_one, Nat.div_one, Nat.div_one, combineSigned, Datatype.combine,
      if_neg hdouble, hsizeof]
    omega
  | min => cases datatype <;> first | exact hcase.elim | exact absurd hone Bool.false_ne_true
  | max => cases datatype <;> first | exact hcase.elim | exact absurd hone Bool.false_ne_true

theorem reducedMemory_of_sound (hsound : call.Sound size) (hpos : 0 < size) {k : ℕ}
    (hk : k < call.count * call.datatype.sizeof) :
    reducedMemory (combineSigned call.reductionType.sizeof call.operation) call.reductionType.sizeof size
        (call.source sendbuf state) k =
      reducedMemory (call.datatype.combine call.operation) call.datatype.sizeof size sendbuf k := by
  have hwide : 0 < call.reductionType.sizeof := by
    cases call.reductionType <;> decide
  have hwide' : 0 < call.datatype.sizeof := by
    cases call.datatype <;> decide
  rcases Nat.lt_or_ge 1 size with hsize | hsize
  · have hcount : call.count ≠ 0 := by
      intro hzero
      rw [hzero, Nat.zero_mul] at hk
      exact Nat.not_lt_zero k hk
    have hsource : reducedMemory (call.datatype.combine call.operation) call.datatype.sizeof size
        (call.source sendbuf state) k =
        reducedMemory (call.datatype.combine call.operation) call.datatype.sizeof size sendbuf k :=
      reducedMemory_source hpos hk
    rw [← hsource]
    cases hone : call.datatype.isOneByte with
    | true =>
      have hshort : call.reductionType.sizeof = 2 := by
        rw [reductionType]
        cases hdatatype : call.datatype <;> rw [hdatatype] at hone <;>
          first | rfl | exact absurd hone Bool.false_ne_true
      rw [sizeof_of_isOneByte hone, Nat.mul_one] at hk
      rw [hshort, sizeof_of_isOneByte hone]
      exact reducedMemory_bytes hsound hsize hone _ hk
    | false =>
      rw [sizeof_reductionType hone, combine_of_sound hsound hsize hcount hone]
  · rw [Reduction.reducedMemory_of_le_one hwide hsize, Reduction.reducedMemory_of_le_one hwide' hsize]
    exact source_cell hk 0

/-! ## Elements of another type -/

def startingWith (bytes : List Byte) : ℕ → Byte := fun k =>
  bytes[k]?.getD 0

def contents (first second others : List Byte) : ℕ → ℕ → Byte
  | 0 => startingWith first
  | 1 => startingWith second
  | _ => startingWith others

def wordAround (w : ℕ) (bytes : List Byte) (k : ℕ) : ℕ :=
  Reduction.word w (startingWith bytes) (k / w)

theorem reducedMemory_contents {c : ℕ → ℕ → ℕ} {w k : ℕ} {first second others : List Byte} (hsize : 1 < size)
    (h : c (c (wordAround w first k) (wordAround w second k)) (wordAround w others k) =
      c (wordAround w first k) (wordAround w second k)) :
    reducedMemory c w size (contents first second others) k =
      BitVec.ofNat 8 (c (wordAround w first k) (wordAround w second k) / 256 ^ (k % w)) := by
  rw [reducedMemory, Reduction.reduce_first_two hsize]
  · rfl
  · intro i hi
    obtain ⟨n, rfl⟩ := Nat.exists_eq_add_of_le' hi
    exact h

structure Differs (datatype : Datatype) (operation : Operation) (first second others : List Byte) (k : ℕ) :
    Prop where
  routine : combineSigned datatype.reductionType.sizeof operation
      (combineSigned datatype.reductionType.sizeof operation
        (wordAround datatype.reductionType.sizeof first k)
        (wordAround datatype.reductionType.sizeof second k))
      (wordAround datatype.reductionType.sizeof others k) =
    combineSigned datatype.reductionType.sizeof operation
      (wordAround datatype.reductionType.sizeof first k) (wordAround datatype.reductionType.sizeof second k)
  element : datatype.combine operation
      (datatype.combine operation (wordAround datatype.sizeof first k) (wordAround datatype.sizeof second k))
      (wordAround datatype.sizeof others k) =
    datatype.combine operation (wordAround datatype.sizeof first k) (wordAround datatype.sizeof second k)
  ne : BitVec.ofNat 8 (combineSigned datatype.reductionType.sizeof operation
        (wordAround datatype.reductionType.sizeof first k)
        (wordAround datatype.reductionType.sizeof second k) / 256 ^ (k % datatype.reductionType.sizeof)) ≠
    BitVec.ofNat 8 (datatype.combine operation (wordAround datatype.sizeof first k)
      (wordAround datatype.sizeof second k) / 256 ^ (k % datatype.sizeof))

theorem Differs.unsound {first second others : List Byte} {k : ℕ}
    (h : Differs call.datatype call.operation first second others k) (hsize : 1 < size)
    (hk : k < call.count * call.datatype.sizeof) : ∃ m : ℕ → ℕ → Byte, ∃ k < call.count * call.datatype.sizeof,
      reducedMemory (combineSigned call.reductionType.sizeof call.operation) call.reductionType.sizeof
        size m k ≠ reducedMemory (call.datatype.combine call.operation) call.datatype.sizeof size m k := by
  refine ⟨contents first second others, k, hk, ?_⟩
  rw [reductionType, reducedMemory_contents hsize h.routine, reducedMemory_contents hsize h.element]
  exact h.ne

variable {datatype : Datatype}

theorem sum_differs_bytes (h : datatype.isOneByte = true) : Differs datatype .sum [255, 0] [1, 0] [] 1 := by
  cases datatype <;> first
    | exact absurd h Bool.false_ne_true
    | exact ⟨by decide, by decide, by decide⟩

theorem min_differs_bytes (h : datatype.isOneByte = true) : Differs datatype .min [0, 1] [1, 0] [1, 0] 0 := by
  cases datatype <;> first
    | exact absurd h Bool.false_ne_true
    | exact ⟨by decide, by decide, by decide⟩

theorem max_differs_bytes (h : datatype.isOneByte = true) : Differs datatype .max [1, 0] [0, 1] [0, 1] 0 := by
  cases datatype <;> first
    | exact absurd h Bool.false_ne_true
    | exact ⟨by decide, by decide, by decide⟩

variable {operation : Operation}

theorem minMax_differs_unsigned (hdatatype : datatype = .unsigned ∨ datatype = .uint32T)
    (h : operation = .min ∨ operation = .max) : Differs datatype operation [0, 0, 0, 128] [] [] 3 := by
  rcases hdatatype with rfl | rfl <;> rcases h with rfl | rfl <;> exact ⟨by decide, by decide, by decide⟩

theorem minMax_differs_uint64 (h : operation = .min ∨ operation = .max) :
    Differs .uint64T operation [0, 0, 0, 0, 0, 0, 0, 128] [] [] 7 := by
  rcases h with rfl | rfl <;> exact ⟨by decide, by decide, by decide⟩

theorem minMax_differs_double (h : operation = .min ∨ operation = .max) :
    Differs .double operation [0, 0, 0, 0, 0, 0, 240, 191] [0, 0, 0, 0, 0, 0, 0, 192]
      [0, 0, 0, 0, 0, 0, 0, 192] 7 := by
  rcases h with rfl | rfl
  · exact ⟨by decide, by decide, by decide⟩
  · exact ⟨by decide, by decide, by decide⟩

theorem sum_differs_double :
    Differs .double .sum [0, 0, 0, 0, 0, 0, 240, 63] [0, 0, 0, 0, 0, 0, 240, 63] [] 7 := by
  have hone : wordAround 8 [0, 0, 0, 0, 0, 0, 240, 63] 7 = Binary64.one := by
    decide
  have hzero : wordAround 8 [] 7 = 0 := by
    decide
  have hadd : ∀ x y, Datatype.combine .double .sum x y = Binary64.add x y := fun _ _ => rfl
  constructor
  · decide
  · rw [Datatype.sizeof, hone, hzero, hadd, hadd, Binary64.one_add_one]
    exact Binary64.add_zero (by decide) (by decide)
  · rw [Datatype.sizeof, hone, hadd, Binary64.one_add_one]
    decide

theorem exists_unsound (h : ¬ call.Sound size) : ∃ m : ℕ → ℕ → Byte, ∃ k < call.count * call.datatype.sizeof,
      reducedMemory (combineSigned call.reductionType.sizeof call.operation) call.reductionType.sizeof
        size m k ≠ reducedMemory (call.datatype.combine call.operation) call.datatype.sizeof size m k := by
  rw [Sound, not_or, not_or] at h
  obtain ⟨hsize, hcount, hcase⟩ := h
  rw [Nat.not_le] at hsize
  obtain ⟨datatype, operation, count, root⟩ := call
  have hpos : 0 < count := Nat.pos_of_ne_zero hcount
  have hbyte : 0 < count * 1 := by omega
  have hword : 3 < count * 4 := by omega
  have hlong : 7 < count * 8 := by omega
  cases operation with
  | band => cases datatype <;> exact absurd trivial hcase
  | bor => cases datatype <;> exact absurd trivial hcase
  | sum =>
    cases datatype with
    | byte | char | unsignedChar =>
      have hk : 1 < count * 1 := by
        rw [Nat.mul_one]
        exact Nat.lt_of_not_le hcase
      exact (sum_differs_bytes rfl).unsound hsize hk
    | double => exact sum_differs_double.unsound hsize hlong
    | unsigned | uint32T | uint64T | int | int32T | int64T => exact absurd trivial hcase
  | min =>
    cases datatype with
    | byte | char | unsignedChar => exact (min_differs_bytes rfl).unsound hsize hbyte
    | unsigned => exact (minMax_differs_unsigned (Or.inl rfl) (Or.inl rfl)).unsound hsize hword
    | uint32T => exact (minMax_differs_unsigned (Or.inr rfl) (Or.inl rfl)).unsound hsize hword
    | uint64T => exact (minMax_differs_uint64 (Or.inl rfl)).unsound hsize hlong
    | double => exact (minMax_differs_double (Or.inl rfl)).unsound hsize hlong
    | int | int32T | int64T => exact absurd trivial hcase
  | max =>
    cases datatype with
    | byte | char | unsignedChar => exact (max_differs_bytes rfl).unsound hsize hbyte
    | unsigned => exact (minMax_differs_unsigned (Or.inl rfl) (Or.inr rfl)).unsound hsize hword
    | uint32T => exact (minMax_differs_unsigned (Or.inr rfl) (Or.inr rfl)).unsound hsize hword
    | uint64T => exact (minMax_differs_uint64 (Or.inr rfl)).unsound hsize hlong
    | double => exact (minMax_differs_double (Or.inr rfl)).unsound hsize hlong
    | int | int32T | int64T => exact absurd trivial hcase

/-! ## What a call leaves -/

theorem perform_meets (hlibrary : library.Specified) (sendbuf recvbuf : ℕ → ℕ → Byte) (hfits : call.Fits)
    (hwork : call.WorkFits library state.currentPworkSize) (hsound : call.Sound size) :
    ∃ result, call.perform library size sendbuf recvbuf state = some result ∧
      result.2.currentPworkSize = call.workAfter state.currentPworkSize ∧
        call.Meets library size sendbuf recvbuf result := by
  by_cases hreduces : call.Reduces
  · refine ⟨_, perform_reduces hfits hreduces, rfl, ?_, ?_⟩
    · intro _
      exact (workFits_iff hreduces _).2 hwork
    · intro pe hpe
      simp only [deliver]
      split
      next =>
        rw [memcpy, read_target hlibrary ((workFits_iff hreduces _).2 hwork) hpe]
        congr 1
        apply map_congr_left
        intro k hk
        rw [Nat.zero_add]
        exact reducedMemory_of_sound hsound (Nat.zero_lt_of_lt hpe) (mem_range.mp hk)
      next => rfl
  · refine ⟨_, perform_skips hreduces, ?_, ?_, ?_⟩
    · rw [workAfter, if_neg hreduces]
    · intro h
      exact absurd h hreduces
    · intro pe _
      have hcount : call.count = 0 := by
        by_contra hne
        exact hreduces (Or.inr hne)
      rw [deliver, hcount, Nat.zero_mul, read_zero, write_nil, ite_self]

theorem perform_repeated (hlibrary : library.Specified) {m : ℕ → ℕ → Byte} (hfits : call.Fits)
    (hlegal : call.Legal size) (hbuffers : ∀ pe, (state.buffers pe).symmetricBufferA = m pe)
    {result : (ℕ → ℕ → Byte) × ReductionState} (h : call.perform library size m m state = some result)
    (hmeets : call.Meets library size m m result) : call.WorkFits library state.currentPworkSize ∧
      result.2.currentPworkSize = call.workAfter state.currentPworkSize ∧
      (∀ pe, (result.2.buffers pe).symmetricBufferA = m pe) ∧
      (0 < size → ∀ k < call.count * call.datatype.sizeof,
        reducedMemory (combineSigned call.reductionType.sizeof call.operation) call.reductionType.sizeof
          size m k = reducedMemory (call.datatype.combine call.operation) call.datatype.sizeof size m k) := by
  by_cases hreduces : call.Reduces
  · rw [perform_reduces hfits hreduces] at h
    cases h
    obtain ⟨hwork, hdelivers⟩ := hmeets
    have hrequired := hwork hreduces
    have hsource : ∀ pe, call.source m state pe = m pe := by
      intro pe
      rw [source, memcpy, hbuffers pe, write_read]
    refine ⟨(workFits_iff hreduces _).1 hrequired, rfl, hsource, ?_⟩
    intro hpos k hk
    have hroot : call.root.getD 0 < size := by
      cases heq : call.root with
      | none => exact hpos
      | some root => exact hlegal root heq
    have hself : call.root.getD (call.root.getD 0) = call.root.getD 0 := by
      cases call.root <;> rfl
    have hbuffer := hdelivers _ hroot
    simp only [deliver, hself, if_true] at hbuffer
    rw [memcpy, read_target hlibrary hrequired hroot, funext hsource] at hbuffer
    have hcells := write_injective (by rw [length_read, length_read]) hbuffer
    have hcell := congrArg (fun cells => cells[k]?) hcells
    simp only [getElem?_read hk, Nat.zero_add] at hcell
    exact Option.some.inj hcell
  · rw [perform_skips hreduces] at h
    cases h
    refine ⟨fun hcalls => absurd hcalls hreduces, ?_, hbuffers, ?_⟩
    · rw [workAfter, if_neg hreduces]
    · intro _ k hk
      have hcount : call.count = 0 := by
        by_contra hne
        exact hreduces (Or.inr hne)
      rw [hcount, Nat.zero_mul] at hk
      exact absurd hk (Nat.not_lt_zero k)

end ReductionCall

/-! ## Sequences of calls -/

def RunMeets (library : ReductionLibrary) (size : ℕ) :
    List (ReductionCall × (ℕ → ℕ → Byte) × (ℕ → ℕ → Byte)) → ReductionState → Prop
  | [], _ => True
  | (call, sendbuf, recvbuf) :: rest, state =>
    ∃ result, call.perform library size sendbuf recvbuf state = some result ∧
      call.Meets library size sendbuf recvbuf result ∧ RunMeets library size rest result.2

def AllFine (library : ReductionLibrary) (size : ℕ) : List ReductionCall → ℕ → Prop
  | [], _ => True
  | call :: rest, currentPworkSize =>
    call.WorkFits library currentPworkSize ∧ call.Sound size ∧
      AllFine library size rest (call.workAfter currentPworkSize)

variable {library : ReductionLibrary} {size : ℕ}

theorem AllFine.runMeets (hlibrary : library.Specified)
    {run : List (ReductionCall × (ℕ → ℕ → Byte) × (ℕ → ℕ → Byte))} {state : ReductionState}
    (hfits : ∀ call ∈ run.map Prod.fst, call.Fits)
    (h : AllFine library size (run.map Prod.fst) state.currentPworkSize) : RunMeets library size run state := by
  induction run generalizing state with
  | nil => trivial
  | cons entry rest ih =>
    obtain ⟨call, sendbuf, recvbuf⟩ := entry
    rw [map_cons] at hfits h
    obtain ⟨hwork, hsound, hrest⟩ := h
    obtain ⟨result, hperform, hsize, hmeets⟩ :=
      ReductionCall.perform_meets hlibrary sendbuf recvbuf (hfits call mem_cons_self) hwork hsound
    rw [← hsize] at hrest
    exact ⟨result, hperform, hmeets, ih (fun call hcall => hfits call (mem_cons_of_mem _ hcall)) hrest⟩

theorem allFine_of_repeated (hlibrary : library.Specified) {calls : List ReductionCall}
    {currentPworkSize : ℕ} (hfits : ∀ call ∈ calls, call.Fits) (hlegal : ∀ call ∈ calls, call.Legal size)
    (h : ∀ m : ℕ → ℕ → Byte, ∃ state : ReductionState, state.currentPworkSize = currentPworkSize ∧
      (∀ pe, (state.buffers pe).symmetricBufferA = m pe) ∧
        RunMeets library size (calls.map fun call => (call, m, m)) state) :
    AllFine library size calls currentPworkSize := by
  induction calls generalizing currentPworkSize with
  | nil => trivial
  | cons call rest ih =>
    have hfirst : ∀ m : ℕ → ℕ → Byte, call.WorkFits library currentPworkSize ∧
        (∃ state : ReductionState, state.currentPworkSize = call.workAfter currentPworkSize ∧
          (∀ pe, (state.buffers pe).symmetricBufferA = m pe) ∧
            RunMeets library size (rest.map fun call => (call, m, m)) state) ∧
        (0 < size → ∀ k < call.count * call.datatype.sizeof,
          reducedMemory (combineSigned call.reductionType.sizeof call.operation) call.reductionType.sizeof
            size m k =
          reducedMemory (call.datatype.combine call.operation) call.datatype.sizeof size m k) := by
      intro m
      obtain ⟨state, rfl, hbuffers, hrun⟩ := h m
      obtain ⟨result, hperform, hmeets, hrest⟩ := hrun
      obtain ⟨hwork, hsize, hkept, hcells⟩ := ReductionCall.perform_repeated hlibrary
        (hfits call mem_cons_self) (hlegal call mem_cons_self) hbuffers hperform hmeets
      exact ⟨hwork, ⟨result.2, hsize, hkept, hrest⟩, hcells⟩
    refine ⟨(hfirst fun _ _ => 0).1, ?_, ?_⟩
    · by_contra hunsound
      obtain ⟨m, k, hk, hne⟩ := ReductionCall.exists_unsound hunsound
      have hsize : 0 < size := by
        by_contra hzero
        exact hunsound (Or.inl (by omega))
      exact hne ((hfirst m).2.2 hsize k hk)
    · exact ih (fun call hcall => hfits call (mem_cons_of_mem _ hcall))
        (fun call hcall => hlegal call (mem_cons_of_mem _ hcall)) fun m => (hfirst m).2.1

/-- Whatever is reduced and whatever the symmetric buffers held, every call of a sequence passes a work
array that is large enough and computes the reduction of its datatype, exactly when every call finds the
array large enough and is sound. -/
theorem runMeets_iff_allFine (hlibrary : library.Specified) (calls : List ReductionCall)
    (hfits : ∀ call ∈ calls, call.Fits) (hlegal : ∀ call ∈ calls, call.Legal size) :
    (∀ (run : List (ReductionCall × (ℕ → ℕ → Byte) × (ℕ → ℕ → Byte)))
        (buffers : ℕ → SymmetricBuffers Byte), run.map Prod.fst = calls →
          RunMeets library size run (library.initialState buffers)) ↔
      AllFine library size calls (library.minWrkdataSize * 8) := by
  constructor
  · intro h
    apply allFine_of_repeated hlibrary hfits hlegal
    intro m
    refine ⟨library.initialState fun pe => ⟨m pe, m pe⟩, rfl, fun _ => rfl, ?_⟩
    apply h
    rw [map_map]
    exact map_id' calls
  · intro h run buffers hrun
    subst hrun
    exact h.runMeets hlibrary hfits

def documentedReductions (minWrkdataSize : ℕ) : ReductionLibrary where
  minWrkdataSize := minWrkdataSize
  toAll type operation nreduce size _ target source pe :=
    write (target pe) 0
      (read (reducedMemory (combineSigned type.sizeof operation) type.sizeof size source) 0
        (nreduce * type.sizeof))

theorem documentedReductions_specified (minWrkdataSize : ℕ) :
    (documentedReductions minWrkdataSize).Specified where
  toAll _ _ _ _ _ _ _ _ _ _ := rfl

def fineCalls : List ReductionCall :=
  [⟨.int64T, .sum, 3, none⟩, ⟨.int, .max, 14, some 1⟩, ⟨.byte, .bor, 28, none⟩]

theorem runMeets_iff_allFine_fineCalls : (∀ (run : List (ReductionCall × (ℕ → ℕ → Byte) × (ℕ → ℕ → Byte)))
        (buffers : ℕ → SymmetricBuffers Byte), run.map Prod.fst = fineCalls →
          RunMeets (documentedReductions 8) 3 run ((documentedReductions 8).initialState buffers)) ↔
      AllFine (documentedReductions 8) 3 fineCalls ((documentedReductions 8).minWrkdataSize * 8) := by
  apply runMeets_iff_allFine (documentedReductions_specified 8) fineCalls
  · intro call hcall
    rw [fineCalls, mem_cons, mem_cons, mem_singleton] at hcall
    rcases hcall with rfl | rfl | rfl <;> decide
  · intro call hcall root hroot
    rw [fineCalls, mem_cons, mem_cons, mem_singleton] at hcall
    rcases hcall with rfl | rfl | rfl <;> cases hroot
    decide

/-- The first sum of one integer shrinks the work array below what the library requires. -/
theorem not_runMeets_int : ¬ ∀ (library : ReductionLibrary) (size : ℕ)
      (run : List (ReductionCall × (ℕ → ℕ → Byte) × (ℕ → ℕ → Byte)))
      (buffers : ℕ → SymmetricBuffers Byte), library.Specified →
        (∀ call ∈ run.map Prod.fst, call.Fits ∧ call.Legal size) →
          RunMeets library size run (library.initialState buffers) := by
  intro h
  obtain ⟨result, hperform, ⟨hwork, -⟩, -⟩ := h (documentedReductions 8) 2
    [(⟨.int, .sum, 1, none⟩, fun _ _ => 1, fun _ _ => 0)] (fun _ => ⟨fun _ => 0, fun _ => 0⟩)
    (documentedReductions_specified 8) (by
      intro call hcall
      rw [map_singleton, mem_singleton] at hcall
      subst hcall
      exact ⟨by decide, fun root hroot => nomatch hroot⟩)
  cases hperform
  exact absurd (hwork (Or.inl rfl)) (by decide)

end ScoreP.Ipc
