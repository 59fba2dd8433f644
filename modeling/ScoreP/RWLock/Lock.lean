import Mathlib.Algebra.Group.Int.Defs
import Mathlib.Algebra.Group.Nat.Defs
import ScoreP.Foundations.Transition

/-!
# The writer-preferring reader-writer lock

Source: `src/utils/include/SCOREP_ReaderWriterLock.h`. The lock is four `int16_t` counters and a
writer mutex. A thread is its program counter: one constructor of `Pc` for each atomic operation it
is about to perform, with the local values that operation still needs. `Move` lists what the next
operation of a thread does to the counters and to its program counter; a thread that is outside of
the lock may start either section at any time, so a run of `step` is any interleaving of any
sequences of matched sections.

The counters are exact integers here. `Safe.range` in `ScoreP.RWLock.Safety` shows that every value
ever stored fits into an `int16_t`, so the arithmetic of the code never wraps. The conversions of
`SCOREP_RWLock_WriterUnlock`, whose local variable is a `uint16_t`, are written out.
-/

namespace ScoreP.RWLock

def maxReaders : ℤ := 2 ^ 14

structure Shared (n : ℕ) where
  pending : ℤ
  departing : ℤ
  releaseNReaders : ℤ
  releaseWriter : ℤ
  writerMutex : Option (Fin n)

inductive Pc
  | outside
  -- `SCOREP_RWLock_ReaderLock`
  | readerAdd
  | readerLoad
  | readerCas (releaseNReaders : ℤ)
  | reading
  -- `SCOREP_RWLock_ReaderUnlock`
  | readerSub
  | readerDepart
  | readerSignal
  -- `SCOREP_RWLock_WriterLock`
  | writerMutexLock
  | writerSub
  | writerDepart (pending : ℤ)
  | writerLoad
  | writerCas (releaseWriter : ℤ)
  | writing
  -- `SCOREP_RWLock_WriterUnlock`
  | writerAdd
  | writerSignal (pending : ℤ)
  | writerMutexUnlock
  -- a `UTILS_BUG_ON( swapped != 0 )` has fired
  | bug
  deriving DecidableEq

/-- The conversion of an `int16_t` to a `uint16_t`. -/
def toUInt16 (v : ℤ) : ℤ := v % 2 ^ 16

/-- The conversion of a `uint16_t` to an `int16_t`. -/
def toInt16 (v : ℤ) : ℤ := Int.bmod v (2 ^ 16)

open Pc in
/-- `Move i c p c' p'`: the next operation of thread `i` at `p` changes the shared variables from
`c` to `c'` and takes the thread to `p'`. -/
inductive Move {n : ℕ} (i : Fin n) : Shared n → Pc → Shared n → Pc → Prop
  | readerLock (c) : Move i c outside c readerAdd
  | readerAdd (c : Shared n) : Move i c readerAdd { c with pending := c.pending + 1 }
        (if c.pending + 1 < 0 then readerLoad else reading)
  | readerLoad (c : Shared n) : Move i c readerLoad c
        (if c.releaseNReaders = 0 then readerLoad else readerCas c.releaseNReaders)
  | readerCas (c : Shared n) (v : ℤ) (h : c.releaseNReaders = v) :
      Move i c (readerCas v) { c with releaseNReaders := v - 1 } reading
  -- the exchange is weak: it may fail even when the value is the expected one
  | readerCasFail (c : Shared n) (v : ℤ) : Move i c (readerCas v) c readerLoad
  | readerUnlock (c) : Move i c reading c readerSub
  | readerSub (c : Shared n) : Move i c readerSub { c with pending := c.pending - 1 }
        (if c.pending - 1 < 0 then readerDepart else outside)
  | readerDepart (c : Shared n) : Move i c readerDepart { c with departing := c.departing - 1 }
        (if c.departing - 1 = 0 then readerSignal else outside)
  | readerSignal (c : Shared n) : Move i c readerSignal { c with releaseWriter := 1 }
        (if c.releaseWriter ≠ 0 then bug else outside)
  | writerLock (c) : Move i c outside c writerMutexLock
  | writerMutexLock (c : Shared n) (h : c.writerMutex = none) :
      Move i c writerMutexLock { c with writerMutex := some i } writerSub
  | writerSub (c : Shared n) : Move i c writerSub { c with pending := c.pending - maxReaders }
        (if c.pending - maxReaders + maxReaders ≠ 0
          then writerDepart (c.pending - maxReaders + maxReaders) else writing)
  | writerDepart (c : Shared n) (p : ℤ) : Move i c (writerDepart p) { c with departing := c.departing + p }
        (if c.departing + p ≠ 0 then writerLoad else writing)
  | writerLoad (c : Shared n) : Move i c writerLoad c
        (if c.releaseWriter = 0 then writerLoad else writerCas c.releaseWriter)
  | writerCas (c : Shared n) (v : ℤ) (h : c.releaseWriter = v) :
      Move i c (writerCas v) { c with releaseWriter := v - 1 } writing
  | writerCasFail (c : Shared n) (v : ℤ) : Move i c (writerCas v) c writerLoad
  | writerUnlock (c) : Move i c writing c writerAdd
  | writerAdd (c : Shared n) : Move i c writerAdd { c with pending := c.pending + maxReaders }
        (if 0 < toUInt16 (c.pending + maxReaders)
          then writerSignal (toUInt16 (c.pending + maxReaders)) else writerMutexUnlock)
  | writerSignal (c : Shared n) (p : ℤ) : Move i c (writerSignal p) { c with releaseNReaders := toInt16 p }
        (if c.releaseNReaders ≠ 0 then bug else writerMutexUnlock)
  | writerMutexUnlock (c : Shared n) : Move i c writerMutexUnlock { c with writerMutex := none } outside

structure State (n : ℕ) where
  shared : Shared n
  pcs : Fin n → Pc

def initial (n : ℕ) : State n where
  shared := ⟨0, 0, 0, 0, none⟩
  pcs := fun _ => .outside

/-- Thread `i` performs its next operation. -/
def step {n : ℕ} (s : State n) (i : Fin n) (t : State n) : Prop :=
  ∃ q, Move i s.shared (s.pcs i) t.shared q ∧ t.pcs = Function.update s.pcs i q

def Reachable {n : ℕ} (s : State n) : Prop :=
  Foundations.Reachable (· = initial n) step s

end ScoreP.RWLock
