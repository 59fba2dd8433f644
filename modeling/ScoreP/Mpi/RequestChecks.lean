import Mathlib.Data.Nat.Notation
import Mathlib.Logic.Function.Basic

/-!
# Checking and testing the saved requests

Source: `scorep_mpi_check_all_or_test_all`, `scorep_mpi_check_all_or_none`,
`scorep_mpi_check_some_test_some`, `scorep_mpi_check_some`, `scorep_mpi_test_all` and
`scorep_mpi_cleanup_request` of `scorep_mpi_request_mgmt.c`, called by one thread. The hash table maps a
handle to the list of its records, in the order of their links. `calls` lists the calls about a record.
-/

namespace ScoreP.Mpi.Checks

open Function

/-- A `scorep_mpi_request` at its address, with the flags that cleaning up reads. -/
structure Request where
  address : ℕ
  isPersistent : Bool
  isActive : Bool
  isCompleted : Bool
  deallocate : Bool
  marker : Bool
deriving DecidableEq

/-- A pointer to a record; the handle `request` of a record never changes. -/
structure Pointer (K : Type) where
  request : K
  address : ℕ
deriving DecidableEq

inductive Call (K S : Type) where
  | checkRequest (req : Pointer K) (status : S)
  | cleanupRequest (req : Pointer K)
  | requestTested (req : Pointer K)
deriving DecidableEq

def Call.req {K S : Type} : Call K S → Pointer K
  | .checkRequest req _ => req
  | .cleanupRequest req => req
  | .requestTested req => req

structure State (K S : Type) where
  table : K → List Request
  calls : List (Call K S)

section

variable {K S : Type} [DecidableEq K]

namespace State

variable (s : State K S)

def setList (request : K) (records : List Request) : State K S :=
  { s with table := update s.table request records }

def modify (req : Pointer K) (f : Request → Request) : State K S :=
  s.setList req.request ((s.table req.request).map fun r => if r.address = req.address then f r else r)

def requestGet (request : K) : Option (Pointer K) × State K S :=
  match (s.table request).find? fun r => !r.marker with
  | none => (none, s)
  | some r => (some ⟨request, r.address⟩, s.modify ⟨request, r.address⟩ fun r => { r with marker := true })

def unmarkRequest : Option (Pointer K) → State K S
  | none => s
  | some req => s.modify req fun r => { r with marker := false }

def requestFree (req : Pointer K) : State K S :=
  s.setList req.request ((s.table req.request).eraseP fun r => r.address = req.address)

def checkRequest (status : S) : Option (Pointer K) → State K S
  | none => s
  | some req => { s with calls := s.calls ++ [.checkRequest req status] }

def requestTested : Option (Pointer K) → State K S
  | none => s
  | some req => { s with calls := s.calls ++ [.requestTested req] }

def cleanupRequest : Option (Pointer K) → State K S
  | none => s
  | some req =>
    let s : State K S := { s with calls := s.calls ++ [.cleanupRequest req] }
    match (s.table req.request).find? fun r => r.address = req.address with
    | none => s
    | some r =>
      if r.isPersistent && !r.isActive then s
      else if r.isPersistent then
        let s := s.modify req fun r => { r with isActive := false, isCompleted := false }
        if r.deallocate then s.requestFree req else s
      else s.requestFree req

def checkSaved (request : K) (status : S) : State K S :=
  let (scorepReq, s) := s.requestGet request
  ((s.checkRequest status scorepReq).cleanupRequest scorepReq).unmarkRequest scorepReq

def testSaved (request : K) : State K S :=
  let (scorepReq, s) := s.requestGet request
  (s.requestTested scorepReq).unmarkRequest scorepReq

variable (saved : ℕ → K)

def checkAllOrTestAll (count : ℕ) (flag : Bool) (arrayOfStatuses : ℕ → S) : State K S :=
  if flag then (List.range count).foldl (fun s i => s.checkSaved (saved i) (arrayOfStatuses i)) s
  else (List.range count).foldl (fun s i => s.testSaved (saved i)) s

def checkAllOrNone (count : ℕ) (flag : Bool) (arrayOfStatuses : ℕ → S) : State K S :=
  if flag then (List.range count).foldl (fun s i => s.checkSaved (saved i) (arrayOfStatuses i)) s
  else s

def checkSome (outcount : ℕ) (arrayOfIndices : ℕ → ℕ) (arrayOfStatuses : ℕ → S) : State K S :=
  (List.range outcount).foldl (fun s j => s.checkSaved (saved (arrayOfIndices j)) (arrayOfStatuses j)) s

def testAll (count : ℕ) : State K S :=
  (List.range count).foldl (fun s i => s.testSaved (saved i)) s

end State

def swap {α : Type} (array : ℕ → α) (cur j : ℕ) : ℕ → α :=
  update (update array cur (array j)) j (array cur)

/-- The variables of `scorep_mpi_check_some_test_some`. -/
structure Search (K S : Type) where
  cur : ℕ
  arrayOfIndices : ℕ → ℕ
  arrayOfStatuses : ℕ → S
  state : State K S

/-- The iteration for `reqIdx`. -/
def Search.next (saved : ℕ → K) (outcount : ℕ) (loop : Search K S) (reqIdx : ℕ) : Search K S :=
  let (scorepReq, s) := loop.state.requestGet (saved reqIdx)
  match scorepReq with
  | none => { loop with state := s }
  | some _ =>
    let j := (List.range' loop.cur (outcount - loop.cur)).find? fun j => loop.arrayOfIndices j = reqIdx
    match j with
    | some j =>
      let arrayOfIndices := swap loop.arrayOfIndices loop.cur j
      let arrayOfStatuses := swap loop.arrayOfStatuses loop.cur j
      let s := (s.checkRequest (arrayOfStatuses loop.cur) scorepReq).cleanupRequest scorepReq
      ⟨loop.cur + 1, arrayOfIndices, arrayOfStatuses, s.unmarkRequest scorepReq⟩
    | none => { loop with state := (s.requestTested scorepReq).unmarkRequest scorepReq }

def checkSomeTestSome (saved : ℕ → K) (incount outcount : ℕ) (arrayOfIndices : ℕ → ℕ)
    (arrayOfStatuses : ℕ → S) (s : State K S) : Search K S :=
  (List.range incount).foldl (Search.next saved outcount) ⟨0, arrayOfIndices, arrayOfStatuses, s⟩

inductive Routine (S : Type) where
  | checkAllOrTestAll (count : ℕ) (flag : Bool) (arrayOfStatuses : ℕ → S)
  | checkAllOrNone (count : ℕ) (flag : Bool) (arrayOfStatuses : ℕ → S)
  | checkSomeTestSome (incount outcount : ℕ) (arrayOfIndices : ℕ → ℕ) (arrayOfStatuses : ℕ → S)
  | checkSome (incount outcount : ℕ) (arrayOfIndices : ℕ → ℕ) (arrayOfStatuses : ℕ → S)
  | testAll (count : ℕ)

def Routine.run (saved : ℕ → K) (s : State K S) : Routine S → State K S
  | .checkAllOrTestAll count flag statuses => s.checkAllOrTestAll saved count flag statuses
  | .checkAllOrNone count flag statuses => s.checkAllOrNone saved count flag statuses
  | .checkSomeTestSome incount outcount indices statuses =>
    (Checks.checkSomeTestSome saved incount outcount indices statuses s).state
  | .checkSome _ outcount indices statuses => s.checkSome saved outcount indices statuses
  | .testAll count => s.testAll saved count

end

end ScoreP.Mpi.Checks
