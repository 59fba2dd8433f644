import ScoreP.Foundations.Comparison
import ScoreP.Skiplist.Refinement

/-!
# The RMA requests

Source: `src/adapters/mpi/c/scorep_mpi_rma_request.c`: the order of the requests in their skiplist,
and the two loops that call a function for the requests of a window, or of a window and a target.

`cmp` is the lexicographic order of `key`, so the requests of a window are one block of the list,
and so are those of a window and a target. What the MPI library uses for `MPI_REQUEST_NULL` is a
parameter.
-/

namespace ScoreP.Mpi.Rma

open Foundations Skiplist

/-- `SCOREP_INVALID_RMA_WINDOW`, which is `SCOREP_MOVABLE_NULL`. -/
def invalidRmaWindow : ℕ := 0

inductive CompletionType
  | separateCompletion
  | combinedCompletion
deriving DecidableEq

structure Request where
  window : ℕ
  target : ℤ
  matchingId : ℕ
  mpiHandle : ℤ
  completionType : CompletionType
  completedLocally : Bool
  scheduleRemoval : Bool

section Order

variable (mpiRequestNull : ℤ)

def resetPayload : Request where
  window := invalidRmaWindow
  target := -1
  matchingId := 0
  mpiHandle := mpiRequestNull
  completionType := .separateCompletion
  completedLocally := false
  scheduleRemoval := false

def cmp (listElement searchElement : Request) : ℤ :=
  if listElement.window = invalidRmaWindow ∧ searchElement.window ≠ invalidRmaWindow then -1
  else if listElement.window ≠ invalidRmaWindow ∧ searchElement.window = invalidRmaWindow then 1
  else if listElement.window < searchElement.window then -1
  else if listElement.window > searchElement.window then 1
  else if listElement.target < searchElement.target then -1
  else if listElement.target > searchElement.target then 1
  else if listElement.mpiHandle = mpiRequestNull ∧ searchElement.mpiHandle ≠ mpiRequestNull then -1
  else if listElement.mpiHandle ≠ mpiRequestNull ∧ searchElement.mpiHandle = mpiRequestNull then 1
  else if listElement.mpiHandle < searchElement.mpiHandle then -1
  else if listElement.mpiHandle > searchElement.mpiHandle then 1
  else if listElement.completionType ≠ searchElement.completionType then
    if listElement.completionType = .separateCompletion then -1 else 1
  else 0

def requests : Template Request ℕ where
  zeroed :=
    { window := 0
      target := 0
      matchingId := 0
      mpiHandle := 0
      completionType := .separateCompletion
      completedLocally := false
      scheduleRemoval := false }
  resetPayload := fun _ => resetPayload mpiRequestNull
  cmp := cmp mpiRequestNull
  getRandomNumber := linearCongruential

def create (window : ℕ) (target mpiHandle : ℤ) (completionType : CompletionType) (matchingId : ℕ)
    (list : Handle Request ℕ) : Option (ℕ × Handle Request ℕ) := do
  let (newNode, list) ← list.createNode (requests mpiRequestNull)
  let list := list.withPayload newNode
    { (list.node newNode).payload with
      window := window
      target := target
      mpiHandle := mpiHandle
      completionType := completionType
      matchingId := matchingId }
  let list ← list.insertNode (requests mpiRequestNull) newNode
  return (newNode, list)

/-! ## The loops -/

/-- What a `scorep_mpi_rma_request_cb` does to a request: it sets two fields. `σ` is all else that it
changes, such as the records that it writes. -/
structure Callback (σ : Type) where
  completedLocally : Request → σ → Bool
  scheduleRemoval : Request → σ → Bool
  effect : Request → σ → σ

def Callback.apply {σ : Type} (callback : Callback σ) (request : Request) (s : σ) : Request :=
  { request with
    completedLocally := callback.completedLocally request s
    scheduleRemoval := callback.scheduleRemoval request s }

structure Progress (σ : Type) where
  list : Handle Request ℕ
  state : σ
  calls : List ℕ

inductive Record
  | rmaOpCompleteNonBlocking (window matchingId : ℕ)
  | rmaOpCompleteRemote (window matchingId : ℕ)
deriving DecidableEq

def writeStandardCompletionAndRemove : Callback (List Record) where
  completedLocally := fun _ _ => true
  scheduleRemoval := fun _ _ => true
  effect := fun request records =>
    if !request.completedLocally then
      let records := records ++ [.rmaOpCompleteNonBlocking request.window request.matchingId]
      if request.completionType = .combinedCompletion then
        records ++ [.rmaOpCompleteRemote request.window request.matchingId]
      else records
    else records

def writeStandardCompletion : Callback (List Record) where
  completedLocally := fun _ _ => true
  scheduleRemoval := fun request _ =>
    if !request.completedLocally ∧ request.completionType = .combinedCompletion then true
    else request.scheduleRemoval
  effect := writeStandardCompletionAndRemove.effect

def writeFullCompletion : Callback (List Record) where
  completedLocally := fun _ _ => true
  scheduleRemoval := fun _ _ => true
  effect := fun request records =>
    let records := if !request.completedLocally then
        records ++ [.rmaOpCompleteNonBlocking request.window request.matchingId]
      else records
    records ++ [.rmaOpCompleteRemote request.window request.matchingId]

variable {σ : Type} (callback : Callback σ)

/-- The `while` loop, which goes on as long as the node is wanted. -/
def foreachLoop (wanted : Request → Bool) : ℕ → Option ℕ → Progress σ → Option (Progress σ)
  | _, none, p => some p
  | 0, some _, _ => none
  | fuel + 1, some listElement, p =>
    let payload := (p.list.node listElement).payload
    if wanted payload then do
      let list := p.list.withPayload listElement (callback.apply payload p.state)
      let next ← list.next listElement 0
      let list ← if (list.node listElement).payload.scheduleRemoval
        then list.removeNode (requests mpiRequestNull) listElement
        else some list
      foreachLoop wanted fuel next
        { list := list
          state := callback.effect payload p.state
          calls := p.calls ++ [listElement] }
    else some p

/-- The loop starts at the lower bound, or behind it if only the node behind is of the window. -/
def foreach (searchInfo : Request) (wanted : Request → Bool) (list : Handle Request ℕ) (s : σ) :
    Option (Progress σ) := do
  let lowerBound ← list.lowerBound (requests mpiRequestNull) searchInfo
  let listElement ←
    if (list.node lowerBound).payload.window ≠ searchInfo.window then do
      match ← list.next lowerBound 0 with
      | some next =>
        if (list.node next).payload.window = searchInfo.window then some next else some lowerBound
      | none => some lowerBound
    else some lowerBound
  foreachLoop mpiRequestNull callback wanted (list.allocated + 1) (some listElement)
    { list := list, state := s, calls := [] }

def foreachOnWindow (window : ℕ) (list : Handle Request ℕ) (s : σ) : Option (Progress σ) :=
  foreach mpiRequestNull callback { resetPayload mpiRequestNull with window := window }
    (fun request => request.window = window) list s

def foreachToTarget (window : ℕ) (target : ℤ) (list : Handle Request ℕ) (s : σ) : Option (Progress σ) :=
  foreach mpiRequestNull callback { resetPayload mpiRequestNull with window := window, target := target }
    (fun request => request.window = window ∧ request.target = target) list s

/-! ## The order -/

def CompletionType.rank : CompletionType → ℕ
  | .separateCompletion => 0
  | .combinedCompletion => 1

/-- What `cmp` compares, in this order. -/
def Request.key (r : Request) : ℕ ×ₗ ℕ ×ₗ ℤ ×ₗ ℕ ×ₗ ℤ ×ₗ ℕ :=
  toLex (if r.window = invalidRmaWindow then 0 else 1, toLex (r.window, toLex (r.target,
    toLex (if r.mpiHandle = mpiRequestNull then 0 else 1, toLex (r.mpiHandle, r.completionType.rank)))))

theorem completionType_threeWay (a b : CompletionType) :
    ThreeWay (if a ≠ b then if a = .separateCompletion then -1 else 1 else 0) a.rank b.rank := by
  cases a <;> cases b <;> constructor <;> decide

theorem cmp_threeWay (a b : Request) :
    ThreeWay (cmp mpiRequestNull a b) (a.key mpiRequestNull) (b.key mpiRequestNull) := by
  have hcompletion := completionType_threeWay a.completionType b.completionType
  have hhandle := hcompletion.field a.mpiHandle b.mpiHandle
  have hnull := hhandle.flag (a.mpiHandle = mpiRequestNull) (b.mpiHandle = mpiRequestNull)
  have htarget := hnull.field a.target b.target
  have hwindow := htarget.field a.window b.window
  exact hwindow.flag (a.window = invalidRmaWindow) (b.window = invalidRmaWindow)

theorem cmp_le_iff (a b : Request) :
    cmp mpiRequestNull a b ≤ 0 ↔ a.key mpiRequestNull ≤ b.key mpiRequestNull := by
  rw [← not_lt, (cmp_threeWay mpiRequestNull a b).pos_iff, not_lt]

theorem requests_lawful : (requests mpiRequestNull).Lawful where
  trans := by
    intro a b c hab hbc
    have hab' := (cmp_le_iff mpiRequestNull a b).1 hab
    have hbc' := (cmp_le_iff mpiRequestNull b c).1 hbc
    exact (cmp_le_iff mpiRequestNull a c).2 (hab'.trans hbc')
  lt_iff := by
    intro a b
    have hneg := (cmp_threeWay mpiRequestNull a b).neg_iff
    have hpos := (cmp_threeWay mpiRequestNull b a).pos_iff
    exact hneg.trans hpos.symm

theorem head_lt {request : Request} (hwindow : request.window ≠ invalidRmaWindow) :
    cmp mpiRequestNull (resetPayload mpiRequestNull) request < 0 := by
  simp [cmp, resetPayload, hwindow]

theorem create_inv {list : Handle Request ℕ} {L C : List ℕ} {F : ℕ → List ℕ}
    (h : Inv (requests mpiRequestNull) list L F C) {window : ℕ}
    (hwindow : window ≠ invalidRmaWindow) (target mpiHandle : ℤ) (completionType : CompletionType)
    (matchingId : ℕ) : ∃ n list' A B F', L = A ++ B ∧ Inv (requests mpiRequestNull) list' (A ++ n :: B) F' C ∧
      create mpiRequestNull window target mpiHandle completionType matchingId list = some (n, list') := by
  obtain ⟨n, list₁, F₁, hcreate, hinv₁, -⟩ := createNode_inv h
  have hn : n ∈ n :: C := List.mem_cons_self
  let payload : Request :=
    { (list₁.node n).payload with
      window := window
      target := target
      mpiHandle := mpiHandle
      completionType := completionType
      matchingId := matchingId }
  have hassign := assign_inv hinv₁ hn payload
  have hpayload : ((list₁.withPayload n payload).node n).payload = payload := by
    simp [Handle.withPayload]
  obtain ⟨list', A, B, hinsert, rfl, hinv', -⟩ := insertNode_inv (requests_lawful mpiRequestNull)
    hassign hn (hpayload.symm ▸ head_lt mpiRequestNull hwindow)
  refine ⟨n, list', A, B, F₁, rfl, by simpa using hinv', ?_⟩
  simp only [create, hcreate, Option.bind_eq_bind, Option.bind_some]
  rw [show (list₁.withPayload n _).insertNode (requests mpiRequestNull) n = some list' from hinsert]
  rfl

variable {mpiRequestNull} {a b : Request}

theorem windowTarget_le (h : cmp mpiRequestNull a b ≤ 0) :
    toLex (a.window, a.target) ≤ toLex (b.window, b.target) := by
  have hkey := (cmp_le_iff mpiRequestNull a b).1 h
  rcases Prod.Lex.toLex_le_toLex.1 hkey with hflag | ⟨-, hrest⟩
  · have hwindow : a.window < b.window := by
      unfold invalidRmaWindow at hflag
      by_cases ha : a.window = 0
      · by_cases hb : b.window = 0
        · simp [ha, hb] at hflag
        · omega
      · by_cases hb : b.window = 0 <;> simp [ha, hb] at hflag
    exact Prod.Lex.toLex_le_toLex.2 (Or.inl hwindow)
  · rcases Prod.Lex.toLex_le_toLex.1 hrest with hwindow | ⟨hwindow, htarget⟩
    · exact Prod.Lex.toLex_le_toLex.2 (Or.inl hwindow)
    · exact Prod.Lex.toLex_le_toLex.2 (Or.inr ⟨hwindow, Prod.Lex.monotone_fst _ _ htarget⟩)

theorem window_le (h : cmp mpiRequestNull a b ≤ 0) : a.window ≤ b.window :=
  Prod.Lex.monotone_fst _ _ (windowTarget_le h)

end Order

end ScoreP.Mpi.Rma
