import Mathlib.Tactic.ByContra
import ScoreP.Io.HandleStack

/-!
# Nested creations of I/O handles

A creation inside a creation of the same paradigm is only counted. The completions look at the counter,
`SCOREP_IoMgmt_DropIncompleteHandle` does not: it takes the handle of the creation around off the stack.
`meets_iff` is the exact condition for a well-nested program: each of its creations ends alone if no counted
creation fails, and none begins that wraps the counter.
-/

namespace ScoreP.Io

variable {P : Type}

inductive Nested : List (Callback P) → Prop
  | nil : Nested []
  | wrap {paradigm : P} {inner rest : List (Callback P)} (hinner : Nested inner) (hrest : Nested rest) :
      Nested (.ioParadigmEnter paradigm :: inner ++ .ioParadigmLeave paradigm :: rest)

theorem Nested.append {first second : List (Callback P)} (h : Nested first) (h' : Nested second) :
    Nested (first ++ second) := by
  induction h with
  | nil => exact h'
  | @wrap paradigm inner rest hinner _ _ ih =>
    have hwrap := @Nested.wrap P paradigm _ _ hinner ih
    rwa [List.append_assoc, List.cons_append]

theorem Nested.enclose (paradigm : P) {inner : List (Callback P)} (h : Nested inner) :
    Nested (.ioParadigmEnter paradigm :: inner ++ [.ioParadigmLeave paradigm]) :=
  h.wrap .nil

variable [DecidableEq P] (ioParadigmType : ℕ → P)

def Calls.WellFormed : Calls P → Prop
  | .done => True
  | .create call handle body _ rest => handle ≠ invalidIoHandle ∧ ioParadigmType handle = call.paradigm ∧
      (∀ paradigm srcHandle, call = .duplication paradigm srcHandle →
        srcHandle ≠ invalidIoHandle ∧ ioParadigmType srcHandle = paradigm) ∧
      body.WellFormed ∧ rest.WellFormed
  | .within call handle body rest =>
      (∀ paradigm, call = .getAndPushHandle paradigm → handle ≠ invalidIoHandle →
        ioParadigmType handle = paradigm) ∧
      body.WellFormed ∧ rest.WellFormed

/-- The calls between lead from `data` to `data'`: the stack is the same, and the callbacks are nested. -/
structure Balanced (data data' : LocationData P) : Prop where
  stack : data'.handleStack = data.handleStack
  callbacks : ∃ between, data'.callbacks = data.callbacks ++ between ∧ Nested between

/-- Each creation and each section of a program ends alone, and a creation returns the handle exactly if it
succeeds and is not counted. -/
def Calls.Meets : Calls P → LocationData P → Prop
  | .done, _ => True
  | .create call handle body success rest, data =>
      let begun := data.beginHandle ioParadigmType call.paradigm handle
      body.Meets begun ∧ ∃ inner data', body.run ioParadigmType begun = some inner ∧
        finish ioParadigmType call.paradigm success inner =
          some (if success ∧ ¬Recursive ioParadigmType call.paradigm data.handleStack then handle
            else invalidIoHandle, data') ∧
        Balanced data data' ∧ rest.Meets data'
  | .within call handle body rest, data =>
      let begun := call.push ioParadigmType handle data
      body.Meets begun ∧ ∃ inner data', body.run ioParadigmType begun = some inner ∧
        inner.popHandle ioParadigmType handle = some data' ∧ Balanced data data' ∧ rest.Meets data'

def topCounter (stack : List HandleStackEntry) : ℕ :=
  match stack with
  | [] => 0
  | top :: _ => top.recursiveCreationCounter

def Calls.CountedSucceed : Calls P → List HandleStackEntry → Prop
  | .done, _ => True
  | .create call handle body success rest, stack =>
      (Recursive ioParadigmType call.paradigm stack → success = true ∧ topCounter stack + 1 < 2 ^ 32) ∧
      body.CountedSucceed (beginStack ioParadigmType call.paradigm handle stack) ∧
      rest.CountedSucceed stack
  | .within _ handle body rest, stack =>
      body.CountedSucceed (if handle ≠ invalidIoHandle then ⟨handle, false, 0⟩ :: stack else stack) ∧
      rest.CountedSucceed stack

variable {ioParadigmType} {data data' inner : LocationData P} {paradigm : P} {handle : ℕ} {success : Bool}

theorem Balanced.refl (data : LocationData P) : Balanced data data :=
  ⟨rfl, [], by simp, .nil⟩

theorem Balanced.trans {data'' : LocationData P} (h : Balanced data data') (h' : Balanced data' data'') :
    Balanced data data'' := by
  obtain ⟨first, hfirst, hnested⟩ := h.callbacks
  obtain ⟨second, hsecond, hnested'⟩ := h'.callbacks
  refine ⟨h'.stack.trans h.stack, first ++ second, ?_, hnested.append hnested'⟩
  rw [hsecond, hfirst, List.append_assoc]

/-! ## One creation -/

theorem beginStack_recursive {top : HandleStackEntry} {rest : List HandleStackEntry}
    (h : Recursive ioParadigmType paradigm (top :: rest)) :
    beginStack ioParadigmType paradigm handle (top :: rest) =
      { top with recursiveCreationCounter := (top.recursiveCreationCounter + 1) % 2 ^ 32 } :: rest := by
  obtain ⟨top', htop, hcount⟩ := h
  cases htop
  rw [beginStack, if_pos hcount]

variable {stack : List HandleStackEntry}

theorem beginStack_outermost (h : ¬Recursive ioParadigmType paradigm stack) :
    beginStack ioParadigmType paradigm handle stack = ⟨handle, true, 0⟩ :: stack := by
  cases stack with
  | nil => rfl
  | cons top rest =>
    have hcount : ¬(top.inCreation = true ∧ ioParadigmType top.handle = paradigm) :=
      fun hcount => h ⟨top, rfl, hcount⟩
    rw [beginStack, if_neg hcount]

theorem finish_outermost (success : Bool) (h : ¬Recursive ioParadigmType paradigm data.handleStack)
    (hhandle : handle ≠ invalidIoHandle) (htype : ioParadigmType handle = paradigm)
    (hinner : Balanced (data.beginHandle ioParadigmType paradigm handle) inner) :
    ∃ data', finish ioParadigmType paradigm success inner =
        some (if success then handle else invalidIoHandle, data') ∧ Balanced data data' := by
  have hstack : inner.handleStack = ⟨handle, true, 0⟩ :: data.handleStack := by
    rw [hinner.stack]
    exact beginStack_outermost h
  obtain ⟨between, hcallbacks, hnested⟩ := hinner.callbacks
  have hall : inner.callbacks ++ [.ioParadigmLeave paradigm] =
      data.callbacks ++ (.ioParadigmEnter paradigm :: between ++ [.ioParadigmLeave paradigm]) := by
    rw [hcallbacks, LocationData.beginHandle, if_neg h]
    simp
  refine ⟨⟨data.handleStack, inner.callbacks ++ [.ioParadigmLeave paradigm]⟩, ?_, rfl, _, hall,
    hnested.enclose paradigm⟩
  cases success with
  | true => simp [finish, LocationData.completeHandle, hstack, handleStackTop, hhandle]
  | false => simp [finish, LocationData.dropIncompleteHandle, hstack, handleStackTop, htype]

theorem finish_counted {top : HandleStackEntry} {rest : List HandleStackEntry}
    (hstack : data.handleStack = top :: rest) (h : Recursive ioParadigmType paradigm data.handleStack)
    (htop : top.handle ≠ invalidIoHandle) (hcounter : top.recursiveCreationCounter + 1 < 2 ^ 32)
    (hinner : Balanced (data.beginHandle ioParadigmType paradigm handle) inner) :
    ∃ data', finish ioParadigmType paradigm true inner = some (invalidIoHandle, data') ∧
      Balanced data data' := by
  have hcreation : top.inCreation = true := by
    rw [hstack] at h
    obtain ⟨_, heq, hcreation, -⟩ := h
    cases heq
    exact hcreation
  have hbegun : inner.handleStack =
      { top with recursiveCreationCounter := top.recursiveCreationCounter + 1 } :: rest := by
    rw [hinner.stack, LocationData.beginHandle, hstack]
    rw [hstack] at h
    rw [beginStack_recursive h, Nat.mod_eq_of_lt hcounter]
  obtain ⟨between, hcallbacks, hnested⟩ := hinner.callbacks
  refine ⟨{ inner with handleStack := data.handleStack }, ?_, rfl, between, ?_, hnested⟩
  · simp only [finish, if_true, LocationData.completeHandle, hbegun, handleStackTop]
    rw [if_neg htop, if_pos ⟨hcreation, Nat.succ_pos _⟩, hstack]
    rfl
  · rw [hcallbacks, LocationData.beginHandle, if_pos h]

theorem finish_not_counted {result : ℕ} (h : Recursive ioParadigmType paradigm data.handleStack)
    (hfails : ¬(success = true ∧ topCounter data.handleStack + 1 < 2 ^ 32))
    (hbounded : topCounter data.handleStack < 2 ^ 32)
    (hinner : Balanced (data.beginHandle ioParadigmType paradigm handle) inner)
    (hfinish : finish ioParadigmType paradigm success inner = some (result, data')) :
    data'.handleStack ≠ data.handleStack := by
  cases hstack : data.handleStack with
  | nil =>
    rw [hstack] at h
    obtain ⟨_, heq, -⟩ := h
    cases heq
  | cons top rest =>
    have hbegun : inner.handleStack =
        { top with recursiveCreationCounter := (top.recursiveCreationCounter + 1) % 2 ^ 32 } :: rest := by
      rw [hinner.stack, LocationData.beginHandle, hstack]
      rw [hstack] at h
      exact beginStack_recursive h
    have hshorter : data'.handleStack = rest := by
      cases success with
      | false =>
        simp only [finish, LocationData.dropIncompleteHandle, hbegun] at hfinish
        cases hfinish
        rfl
      | true =>
        have hwrap : (top.recursiveCreationCounter + 1) % 2 ^ 32 = 0 := by
          rw [hstack] at hfails hbounded
          simp only [topCounter] at hfails hbounded
          have heq : top.recursiveCreationCounter + 1 = 2 ^ 32 := by
            simp only [true_and] at hfails
            omega
          rw [heq, Nat.mod_self]
        rw [hwrap] at hbegun
        simp only [finish, if_true, LocationData.completeHandle, hbegun, handleStackTop] at hfinish
        by_cases htop : top.handle = invalidIoHandle
        · rw [if_pos htop] at hfinish
          cases hfinish
        · rw [if_neg htop, if_neg (fun hcount => Nat.lt_irrefl 0 hcount.2)] at hfinish
          cases hfinish
          rfl
    rw [hshorter]
    intro heq
    exact List.cons_ne_self top rest heq.symm

/-! ## One section -/

omit [DecidableEq P] in
theorem push_stack (ioParadigmType : ℕ → P) (call : PushCall P) : (call.push ioParadigmType handle data).handleStack =
    if handle ≠ invalidIoHandle then ⟨handle, false, 0⟩ :: data.handleStack else data.handleStack := by
  cases call with
  | pushHandle =>
    simp only [PushCall.push, LocationData.pushHandle]
    split <;> rfl
  | getAndPushHandle paradigm =>
    simp only [PushCall.push, LocationData.getAndPushHandle]
    split <;> rfl

theorem pop_spec {call : PushCall P} (htype : ∀ paradigm, call = .getAndPushHandle paradigm →
      handle ≠ invalidIoHandle → ioParadigmType handle = paradigm)
    (hinner : Balanced (call.push ioParadigmType handle data) inner) :
    ∃ data', inner.popHandle ioParadigmType handle = some data' ∧ Balanced data data' := by
  by_cases hhandle : handle ≠ invalidIoHandle
  · have hstack : inner.handleStack = ⟨handle, false, 0⟩ :: data.handleStack := by
      rw [hinner.stack, push_stack, if_pos hhandle]
    have hpushed : (call.push ioParadigmType handle data).callbacks =
        data.callbacks ++ [.ioParadigmEnter (ioParadigmType handle)] := by
      cases call with
      | pushHandle => rw [PushCall.push, LocationData.pushHandle, if_pos hhandle]
      | getAndPushHandle paradigm =>
        rw [htype paradigm rfl hhandle, PushCall.push, LocationData.getAndPushHandle, if_pos hhandle]
    obtain ⟨between, hcallbacks, hnested⟩ := hinner.callbacks
    refine ⟨⟨data.handleStack, inner.callbacks ++ [.ioParadigmLeave (ioParadigmType handle)]⟩, ?_, rfl, _,
      ?_, hnested.enclose (ioParadigmType handle)⟩
    · simp [LocationData.popHandle, hhandle, hstack, handleStackTop]
    · rw [hcallbacks, hpushed]
      simp
  · have hpushed : call.push ioParadigmType handle data = data := by
      cases call with
      | pushHandle => rw [PushCall.push, LocationData.pushHandle, if_neg hhandle]
      | getAndPushHandle paradigm => rw [PushCall.push, LocationData.getAndPushHandle, if_neg hhandle]
    rw [hpushed] at hinner
    exact ⟨inner, by rw [LocationData.popHandle, if_neg hhandle], hinner⟩

/-! ## Programs -/

/-- The handles on a stack are valid, and the counters are of type `uint32_t`. -/
structure Valid (stack : List HandleStackEntry) : Prop where
  handle : ∀ entry ∈ stack, entry.handle ≠ invalidIoHandle
  counter : ∀ entry ∈ stack, entry.recursiveCreationCounter < 2 ^ 32

theorem Valid.nil : Valid [] :=
  ⟨by simp, by simp⟩

theorem Valid.cons {entry : HandleStackEntry} (h : Valid stack)
    (hhandle : entry.handle ≠ invalidIoHandle) (hcounter : entry.recursiveCreationCounter < 2 ^ 32) :
    Valid (entry :: stack) where
  handle := by
    intro other hmem
    rcases List.mem_cons.1 hmem with rfl | hmem
    · exact hhandle
    · exact h.handle other hmem
  counter := by
    intro other hmem
    rcases List.mem_cons.1 hmem with rfl | hmem
    · exact hcounter
    · exact h.counter other hmem

theorem Valid.beginStack (h : Valid stack) (hhandle : handle ≠ invalidIoHandle) :
    Valid (beginStack ioParadigmType paradigm handle stack) := by
  have hpush : Valid (⟨handle, true, 0⟩ :: stack) := h.cons hhandle (by decide : 0 < 2 ^ 32)
  by_cases hrecursive : Recursive ioParadigmType paradigm stack
  · cases stack with
    | nil => exact hpush
    | cons top rest =>
      have hrest : Valid rest :=
        ⟨fun entry hmem => h.handle entry (List.mem_cons_of_mem top hmem),
          fun entry hmem => h.counter entry (List.mem_cons_of_mem top hmem)⟩
      rw [beginStack_recursive hrecursive]
      exact hrest.cons (h.handle top List.mem_cons_self) (Nat.mod_lt _ (by decide))
  · rw [beginStack_outermost hrecursive]
    exact hpush

omit [DecidableEq P] in
theorem Valid.push {call : PushCall P} (h : Valid data.handleStack) :
    Valid (call.push ioParadigmType handle data).handleStack := by
  rw [push_stack]
  by_cases hhandle : handle ≠ invalidIoHandle
  · rw [if_pos hhandle]
    exact h.cons hhandle (by decide : 0 < 2 ^ 32)
  · rw [if_neg hhandle]
    exact h

theorem Valid.topCounter_lt (h : Valid stack) : topCounter stack < 2 ^ 32 := by
  cases stack with
  | nil => exact (by decide : 0 < 2 ^ 32)
  | cons top rest => exact h.counter top List.mem_cons_self

theorem finish_spec (hvalid : Valid data.handleStack) (hhandle : handle ≠ invalidIoHandle)
    (htype : ioParadigmType handle = paradigm) (hcounted : Recursive ioParadigmType paradigm data.handleStack →
      success = true ∧ topCounter data.handleStack + 1 < 2 ^ 32)
    (hinner : Balanced (data.beginHandle ioParadigmType paradigm handle) inner) :
    ∃ data', finish ioParadigmType paradigm success inner =
        some (if success ∧ ¬Recursive ioParadigmType paradigm data.handleStack then handle
          else invalidIoHandle, data') ∧ Balanced data data' := by
  by_cases hrecursive : Recursive ioParadigmType paradigm data.handleStack
  · obtain ⟨rfl, hcounter⟩ := hcounted hrecursive
    cases hstack : data.handleStack with
    | nil =>
      rw [hstack] at hrecursive
      obtain ⟨_, heq, -⟩ := hrecursive
      cases heq
    | cons top rest =>
      rw [hstack] at hvalid hcounter
      obtain ⟨data', hfinish, hbalanced⟩ := finish_counted hstack hrecursive
        (hvalid.handle top List.mem_cons_self) hcounter hinner
      rw [hstack] at hrecursive
      refine ⟨data', ?_, hbalanced⟩
      rw [hfinish, if_neg (fun hboth => hboth.2 hrecursive)]
  · obtain ⟨data', hfinish, hbalanced⟩ := finish_outermost success hrecursive hhandle htype hinner
    refine ⟨data', ?_, hbalanced⟩
    rw [hfinish]
    simp [hrecursive]

theorem Calls.CountedSucceed.meets {calls : Calls P} (hwell : calls.WellFormed ioParadigmType)
    (hvalid : Valid data.handleStack) (h : calls.CountedSucceed ioParadigmType data.handleStack) :
    calls.Meets ioParadigmType data ∧
      ∃ data', calls.run ioParadigmType data = some data' ∧ Balanced data data' := by
  induction calls generalizing data with
  | done => exact ⟨trivial, data, rfl, Balanced.refl data⟩
  | create call handle body success rest ihbody ihrest =>
    obtain ⟨hhandle, htype, -, hbody, hrest⟩ := hwell
    obtain ⟨hcounted, hfine, hfineRest⟩ := h
    have hbegun : Valid (data.beginHandle ioParadigmType call.paradigm handle).handleStack :=
      hvalid.beginStack hhandle
    obtain ⟨hmeets, inner, hrun, hinner⟩ := ihbody hbody hbegun hfine
    obtain ⟨data', hfinish, hbalanced⟩ := finish_spec hvalid hhandle htype hcounted hinner
    rw [← hbalanced.stack] at hvalid hfineRest
    obtain ⟨hmeets', data'', hrun', hbalanced'⟩ := ihrest hrest hvalid hfineRest
    refine ⟨⟨hmeets, inner, data', hrun, hfinish, hbalanced, hmeets'⟩, data'', ?_, hbalanced.trans hbalanced'⟩
    simp [Calls.run, hrun, hfinish, hrun']
  | within call handle body rest ihbody ihrest =>
    obtain ⟨htype, hbody, hrest⟩ := hwell
    obtain ⟨hfine, hfineRest⟩ := h
    rw [← push_stack ioParadigmType call] at hfine
    obtain ⟨hmeets, inner, hrun, hinner⟩ := ihbody hbody hvalid.push hfine
    obtain ⟨data', hpop, hbalanced⟩ := pop_spec htype hinner
    rw [← hbalanced.stack] at hvalid hfineRest
    obtain ⟨hmeets', data'', hrun', hbalanced'⟩ := ihrest hrest hvalid hfineRest
    refine ⟨⟨hmeets, inner, data', hrun, hpop, hbalanced, hmeets'⟩, data'', ?_, hbalanced.trans hbalanced'⟩
    simp [Calls.run, hrun, hpop, hrun']

theorem Calls.Meets.countedSucceed {calls : Calls P} (hwell : calls.WellFormed ioParadigmType)
    (hvalid : Valid data.handleStack) (h : calls.Meets ioParadigmType data) :
    calls.CountedSucceed ioParadigmType data.handleStack := by
  induction calls generalizing data with
  | done => trivial
  | create call handle body success rest ihbody ihrest =>
    obtain ⟨hhandle, htype, -, hbody, hrest⟩ := hwell
    obtain ⟨hmeets, inner, data', hrun, hfinish, hbalanced, hmeets'⟩ := h
    have hbegun : Valid (data.beginHandle ioParadigmType call.paradigm handle).handleStack :=
      hvalid.beginStack hhandle
    have hfine := ihbody hbody hbegun hmeets
    obtain ⟨-, inner', hrun', hinner⟩ := hfine.meets hbody hbegun
    rw [hrun] at hrun'
    cases hrun'
    refine ⟨?_, hfine, ?_⟩
    · intro hrecursive
      by_contra hfails
      exact finish_not_counted hrecursive hfails hvalid.topCounter_lt hinner hfinish hbalanced.stack
    · rw [← hbalanced.stack] at hvalid ⊢
      exact ihrest hrest hvalid hmeets'
  | within call handle body rest ihbody ihrest =>
    obtain ⟨htype, hbody, hrest⟩ := hwell
    obtain ⟨hmeets, inner, data', -, -, hbalanced, hmeets'⟩ := h
    have hfine := ihbody hbody hvalid.push hmeets
    rw [push_stack] at hfine
    refine ⟨hfine, ?_⟩
    rw [← hbalanced.stack] at hvalid ⊢
    exact ihrest hrest hvalid hmeets'

/-- On a location with an empty stack: the creations and sections of a program end alone exactly if each
counted creation succeeds. -/
theorem meets_iff (ioParadigmType : ℕ → P) (calls : Calls P) (hwell : calls.WellFormed ioParadigmType) :
    calls.Meets ioParadigmType ⟨[], []⟩ ↔ calls.CountedSucceed ioParadigmType [] := by
  constructor
  · intro h
    exact h.countedSucceed hwell Valid.nil
  · intro h
    have hempty : Valid (⟨[], []⟩ : LocationData P).handleStack := Valid.nil
    exact (Calls.CountedSucceed.meets hwell hempty h).1

def recursiveCreation (success : Bool) : Calls ℕ :=
  .create (.creation 1) 3 (.create (.creation 0) 1 (.create (.creation 0) 2 .done success .done) true .done)
    true .done

def paradigmOfHandle (handle : ℕ) : ℕ :=
  if handle = 3 then 1 else 0

theorem meets_recursiveCreation : (recursiveCreation true).Meets paradigmOfHandle ⟨[], []⟩ := by
  apply (meets_iff paradigmOfHandle (recursiveCreation true) _).2
  · refine ⟨?_, ⟨?_, ⟨?_, trivial, trivial⟩, trivial⟩, trivial⟩
    · decide
    · decide
    · exact fun _ => ⟨rfl, by decide⟩
  · simp [recursiveCreation, Calls.WellFormed, paradigmOfHandle, BeginCall.paradigm, invalidIoHandle]

theorem not_meets_recursiveCreation : ¬(recursiveCreation false).Meets paradigmOfHandle ⟨[], []⟩ := by
  intro h
  obtain ⟨⟨⟨-, inner, data', hrun, hfinish, hbalanced, -⟩, -⟩, -⟩ := h
  cases hrun
  cases hfinish
  have hlength := congrArg List.length hbalanced.stack
  revert hlength
  decide

end ScoreP.Io
