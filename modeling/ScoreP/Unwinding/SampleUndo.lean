import ScoreP.Unwinding.HandleEnter

/-!
# What a sample without a calling context leaves behind

A sample may come without a calling context, because libunwind gives no cursor, because an unhandled wrapper
is not on the stack, or because no frame counts. `Undone` says that such a sample leaves the location as
it was. Two things stand against it:

* `resolveUnhandledWrappers` counts `n_wrapper_frames` of a wrapper it meets down to `SIZE_MAX` and never
  sets it back when a wrapper above is not met.
* With all wrappers resolved and an empty stack, the new surrogates are not given back.

So the sample is undone if and only if libunwind gives no cursor, no wrapper is unhandled, or the search
gives up before it changes a count (`sample_undone_iff`).
-/

namespace ScoreP.Unwinding

open List

namespace Pool

/-- Of the objects of the pool before, and of those that were allocated since, the pool holds all but the ones
that are taken. -/
def Lends (before pool : Pool) (taken : List ℕ) : Prop :=
  before.next ≤ pool.next ∧ (taken ++ pool.unusedObjects).Perm
    (List.range' before.next (pool.next - before.next) ++ before.unusedObjects)

variable {before pool : Pool} {taken : List ℕ}

theorem lends_self (pool : Pool) : pool.Lends pool [] := by
  simp [Lends]

theorem Lends.getUnused (h : before.Lends pool taken) :
    before.Lends pool.getUnused.2 (pool.getUnused.1 :: taken) := by
  obtain ⟨hnext, hperm⟩ := h
  unfold Pool.getUnused
  cases hunused : pool.unusedObjects with
  | cons object rest =>
    refine ⟨hnext, ?_⟩
    rw [hunused] at hperm
    exact perm_middle.symm.trans hperm
  | nil =>
    refine ⟨Nat.le_succ_of_le hnext, ?_⟩
    have hcount : pool.next + 1 - before.next = pool.next - before.next + 1 := by omega
    have hlast : before.next + (pool.next - before.next) = pool.next := by omega
    rw [hunused] at hperm
    change (pool.next :: taken ++ []).Perm (List.range' before.next (pool.next + 1 - before.next) ++ _)
    rw [hcount, List.range'_1_concat, hlast, append_assoc]
    exact (hperm.cons pool.next).trans perm_middle.symm

theorem Lends.putUnused {object : ℕ} (h : before.Lends pool (object :: taken)) :
    before.Lends (pool.putUnused object) taken :=
  ⟨h.1, perm_middle.trans h.2⟩

theorem Lends.putAll {surrogates : List Surrogate} {pool : Pool}
    (h : before.Lends pool (surrogates.map (·.object))) :
    before.Lends (surrogates.foldl (fun pool surrogate => pool.putUnused surrogate.object) pool) [] := by
  induction surrogates generalizing pool with
  | nil => exact h
  | cons surrogate surrogates ih => exact ih h.putUnused

theorem Lends.incomplete (h : before.Lends pool taken) (hback : before.Lends pool []) : taken = [] := by
  have hlength := (h.2.trans hback.2.symm).length_eq
  simpa using hlength

end Pool

section Walk

variable {σ : Type} {body : σ → Frame → σ × Bool}

theorem walk_rule {P : σ → Walk σ → Prop} (hbreak : ∀ state cursor, (body state cursor.frame).2 = true →
      P state ⟨(body state cursor.frame).1, cursor, true⟩)
    (hfail : ∀ state cursor, (body state cursor.frame).2 = false →
      P state ⟨(body state cursor.frame).1, cursor, false⟩)
    (hnext : ∀ state frame w, (body state frame).2 = false → P (body state frame).1 w → P state w)
    (cursor : Cursor) (state : σ) : P state (cursor.walk body state) := by
  obtain ⟨frame, steps⟩ := cursor
  change P state (walk body steps frame state)
  induction steps generalizing frame state with
  | nil =>
    rw [walk]
    cases hbreaks : (body state frame).2 with
    | true => exact hbreak state ⟨frame, []⟩ hbreaks
    | false => exact hfail state ⟨frame, []⟩ hbreaks
  | cons step steps ih =>
    cases step with
    | none =>
      rw [walk]
      cases hbreaks : (body state frame).2 with
      | true => exact hbreak state ⟨frame, none :: steps⟩ hbreaks
      | false => exact hfail state ⟨frame, steps⟩ hbreaks
    | some next =>
      rw [walk]
      cases hbreaks : (body state frame).2 with
      | true => exact hbreak state ⟨frame, some next :: steps⟩ hbreaks
      | false => exact hnext state frame _ hbreaks (ih (body state frame).1 next)

theorem walk_of_break {cursor : Cursor} {state : σ} (h : (body state cursor.frame).2 = true) :
    cursor.walk body state = ⟨(body state cursor.frame).1, cursor, true⟩ := by
  obtain ⟨frame, steps⟩ := cursor
  match steps with
  | [] => simp only [Cursor.walk, walk, h]
  | none :: steps => simp only [Cursor.walk, walk, h, if_true]
  | some next :: steps => simp only [Cursor.walk, walk, h, if_true]

theorem walk_invariant {P : σ → Prop} (hbody : ∀ state frame, P state → P (body state frame).1)
    (cursor : Cursor) {state : σ} (h : P state) : P (cursor.walk body state).state := by
  revert h
  apply walk_rule (P := fun state w => P state → P w.state)
  · intro state cursor _ h
    exact hbody state cursor.frame h
  · intro state cursor _ h
    exact hbody state cursor.frame h
  · intro state frame w _ ih h
    exact ih (hbody state frame h)

variable {breaks : Frame → Bool} (hbody : ∀ state frame, (body state frame).2 = breaks frame)
include hbody

theorem walk_stepped_eq_false (cursor : Cursor) (state : σ) :
    (cursor.walk body state).stepped = false ↔ ∀ frame ∈ cursor.reached, breaks frame = false := by
  obtain ⟨frame, steps⟩ := cursor
  change (walk body steps frame state).stepped = false ↔ _
  induction steps generalizing frame state with
  | nil =>
    have hreached : (Cursor.mk frame []).reached = [frame] := rfl
    simp [walk, hbody, hreached]
  | cons step steps ih =>
    cases step with
    | none =>
      have hreached : (Cursor.mk frame (none :: steps)).reached = [frame] := rfl
      rw [walk, hbody, hreached]
      cases hbreaks : breaks frame <;> simp [hbreaks]
    | some next =>
      have hreached : (Cursor.mk frame (some next :: steps)).reached =
          frame :: (Cursor.mk next steps).reached := rfl
      rw [walk, hbody, hreached, forall_mem_cons, ← ih (body state frame).1 next]
      cases hbreaks : breaks frame <;> simp

end Walk

/-! ## The count of wrapper frames -/

theorem skip_complete (cursor : Cursor) (count : BitVec 64) (h : (cursor.walk skipBody count).stepped = true) :
    (cursor.walk skipBody count).state = BitVec.allOnes 64 := by
  revert h
  apply walk_rule (P := fun _ w => w.stepped = true → w.state = BitVec.allOnes 64)
  · intro count cursor hzero _
    have hzero : count = 0 := by simpa [skipBody] using hzero
    subst hzero
    rfl
  · intro count cursor _ h
    cases h
  · intro count frame w _ ih
    exact ih

theorem skip_incomplete (cursor : Cursor) (count : BitVec 64)
    (h : (cursor.walk skipBody count).stepped = false) :
    (cursor.walk skipBody count).state.toNat < count.toNat := by
  have hdown {count : BitVec 64} {frame : Frame} (hgoes : (skipBody count frame).2 = false) :
      (skipBody count frame).1.toNat < count.toNat := by
    have hzero : count ≠ 0 := by simpa [skipBody] using hgoes
    change (count - 1).toNat < count.toNat
    bv_omega
  revert h
  apply walk_rule (P := fun (count : BitVec 64) (w : Walk (BitVec 64)) =>
    w.stepped = false → w.state.toNat < count.toNat)
  · intro count cursor _ h
    cases h
  · intro count cursor hgoes _
    exact hdown hgoes
  · intro count frame w hgoes ih h
    exact Nat.lt_trans (ih h) (hdown hgoes)

/-! ## The search for a wrapper -/

def Frame.around (frame : Frame) (ip : ℕ) : Bool :=
  frame.region.any fun region => decide (region.start ≤ ip ∧ ip < region.stop)

def Wrapper.Missed (wrapper : Wrapper) (cursor : Cursor) : Prop :=
  ∀ frame ∈ cursor.reached, frame.ip ≠ 0 ∧ frame.around wrapper.wrapperIp = false

instance (wrapper : Wrapper) (cursor : Cursor) : Decidable (wrapper.Missed cursor) :=
  inferInstanceAs (Decidable (∀ frame ∈ cursor.reached, _))

theorem searchBody_breaks (usePrevInstr wrapperIp : ℕ) (caller : Caller) (frame : Frame) :
    (searchBody usePrevInstr wrapperIp caller frame).2 = (frame.ip == 0 || frame.around wrapperIp) := by
  unfold searchBody Frame.around
  by_cases h : frame.ip = 0 <;> simp [h]

section Find

variable (wrapper : Wrapper) (usePrevInstr : ℕ) (nextIsCallerIp : Bool) (cursor : Cursor)

theorem search_fails_iff (caller : Caller) :
    (cursor.walk (searchBody usePrevInstr wrapper.wrapperIp) caller).stepped = false ↔
      wrapper.Missed cursor := by
  rw [walk_stepped_eq_false (searchBody_breaks usePrevInstr wrapper.wrapperIp) cursor caller]
  simp [Wrapper.Missed]

/-- What a search can come to: the wrapper is not met, the search ends at a frame without instruction
pointer, all frames of the wrapper are left behind, or a step fails inside of them. -/
theorem find_cases :
    let found := wrapper.find usePrevInstr nextIsCallerIp cursor
    (wrapper.Missed cursor ∧ found.stepped = false ∧ found.state.1 = wrapper) ∨
    (¬ wrapper.Missed cursor ∧ found.stepped = true ∧ found.state.1 = wrapper ∧ found.cursor.frame.ip = 0) ∨
    (¬ wrapper.Missed cursor ∧ found.stepped = true ∧
      found.state.1 = { wrapper with nWrapperFrames := BitVec.allOnes 64 }) ∨
    (¬ wrapper.Missed cursor ∧ found.stepped = false ∧
      found.state.1.nWrapperFrames.toNat < wrapper.nWrapperFrames.toNat) := by
  have hfails := search_fails_iff wrapper usePrevInstr cursor ⟨nextIsCallerIp, 0⟩
  dsimp only [Wrapper.find]
  generalize cursor.walk (searchBody usePrevInstr wrapper.wrapperIp) ⟨nextIsCallerIp, 0⟩ = search at hfails
  cases hsearch : search.stepped with
  | false =>
    rw [hsearch] at hfails
    simp [hfails.mp rfl]
  | true =>
    have hmeets : ¬ wrapper.Missed cursor := by simp [← hfails, hsearch]
    by_cases hip : search.cursor.frame.ip = 0
    · simp [hmeets, hip]
    · simp only [hmeets, hip, ne_eq, not_false_eq_true, and_self, if_true, true_and, false_and, false_or]
      cases hskip : (search.cursor.walk skipBody wrapper.nWrapperFrames).stepped with
      | true =>
        rw [skip_complete _ _ hskip]
        simp
      | false =>
        have hless := skip_incomplete _ _ hskip
        simp [hless]

end Find

/-! ## Resolving all wrappers -/

/-- The search gives up before it changes a count: the first wrapper is not met, or it is left behind with
a count that was at `SIZE_MAX` before and the same holds of the next one. -/
def Unmet (usePrevInstr : ℕ) : List Wrapper → Bool → Cursor → Prop
  | [], _, _ => False
  | wrapper :: rest, nextIsCallerIp, cursor =>
    wrapper.Missed cursor ∨ (wrapper.nWrapperFrames = BitVec.allOnes 64 ∧
        (wrapper.find usePrevInstr nextIsCallerIp cursor).stepped = true ∧
        Unmet usePrevInstr rest true (wrapper.find usePrevInstr nextIsCallerIp cursor).cursor)

def SearchGivesUp (unwindData : UnwindData) (call : Call) (cursor : Cursor) : Prop :=
  Unmet (if call.inSignalContext then 0 else 1) unwindData.unhandledWrappers call.inSignalContext cursor

section Resolve

variable (usePrevInstr : ℕ)

theorem resolveFrom_cons (wrapper : Wrapper) (rest : List Wrapper) (nextIsCallerIp : Bool) (cursor : Cursor)
    (pool : Pool) (newSurrogates : List Surrogate) :
    let found := wrapper.find usePrevInstr nextIsCallerIp cursor
    let resolution := resolveFrom usePrevInstr (wrapper :: rest) nextIsCallerIp cursor pool newSurrogates
    (found.stepped = true ∧ ∃ later, later = resolveFrom usePrevInstr rest true found.cursor pool.getUnused.2
        (⟨pool.getUnused.1, found.state.2, wrapper.wrappeeHandle, true⟩ :: newSurrogates) ∧
      resolution = { later with wrappers := found.state.1 :: later.wrappers }) ∨
    (found.stepped = false ∧ resolution =
      ⟨newSurrogates.foldl (fun pool surrogate => pool.putUnused surrogate.object) pool,
        found.state.1 :: rest, none, found.cursor⟩) := by
  cases hfound : (wrapper.find usePrevInstr nextIsCallerIp cursor).stepped with
  | true => simp [resolveFrom, hfound]
  | false => simp [resolveFrom, hfound]

def Surrogate.content (surrogate : Surrogate) : ℕ × ℕ × Bool :=
  (surrogate.ip, surrogate.regionHandle, surrogate.isWrapped)

theorem resolveFrom_content (wrappers : List Wrapper) (nextIsCallerIp : Bool) (cursor : Cursor)
    (pool pool' : Pool) {newSurrogates newSurrogates' : List Surrogate}
    (h : newSurrogates.map Surrogate.content = newSurrogates'.map Surrogate.content) :
    (resolveFrom usePrevInstr wrappers nextIsCallerIp cursor pool newSurrogates).newSurrogates.map
        (List.map Surrogate.content) =
      (resolveFrom usePrevInstr wrappers nextIsCallerIp cursor pool' newSurrogates').newSurrogates.map
        (List.map Surrogate.content) := by
  induction wrappers generalizing nextIsCallerIp cursor pool pool' newSurrogates newSurrogates' with
  | nil => exact congrArg some h
  | cons wrapper rest ih =>
    cases hfound : (wrapper.find usePrevInstr nextIsCallerIp cursor).stepped with
    | true =>
      simp only [resolveFrom, hfound, if_true]
      apply ih
      simp [h, Surrogate.content]
    | false => simp only [resolveFrom, hfound, Bool.false_eq_true, if_false]

theorem not_unmet {cursor : Cursor} (h : cursor.frame.ip = 0) (wrappers : List Wrapper)
    (nextIsCallerIp : Bool) : ¬ Unmet usePrevInstr wrappers nextIsCallerIp cursor := by
  induction wrappers generalizing nextIsCallerIp with
  | nil => exact not_false
  | cons wrapper rest ih =>
    have hcursor : (wrapper.find usePrevInstr nextIsCallerIp cursor).cursor = cursor := by
      have hbreaks : (searchBody usePrevInstr wrapper.wrapperIp ⟨nextIsCallerIp, 0⟩ cursor.frame).2 = true := by
        simp [searchBody, h]
      simp [Wrapper.find, walk_of_break hbreaks, h]
    rintro (hmissed | ⟨-, -, hrest⟩)
    · exact (hmissed cursor.frame mem_cons_self).1 h
    · rw [hcursor] at hrest
      exact ih true hrest

theorem resolveFrom_unchanged_iff (wrappers : List Wrapper) (nextIsCallerIp : Bool) (cursor : Cursor)
    (pool : Pool) (newSurrogates : List Surrogate) :
    let resolution := resolveFrom usePrevInstr wrappers nextIsCallerIp cursor pool newSurrogates
    resolution.newSurrogates = none ∧ resolution.wrappers = wrappers ↔
      Unmet usePrevInstr wrappers nextIsCallerIp cursor := by
  induction wrappers generalizing nextIsCallerIp cursor pool newSurrogates with
  | nil => simp [resolveFrom, Unmet]
  | cons wrapper rest ih =>
    rw [Unmet]
    rcases resolveFrom_cons usePrevInstr wrapper rest nextIsCallerIp cursor pool newSurrogates with
      ⟨hstepped, later, hlater, hresolution⟩ | ⟨hstepped, hresolution⟩
    · have hrest := ih true (wrapper.find usePrevInstr nextIsCallerIp cursor).cursor pool.getUnused.2
        (⟨pool.getUnused.1, (wrapper.find usePrevInstr nextIsCallerIp cursor).state.2,
          wrapper.wrappeeHandle, true⟩ :: newSurrogates)
      dsimp only at hrest
      rw [← hlater] at hrest
      simp only [hresolution, List.cons.injEq, hstepped, true_and]
      rcases find_cases wrapper usePrevInstr nextIsCallerIp cursor with
        ⟨-, hfails, -⟩ | ⟨hmet, -, -, hip⟩ | ⟨hmet, -, hwrapper⟩ | ⟨-, hfails, -⟩
      · rw [hstepped] at hfails
        cases hfails
      · have hnone := not_unmet usePrevInstr hip rest true
        rw [← hrest] at hnone
        constructor
        · rintro ⟨hnew, -, hwrappers⟩
          exact absurd ⟨hnew, hwrappers⟩ hnone
        · rintro (hmissed | ⟨-, hunmet⟩)
          · exact absurd hmissed hmet
          · exact absurd (hrest.mpr hunmet) hnone
      · have hcount : (wrapper.find usePrevInstr nextIsCallerIp cursor).state.1 = wrapper ↔
            wrapper.nWrapperFrames = BitVec.allOnes 64 := by
          rw [hwrapper, Wrapper.ext_iff]
          simp [eq_comm]
        rw [hcount, ← hrest]
        simp only [hmet, false_or]
        exact and_left_comm
      · rw [hstepped] at hfails
        cases hfails
    · simp only [hresolution, List.cons.injEq, true_and, and_true, hstepped, Bool.false_eq_true, false_and,
        and_false, or_false]
      rcases find_cases wrapper usePrevInstr nextIsCallerIp cursor with
        ⟨hmissed, -, hwrapper⟩ | ⟨-, hgoes, -⟩ | ⟨-, hgoes, -⟩ | ⟨hmet, -, hless⟩
      · simp [hmissed, hwrapper]
      · rw [hstepped] at hgoes
        cases hgoes
      · rw [hstepped] at hgoes
        cases hgoes
      · simp only [hmet, iff_false]
        intro heq
        rw [heq] at hless
        exact Nat.lt_irrefl _ hless

theorem resolveFrom_pool {before : Pool} (wrappers : List Wrapper) (nextIsCallerIp : Bool) (cursor : Cursor)
    {pool : Pool} (newSurrogates : List Surrogate) (h : before.Lends pool (newSurrogates.map (·.object))) :
    let resolution := resolveFrom usePrevInstr wrappers nextIsCallerIp cursor pool newSurrogates
    match resolution.newSurrogates with
    | none => before.Lends resolution.pool []
    | some new => before.Lends resolution.pool (new.map (·.object)) ∧
        new.length = wrappers.length + newSurrogates.length := by
  induction wrappers generalizing nextIsCallerIp cursor pool newSurrogates with
  | nil => exact ⟨h, (Nat.zero_add _).symm⟩
  | cons wrapper rest ih =>
    cases hfound : (wrapper.find usePrevInstr nextIsCallerIp cursor).stepped with
    | true =>
      simp only [resolveFrom, hfound, if_true]
      generalize hsurrogate : Surrogate.mk pool.getUnused.1
        (wrapper.find usePrevInstr nextIsCallerIp cursor).state.2 wrapper.wrappeeHandle true = surrogate
      have hlends : before.Lends pool.getUnused.2 ((surrogate :: newSurrogates).map (·.object)) := by
        rw [← hsurrogate]
        exact h.getUnused
      have hrest := ih true (wrapper.find usePrevInstr nextIsCallerIp cursor).cursor _ hlends
      dsimp only at hrest
      have hlength : rest.length + (surrogate :: newSurrogates).length =
          (wrapper :: rest).length + newSurrogates.length := by
        simp only [length_cons]
        omega
      rwa [hlength] at hrest
    | false =>
      simp only [resolveFrom, hfound, Bool.false_eq_true, if_false]
      exact h.putAll

/-- What `resolve_unhandled_wrappers` does: it gives all objects back and changes no wrapper if and only if
the search gives up in time, or it takes an object for every wrapper. -/
theorem resolveUnhandledWrappers_cases (unwindData : UnwindData) (call : Call) (cursor : Cursor) :
    let resolution := resolveUnhandledWrappers call.inSignalContext unwindData cursor
    (resolution.newSurrogates = none ∧ unwindData.pool.Lends resolution.pool [] ∧
      (resolution.wrappers = unwindData.unhandledWrappers ↔ SearchGivesUp unwindData call cursor)) ∨
    (∃ new, resolution.newSurrogates = some new ∧ unwindData.pool.Lends resolution.pool (new.map (·.object)) ∧
      new.length = unwindData.unhandledWrappers.length ∧ ¬ SearchGivesUp unwindData call cursor) := by
  have hunchanged := resolveFrom_unchanged_iff (if call.inSignalContext then 0 else 1)
    unwindData.unhandledWrappers call.inSignalContext cursor unwindData.pool []
  have hpool := resolveFrom_pool (if call.inSignalContext then 0 else 1) unwindData.unhandledWrappers
    call.inSignalContext cursor [] unwindData.pool.lends_self
  dsimp only [resolveUnhandledWrappers] at hunchanged hpool ⊢
  unfold SearchGivesUp
  generalize resolveFrom _ _ _ _ _ _ = resolution at hunchanged hpool ⊢
  cases hnew : resolution.newSurrogates with
  | none =>
    rw [hnew] at hunchanged hpool
    simpa [hpool] using hunchanged
  | some new =>
    rw [hnew] at hunchanged hpool
    have hnot := hunchanged.not.mp (fun h => Option.some_ne_none new h.1)
    simpa [hpool.1, hnot] using hpool.2

end Resolve

/-! ## Samples without a calling context -/

structure Undone (before after : UnwindData) : Prop where
  unhandledWrappers : after.unhandledWrappers = before.unhandledWrappers
  augmentedStack : after.augmentedStack = before.augmentedStack
  previousCallingContext : after.previousCallingContext = before.previousCallingContext
  pool : before.pool.Lends after.pool []
  resolves : ∀ inSignalContext cursor,
    (resolveUnhandledWrappers inSignalContext after cursor).newSurrogates.map (List.map Surrogate.content) =
      (resolveUnhandledWrappers inSignalContext before cursor).newSurrogates.map (List.map Surrogate.content)

theorem undone_iff {before after : UnwindData} (hstack : after.augmentedStack = before.augmentedStack)
    (hprevious : after.previousCallingContext = before.previousCallingContext) : Undone before after ↔
      after.unhandledWrappers = before.unhandledWrappers ∧ before.pool.Lends after.pool [] := by
  constructor
  · intro h
    exact ⟨h.unhandledWrappers, h.pool⟩
  · rintro ⟨hwrappers, hpool⟩
    refine ⟨hwrappers, hstack, hprevious, hpool, fun inSignalContext cursor => ?_⟩
    rw [resolveUnhandledWrappers, resolveUnhandledWrappers, hwrappers]
    apply resolveFrom_content
    rfl

theorem getCurrentStack_of_nil {pool : Pool} {cursor : Cursor} (h : (getCurrentStack pool cursor).2 = []) :
    (getCurrentStack pool cursor).1 = pool := by
  revert h
  apply walk_invariant (P := fun current : Pool × List StackFrame => current.2 = [] → current.1 = pool)
  · intro current frame ih
    unfold stackBody
    split
    · exact ih
    · split
      · exact ih
      · split
        · exact ih
        · intro h
          cases h
  · intro _
    rfl

theorem enterStack_ignored {unwindData after : UnwindData} {call : Call}
    {newSurrogates : Option (List Surrogate)} {cursor : Cursor}
    (h : (enterStack unwindData call newSurrogates cursor).undelivered = some after) : after = unwindData := by
  unfold enterStack at h
  split at h
  · cases h
  · dsimp only at h
    split at h
    · split at h
      · cases h
      · have hpool := getCurrentStack_of_nil ‹_›
        rw [hpool] at h
        exact (Option.some.inj h).symm
    · cases h

def SearchSpares (unwindData : UnwindData) (call : Call) : Prop :=
  ∀ start ∈ call.start, unwindData.unhandledWrappers = [] ∨ SearchGivesUp unwindData call (call.prepare start)

/-- A sample without a calling context leaves the location as it was if and only if the search for the
unhandled wrappers gives up before it changes a count. -/
theorem sample_undone_iff {unwindData after : UnwindData} {call : Call}
    (hsample : call.instrumentedRegionHandle = invalidRegion)
    (hnone : (handleEnter unwindData call).undelivered = some after) :
    Undone unwindData after ↔ SearchSpares unwindData call := by
  unfold handleEnter at hnone
  unfold SearchSpares
  cases hstart : call.start with
  | none =>
    rw [hstart] at hnone
    obtain rfl := Option.some.inj hnone
    simp [undone_iff, Pool.lends_self]
  | some start =>
    simp only [Option.mem_def, Option.some.injEq, forall_eq']
    rw [hstart] at hnone
    dsimp only at hnone
    cases hwrappers : unwindData.unhandledWrappers with
    | nil =>
      rw [hwrappers] at hnone
      obtain rfl := enterStack_ignored hnone
      simp [undone_iff, Pool.lends_self]
    | cons top rest =>
      simp only [hwrappers, hsample, ne_eq, not_true_eq_false, false_and, if_false] at hnone
      have hcases := resolveUnhandledWrappers_cases unwindData call (call.prepare start)
      dsimp only at hcases
      generalize resolveUnhandledWrappers call.inSignalContext unwindData (call.prepare start) = resolution
        at hnone hcases
      rcases hcases with ⟨hnew, hpool, hunchanged⟩ | ⟨new, hnew, hpool, hlength, hnot⟩
      · rw [hnew] at hnone
        obtain rfl := Option.some.inj hnone
        have hundone : Undone unwindData { unwindData with
            pool := resolution.pool, unhandledWrappers := resolution.wrappers } ↔ _ := undone_iff rfl rfl
        simp [hundone, hpool, hunchanged]
      · have hafter : after = { unwindData with
            pool := resolution.pool, unhandledWrappers := resolution.wrappers } := by
          rw [hnew] at hnone
          dsimp only at hnone
          split at hnone
          · cases hnone
          · exact enterStack_ignored hnone
        have hleaks : ¬ Undone unwindData after := by
          intro h
          have hpool' := h.pool
          rw [hafter] at hpool'
          have hempty := congrArg List.length (hpool.incomplete hpool')
          rw [length_map, hlength, hwrappers] at hempty
          cases hempty
        simp [hleaks, hnot]

/-- The frame at `ip` of a function of ten bytes -/
def frameAt (ip : ℕ) : Frame :=
  ⟨ip, false, some ⟨ip - 5, ip + 5, false, false, false⟩⟩

def callThrough (region ip : ℕ) (ips : List ℕ) : Call :=
  ⟨false, false, some ⟨frameAt ip, ips.map fun ip => some (frameAt ip)⟩, region⟩

def twoWrappers : UnwindData :=
  ⟨⟨[], 3⟩, [⟨1, 105, 1, 7⟩, ⟨2, 305, 1, 8⟩], [], 0⟩

theorem sample_undone_iff_missed :
    Undone twoWrappers twoWrappers ↔ SearchSpares twoWrappers (callThrough invalidRegion 205 [405]) :=
  sample_undone_iff rfl rfl

/-- The stack of the sample ends before the outer wrapper. -/
theorem sample_wears_out_wrapper :
    ¬ ∀ (unwindData after : UnwindData) (call : Call), call.instrumentedRegionHandle = invalidRegion →
      (handleEnter unwindData call).undelivered = some after → Undone unwindData after := by
  intro h
  have hundone := h twoWrappers ⟨⟨[3], 4⟩, [⟨1, 105, BitVec.allOnes 64, 7⟩, ⟨2, 305, 1, 8⟩], [], 0⟩
    (callThrough invalidRegion 105 [205]) rfl rfl
  have hwrappers := hundone.unhandledWrappers
  revert hwrappers
  decide

-- After such a sample, not even a complete stack resolves the wrappers of an enter event any more.
example : handleEnter ⟨⟨[3], 4⟩, [⟨1, 105, BitVec.allOnes 64, 7⟩, ⟨2, 305, 1, 8⟩], [], 0⟩
    (callThrough 7 105 [205, 305, 405]) = .bug := by
  decide

end ScoreP.Unwinding
