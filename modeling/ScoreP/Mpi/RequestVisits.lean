import Mathlib.Data.List.Nodup
import Mathlib.Data.List.Perm.Subperm
import Mathlib.Logic.Equiv.Basic
import ScoreP.Mpi.RequestChecks

/-!
# Which records the saved requests are matched with

A record that stays in its list is without marker again after its iteration, and the next position with the
same handle finds it again. `treats_iff`: the positions of a handle are treated as distinct records if and
only if all of them but the last one are complete and their records are freed.
-/

namespace ScoreP.Mpi.Checks

open Function List

/-! ## One position -/

def Request.frees (r : Request) : Bool :=
  !r.isPersistent || (r.isActive && r.deallocate)

/-- What a position leaves of its record; `some` status if it was reported complete. -/
def Request.after {S : Type} (r : Request) : Option S → List Request
  | none => [r]
  | some _ =>
    if r.frees then []
    else if r.isActive then [{ r with isActive := false, isCompleted := false }]
    else [r]

theorem Request.after_freed {S : Type} {r : Request} {o : Option S} (h : o.isSome ∧ r.frees = true) :
    r.after o = [] := by
  obtain ⟨status, rfl⟩ := Option.isSome_iff_exists.1 h.1
  exact if_pos h.2

theorem Request.after_kept {S : Type} {r : Request} {o : Option S} (h : ¬ (o.isSome ∧ r.frees = true)) :
    ∃ r', r.after o = [r'] ∧ r'.address = r.address := by
  cases o with
  | none => exact ⟨r, rfl, rfl⟩
  | some status =>
    have hfrees : ¬ r.frees = true := fun hfrees => h ⟨rfl, hfrees⟩
    simp only [Request.after, if_neg hfrees]
    split_ifs
    · exact ⟨_, rfl, rfl⟩
    · exact ⟨r, rfl, rfl⟩

theorem Request.after_sublist {S : Type} (r : Request) (o : Option S) :
    List.Sublist ((r.after o).map Request.address) [r.address] := by
  by_cases h : o.isSome ∧ r.frees = true
  · rw [after_freed h]
    exact nil_sublist _
  · obtain ⟨r', hafter, haddress⟩ := after_kept h
    rw [hafter, map_singleton, haddress]

theorem Request.after_marker {S : Type} {r : Request} (o : Option S) (hr : r.marker = false) :
    ∀ r' ∈ r.after o, r'.marker = false := by
  intro r' hr'
  cases o with
  | none => rw [mem_singleton.1 hr', hr]
  | some status =>
    simp only [Request.after] at hr'
    split_ifs at hr' with hfrees hactive
    · cases hr'
    · rw [mem_singleton.1 hr', hr]
    · rw [mem_singleton.1 hr', hr]

def visit {K S : Type} (request : K) (address : ℕ) : Option S → List (Call K S)
  | none => [.requestTested ⟨request, address⟩]
  | some status => [.checkRequest ⟨request, address⟩ status, .cleanupRequest ⟨request, address⟩]

section

variable {K S : Type} [DecidableEq K]

namespace State

variable {s : State K S} {table : K → List Request} {calls : List (Call K S)} {request : K}
  {before behind : List Request} {r : Request}

def unmarked (s : State K S) (request : K) : List Request :=
  (s.table request).filter fun r => !r.marker

def Distinct (s : State K S) : Prop :=
  ∀ request, ((s.table request).map Request.address).Nodup

def treat (s : State K S) (position : K × Option S) : State K S :=
  match position.2 with
  | some status => s.checkSaved position.1 status
  | none => s.testSaved position.1

/-- The state with `records` in the list of `request`. -/
def listed (table : K → List Request) (request : K) (records : List Request)
    (calls : List (Call K S)) : State K S :=
  ⟨update table request records, calls⟩

theorem listed_table_self (records : List Request) :
    (listed table request records calls).table request = records :=
  update_self ..

theorem listed_table_of_ne {k : K} (hk : k ≠ request) (records : List Request) :
    (listed table request records calls).table k = table k :=
  update_of_ne hk ..

theorem listed_self (hlist : s.table request = before) : listed s.table request before s.calls = s := by
  rw [listed, ← hlist, update_eq_self]

theorem others_ne (hnodup : ((before ++ r :: behind).map Request.address).Nodup) :
    ∀ r' ∈ before ++ behind, r'.address ≠ r.address := by
  rw [map_append, map_cons, nodup_middle, nodup_cons, ← map_append] at hnodup
  intro r' hr' heq
  exact hnodup.1 (heq ▸ mem_map_of_mem hr')

theorem modify_listed (hothers : ∀ r' ∈ before ++ behind, r'.address ≠ r.address) (f : Request → Request) :
    (listed table request (before ++ r :: behind) calls).modify ⟨request, r.address⟩ f =
      listed table request (before ++ f r :: behind) calls := by
  have hsame : ∀ l : List Request, (∀ r' ∈ l, r'.address ≠ r.address) →
      l.map (fun r' => if r'.address = r.address then f r' else r') = l := by
    intro l hl
    exact (map_congr_left fun r' hr' => if_neg (hl r' hr')).trans (map_id l)
  simp only [listed, modify, setList, update_self, update_idem, map_append, map_cons, if_true]
  rw [hsame before fun r' hr' => hothers r' (mem_append_left _ hr'),
    hsame behind fun r' hr' => hothers r' (mem_append_right _ hr')]

theorem requestFree_listed (hothers : ∀ r' ∈ before ++ behind, r'.address ≠ r.address) :
    (listed table request (before ++ r :: behind) calls).requestFree ⟨request, r.address⟩ =
      listed table request (before ++ behind) calls := by
  have hbefore : ∀ r' ∈ before, ¬ decide (r'.address = r.address) = true := by
    intro r' hr'
    simpa using hothers r' (mem_append_left _ hr')
  simp only [listed, requestFree, setList, update_self, update_idem]
  rw [eraseP_append_right _ hbefore, eraseP_cons_of_pos (by simp)]

theorem unmark_freed (hothers : ∀ r' ∈ before ++ behind, r'.address ≠ r.address) :
    (listed table request (before ++ behind) calls).unmarkRequest (some ⟨request, r.address⟩) =
      listed table request (before ++ behind) calls := by
  have hsame : (before ++ behind).map (fun r' =>
      if r'.address = r.address then { r' with marker := false } else r') = before ++ behind :=
    (map_congr_left fun r' hr' => if_neg (hothers r' hr')).trans (map_id _)
  simp [listed, unmarkRequest, modify, setList, hsame]

theorem cleanupRequest_listed (hothers : ∀ r' ∈ before ++ behind, r'.address ≠ r.address) :
    (listed table request (before ++ r :: behind) calls).cleanupRequest (some ⟨request, r.address⟩) =
      listed table request (before ++ (if r.frees then []
          else if r.isActive then [{ r with isActive := false, isCompleted := false }] else [r]) ++ behind)
        (calls ++ [.cleanupRequest ⟨request, r.address⟩]) := by
  have hfind : (before ++ r :: behind).find? (fun r' => r'.address = r.address) = some r := by
    rw [find?_append, find?_eq_none.2 fun r' hr' => by
      simpa using hothers r' (mem_append_left _ hr')]
    simp
  simp only [cleanupRequest, listed, update_self, hfind]
  have hfree : ∀ r' : Request, r'.address = r.address → (listed table request (before ++ r' :: behind)
          (calls ++ [.cleanupRequest ⟨request, r.address⟩])).requestFree ⟨request, r.address⟩ =
        listed table request (before ++ behind) (calls ++ [.cleanupRequest ⟨request, r.address⟩]) := by
    intro r' hr'
    rw [← hr'] at hothers ⊢
    exact requestFree_listed hothers
  change (if r.isPersistent && !r.isActive then listed table request (before ++ r :: behind) _ else
    if r.isPersistent then
      if r.deallocate then ((listed table request (before ++ r :: behind) _).modify _ _).requestFree _
      else (listed table request (before ++ r :: behind) _).modify _ _
    else (listed table request (before ++ r :: behind) _).requestFree _) = listed table request _ _
  rw [modify_listed hothers, hfree r rfl, hfree { r with isActive := false, isCompleted := false } rfl,
    Request.frees]
  cases r.isPersistent with
  | false => simp
  | true =>
    cases r.isActive with
    | false => simp
    | true => cases r.deallocate <;> simp

theorem requestGet_none (hget : s.unmarked request = []) : s.requestGet request = (none, s) := by
  have hfind : (s.table request).find? (fun r => !r.marker) = none := by
    rw [find?_eq_none]
    exact filter_eq_nil_iff.1 hget
  rw [requestGet, hfind]

theorem requestGet_some (hlist : s.table request = before ++ r :: behind)
    (hbefore : ∀ r' ∈ before, r'.marker = true) (hr : r.marker = false) :
    s.requestGet request = (some ⟨request, r.address⟩,
      s.modify ⟨request, r.address⟩ fun r => { r with marker := true }) := by
  have hfind : (s.table request).find? (fun r => !r.marker) = some r := by
    rw [hlist, find?_append, find?_eq_none.2 fun r' hr' => by simp [hbefore r' hr']]
    simp [hr]
  rw [requestGet, hfind]

theorem treat_none (o : Option S) (hget : s.unmarked request = []) : s.treat (request, o) = s := by
  cases o with
  | none => simp only [treat, testSaved, requestGet_none hget, requestTested, unmarkRequest]
  | some status =>
    simp [treat, checkSaved, requestGet_none hget, checkRequest, cleanupRequest, unmarkRequest]

theorem treat_listed (o : Option S) (hothers : ∀ r' ∈ before ++ behind, r'.address ≠ r.address)
    (hbefore : ∀ r' ∈ before, r'.marker = true) (hr : r.marker = false) :
    (listed table request (before ++ r :: behind) calls).treat (request, o) =
      listed table request (before ++ r.after o ++ behind) (calls ++ visit request r.address o) := by
  have hget := requestGet_some (s := listed table request (before ++ r :: behind) calls)
    (update_self ..) hbefore hr
  rw [modify_listed hothers] at hget
  have hunmark : ∀ (r' : Request) (calls : List (Call K S)), r'.address = r.address →
      (listed table request (before ++ { r' with marker := true } :: behind) calls).unmarkRequest
          (some ⟨request, r.address⟩) =
        listed table request (before ++ { r' with marker := false } :: behind) calls := by
    intro r' calls hr'
    rw [← hr'] at hothers ⊢
    exact modify_listed (r := { r' with marker := true }) hothers _
  have hrestored : { r with marker := false } = r := by
    rw [← hr]
  cases o with
  | none =>
    simp only [treat, testSaved, hget]
    change (listed table request (before ++ { r with marker := true } :: behind)
      (calls ++ [.requestTested _])).unmarkRequest _ = _
    rw [hunmark r _ rfl, hrestored, Request.after, append_assoc, singleton_append]
    rfl
  | some status =>
    simp only [treat, checkSaved, hget]
    change ((listed table request (before ++ { r with marker := true } :: behind)
      (calls ++ [.checkRequest _ status])).cleanupRequest _).unmarkRequest _ = _
    rw [cleanupRequest_listed (r := { r with marker := true }) hothers, visit, Request.after]
    change (listed table request (before ++ (if r.frees then [] else if r.isActive then _ else _) ++ behind)
      _).unmarkRequest _ = _
    by_cases hfrees : r.frees = true
    · rw [if_pos hfrees, if_pos hfrees, append_nil, unmark_freed hothers, append_assoc]
      rfl
    rw [if_neg hfrees, if_neg hfrees]
    by_cases hactive : r.isActive = true
    · rw [if_pos hactive, if_pos hactive]
      simp only [append_assoc, singleton_append]
      rw [hunmark { r with isActive := false, isCompleted := false } _ rfl, hr]
    · rw [if_neg hactive, if_neg hactive]
      simp only [append_assoc, singleton_append]
      rw [hunmark r _ rfl, hrestored]

def marked (s : State K S) (request : K) : List Request :=
  (s.table request).filter Request.marker

structure Treated (s s' : State K S) (request : K) (o : Option S) (r : Request) (rest : List Request) :
    Prop where
  distinct : s'.Distinct
  unmarked_self : s'.unmarked request = r.after o ++ rest
  table_of_ne : ∀ k ≠ request, s'.table k = s.table k
  marked_eq : ∀ k, s'.marked k = s.marked k
  calls_eq : s'.calls = s.calls ++ visit request r.address o

theorem treated (hs : s.Distinct) (o : Option S) {rest : List Request}
    (hunmarked : s.unmarked request = r :: rest) : Treated s (s.treat (request, o)) request o r rest := by
  obtain ⟨before, behind, hlist, hbefore, hr, hrest⟩ := filter_eq_cons_iff.1 hunmarked
  have hnodup := hs request
  rw [hlist] at hnodup
  have hothers := others_ne hnodup
  have hmarker : r.marker = false := by simpa using hr
  have hmarkers : ∀ r' ∈ before, r'.marker = true := fun r' hr' => by simpa using hbefore r' hr'
  have hself := listed_self hlist
  rw [← hself, treat_listed o hothers hmarkers hmarker, hself]
  refine ⟨?_, ?_, fun k hk => listed_table_of_ne hk _, ?_, rfl⟩
  · intro k
    by_cases hk : k = request
    · subst hk
      rw [listed_table_self]
      refine List.Nodup.sublist ?_ hnodup
      rw [append_assoc, map_append, map_append, map_append, map_cons]
      exact (List.Sublist.refl _).append ((r.after_sublist o).append (List.Sublist.refl _))
    · rw [listed_table_of_ne hk]
      exact hs k
  · rw [State.unmarked, listed_table_self, filter_append, filter_append, hrest,
      filter_eq_nil_iff.2 hbefore, nil_append, filter_eq_self.2]
    intro r' hr'
    simp [Request.after_marker o hmarker r' hr']
  · intro k
    by_cases hk : k = request
    · subst hk
      have hafter : (r.after o).filter Request.marker = [] := by
        rw [filter_eq_nil_iff]
        intro r' hr'
        simp [Request.after_marker o hmarker r' hr']
      rw [marked, marked, listed_table_self, hlist, filter_append, filter_append,
        filter_append, filter_cons_of_neg (by simp [hmarker]), hafter, append_nil]
    · rw [marked, marked, listed_table_of_ne hk]

/-! ## All positions -/

def treatAll (s : State K S) (positions : List (K × Option S)) : State K S :=
  positions.foldl treat s

end State

def outcomes (positions : List (K × Option S)) (request : K) : List (Option S) :=
  (positions.filter fun position => position.1 = request).map Prod.snd

def visits : List (Option S) → List Request → List (ℕ × Option S)
  | [], _ => []
  | _ :: _, [] => []
  | o :: os, r :: rest => (r.address, o) :: visits os (r.after o ++ rest)

theorem visits_nil (os : List (Option S)) : visits os [] = [] := by
  cases os <;> rfl

omit [DecidableEq K] in
theorem visit_request (request : K) (address : ℕ) (o : Option S) :
    ∀ call ∈ visit request address o, call.req = ⟨request, address⟩ := by
  intro call hcall
  cases o with
  | none => rw [mem_singleton.1 hcall]; rfl
  | some status =>
    rcases mem_pair.1 hcall with rfl | rfl
    · rfl
    · rfl

def callsOn (calls : List (Call K S)) (request : K) : List (Call K S) :=
  calls.filter fun call => call.req.request = request

theorem callsOn_visit (k request : K) (address : ℕ) (o : Option S) :
    callsOn (visit k address o) request = if k = request then visit k address o else [] := by
  split_ifs with hk
  · refine filter_eq_self.2 fun call hcall => ?_
    simp [visit_request k address o call hcall, hk]
  · refine filter_eq_nil_iff.2 fun call hcall => ?_
    simp [visit_request k address o call hcall, hk]

theorem treatAll_spec (positions : List (K × Option S)) {s : State K S} (hs : s.Distinct) :
    (∀ k, (s.treatAll positions).marked k = s.marked k) ∧
      ∀ request, callsOn (s.treatAll positions).calls request = callsOn s.calls request ++
        (visits (outcomes positions request) (s.unmarked request)).flatMap fun visited =>
          visit request visited.1 visited.2 := by
  induction positions generalizing s with
  | nil => exact ⟨fun _ => rfl, fun _ => by simp [outcomes, visits, State.treatAll]⟩
  | cons position positions ih =>
    obtain ⟨k, o⟩ := position
    have houtcomes : ∀ request, outcomes ((k, o) :: positions) request =
        if k = request then o :: outcomes positions request else outcomes positions request := by
      intro request
      by_cases hk : k = request
      · simp [outcomes, hk]
      · simp [outcomes, hk]
    change (∀ k', ((s.treat (k, o)).treatAll positions).marked k' = _) ∧
      ∀ request, callsOn ((s.treat (k, o)).treatAll positions).calls request = _
    cases hunmarked : s.unmarked k with
    | nil =>
      rw [State.treat_none o hunmarked]
      refine ⟨(ih hs).1, fun request => ?_⟩
      rw [(ih hs).2, houtcomes]
      split_ifs with hk
      · subst hk
        rw [hunmarked, visits_nil, visits_nil]
      · rfl
    | cons r rest =>
      have htreated := State.treated hs o hunmarked
      obtain ⟨hmarked, hcalls⟩ := ih htreated.distinct
      refine ⟨fun k' => (hmarked k').trans (htreated.marked_eq k'), fun request => ?_⟩
      rw [hcalls, htreated.calls_eq, callsOn, filter_append, append_assoc]
      congr 1
      change callsOn (visit k r.address o) request ++ _ = _
      rw [callsOn_visit, houtcomes]
      split_ifs with hk
      · subst hk
        rw [htreated.unmarked_self, hunmarked, visits, flatMap_cons]
      · rw [nil_append, State.unmarked, htreated.table_of_ne request (Ne.symm hk)]
        rfl

/-! ## Distinct records -/

omit [DecidableEq K] in
theorem visits_inj {request : K} {visited visited' : List (ℕ × Option S)}
    (houtcomes : visited.map Prod.snd = visited'.map Prod.snd)
    (hcalls : (visited.flatMap fun v => visit request v.1 v.2) =
      visited'.flatMap fun v => visit request v.1 v.2) : visited = visited' := by
  induction visited generalizing visited' with
  | nil =>
    cases visited' with
    | nil => rfl
    | cons v' visited' => cases houtcomes
  | cons v visited ih =>
    obtain ⟨address, o⟩ := v
    cases visited' with
    | nil => cases houtcomes
    | cons v' visited' =>
      obtain ⟨address', o'⟩ := v'
      obtain ⟨ho, hrest⟩ := List.cons.inj houtcomes
      obtain rfl : o = o' := ho
      rw [flatMap_cons, flatMap_cons] at hcalls
      have hlength : (visit request address o).length = (visit request address' o).length := by
        cases o <;> rfl
      obtain ⟨hfirst, hcalls'⟩ := append_inj hcalls hlength
      rw [ih hrest hcalls']
      cases o <;> cases hfirst <;> rfl

omit [DecidableEq K] in
theorem visits_outcomes {os : List (Option S)} {u : List Request} (hlength : os.length ≤ u.length) :
    (visits os u).map Prod.snd = os := by
  induction os generalizing u with
  | nil => rfl
  | cons o os ih =>
    cases u with
    | nil => simp at hlength
    | cons r rest =>
      have hrest : os.length ≤ (r.after o ++ rest).length := by
        rw [length_append]
        exact Nat.le_trans (Nat.le_of_succ_le_succ hlength) (Nat.le_add_left _ _)
      rw [visits, map_cons, ih hrest]

def AllButLastFreed (os : List (Option S)) (u : List Request) : Prop :=
  ∀ visited ∈ (os.zip u).dropLast, visited.1.isSome ∧ visited.2.frees = true

omit [DecidableEq K] in
theorem visits_address (os : List (Option S)) (u : List Request) :
    ∀ visited ∈ visits os u, visited.1 ∈ u.map Request.address := by
  induction os generalizing u with
  | nil => intro visited hvisited; cases hvisited
  | cons o os ih =>
    cases u with
    | nil => intro visited hvisited; cases hvisited
    | cons r rest =>
      intro visited hvisited
      rcases mem_cons.1 hvisited with rfl | hvisited
      · exact mem_cons_self
      · have hmem := ih _ visited hvisited
        rw [map_append, mem_append] at hmem
        rcases hmem with hmem | hmem
        · rw [map_cons, mem_singleton.1 ((r.after_sublist o).subset hmem)]
          exact mem_cons_self
        · exact mem_cons_of_mem _ hmem

theorem visits_nodup_iff {os : List (Option S)} {u : List Request} (hlength : os.length ≤ u.length)
    (hnodup : (u.map Request.address).Nodup) : ((visits os u).map Prod.fst).Nodup ↔ AllButLastFreed os u := by
  induction os generalizing u with
  | nil => exact iff_of_true nodup_nil (by simp [AllButLastFreed])
  | cons o os ih =>
    cases u with
    | nil => simp at hlength
    | cons r rest =>
      have hrest : os.length ≤ rest.length := Nat.le_of_succ_le_succ hlength
      rw [map_cons, nodup_cons] at hnodup
      rw [visits, map_cons, nodup_cons]
      cases os with
      | nil => exact iff_of_true ⟨by simp [visits], nodup_nil⟩ (by simp [AllButLastFreed])
      | cons o' os =>
        cases rest with
        | nil => simp at hrest
        | cons r' rest =>
          have hcons : AllButLastFreed (o :: o' :: os) (r :: r' :: rest) ↔
              (o.isSome ∧ r.frees = true) ∧ AllButLastFreed (o' :: os) (r' :: rest) := by
            simp [AllButLastFreed]
          rw [hcons]
          by_cases hfreed : o.isSome ∧ r.frees = true
          · have hfirst : r.address ∉ (visits (o' :: os) (r' :: rest)).map Prod.fst := by
              intro hmem
              obtain ⟨visited, hvisited, haddress⟩ := mem_map.1 hmem
              exact hnodup.1 (haddress ▸ visits_address _ _ visited hvisited)
            rw [Request.after_freed hfreed, nil_append, ih hrest hnodup.2]
            exact and_congr_left fun _ => iff_of_true hfirst hfreed
          · obtain ⟨r₁, hafter, haddress⟩ := Request.after_kept hfreed
            -- the second position finds the record again
            have hsecond : r.address ∈ (visits (o' :: os) (r.after o ++ r' :: rest)).map Prod.fst := by
              rw [hafter, singleton_append, visits, map_cons, haddress]
              exact mem_cons_self
            exact iff_of_false (fun h => h.1 hsecond) (fun h => hfreed h.1)

/-! ## The search for the statuses -/

def statusOf (outcount : ℕ) (arrayOfIndices : ℕ → ℕ) (arrayOfStatuses : ℕ → S) (reqIdx : ℕ) : Option S :=
  ((List.range outcount).find? fun j => arrayOfIndices j = reqIdx).map arrayOfStatuses

omit [DecidableEq K] in
theorem swap_eq {α : Type} (array : ℕ → α) (cur j : ℕ) : swap array cur j = array ∘ Equiv.swap cur j := by
  funext i
  by_cases hj : i = j
  · subst hj
    simp [swap]
  · by_cases hcur : i = cur
    · subst hcur
      simp [swap, hj]
    · simp [swap, hj, hcur, Equiv.swap_apply_of_ne_of_ne hcur hj]

section

variable {saved : ℕ → K} {outcount : ℕ} {indices : ℕ → ℕ} {statuses : ℕ → S} {s : State K S}

def DistinctIndices (outcount : ℕ) (indices : ℕ → ℕ) : Prop :=
  ∀ j < outcount, ∀ j' < outcount, indices j = indices j' → j = j'

def Permuted (outcount : ℕ) (indices : ℕ → ℕ) (statuses : ℕ → S) (indices' : ℕ → ℕ)
    (statuses' : ℕ → S) : Prop :=
  ∃ σ : Equiv.Perm ℕ, (∀ j, outcount ≤ j → σ j = j) ∧ indices' = indices ∘ σ ∧ statuses' = statuses ∘ σ

/-- What is known before the iteration for `reqIdx`. -/
structure Searched (outcount : ℕ) (indices : ℕ → ℕ) (statuses : ℕ → S) (loop : Search K S)
    (reqIdx : ℕ) : Prop where
  permuted : Permuted outcount indices statuses loop.arrayOfIndices loop.arrayOfStatuses
  processed : ∀ j < loop.cur, loop.arrayOfIndices j < reqIdx

theorem statusOf_some (hdistinct : DistinctIndices outcount indices) {j reqIdx : ℕ} (hj : j < outcount)
    (hindex : indices j = reqIdx) : statusOf outcount indices statuses reqIdx = some (statuses j) := by
  rw [statusOf]
  cases hfind : (List.range outcount).find? fun j => indices j = reqIdx with
  | none =>
    have hnone := find?_eq_none.1 hfind j (mem_range.2 hj)
    simp [hindex] at hnone
  | some j' =>
    have hj' := mem_range.1 (mem_of_find?_eq_some hfind)
    have hindex' : indices j' = reqIdx := by simpa using find?_some hfind
    rw [hdistinct j' hj' j hj (hindex'.trans hindex.symm), Option.map_some]

theorem statusOf_none {reqIdx : ℕ} (hindex : ∀ j < outcount, indices j ≠ reqIdx) :
    statusOf outcount indices statuses reqIdx = none := by
  rw [statusOf, find?_eq_none.2, Option.map_none]
  intro j hj
  simpa using hindex j (mem_range.1 hj)

theorem requestGet_fst {request : K} (hget : (s.requestGet request).1 = none) :
    s.requestGet request = (none, s) := by
  rw [State.requestGet] at hget ⊢
  split at hget
  · rfl
  · cases hget

theorem lt_of_fixed {σ : Equiv.Perm ℕ} (hfixed : ∀ j, outcount ≤ j → σ j = j) {j : ℕ} :
    σ j < outcount ↔ j < outcount := by
  constructor
  · intro hlt
    by_contra hj
    rw [hfixed j (Nat.le_of_not_lt hj)] at hlt
    exact hj hlt
  · intro hlt
    by_contra hj
    have heq : σ j = j := σ.injective (hfixed (σ j) (Nat.le_of_not_lt hj))
    rw [heq] at hj
    exact hj hlt

theorem Searched.next (hdistinct : DistinctIndices outcount indices) {loop : Search K S} {reqIdx : ℕ}
    (h : Searched outcount indices statuses loop reqIdx) :
    Searched outcount indices statuses (loop.next saved outcount reqIdx) (reqIdx + 1) ∧
      (loop.next saved outcount reqIdx).state =
        loop.state.treat (saved reqIdx, statusOf outcount indices statuses reqIdx) := by
  obtain ⟨σ, hfixed, hindices, hstatuses⟩ := h.permuted
  have hprocessed : ∀ j < loop.cur, loop.arrayOfIndices j < reqIdx + 1 :=
    fun j hj => Nat.lt_succ_of_lt (h.processed j hj)
  cases hreq : (loop.state.requestGet (saved reqIdx)).1 with
  | none =>
    have hget := requestGet_fst hreq
    have hnext : loop.next saved outcount reqIdx = loop := by
      simp [Search.next, hget]
    rw [hnext]
    refine ⟨⟨h.permuted, hprocessed⟩, ?_⟩
    cases statusOf outcount indices statuses reqIdx with
    | none => simp only [State.treat, State.testSaved, hget, State.requestTested, State.unmarkRequest]
    | some status =>
      simp [State.treat, State.checkSaved, hget, State.checkRequest, State.cleanupRequest, State.unmarkRequest]
  | some req =>
    obtain ⟨s', hget⟩ : ∃ s', loop.state.requestGet (saved reqIdx) = (some req, s') :=
      ⟨_, Prod.ext hreq rfl⟩
    cases hfind : (List.range' loop.cur (outcount - loop.cur)).find?
        fun j => loop.arrayOfIndices j = reqIdx with
    | none =>
      have hstatus : statusOf outcount indices statuses reqIdx = none := by
        apply statusOf_none
        intro j hj hindex
        have hsymm : σ (σ.symm j) = j := σ.apply_symm_apply j
        have hlt : σ.symm j < outcount := (lt_of_fixed hfixed).1 (by rw [hsymm]; exact hj)
        have hindex' : loop.arrayOfIndices (σ.symm j) = reqIdx := by
          rw [hindices, Function.comp_apply, hsymm, hindex]
        by_cases hcur : σ.symm j < loop.cur
        · have := h.processed _ hcur
          omega
        · have hmem : σ.symm j ∈ List.range' loop.cur (outcount - loop.cur) := by
            rw [mem_range'_1]
            omega
          have hne := find?_eq_none.1 hfind _ hmem
          simp [hindex'] at hne
      have hnext : loop.next saved outcount reqIdx = { loop with
          state := loop.state.testSaved (saved reqIdx) } := by
        simp [Search.next, hget, hfind, State.testSaved]
      rw [hnext, hstatus]
      exact ⟨⟨h.permuted, hprocessed⟩, rfl⟩
    | some j =>
      have hmem := mem_of_find?_eq_some hfind
      rw [mem_range'_1] at hmem
      have hj : j < outcount := by omega
      have hindex : loop.arrayOfIndices j = reqIdx := by simpa using find?_some hfind
      have hstatus : statusOf outcount indices statuses reqIdx = some (loop.arrayOfStatuses j) := by
        rw [hstatuses]
        apply statusOf_some hdistinct ((lt_of_fixed hfixed).2 hj)
        rw [← hindex, hindices, Function.comp_apply]
      have hfirst : swap loop.arrayOfStatuses loop.cur j loop.cur = loop.arrayOfStatuses j := by
        rw [swap_eq, Function.comp_apply, Equiv.swap_apply_left]
      have hnext : loop.next saved outcount reqIdx = ⟨loop.cur + 1, swap loop.arrayOfIndices loop.cur j,
          swap loop.arrayOfStatuses loop.cur j,
          loop.state.checkSaved (saved reqIdx) (loop.arrayOfStatuses j)⟩ := by
        simp [Search.next, hget, hfind, State.checkSaved, hfirst]
      rw [hnext, hstatus]
      refine ⟨⟨⟨(Equiv.swap loop.cur j).trans σ, ?_, ?_, ?_⟩, ?_⟩, rfl⟩
      · intro i hi
        have hi' : Equiv.swap loop.cur j i = i := Equiv.swap_apply_of_ne_of_ne (by omega) (by omega)
        rw [Equiv.trans_apply, hi', hfixed i hi]
      · change swap loop.arrayOfIndices loop.cur j = _
        rw [swap_eq, hindices]
        rfl
      · change swap loop.arrayOfStatuses loop.cur j = _
        rw [swap_eq, hstatuses]
        rfl
      · intro i hi
        change swap loop.arrayOfIndices loop.cur j i < _
        rw [swap_eq, Function.comp_apply]
        rcases Nat.lt_succ_iff_lt_or_eq.1 hi with hlt | rfl
        · rw [Equiv.swap_apply_of_ne_of_ne (by omega) (by omega)]
          exact hprocessed i hlt
        · rw [Equiv.swap_apply_left, hindex]
          exact Nat.lt_succ_self _

theorem searched (hdistinct : DistinctIndices outcount indices) (incount : ℕ) :
    Searched outcount indices statuses (checkSomeTestSome saved incount outcount indices statuses s) incount ∧
      (checkSomeTestSome saved incount outcount indices statuses s).state =
        s.treatAll ((List.range incount).map fun i => (saved i, statusOf outcount indices statuses i)) := by
  induction incount with
  | zero => exact ⟨⟨⟨Equiv.refl ℕ, fun _ _ => rfl, rfl, rfl⟩, fun j hj => (Nat.not_lt_zero j hj).elim⟩, rfl⟩
  | succ incount ih =>
    have hnext := @Searched.next K S _ saved _ _ _ hdistinct _ _ ih.1
    have hlast : checkSomeTestSome saved (incount + 1) outcount indices statuses s =
        (checkSomeTestSome saved incount outcount indices statuses s).next saved outcount incount := by
      rw [checkSomeTestSome, range_succ, foldl_append]
      rfl
    rw [hlast]
    refine ⟨hnext.1, ?_⟩
    rw [hnext.2, ih.2, range_succ, map_append, State.treatAll, State.treatAll, foldl_append]
    rfl

end

namespace Routine

def positions (saved : ℕ → K) : Routine S → List (K × Option S)
  | .checkAllOrTestAll count flag statuses =>
    (List.range count).map fun i => (saved i, if flag then some (statuses i) else none)
  | .checkAllOrNone count flag statuses =>
    if flag then (List.range count).map fun i => (saved i, some (statuses i)) else []
  | .checkSomeTestSome incount outcount indices statuses =>
    (List.range incount).map fun i => (saved i, statusOf outcount indices statuses i)
  | .checkSome _ outcount indices statuses =>
    (List.range outcount).map fun j => (saved (indices j), some (statuses j))
  | .testAll count => (List.range count).map fun i => (saved i, none)

def length : Routine S → ℕ
  | .checkAllOrTestAll count _ _ => count
  | .checkAllOrNone count _ _ => count
  | .checkSomeTestSome incount _ _ _ => incount
  | .checkSome incount _ _ _ => incount
  | .testAll count => count

def occurrences (saved : ℕ → K) (routine : Routine S) (request : K) : ℕ :=
  ((List.range routine.length).filter fun i => saved i = request).length

def ValidIndices : Routine S → Prop
  | .checkSomeTestSome incount outcount indices _ =>
    (∀ j < outcount, indices j < incount) ∧ DistinctIndices outcount indices
  | .checkSome incount outcount indices _ =>
    (∀ j < outcount, indices j < incount) ∧ DistinctIndices outcount indices
  | _ => True

variable {saved : ℕ → K} {s : State K S} {routine : Routine S} {request : K}

theorem foldl_treat (l : List ℕ) (position : ℕ → K × Option S) :
    l.foldl (fun s i => s.treat (position i)) s = s.treatAll (l.map position) :=
  foldl_map.symm

theorem run_eq (hindices : routine.ValidIndices) :
    routine.run saved s = s.treatAll (routine.positions saved) := by
  cases routine with
  | checkAllOrTestAll count flag statuses =>
    cases flag with
    | false => exact foldl_treat (List.range count) fun i => (saved i, none)
    | true => exact foldl_treat (List.range count) fun i => (saved i, some (statuses i))
  | checkAllOrNone count flag statuses =>
    cases flag with
    | false => rfl
    | true => exact foldl_treat (List.range count) fun i => (saved i, some (statuses i))
  | checkSomeTestSome incount outcount indices statuses => exact (searched hindices.2 incount).2
  | checkSome incount outcount indices statuses =>
    exact foldl_treat (List.range outcount) fun j => (saved (indices j), some (statuses j))
  | testAll count => exact foldl_treat (List.range count) fun i => (saved i, none)

theorem outcomes_map (l : List ℕ) (k : ℕ → K) (o : ℕ → Option S) :
    outcomes (l.map fun i => (k i, o i)) request = (l.filter fun i => k i = request).map o := by
  rw [outcomes, filter_map, map_map]
  rfl

theorem outcomes_length_le (hindices : routine.ValidIndices) :
    (outcomes (routine.positions saved) request).length ≤ routine.occurrences saved request := by
  cases routine with
  | checkAllOrTestAll => rw [positions, outcomes_map, length_map]; exact Nat.le_refl _
  | checkAllOrNone count flag =>
    cases flag with
    | false => exact Nat.zero_le _
    | true =>
      rw [positions, if_pos rfl, outcomes_map, length_map]
      exact Nat.le_refl _
  | checkSomeTestSome => rw [positions, outcomes_map, length_map]; exact Nat.le_refl _
  | checkSome incount outcount indices statuses =>
    have hnodup : ((List.range outcount).map indices).Nodup := by
      refine List.Nodup.map_on (fun j hj j' hj' heq => ?_) nodup_range
      exact hindices.2 j (mem_range.1 hj) j' (mem_range.1 hj') heq
    have hsubset : ((List.range outcount).map indices).filter (fun i => saved i = request) ⊆
        (List.range incount).filter fun i => saved i = request := by
      apply filter_subset
      intro i hi
      obtain ⟨j, hj, rfl⟩ := mem_map.1 hi
      exact mem_range.2 (hindices.1 j (mem_range.1 hj))
    have hle := (subperm_of_subset (hnodup.filter _) hsubset).length_le
    rw [filter_map, length_map] at hle
    rw [positions, outcomes_map, length_map]
    exact hle
  | testAll => rw [positions, outcomes_map, length_map]; exact Nat.le_refl _

/-- The positions of a handle are treated as distinct records: each completed one is checked with its status
and cleaned up, the others are tested. No record is left marked. -/
structure TreatsDistinct (saved : ℕ → K) (routine : Routine S) (s : State K S) (request : K) : Prop where
  visited : ∃ addresses : List ℕ, addresses.Nodup ∧
    addresses.length = (outcomes (routine.positions saved) request).length ∧
    (∀ address ∈ addresses, address ∈ (s.unmarked request).map Request.address) ∧
    callsOn (routine.run saved s).calls request = callsOn s.calls request ++
      (addresses.zip (outcomes (routine.positions saved) request)).flatMap fun v => visit request v.1 v.2
  unmarked : ∀ k, (routine.run saved s).marked k = s.marked k
  permuted : ∀ incount outcount indices statuses,
    routine = .checkSomeTestSome incount outcount indices statuses →
    let final := Checks.checkSomeTestSome saved incount outcount indices statuses s
    Permuted outcount indices statuses final.arrayOfIndices final.arrayOfStatuses

/-- The positions of a handle get different records if and only if all but the last one that is visited are
complete and their records are freed. -/
theorem treats_iff (saved : ℕ → K) (routine : Routine S) (s : State K S) (hs : s.Distinct)
    (hindices : routine.ValidIndices) (request : K)
    (hrecords : routine.occurrences saved request ≤ (s.unmarked request).length) :
    TreatsDistinct saved routine s request ↔
      AllButLastFreed (outcomes (routine.positions saved) request) (s.unmarked request) := by
  have hlength : (outcomes (routine.positions saved) request).length ≤ (s.unmarked request).length :=
    Nat.le_trans (outcomes_length_le hindices) hrecords
  have hnodup : ((s.unmarked request).map Request.address).Nodup :=
    (hs request).sublist (filter_sublist.map _)
  obtain ⟨hmarked, hcalls⟩ := treatAll_spec (routine.positions saved) hs
  have houtcomes := visits_outcomes hlength
  rw [← visits_nodup_iff hlength hnodup]
  constructor
  · intro h
    obtain ⟨addresses, hdistinct, hcount, -, hvisited⟩ := h.visited
    rw [run_eq hindices, hcalls] at hvisited
    have hzip := @map_snd_zip _ _ addresses _ (Nat.le_of_eq hcount.symm)
    have heq := visits_inj (houtcomes.trans hzip.symm) (append_cancel_left hvisited)
    rw [heq, map_fst_zip (Nat.le_of_eq hcount)]
    exact hdistinct
  · intro h
    refine ⟨⟨_, h, ?_, ?_, ?_⟩, ?_, ?_⟩
    · rw [← houtcomes, length_map, length_map, houtcomes]
    · intro address haddress
      obtain ⟨visited, hvisited, rfl⟩ := mem_map.1 haddress
      exact visits_address _ _ visited hvisited
    · rw [run_eq hindices, hcalls, ← zip_of_prod rfl houtcomes]
    · rw [run_eq hindices]
      exact hmarked
    · rintro incount outcount indices statuses rfl
      exact (searched hindices.2 incount).1.permuted

end Routine

end

def sameHandle : State ℕ Unit :=
  ⟨fun _ => [⟨10, false, false, false, false, false⟩, ⟨20, false, false, false, false, false⟩], []⟩

theorem Routine.treats_iff_sameHandle :
    TreatsDistinct (fun _ => 0) (.checkAllOrNone 2 true fun _ => ()) sameHandle 0 :=
  (treats_iff (fun _ => 0) (.checkAllOrNone 2 true fun _ => ()) sameHandle
    (fun _ => by simp [sameHandle]) trivial 0 (by decide)).2
    (by simp [AllButLastFreed, outcomes, positions, range_succ, State.unmarked, sameHandle, Request.frees])

/-- The first record is tested for both positions. -/
theorem second_not_tested :
    ¬ Routine.TreatsDistinct (fun _ => 0) (.checkAllOrTestAll 2 false fun _ => ()) sameHandle 0 := by
  intro h
  obtain ⟨addresses, hnodup, hlength, -, hcalls⟩ := h.visited
  have htwice : callsOn
      ((Routine.checkAllOrTestAll 2 false fun _ => ()).run (fun _ => 0) sameHandle).calls 0 =
      [.requestTested ⟨0, 10⟩, .requestTested ⟨0, 10⟩] := by decide
  match addresses, hlength with
  | [a, b], _ =>
    rw [htwice] at hcalls
    have hvisits : [Call.requestTested ⟨0, 10⟩, Call.requestTested ⟨0, 10⟩] =
        ([.requestTested ⟨0, a⟩, .requestTested ⟨0, b⟩] : List (Call ℕ Unit)) := hcalls
    simp only [List.cons.injEq, Call.requestTested.injEq, Pointer.mk.injEq] at hvisits
    obtain ⟨⟨-, rfl⟩, ⟨-, rfl⟩, -⟩ := hvisits
    simp at hnodup

end ScoreP.Mpi.Checks
