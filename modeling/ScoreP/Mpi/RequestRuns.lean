import ScoreP.Mpi.RequestSafety

/-!
# Programs that never empty a list

As long as no thread frees the only record of an entry, and no thread unmarks a record that was freed or
that another thread has, every record and every lock is where it belongs: `tracked_step` is the step lemma
and `tracking_safe` the result about whole runs. `recycledLock` is a run of the other kind.
-/

namespace ScoreP.Mpi.Requests

open Foundations Function List Option

section Threads

variable {K D T : Type} [DecidableEq K] [DecidableEq T] {c c' : Shared K D T} {place : ℕ → Place K T}
  {lists : K → List ℕ} {pcs : T → Pc K D} {pc : Pc K D} {t : T}

/-! ## Steps of the threads -/

theorem Tracked.goto (h : Tracked c pcs place lists) (hknows : pc.Knows c place t)
    (hholds : ∀ e, pc.Holds e → (pcs t).Holds e) : Tracked c (update pcs t pc) place lists := by
  apply h.advance h.stored
  · exact fun u _ => ⟨fun _ _ htable => htable, fun _ hr => ⟨hr, rfl⟩, fun _ hr => ⟨hr, rfl⟩⟩
  · exact hknows
  · exact fun e he => .inl (hholds e he)
  · exact fun e he => h.locked t e (hholds e he)
  · exact fun u _ => h.locked u

theorem Tracked.lock (h : Tracked c pcs place lists) {e : ℕ} (hlock : c.mutexLock e = some c')
    (hknows : pc.Knows c place t) (hholds : ∀ e', pc.Holds e' → e' = e) :
    Tracked c' (update pcs t pc) place lists := by
  rw [Shared.mutexLock] at hlock
  split_ifs at hlock with hheld
  cases hlock
  have hframe : ∀ u, Frame c (c.setEntry e { c.entries e with requestLock := true }) place place u :=
    fun u => ⟨fun _ _ htable => htable, fun _ hr => ⟨hr, rfl⟩, fun _ hr => ⟨hr, rfl⟩⟩
  apply h.advance (h.stored.setLock e true) (fun u _ => hframe u) (hknows.frame (hframe t))
  · intro e' he'
    rw [hholds e' he']
    exact .inr (by simpa using hheld)
  · intro e' he'
    rw [hholds e' he']
    simp [Shared.setEntry]
  · intro u _ e' he'
    by_cases heq : e' = e
    · rw [heq]
      simp [Shared.setEntry]
    · simpa [Shared.setEntry, update_of_ne heq] using h.locked u e' he'

theorem Tracked.unlock (h : Tracked c pcs place lists) {e : ℕ} (hheld : (pcs t).Holds e)
    (hknows : pc.Knows c place t) (hholds : ∀ e', ¬ pc.Holds e') :
    Tracked (c.mutexUnlock e) (update pcs t pc) place lists := by
  have hframe : ∀ u, Frame c (c.mutexUnlock e) place place u :=
    fun u => ⟨fun _ _ htable => htable, fun _ hr => ⟨hr, rfl⟩, fun _ hr => ⟨hr, rfl⟩⟩
  apply h.advance (h.stored.setLock e false) (fun u _ => hframe u) (hknows.frame (hframe t))
  · exact fun e' he' => absurd he' (hholds e')
  · exact fun e' he' => absurd he' (hholds e')
  · intro u hu e' he'
    have hne : e' ≠ e := by
      rintro rfl
      exact hu (h.unique u t e' he' hheld)
    simpa [Shared.mutexUnlock, Shared.setEntry, update_of_ne hne] using h.locked u e' he'

variable {data : Request K D}

theorem requestTableGetAndInsert_found {e : ℕ} (htable : c.table data.request = some e) :
    c.requestTableGetAndInsert data = (false, e, c) := by
  rw [Shared.requestTableGetAndInsert, htable]

variable {r : ℕ}

theorem frame_take (h : Stored c place lists) (hr : place r = .pooled ∨ place r = .fresh)
    (p : Place K T) (u : T) (hshared : c'.table = c.table ∧ c'.handed = c.handed)
    (hrequests : ∀ r', r' ≠ r → (c'.requests r').request = (c.requests r').request) :
    Frame c c' place (update place r p) u := by
  constructor
  · intro k e htable
    rw [hshared.1]
    exact htable
  · intro r' hown
    have hne : r' ≠ r := by
      rintro rfl
      rcases hr with hr | hr <;> rw [hown] at hr <;> cases hr
    exact ⟨(update_of_ne hne _ _).trans hown, hrequests r' hne⟩
  · intro r' hmem
    obtain ⟨k, hk, -⟩ := h.handed u r' hmem
    have hne : r' ≠ r := by
      rintro rfl
      rcases hr with hr | hr <;> rw [hk] at hr <;> cases hr
    rw [hshared.2]
    exact ⟨hmem, hrequests r' hne⟩

theorem Tracked.create (h : Tracked c pcs place lists) (htable : c.table data.request = none)
    (hnext : data.next = none) : ∃ e c' place' lists', c.requestTableGetAndInsert data = (true, e, c') ∧
      Tracked c' (update pcs t .idle) place' lists' := by
  obtain ⟨r, c₁, htake⟩ : ∃ r c₁, c.getScorepRequestFromPool = (r, c₁) := ⟨_, _, rfl⟩
  obtain ⟨hplace, htaken, pool, bound, hshared⟩ := h.stored.take htake t
  have hself : update place r (.owned t) r = .owned t := update_self _ _ _
  have hset := htaken.setUnlisted (hself ▸ owned_unlisted t) data
  have hpublish := hset.publish (k := data.request) hself (by rw [hshared]; exact htable)
    (by simp [Shared.setRequest]) (by simp [Shared.setRequest, hnext])
  rw [update_idem] at hpublish
  refine ⟨c.newEntry, (c₁.setRequest r data).publish data.request r,
    update place r (.listed data.request), update lists data.request [r],
    requestTableGetAndInsert_new h.stored.entryPool htable htake, ?_⟩
  have hframe : ∀ u, Frame c (c₁.setRequest r data) place
      (update place r (.listed data.request)) u := by
    intro u
    apply frame_take h.stored hplace
    · rw [hshared]
      exact ⟨rfl, rfl⟩
    · intro r' hne
      rw [hshared]
      simp [Shared.setRequest, update_of_ne hne]
  apply h.advance hpublish
  · intro u _
    refine ⟨?_, (hframe u).owned, (hframe u).handed⟩
    intro k e hk
    have hne : k ≠ data.request := by
      rintro rfl
      rw [htable] at hk
      cases hk
    rw [publish_table_of_ne _ r hne, hshared]
    exact hk
  · trivial
  · exact fun e he => absurd he id
  · exact fun e he => absurd he id
  · intro u _ e he
    obtain ⟨k, hk⟩ := (h.knows u).holds he
    have hlt := (h.stored.entry k e hk).1
    have hlock := h.locked u e he
    have hentries : ((c₁.setRequest r data).publish data.request r).entries e = c.entries e := by
      rw [hshared]
      simp [Shared.publish, Shared.setRequest, update_of_ne (Nat.ne_of_lt hlt)]
    rw [hentries]
    exact hlock

theorem Tracked.duplicate (h : Tracked c pcs place lists) {e r : ℕ}
    (htable : c.table data.request = some e) (htake : c.getScorepRequestFromPool = (r, c')) :
    Tracked (c'.setRequest r data) (update pcs t (.insertLock data r e)) (update place r (.owned t)) lists := by
  obtain ⟨hplace, htaken, pool, bound, hshared⟩ := h.stored.take htake t
  have hself : update place r (.owned t) r = .owned t := update_self _ _ _
  apply h.advance (htaken.setUnlisted (by rw [hself]; exact owned_unlisted t) data)
  · intro u _
    apply frame_take h.stored hplace
    · rw [hshared]
      exact ⟨rfl, rfl⟩
    · intro r' hne
      rw [hshared]
      simp [Shared.setRequest, update_of_ne hne]
  · refine ⟨?_, hself, by simp [Shared.setRequest]⟩
    rw [hshared]
    exact htable
  · exact fun e he => absurd he id
  · exact fun e he => absurd he id
  · intro u _ e he
    rw [hshared]
    exact h.locked u e he

omit [DecidableEq K] [DecidableEq T] in
theorem frame_own (h : Stored c place lists) {k : K} (p : Place K T) {u : T} (hne : u ≠ t)
    (hr : place r = .owned t ∨ place r = .listed k ∧ ∀ v, (v, r) ∈ c.handed → v = t)
    (htable : c'.table = c.table) (hhanded : ∀ v r', r' ≠ r → (v, r') ∈ c.handed → (v, r') ∈ c'.handed)
    (hrequests : ∀ r', (c'.requests r').request = (c.requests r').request) :
    Frame c c' place (update place r p) u := by
  constructor
  · intro l e hl
    rw [htable]
    exact hl
  · intro r' hown
    have hrr : r' ≠ r := by
      rintro rfl
      rcases hr with hr | ⟨hr, -⟩
      · rw [hown] at hr
        cases hr
        exact hne rfl
      · rw [hown] at hr
        cases hr
    exact ⟨(update_of_ne hrr _ _).trans hown, hrequests r'⟩
  · intro r' hmem
    have hrr : r' ≠ r := by
      rintro rfl
      rcases hr with hr | ⟨-, hr⟩
      · obtain ⟨l, hl, -⟩ := h.handed u r' hmem
        rw [hr] at hl
        cases hl
      · exact hne (hr u hmem)
    exact ⟨hhanded u r' hrr hmem, hrequests r'⟩

omit [DecidableEq K] [DecidableEq T] in
theorem append_requests (c : Shared K D T) (first new r : ℕ) :
    ((c.append first new).requests r).request = (c.requests r).request := by
  have hset : ∀ (c : Shared K D T) (r' : ℕ) (next : Option ℕ) (r : ℕ),
      ((c.setRequest r' { c.requests r' with next := next }).requests r).request =
        (c.requests r).request := by
    intro c r' next r
    by_cases heq : r = r'
    · rw [heq]
      simp [Shared.setRequest]
    · simp [Shared.setRequest, update_of_ne heq]
  exact (hset _ new none r).trans (hset c _ (some new) r)

theorem Tracked.append (h : Tracked c pcs place lists) {r e first : ℕ}
    (hpc : pcs t = .insertAppend r e) (hpayload : (c.entries e).payload = .request (some first)) :
    ∃ place' lists', Tracked (c.append first r) (update pcs t (.insertUnlock e)) place' lists' := by
  have hknows := h.knows t
  rw [hpc] at hknows
  have hstored := h.stored.append hknows.1 hpayload hknows.2 rfl
  refine ⟨_, _, h.advance hstored ?_ ⟨_, hknows.1⟩ ?_ ?_ ?_⟩
  · intro u hu
    refine frame_own (k := (c.requests r).request) h.stored _ hu (.inl hknows.2) rfl ?_ ?_
    · exact fun _ _ _ hmem => hmem
    · exact append_requests c first r
  · intro e' he'
    rw [hpc]
    exact .inl he'
  · intro e' he'
    apply h.locked t
    rw [hpc]
    exact he'
  · exact fun u _ => h.locked u

theorem Tracked.mark (h : Tracked c pcs place lists) {e r : ℕ} {head : Option ℕ}
    (hpc : pcs t = .getMark e) (hpayload : (c.entries e).payload = .request head)
    (hfirst : c.firstUnmarked c.newRequest head = some r) :
    Tracked { c.setRequest r { c.requests r with marker := true } with
      handed := (t, r) :: c.handed } (update pcs t (.getUnlock e)) place lists := by
  have hknows := h.knows t
  rw [hpc] at hknows
  obtain ⟨k, htable⟩ := hknows
  obtain ⟨-, -, head', hpayload', hchain⟩ := h.stored.entry k e htable
  rw [hpayload] at hpayload'
  cases hpayload'
  rw [firstUnmarked_eq hchain (h.stored.length_le k)] at hfirst
  have hmarker : (c.requests r).marker = false := by simpa using find?_some hfirst
  have hplace := (h.stored.lists_mem k r).mp (mem_of_find?_eq_some hfirst)
  apply h.advance (h.stored.mark hplace hmarker)
  · intro u _
    refine ⟨fun _ _ hl => hl, fun r' hown => ⟨hown, request_setMarker c r r' true⟩, ?_⟩
    intro r' hmem
    exact ⟨mem_cons_of_mem _ hmem, request_setMarker c r r' true⟩
  · exact ⟨k, htable⟩
  · intro e' he'
    rw [hpc]
    exact .inl he'
  · intro e' he'
    apply h.locked t
    rw [hpc]
    exact he'
  · exact fun u _ => h.locked u

theorem Tracked.unmark (h : Tracked c pcs place lists) (hidle : pcs t = .idle)
    (hpool : r ∉ c.requestFreeList) (hother : ∀ u, (u, r) ∈ c.handed → u = t) :
    Tracked (unmarkRequest t c r) (update pcs t .idle) place lists := by
  apply h.advance (h.stored.unmark hpool hother)
  · intro u hu
    refine ⟨fun _ _ hl => hl, fun r' hown => ⟨hown, request_setMarker c r r' false⟩, ?_⟩
    intro r' hmem
    refine ⟨mem_filter.mpr ⟨hmem, ?_⟩, request_setMarker c r r' false⟩
    simp [hu]
  · trivial
  · exact fun e he => absurd he id
  · exact fun e he => absurd he id
  · exact fun u _ => h.locked u

theorem Tracked.release (h : Tracked c pcs place lists) (hpc : pcs t = .freeRelease r) :
    Tracked (c.releaseScorepRequestToPool r) (update pcs t .idle) (update place r .pooled) lists := by
  have hknows := h.knows t
  rw [hpc] at hknows
  have hplace : place r = .owned t := hknows
  apply h.advance (h.stored.release hplace)
  · intro u hu
    refine frame_own (k := (c.requests r).request) h.stored _ hu (.inl hplace) rfl ?_ ?_
    · exact fun _ _ _ hmem => hmem
    · intro r'
      by_cases heq : r' = r
      · rw [heq]
        simp [Shared.releaseScorepRequestToPool, Shared.setRequest]
      · simp [Shared.releaseScorepRequestToPool, Shared.setRequest, update_of_ne heq]
  · trivial
  · exact fun e he => absurd he id
  · exact fun e he => absurd he id
  · exact fun u _ => h.locked u

theorem Stored.handed_unique (h : Stored c place lists) {u : T} (ht : (t, r) ∈ c.handed)
    (hu : (u, r) ∈ c.handed) : u = t :=
  congrArg Prod.fst (inj_on_of_nodup_map h.handed_nodup hu ht rfl)

def onlyRequest (c : Shared K D T) (e r : ℕ) : Bool :=
  (c.entries e).payload = .request (some r) && c.next r = none

theorem Tracked.free (h : Tracked c pcs place lists) {e r : ℕ} (hpc : pcs t = .freeUnlink r e)
    (hothers : onlyRequest c e r = false) :
    ∃ c' place' lists', operation t c (.freeUnlink r e) = some (c', .freeUnlockRelease e r) ∧
      Tracked c' (update pcs t (.freeUnlockRelease e r)) place' lists' := by
  have hknows := h.knows t
  rw [hpc] at hknows
  obtain ⟨hhanded, htable⟩ := hknows
  obtain ⟨k, hplace, -⟩ := h.stored.handed t r hhanded
  rw [h.stored.request_eq k r hplace] at htable
  obtain ⟨-, -, head, hpayload, hchain⟩ := h.stored.entry k e htable
  have hmem := (h.stored.lists_mem k r).mpr hplace
  obtain ⟨before, behind, hlist⟩ := append_of_mem hmem
  have hlength := h.stored.length_le k
  have hnodup := h.stored.lists_nodup k
  rw [hlist] at hchain hlength hnodup
  have hnot : r ∉ before := fun hin =>
    (nodup_append.mp hnodup).2.2 r hin r mem_cons_self rfl
  rw [length_append, length_cons] at hlength
  have hprevious : c.findPrevious r c.newRequest none head = some before.getLast? := by
    rw [findPrevious_eq hchain hnot (by omega), or_none]
  obtain ⟨first, hfirst⟩ : ∃ first, head = some first := by
    cases before with
    | nil => exact ⟨r, (chain_cons.mp hchain).1⟩
    | cons first before => exact ⟨first, (chain_cons.mp hchain).1⟩
  have hmore : ¬ ((c.entries e).payload = .request (some r) ∧ c.next r = none) := by
    rintro ⟨hpayload, hnext⟩
    rw [onlyRequest, hpayload, hnext] at hothers
    simp at hothers
  have honly : ¬ (c.next first = none ∧ first = r) := by
    rintro ⟨hnext, rfl⟩
    rw [hfirst] at hpayload
    exact hmore ⟨hpayload, hnext⟩
  have hrest : before ++ behind ≠ [] := by
    intro hnil
    obtain ⟨rfl, rfl⟩ := append_eq_nil_iff.mp hnil
    obtain ⟨hhead, hnext⟩ := chain_cons.mp hchain
    rw [hhead] at hpayload
    exact hmore ⟨hpayload, hnext⟩
  have hstored := h.stored.unlink htable hlist hrest t
  refine ⟨c.unlink e before.getLast? r, _, _, ?_, h.advance hstored ?_ ?_ ?_ ?_ ?_⟩
  · rw [hfirst] at hpayload hprevious
    rw [operation, hpayload]
    simp [honly, hprevious]
  · intro u hu
    refine frame_own h.stored _ hu (.inr ⟨hplace, fun v hv => h.stored.handed_unique hhanded hv⟩) ?_ ?_ ?_
    · cases before.getLast? <;> rfl
    · intro v r' hne hin
      have hkept : (v, r') ∈ c.handed.filter fun entry => entry.2 ≠ r :=
        mem_filter.mpr ⟨hin, by simpa using hne⟩
      cases before.getLast? <;> exact hkept
    · intro r'
      cases before.getLast? with
      | none => rfl
      | some previous =>
        by_cases heq : r' = previous
        · rw [heq]
          simp [Shared.unlink, Shared.forget, Shared.setRequest]
        · simp [Shared.unlink, Shared.forget, Shared.setRequest, update_of_ne heq]
  · refine ⟨⟨k, ?_⟩, update_self _ _ _⟩
    cases before.getLast? <;> exact htable
  · intro e' he'
    rw [hpc]
    exact .inl he'
  · intro e' he'
    have hlock := h.locked t e' (by rw [hpc]; exact he')
    rw [← hlock]
    cases before.getLast? with
    | none =>
      obtain rfl : e' = e := he'
      simp [Shared.unlink, Shared.forget, Shared.setEntry]
    | some previous => rfl
  · intro u hu e' he'
    rw [← h.locked u e' he']
    have hne : e' ≠ e := by
      rintro rfl
      exact hu (h.unique u t e' he' (by rw [hpc]; exact rfl))
    cases before.getLast? with
    | none => simp [Shared.unlink, Shared.forget, Shared.setEntry, update_of_ne hne]
    | some previous => rfl

/-! ## Runs -/

/-- The steps that keep the memory in order: a thread frees a record only when it is not the only one of
its entry, and unmarks one only when it is not in the free list and no other thread has it. -/
def keepsOrder (s : State K D T) (a : T × Action K D) : Bool :=
  match a.2, s.pcs a.1 with
  | .call (.unmark r), _ => !s.shared.requestFreeList.contains r &&
      s.shared.handed.all fun entry => entry.2 ≠ r || entry.1 = a.1
  | .run, .freeUnlink r e => !onlyRequest s.shared e r
  | _, _ => true

theorem keepsOrder_unmark {s : State K D T} {t : T} (h : keepsOrder s (t, .call (.unmark r)) = true) :
    r ∉ s.shared.requestFreeList ∧ ∀ u, (u, r) ∈ s.shared.handed → u = t := by
  rw [keepsOrder, Bool.and_eq_true, List.all_eq_true] at h
  refine ⟨by simpa using h.1, ?_⟩
  intro u hmem
  simpa using h.2 (u, r) hmem

theorem keepsOrder_run {s : State K D T} {t : T} {r e : ℕ} (h : keepsOrder s (t, .run) = true)
    (hpc : s.pcs t = .freeUnlink r e) : onlyRequest s.shared e r = false := by
  simpa [keepsOrder, hpc] using h

theorem Tracked.operation (h : Tracked c pcs place lists)
    (hguard : ∀ r e, pcs t = .freeUnlink r e → onlyRequest c e r = false)
    (hstep : operation t c (pcs t) = some (c', pc)) :
    ∃ place' lists', Tracked c' (update pcs t pc) place' lists' := by
  have hknows := h.knows t
  cases hpc : pcs t with
  | idle =>
    rw [hpc] at hstep
    cases hstep
  | insert data =>
    rw [hpc] at hstep hknows
    cases htable : c.table data.request with
    | none =>
      obtain ⟨e, c₁, place', lists', hinsert, htracked⟩ := h.create (t := t) htable hknows
      simp only [Requests.operation, hinsert, some.injEq, Prod.mk.injEq] at hstep
      obtain ⟨rfl, rfl⟩ := hstep
      exact ⟨place', lists', htracked⟩
    | some e =>
      simp only [Requests.operation, requestTableGetAndInsert_found htable, some.injEq,
        Prod.mk.injEq] at hstep
      obtain ⟨rfl, rfl⟩ := hstep
      exact ⟨place, lists, h.goto htable fun e' he' => absurd he' id⟩
  | insertDuplicate data e =>
    rw [hpc] at hstep hknows
    obtain ⟨r, c₁, htake⟩ : ∃ r c₁, c.getScorepRequestFromPool = (r, c₁) := ⟨_, _, rfl⟩
    simp only [Requests.operation, htake, some.injEq, Prod.mk.injEq] at hstep
    obtain ⟨rfl, rfl⟩ := hstep
    exact ⟨_, _, h.duplicate hknows htake⟩
  | insertLock data r e =>
    rw [hpc] at hstep hknows
    obtain ⟨c₁, hlock, hnew⟩ := map_eq_some_iff.mp hstep
    cases hnew
    exact ⟨place, lists, h.lock hlock hknows fun e' he' => he'⟩
  | insertControl data r e =>
    rw [hpc] at hstep hknows
    simp only [Requests.operation, requestTableGetAndInsert_found hknows.1, if_true, some.injEq,
      Prod.mk.injEq] at hstep
    obtain ⟨rfl, rfl⟩ := hstep
    refine ⟨place, lists, h.goto ⟨?_, hknows.2.1⟩ fun e' he' => by rw [hpc]; exact he'⟩
    rw [hknows.2.2]
    exact hknows.1
  | insertAppend r e =>
    rw [hpc] at hstep
    simp only [Requests.operation] at hstep
    split at hstep
    · rename_i first hpayload
      cases hstep
      exact h.append hpc hpayload
    · cases hstep
  | insertUnlock e =>
    rw [hpc] at hstep
    cases hstep
    exact ⟨place, lists, h.unlock (by rw [hpc]; exact rfl) trivial fun e' he' => he'⟩
  | get k =>
    rw [hpc] at hstep
    cases htable : c.table k with
    | none =>
      simp only [Requests.operation, htable, some.injEq, Prod.mk.injEq] at hstep
      obtain ⟨rfl, rfl⟩ := hstep
      exact ⟨place, lists, h.goto trivial fun e' he' => absurd he' id⟩
    | some e =>
      simp only [Requests.operation, htable, some.injEq, Prod.mk.injEq] at hstep
      obtain ⟨rfl, rfl⟩ := hstep
      exact ⟨place, lists, h.goto htable fun e' he' => absurd he' id⟩
  | getLock k e =>
    rw [hpc] at hstep hknows
    obtain ⟨c₁, hlock, hnew⟩ := map_eq_some_iff.mp hstep
    cases hnew
    exact ⟨place, lists, h.lock hlock hknows fun e' he' => he'⟩
  | getControl k e =>
    rw [hpc] at hstep hknows
    have htable : c.table k = some e := hknows
    simp only [Requests.operation, htable, if_true, some.injEq, Prod.mk.injEq] at hstep
    obtain ⟨rfl, rfl⟩ := hstep
    exact ⟨place, lists, h.goto ⟨k, htable⟩ fun e' he' => by rw [hpc]; exact he'⟩
  | getMark e =>
    rw [hpc] at hstep hknows
    simp only [Requests.operation] at hstep
    split at hstep
    · rename_i head hpayload
      cases hfirst : c.firstUnmarked c.newRequest head with
      | none =>
        simp only [hfirst, some.injEq, Prod.mk.injEq] at hstep
        obtain ⟨rfl, rfl⟩ := hstep
        exact ⟨place, lists, h.goto hknows fun e' he' => by rw [hpc]; exact he'⟩
      | some r =>
        simp only [hfirst, some.injEq, Prod.mk.injEq] at hstep
        obtain ⟨rfl, rfl⟩ := hstep
        exact ⟨place, lists, h.mark hpc hpayload hfirst⟩
    · cases hstep
  | getUnlock e =>
    rw [hpc] at hstep
    cases hstep
    exact ⟨place, lists, h.unlock (by rw [hpc]; exact rfl) trivial fun e' he' => he'⟩
  | free r =>
    rw [hpc] at hstep hknows
    obtain ⟨k, hplace, -⟩ := h.stored.handed t r hknows
    have hmem := (h.stored.lists_mem k r).mpr hplace
    have hrequest := h.stored.request_eq k r hplace
    cases htable : c.table k with
    | none =>
      rw [h.stored.absent k htable] at hmem
      exact absurd hmem not_mem_nil
    | some e =>
      simp only [Requests.operation, hrequest, htable, some.injEq, Prod.mk.injEq] at hstep
      obtain ⟨rfl, rfl⟩ := hstep
      refine ⟨place, lists, h.goto ⟨hknows, ?_⟩ fun e' he' => absurd he' id⟩
      rw [hrequest]
      exact htable
  | freeLock r e =>
    rw [hpc] at hstep hknows
    obtain ⟨c₁, hlock, hnew⟩ := map_eq_some_iff.mp hstep
    cases hnew
    exact ⟨place, lists, h.lock hlock hknows fun e' he' => he'⟩
  | freeControl r e =>
    rw [hpc] at hstep hknows
    simp only [Requests.operation, hknows.2, if_true, some.injEq, Prod.mk.injEq] at hstep
    obtain ⟨rfl, rfl⟩ := hstep
    exact ⟨place, lists, h.goto hknows fun e' he' => by rw [hpc]; exact he'⟩
  | freeUnlink r e =>
    obtain ⟨c₁, place', lists', hfree, htracked⟩ := h.free hpc (hguard r e hpc)
    rw [hpc, hfree] at hstep
    cases hstep
    exact ⟨place', lists', htracked⟩
  | freeUnlockRelease e r =>
    rw [hpc] at hstep hknows
    cases hstep
    exact ⟨place, lists, h.unlock (by rw [hpc]; exact rfl) hknows.2 fun e' he' => he'⟩
  | freeRelease r =>
    rw [hpc] at hstep
    cases hstep
    exact ⟨_, lists, h.release hpc⟩
  | insertInstead r e =>
    rw [hpc] at hknows
    exact absurd hknows id
  | insertRelease r =>
    rw [hpc] at hknows
    exact absurd hknows id
  | insertChanged data r e control =>
    rw [hpc] at hknows
    exact absurd hknows id
  | getChanged k e control =>
    rw [hpc] at hknows
    exact absurd hknows id
  | freeUnlock e =>
    rw [hpc] at hknows
    exact absurd hknows id
  | freeChanged r e control =>
    rw [hpc] at hknows
    exact absurd hknows id

def InOrder (s : State K D T) : Prop :=
  ∃ place lists, Tracked s.shared s.pcs place lists

theorem tracked_step {s s' : State K D T} {a : T × Action K D} (h : InOrder s)
    (hguard : keepsOrder s a = true) (hstep : step s a s') : InOrder s' := by
  obtain ⟨place, lists, h⟩ := h
  obtain ⟨t, action⟩ := a
  cases action with
  | run =>
    obtain ⟨⟨c, pc⟩, hoperation, hnew⟩ := map_eq_some_iff.mp hstep
    cases hnew
    exact h.operation (fun r e hpc => keepsOrder_run hguard hpc) hoperation
  | call call =>
    simp only [step, Requests.next] at hstep
    split_ifs at hstep with hidle
    obtain ⟨⟨c, pc⟩, hcall, hnew⟩ := map_eq_some_iff.mp hstep
    cases hnew
    have hpc : s.pcs t = .idle := by
      cases hthread : s.pcs t with
      | idle => rfl
      | _ => rw [hthread] at hidle; cases hidle
    cases call with
    | create request content =>
      cases hcall
      exact ⟨place, lists, h.goto rfl fun e' he' => absurd he' id⟩
    | get request =>
      cases hcall
      exact ⟨place, lists, h.goto trivial fun e' he' => absurd he' id⟩
    | unmark r =>
      cases hcall
      have hkeeps := keepsOrder_unmark hguard
      exact ⟨place, lists, h.unmark hpc hkeeps.1 hkeeps.2⟩
    | free r =>
      simp only [callOf] at hcall
      split_ifs at hcall with hhanded
      cases hcall
      exact ⟨place, lists, h.goto hhanded fun e' he' => absurd he' id⟩

/-- In every run whose steps all keep the order, every state is as promised. -/
theorem tracking_safe (entries : ℕ → Entry) (requests : ℕ → Request K D) (s : State K D T)
    (actions : List (T × Action K D))
    (hrun : Steps (fun s a s' => keepsOrder s a = true ∧ step s a s') (initial K T entries requests) actions s) :
    Safe s := by
  have htracked : InOrder s :=
    hrun.invariant_of_guard (fun _ _ _ h hguard hstep => tracked_step h hguard hstep)
      ⟨_, _, tracked_initial entries requests⟩
  obtain ⟨place, lists, h⟩ := htracked
  exact h.safe

/-! ## Two runs -/

def perform (allowed : State K D T → T × Action K D → Bool) (s : State K D T)
    (actions : List (T × Action K D)) : Option (State K D T) :=
  actions.foldlM (fun s a => if allowed s a then Requests.next s a.1 a.2 else none) s

theorem steps_of_perform {allowed : State K D T → T × Action K D → Bool} {s s' : State K D T}
    {actions : List (T × Action K D)} (h : perform allowed s actions = some s') :
    Steps (fun s a s' => allowed s a = true ∧ step s a s') s actions s' := by
  induction actions generalizing s with
  | nil =>
    cases h
    exact .nil _
  | cons a actions ih =>
    rw [perform, foldlM_cons, bind_eq_bind, bind_eq_some_iff] at h
    obtain ⟨next, hnext, hrest⟩ := h
    split_ifs at hnext with hallowed
    exact .cons ⟨hallowed, hnext⟩ (ih hrest)

end Threads

def zeroMemory : State ℕ Unit ℕ :=
  initial ℕ ℕ (fun _ => ⟨.request none, false⟩) fun _ => ⟨0, (), none, false⟩

def twoRequests : List (ℕ × Action ℕ Unit) :=
  [(0, .call (.create 5 ())), (0, .run),
    (1, .call (.create 5 ())), (1, .run), (1, .run), (1, .run), (1, .run), (1, .run), (1, .run),
    (0, .call (.get 5)), (0, .run), (0, .run), (0, .run), (0, .run), (0, .run),
    (0, .call (.free 0)), (0, .run), (0, .run), (0, .run), (0, .run), (0, .run), (0, .run)]

theorem tracking_safe_twoRequests : ∃ s, perform keepsOrder zeroMemory twoRequests = some s ∧ Safe s := by
  have hperform : (perform keepsOrder zeroMemory twoRequests).isSome = true := rfl
  obtain ⟨s, hs⟩ := isSome_iff_exists.mp hperform
  exact ⟨s, hs, tracking_safe (fun _ => ⟨.request none, false⟩) (fun _ => ⟨0, (), none, false⟩) s
    twoRequests (steps_of_perform hs)⟩

/-- Thread 0 frees the only request of its handle, and the entry goes to the pool with its lock. Thread 1
creates another request with this entry, and takes the lock. -/
def recycledLock : List (ℕ × Action ℕ Unit) :=
  [(0, .call (.create 5 ())), (0, .run),
    (0, .call (.get 5)), (0, .run), (0, .run), (0, .run), (0, .run), (0, .run),
    (0, .call (.free 0)), (0, .run), (0, .run), (0, .run), (0, .run),
    (1, .call (.create 7 ())), (1, .run),
    (1, .call (.get 7)), (1, .run), (1, .run)]

theorem not_safe_recycledLock : ¬ ∀ (s : State ℕ Unit ℕ) (actions : List (ℕ × Action ℕ Unit)),
    Steps step zeroMemory actions s → Safe s := by
  intro hsafe
  have hperform : (perform (fun _ _ => true) zeroMemory recycledLock).map
      (fun s => (s.pcs 0, s.pcs 1)) = some (.freeUnlock 0, .getControl 7 0) := rfl
  obtain ⟨s, hs, hpcs⟩ := map_eq_some_iff.mp hperform
  obtain ⟨hfree, hget⟩ := Prod.mk.inj hpcs
  have hrun : Steps step zeroMemory recycledLock s :=
    (steps_of_perform hs).mono fun _ _ _ h => h.2
  have hunique := (hsafe s recycledLock hrun).lock_unique 0 1 0
  rw [hfree, hget] at hunique
  exact absurd (hunique rfl rfl) Nat.zero_ne_one

end ScoreP.Mpi.Requests
