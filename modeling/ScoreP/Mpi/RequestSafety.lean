import ScoreP.Mpi.RequestStorage

/-!
# What the request tracking promises

`Safe` is the promise. `Tracked` is the invariant behind it, in the runs that remove no entry from the table:
the placement of the records, the locks, and what the local variables of every thread say about the
shared memory. `Tracked.advance` is the rule for one step of one thread.
-/

namespace ScoreP.Mpi.Requests

open Foundations Function

section Threads

variable {K D T : Type} [DecidableEq K] [DecidableEq T]

/-! ## What a thread has at a program counter -/

/-- The lock of the entry is held by the thread. -/
def Pc.Holds : Pc K D → ℕ → Prop
  | .insertControl _ _ e, e' => e' = e
  | .insertInstead _ e, e' => e' = e
  | .insertAppend _ e, e' => e' = e
  | .insertUnlock e, e' => e' = e
  | .insertChanged _ _ e _, e' => e' = e
  | .getControl _ e, e' => e' = e
  | .getMark e, e' => e' = e
  | .getUnlock e, e' => e' = e
  | .getChanged _ e _, e' => e' = e
  | .freeControl _ e, e' => e' = e
  | .freeUnlink _ e, e' => e' = e
  | .freeUnlock e, e' => e' = e
  | .freeUnlockRelease e _, e' => e' = e
  | .freeChanged _ e _, e' => e' = e
  | _, _ => False

def Pc.UsesEntry : Pc K D → ℕ → Prop
  | .insertDuplicate _ e, e' => e' = e
  | .insertLock _ _ e, e' => e' = e
  | .insertChanged _ _ e control, e' => e' = e ∨ e' = control
  | .getLock _ e, e' => e' = e
  | .getChanged _ e control, e' => e' = e ∨ e' = control
  | .freeLock _ e, e' => e' = e
  | .freeChanged _ e control, e' => e' = e ∨ e' = control
  | pc, e' => pc.Holds e'

def Pc.UsesRequest : Pc K D → ℕ → Prop
  | .insertLock _ r _, r' => r' = r
  | .insertControl _ r _, r' => r' = r
  | .insertInstead r _, r' => r' = r
  | .insertRelease r, r' => r' = r
  | .insertAppend r _, r' => r' = r
  | .insertChanged _ r _ _, r' => r' = r
  | .free r, r' => r' = r
  | .freeLock r _, r' => r' = r
  | .freeControl r _, r' => r' = r
  | .freeUnlink r _, r' => r' = r
  | .freeUnlockRelease _ r, r' => r' = r
  | .freeRelease r, r' => r' = r
  | .freeChanged r _ _, r' => r' = r
  | _, _ => False

def ReachableUnder (c : Shared K D T) (k : K) (r : ℕ) : Prop :=
  ∃ e head records, c.table k = some e ∧ (c.entries e).payload = .request head ∧
    Chain c.next head records ∧ r ∈ records

/-- What the request tracking promises. -/
structure Safe (s : State K D T) : Prop where
  lock_unique : ∀ t u e, (s.pcs t).Holds e → (s.pcs u).Holds e → t = u
  handed_nodup : (s.shared.handed.map Prod.snd).Nodup
  live_reachable : ∀ k r, (k, r) ∈ s.shared.live → ReachableUnder s.shared k r
  live_nodup : (s.shared.live.map Prod.snd).Nodup
  pool_nodup : s.shared.requestFreeList.Nodup
  request_pool : ∀ r ∈ s.shared.requestFreeList, (∀ k, ¬ ReachableUnder s.shared k r) ∧
    (∀ t, ¬ (s.pcs t).UsesRequest r) ∧ ∀ t, (t, r) ∉ s.shared.handed
  entry_pool : ∀ e ∈ s.shared.requestTableEntryFreeList, (∀ k, s.shared.table k ≠ some e) ∧
    (∀ t, ¬ (s.pcs t).UsesEntry e) ∧ (s.shared.entries e).requestLock = false
  stored : s.shared.pooledStore = false
  /-- `scorep_mpi_request_free` has not missed a request. -/
  found : s.shared.missing = false

/-- What the local variables of a thread say about the shared memory. -/
def Pc.Knows (c : Shared K D T) (place : ℕ → Place K T) (t : T) : Pc K D → Prop
  | .idle => True
  | .insert data => data.next = none
  | .get _ => True
  | .insertDuplicate data e => c.table data.request = some e
  | .insertLock data r e => c.table data.request = some e ∧ place r = .owned t ∧
      (c.requests r).request = data.request
  | .insertControl data r e => c.table data.request = some e ∧ place r = .owned t ∧
      (c.requests r).request = data.request
  | .insertAppend r e => c.table (c.requests r).request = some e ∧ place r = .owned t
  | .insertUnlock e => ∃ k, c.table k = some e
  | .getLock k e => c.table k = some e
  | .getControl k e => c.table k = some e
  | .getMark e => ∃ k, c.table k = some e
  | .getUnlock e => ∃ k, c.table k = some e
  | .free r => (t, r) ∈ c.handed
  | .freeLock r e => (t, r) ∈ c.handed ∧ c.table (c.requests r).request = some e
  | .freeControl r e => (t, r) ∈ c.handed ∧ c.table (c.requests r).request = some e
  | .freeUnlink r e => (t, r) ∈ c.handed ∧ c.table (c.requests r).request = some e
  | .freeUnlockRelease e r => (∃ k, c.table k = some e) ∧ place r = .owned t
  | .freeRelease r => place r = .owned t
  | .insertInstead .. => False
  | .insertRelease .. => False
  | .insertChanged .. => False
  | .getChanged .. => False
  | .freeUnlock .. => False
  | .freeChanged .. => False

structure Frame (c c' : Shared K D T) (place place' : ℕ → Place K T) (t : T) : Prop where
  table : ∀ k e, c.table k = some e → c'.table k = some e
  owned : ∀ r, place r = .owned t → place' r = .owned t ∧ (c'.requests r).request = (c.requests r).request
  handed : ∀ r, (t, r) ∈ c.handed → (t, r) ∈ c'.handed ∧ (c'.requests r).request = (c.requests r).request

variable {c c' : Shared K D T} {place place' : ℕ → Place K T} {lists lists' : K → List ℕ} {t : T}
  {pc : Pc K D}

theorem Pc.Knows.frame (h : pc.Knows c place t) (hframe : Frame c c' place place' t) :
    pc.Knows c' place' t := by
  cases pc with
  | idle => exact h
  | insert data => exact h
  | get request => exact h
  | insertDuplicate data e => exact hframe.table _ _ h
  | insertLock data r e =>
    exact ⟨hframe.table _ _ h.1, (hframe.owned r h.2.1).1, (hframe.owned r h.2.1).2.trans h.2.2⟩
  | insertControl data r e =>
    exact ⟨hframe.table _ _ h.1, (hframe.owned r h.2.1).1, (hframe.owned r h.2.1).2.trans h.2.2⟩
  | insertAppend r e =>
    have howned := hframe.owned r h.2
    refine ⟨?_, howned.1⟩
    rw [howned.2]
    exact hframe.table _ _ h.1
  | insertUnlock e => exact h.imp fun k => hframe.table k e
  | getLock k e => exact hframe.table _ _ h
  | getControl k e => exact hframe.table _ _ h
  | getMark e => exact h.imp fun k => hframe.table k e
  | getUnlock e => exact h.imp fun k => hframe.table k e
  | free r => exact (hframe.handed r h).1
  | freeLock r e =>
    have hhanded := hframe.handed r h.1
    refine ⟨hhanded.1, ?_⟩
    rw [hhanded.2]
    exact hframe.table _ _ h.2
  | freeControl r e =>
    have hhanded := hframe.handed r h.1
    refine ⟨hhanded.1, ?_⟩
    rw [hhanded.2]
    exact hframe.table _ _ h.2
  | freeUnlink r e =>
    have hhanded := hframe.handed r h.1
    refine ⟨hhanded.1, ?_⟩
    rw [hhanded.2]
    exact hframe.table _ _ h.2
  | freeUnlockRelease e r => exact ⟨h.1.imp fun k => hframe.table k e, (hframe.owned r h.2).1⟩
  | freeRelease r => exact (hframe.owned r h).1
  | insertInstead r e => exact h
  | insertRelease r => exact h
  | insertChanged data r e control => exact h
  | getChanged k e control => exact h
  | freeUnlock e => exact h
  | freeChanged r e control => exact h

theorem Pc.Knows.holds (h : pc.Knows c place t) {e : ℕ} (hholds : pc.Holds e) : ∃ k, c.table k = some e := by
  cases pc with
  | insertControl data r e' => exact ⟨_, hholds ▸ h.1⟩
  | insertAppend r e' => exact ⟨_, hholds ▸ h.1⟩
  | insertUnlock e' => exact hholds ▸ h
  | getControl k e' => exact ⟨k, hholds ▸ h⟩
  | getMark e' => exact hholds ▸ h
  | getUnlock e' => exact hholds ▸ h
  | freeControl r e' => exact ⟨_, hholds ▸ h.2⟩
  | freeUnlink r e' => exact ⟨_, hholds ▸ h.2⟩
  | freeUnlockRelease e' r => exact hholds ▸ h.1
  | insertInstead r e' => exact absurd h id
  | insertChanged data r e' control => exact absurd h id
  | getChanged k e' control => exact absurd h id
  | freeUnlock e' => exact absurd h id
  | freeChanged r e' control => exact absurd h id
  | _ => exact absurd hholds id

theorem Pc.Knows.usesRequest (h : pc.Knows c place t) {r : ℕ} (huses : pc.UsesRequest r) :
    place r = .owned t ∨ (t, r) ∈ c.handed := by
  cases pc with
  | insertLock data r' e => exact .inl (huses ▸ h.2.1)
  | insertControl data r' e => exact .inl (huses ▸ h.2.1)
  | insertAppend r' e => exact .inl (huses ▸ h.2)
  | free r' => exact .inr (huses ▸ h)
  | freeLock r' e => exact .inr (huses ▸ h.1)
  | freeControl r' e => exact .inr (huses ▸ h.1)
  | freeUnlink r' e => exact .inr (huses ▸ h.1)
  | freeUnlockRelease e r' => exact .inl (huses ▸ h.2)
  | freeRelease r' => exact .inl (huses ▸ h)
  | insertInstead r' e => exact absurd h id
  | insertRelease r' => exact absurd h id
  | insertChanged data r' e control => exact absurd h id
  | freeChanged r' e control => exact absurd h id
  | _ => exact absurd huses id

/-! ## The invariant -/

/-- The invariant of the runs that never empty a list. -/
structure Tracked (c : Shared K D T) (pcs : T → Pc K D) (place : ℕ → Place K T) (lists : K → List ℕ) :
    Prop where
  stored : Stored c place lists
  locked : ∀ t e, (pcs t).Holds e → (c.entries e).requestLock = true
  unique : ∀ t u e, (pcs t).Holds e → (pcs u).Holds e → t = u
  knows : ∀ t, (pcs t).Knows c place t

theorem Tracked.safe {s : State K D T} (h : Tracked s.shared s.pcs place lists) : Safe s where
  lock_unique := h.unique
  handed_nodup := h.stored.handed_nodup
  live_reachable := by
    intro k r hlive
    have hmem := (h.stored.lists_mem k r).mpr ((h.stored.live_mem k r).mp hlive)
    cases htable : s.shared.table k with
    | none =>
      rw [h.stored.absent k htable] at hmem
      exact absurd hmem List.not_mem_nil
    | some e =>
      obtain ⟨-, -, head, hpayload, hchain⟩ := h.stored.entry k e htable
      exact ⟨e, head, lists k, htable, hpayload, hchain, hmem⟩
  live_nodup := h.stored.live_nodup
  pool_nodup := h.stored.pool_nodup
  request_pool := by
    intro r hr
    have hpooled := (h.stored.pool_mem r).mp hr
    have hlisted : ∀ k, place r ≠ .listed k := by
      intro k hk
      rw [hpooled] at hk
      cases hk
    have hhanded : ∀ t, (t, r) ∉ s.shared.handed := by
      intro t ht
      obtain ⟨k, hk, -⟩ := h.stored.handed t r ht
      exact hlisted k hk
    refine ⟨?_, ?_, hhanded⟩
    · rintro k ⟨e, head, records, htable, hpayload, hchain, hmem⟩
      obtain ⟨-, -, head', hpayload', hchain'⟩ := h.stored.entry k e htable
      rw [hpayload] at hpayload'
      cases hpayload'
      rw [hchain.unique hchain', h.stored.lists_mem] at hmem
      exact hlisted k hmem
    · intro t huses
      rcases (h.knows t).usesRequest huses with howned | hgot
      · rw [hpooled] at howned
        cases howned
      · exact hhanded t hgot
  entry_pool := by
    intro e he
    rw [h.stored.entryPool] at he
    exact absurd he List.not_mem_nil
  stored := h.stored.unpooled
  found := h.stored.found

theorem tracked_initial (entries : ℕ → Entry) (requests : ℕ → Request K D) :
    Tracked (initial K T entries requests).shared (initial K T entries requests).pcs
      (fun _ => .fresh) fun _ => [] where
  stored := stored_initial entries requests
  locked := fun _ _ hholds => absurd hholds id
  unique := fun _ _ _ hholds => absurd hholds id
  knows := fun _ => trivial

variable {pcs : T → Pc K D}

theorem Tracked.advance (h : Tracked c pcs place lists) (hstored : Stored c' place' lists')
    (hframe : ∀ u, u ≠ t → Frame c c' place place' u) (hknows : pc.Knows c' place' t)
    (hholds : ∀ e, pc.Holds e → (pcs t).Holds e ∨ (c.entries e).requestLock = false)
    (hlocked : ∀ e, pc.Holds e → (c'.entries e).requestLock = true)
    (hothers : ∀ u, u ≠ t → ∀ e, (pcs u).Holds e → (c'.entries e).requestLock = true) :
    Tracked c' (update pcs t pc) place' lists' := by
  have hnew : ∀ u e, u ≠ t → pc.Holds e → ¬ (pcs u).Holds e := by
    intro u e hu hpc hother
    rcases hholds e hpc with hold | hfree
    · exact hu (h.unique u t e hother hold)
    · rw [h.locked u e hother] at hfree
      cases hfree
  constructor
  · exact hstored
  · intro u e hu
    by_cases heq : u = t
    · rw [heq, update_self] at hu
      exact hlocked e hu
    · rw [update_of_ne heq] at hu
      exact hothers u heq e hu
  · intro u v e hu hv
    by_cases hut : u = t
    · by_cases hvt : v = t
      · rw [hut, hvt]
      · rw [hut, update_self] at hu
        rw [update_of_ne hvt] at hv
        exact absurd hv (hnew v e hvt hu)
    · by_cases hvt : v = t
      · rw [hvt, update_self] at hv
        rw [update_of_ne hut] at hu
        exact absurd hu (hnew u e hut hv)
      · rw [update_of_ne hut] at hu
        rw [update_of_ne hvt] at hv
        exact h.unique u v e hu hv
  · intro u
    by_cases hut : u = t
    · rw [hut, update_self]
      exact hknows
    · rw [update_of_ne hut]
      exact (h.knows u).frame (hframe u hut)

end Threads

end ScoreP.Mpi.Requests
