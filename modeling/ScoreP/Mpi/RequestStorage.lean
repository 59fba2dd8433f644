import ScoreP.Mpi.RequestTracking

/-!
# Where every record is

A record is fresh, in the free list, owned by a thread, or in the list of a handle. `Stored` says that the
table, the lists and the free lists of the code are those of such a placement; there is one lemma for every
operation that moves a record.
-/

namespace ScoreP.Mpi.Requests

open Foundations Function List

inductive Place (K T : Type) where
  | fresh
  | pooled
  | owned (thread : T)
  | listed (request : K)
deriving DecidableEq

section Storage

variable {K D T : Type} [DecidableEq K] [DecidableEq T]

/-- No entry has been removed from the table, and every record is at its place. -/
structure Stored (c : Shared K D T) (place : ℕ → Place K T) (lists : K → List ℕ) : Prop where
  pool_mem : ∀ r, r ∈ c.requestFreeList ↔ place r = .pooled
  pool_nodup : c.requestFreeList.Nodup
  fresh : ∀ r, c.newRequest ≤ r → place r = .fresh
  lists_mem : ∀ k r, r ∈ lists k ↔ place r = .listed k
  lists_nodup : ∀ k, (lists k).Nodup
  absent : ∀ k, c.table k = none → lists k = []
  entry : ∀ k e, c.table k = some e → e < c.newEntry ∧ lists k ≠ [] ∧
    ∃ head, (c.entries e).payload = .request head ∧ Chain c.next head (lists k)
  table_inj : ∀ k l e, c.table k = some e → c.table l = some e → k = l
  entryPool : c.requestTableEntryFreeList = []
  request_eq : ∀ k r, place r = .listed k → (c.requests r).request = k
  handed : ∀ t r, (t, r) ∈ c.handed → ∃ k, place r = .listed k ∧ (c.requests r).marker = true
  handed_nodup : (c.handed.map Prod.snd).Nodup
  live_mem : ∀ k r, (k, r) ∈ c.live ↔ place r = .listed k
  live_nodup : (c.live.map Prod.snd).Nodup
  found : c.missing = false
  unpooled : c.pooledStore = false

variable {c c' : Shared K D T} {place : ℕ → Place K T} {lists : K → List ℕ}

theorem stored_initial (entries : ℕ → Entry) (requests : ℕ → Request K D) :
    Stored (initial K T entries requests).shared (fun _ => .fresh) fun _ => [] where
  pool_mem := by simp [initial]
  pool_nodup := nodup_nil
  fresh := fun _ _ => rfl
  lists_mem := by simp
  lists_nodup := fun _ => nodup_nil
  absent := fun _ _ => rfl
  entry := fun _ _ h => by simp [initial] at h
  table_inj := fun _ _ _ h => by simp [initial] at h
  entryPool := rfl
  request_eq := fun _ _ h => by cases h
  handed := by simp [initial]
  handed_nodup := nodup_nil
  live_mem := by simp [initial]
  live_nodup := nodup_nil
  found := rfl
  unpooled := rfl

/-! ## Walking along a list -/

theorem Stored.length_le (h : Stored c place lists) (k : K) : (lists k).length ≤ c.newRequest := by
  have hsubset : lists k ⊆ List.range c.newRequest := by
    intro r hr
    rw [mem_range]
    by_contra hle
    have hfresh := h.fresh r (Nat.le_of_not_lt hle)
    rw [(h.lists_mem k r).mp hr] at hfresh
    cases hfresh
  have hle := ((h.lists_nodup k).subperm hsubset).length_le
  rwa [length_range] at hle

variable {records : List ℕ}

theorem firstUnmarked_eq {start : Option ℕ} (h : Chain c.next start records) {fuel : ℕ}
    (hfuel : records.length ≤ fuel) :
    c.firstUnmarked fuel start = records.find? fun r => !(c.requests r).marker := by
  induction records generalizing start fuel with
  | nil =>
    rw [chain_nil] at h
    cases fuel <;> simp [Shared.firstUnmarked, h]
  | cons r records ih =>
    obtain ⟨rfl, hrest⟩ := chain_cons.mp h
    cases fuel with
    | zero => simp at hfuel
    | succ fuel =>
      rw [Shared.firstUnmarked, find?_cons]
      cases hmarker : (c.requests r).marker with
      | true => exact ih hrest (Nat.le_of_succ_le_succ hfuel)
      | false => rfl

theorem lastOf_eq {r last : ℕ} {before : List ℕ} (h : Chain c.next (some r) (before ++ [last]))
    {fuel : ℕ} (hfuel : before.length ≤ fuel) : c.lastOf fuel r = last := by
  induction before generalizing r fuel with
  | nil =>
    obtain ⟨hr, hnext⟩ := chain_cons.mp h
    cases hr
    cases fuel with
    | zero => rfl
    | succ fuel =>
      rw [Shared.lastOf, chain_nil.mp hnext]
  | cons first before ih =>
    obtain ⟨hr, hrest⟩ := chain_cons.mp h
    obtain rfl : r = first := Option.some.inj hr
    cases fuel with
    | zero => simp at hfuel
    | succ fuel =>
      have hhead := hrest.head_eq
      cases hnext : c.next r with
      | none =>
        rw [hnext] at hhead
        simp at hhead
      | some next =>
        rw [hnext] at hrest
        rw [Shared.lastOf, hnext]
        exact ih hrest (Nat.le_of_succ_le_succ hfuel)

theorem findPrevious_eq {start previous : Option ℕ} {req : ℕ} {before behind : List ℕ}
    (h : Chain c.next start (before ++ req :: behind)) (hnot : req ∉ before) {fuel : ℕ}
    (hfuel : before.length < fuel) :
    c.findPrevious req fuel previous start = some (before.getLast?.or previous) := by
  induction before generalizing start previous fuel with
  | nil =>
    obtain ⟨rfl, -⟩ := chain_cons.mp h
    cases fuel with
    | zero => simp at hfuel
    | succ fuel => simp [Shared.findPrevious]
  | cons r before ih =>
    obtain ⟨rfl, hrest⟩ := chain_cons.mp h
    have hne : r ≠ req := fun heq => hnot (heq ▸ mem_cons_self)
    cases fuel with
    | zero => simp at hfuel
    | succ fuel =>
      rw [Shared.findPrevious, if_neg hne,
        ih hrest (fun hin => hnot (mem_cons_of_mem r hin)) (Nat.lt_of_succ_lt_succ hfuel)]
      cases before with
      | nil => rfl
      | cons r' before =>
        have hlast : (r' :: before).getLast? = some ((r' :: before).getLast (by simp)) :=
          getLast?_eq_some_getLast (by simp)
        rw [getLast?_cons_cons, hlast]
        rfl

/-! ## Locks and markers -/

theorem Stored.setLock (h : Stored c place lists) (e : ℕ) (lock : Bool) :
    Stored (c.setEntry e { c.entries e with requestLock := lock }) place lists := { h with
  entry := by
    intro k e' htable
    obtain ⟨hlt, hne, head, hpayload, hchain⟩ := h.entry k e' htable
    refine ⟨hlt, hne, head, ?_, hchain⟩
    by_cases heq : e' = e
    · rw [← hpayload, heq]
      simp [Shared.setEntry]
    · simp [Shared.setEntry, update_of_ne heq, hpayload] }

theorem next_setMarker (c : Shared K D T) (r : ℕ) (marker : Bool) :
    (c.setRequest r { c.requests r with marker := marker }).next = c.next := by
  funext r'
  by_cases heq : r' = r
  · rw [heq]
    simp [Shared.next, Shared.setRequest]
  · simp [Shared.next, Shared.setRequest, update_of_ne heq]

theorem request_setMarker (c : Shared K D T) (r r' : ℕ) (marker : Bool) :
    ((c.setRequest r { c.requests r with marker := marker }).requests r').request =
      (c.requests r').request := by
  by_cases heq : r' = r
  · rw [heq]
    simp [Shared.setRequest]
  · simp [Shared.setRequest, update_of_ne heq]

variable {r : ℕ}

theorem Stored.mark (h : Stored c place lists) {t : T} {k : K} (hplace : place r = .listed k)
    (hmarker : (c.requests r).marker = false) :
    Stored { c.setRequest r { c.requests r with marker := true } with
      handed := (t, r) :: c.handed } place lists := { h with
  entry := by
    intro k e htable
    obtain ⟨hlt, hne, head, hpayload, hchain⟩ := h.entry k e htable
    exact ⟨hlt, hne, head, hpayload, hchain.congr fun x _ => congrFun (next_setMarker c r true) x⟩
  request_eq := fun k r' hr' => (request_setMarker c r r' true).trans (h.request_eq k r' hr')
  handed := by
    intro u r' hmem
    by_cases heq : r' = r
    · rw [heq]
      exact ⟨k, hplace, by simp [Shared.setRequest]⟩
    · rcases mem_cons.mp hmem with hnew | hold
      · exact absurd (Prod.mk.inj hnew).2 heq
      · obtain ⟨l, hl, hmark⟩ := h.handed u r' hold
        exact ⟨l, hl, by simpa [Shared.setRequest, update_of_ne heq] using hmark⟩
  handed_nodup := by
    rw [map_cons, nodup_cons]
    refine ⟨?_, h.handed_nodup⟩
    intro hmem
    obtain ⟨⟨u, r'⟩, hold, rfl⟩ := mem_map.mp hmem
    obtain ⟨-, -, hmark⟩ := h.handed u r' hold
    rw [hmark] at hmarker
    cases hmarker }

theorem Stored.unmark (h : Stored c place lists) {t : T} (hpool : r ∉ c.requestFreeList)
    (hother : ∀ u, (u, r) ∈ c.handed → u = t) : Stored (unmarkRequest t c r) place lists := { h with
  entry := by
    intro k e htable
    obtain ⟨hlt, hne, head, hpayload, hchain⟩ := h.entry k e htable
    exact ⟨hlt, hne, head, hpayload, hchain.congr fun x _ => congrFun (next_setMarker c r false) x⟩
  request_eq := fun k r' hr' => (request_setMarker c r r' false).trans (h.request_eq k r' hr')
  handed := by
    intro u r' hmem
    obtain ⟨hold, hne⟩ := mem_filter.mp hmem
    have hr : r' ≠ r := by
      rintro rfl
      rw [hother u hold] at hne
      simp at hne
    obtain ⟨l, hl, hmark⟩ := h.handed u r' hold
    exact ⟨l, hl, by simpa [unmarkRequest, Shared.setRequest, update_of_ne hr] using hmark⟩
  handed_nodup := h.handed_nodup.sublist (filter_sublist.map _)
  unpooled := by
    have hnot : c.requestFreeList.contains r = false := by simpa using hpool
    rw [unmarkRequest, h.unpooled, hnot]
    rfl }

/-! ## Records that are in no list -/

def Place.Unlisted (p : Place K T) : Prop :=
  ∀ k, p ≠ .listed k

theorem listed_update_iff {r r' : ℕ} {p : Place K T} {k : K} (hold : (place r).Unlisted)
    (hnew : p.Unlisted) : update place r p r' = .listed k ↔ place r' = .listed k := by
  by_cases heq : r' = r
  · rw [heq, update_self]
    exact ⟨fun h => absurd h (hnew k), fun h => absurd h (hold k)⟩
  · rw [update_of_ne heq]

theorem next_setRequest_of_ne {r r' : ℕ} (hne : r' ≠ r) (data : Request K D) :
    (c.setRequest r data).next r' = c.next r' := by
  simp [Shared.next, Shared.setRequest, update_of_ne hne]

theorem Stored.setUnlisted (h : Stored c place lists) (hr : (place r).Unlisted) (data : Request K D) :
    Stored (c.setRequest r data) place lists := { h with
  entry := by
    intro k e htable
    obtain ⟨hlt, hne, head, hpayload, hchain⟩ := h.entry k e htable
    refine ⟨hlt, hne, head, hpayload, hchain.congr ?_⟩
    intro x hx
    have hxr : x ≠ r := fun heq => hr k (heq ▸ (h.lists_mem k x).mp hx)
    exact next_setRequest_of_ne hxr data
  request_eq := by
    intro k r' hr'
    have hne : r' ≠ r := fun heq => hr k (heq ▸ hr')
    simpa [Shared.setRequest, update_of_ne hne] using h.request_eq k r' hr'
  handed := by
    intro u r' hmem
    obtain ⟨k, hk, hmark⟩ := h.handed u r' hmem
    have hne : r' ≠ r := fun heq => hr k (heq ▸ hk)
    exact ⟨k, hk, by simpa [Shared.setRequest, update_of_ne hne] using hmark⟩ }

theorem Stored.move (h : Stored c place lists) {r bound : ℕ} {p : Place K T} {pool : List ℕ}
    (hold : (place r).Unlisted) (hnew : p.Unlisted) (hbound : c.newRequest ≤ bound) (hlt : r < bound)
    (hpool : ∀ r', r' ∈ pool ↔ update place r p r' = .pooled) (hnodup : pool.Nodup) :
    Stored { c with requestFreeList := pool, newRequest := bound } (update place r p) lists := { h with
  pool_mem := hpool
  pool_nodup := hnodup
  fresh := by
    intro r' hle
    have hle' : bound ≤ r' := hle
    rw [update_of_ne (by omega)]
    exact h.fresh r' (by omega)
  lists_mem := fun k r' => (h.lists_mem k r').trans (listed_update_iff hold hnew).symm
  request_eq := fun k r' hr' => h.request_eq k r' ((listed_update_iff hold hnew).mp hr')
  handed := by
    intro u r' hmem
    obtain ⟨k, hk, hmark⟩ := h.handed u r' hmem
    exact ⟨k, (listed_update_iff hold hnew).mpr hk, hmark⟩
  live_mem := fun k r' => (h.live_mem k r').trans (listed_update_iff hold hnew).symm }

theorem pooled_unlisted : (Place.pooled : Place K T).Unlisted :=
  fun _ h => by cases h

theorem fresh_unlisted : (Place.fresh : Place K T).Unlisted :=
  fun _ h => by cases h

theorem owned_unlisted (t : T) : (Place.owned t : Place K T).Unlisted :=
  fun _ h => by cases h

theorem Stored.take (h : Stored c place lists) (htake : c.getScorepRequestFromPool = (r, c')) (t : T) :
    (place r = .pooled ∨ place r = .fresh) ∧ Stored c' (update place r (.owned t)) lists ∧
      ∃ pool bound, c' = { c with requestFreeList := pool, newRequest := bound } := by
  rw [Shared.getScorepRequestFromPool] at htake
  cases hlist : c.requestFreeList with
  | nil =>
    simp only [hlist, Prod.mk.injEq] at htake
    obtain ⟨rfl, rfl⟩ := htake
    have hfresh := h.fresh c.newRequest (Nat.le_refl _)
    refine ⟨.inr hfresh, ?_, [], c.newRequest + 1, rfl⟩
    apply h.move (hfresh ▸ fresh_unlisted) (owned_unlisted t) (Nat.le_succ _) (Nat.lt_succ_self _)
    · intro r'
      rw [← hlist, h.pool_mem]
      by_cases heq : r' = c.newRequest
      · rw [heq, update_self, hfresh]
        simp
      · rw [update_of_ne heq]
    · exact nodup_nil
  | cons first rest =>
    simp only [hlist, Prod.mk.injEq] at htake
    obtain ⟨rfl, rfl⟩ := htake
    have hpooled : place first = .pooled := (h.pool_mem first).mp (hlist ▸ mem_cons_self)
    have hnodup := h.pool_nodup
    rw [hlist, nodup_cons] at hnodup
    have hlt : first < c.newRequest := by
      by_contra hle
      rw [h.fresh first (Nat.le_of_not_lt hle)] at hpooled
      cases hpooled
    refine ⟨.inl hpooled, ?_, rest, c.newRequest, rfl⟩
    apply h.move (hpooled ▸ pooled_unlisted) (owned_unlisted t) (Nat.le_refl _) hlt
    · intro r'
      have hmem := h.pool_mem r'
      rw [hlist, mem_cons] at hmem
      by_cases heq : r' = first
      · rw [heq, update_self]
        exact ⟨fun hin => absurd hin hnodup.1, fun hin => by cases hin⟩
      · rw [update_of_ne heq, ← hmem]
        exact ⟨.inr, fun hin => hin.resolve_left heq⟩
    · exact hnodup.2

theorem Stored.release (h : Stored c place lists) {t : T} (hplace : place r = .owned t) :
    Stored (c.releaseScorepRequestToPool r) (update place r .pooled) lists := by
  have howned : (place r).Unlisted := hplace ▸ owned_unlisted t
  have hlt : r < c.newRequest := by
    by_contra hle
    rw [h.fresh r (Nat.le_of_not_lt hle)] at hplace
    cases hplace
  have hset := h.setUnlisted howned { c.requests r with next := c.requestFreeList.head? }
  have hnot : r ∉ c.requestFreeList := by
    rw [h.pool_mem, hplace]
    intro heq
    cases heq
  apply hset.move howned pooled_unlisted (Nat.le_refl _) hlt
  · intro r'
    rw [mem_cons]
    by_cases heq : r' = r
    · rw [heq, update_self]
      exact ⟨fun _ => rfl, fun _ => .inl rfl⟩
    · rw [update_of_ne heq, ← h.pool_mem]
      exact ⟨fun hin => hin.resolve_left heq, .inr⟩
  · exact nodup_cons.mpr ⟨hnot, h.pool_nodup⟩

/-! ## Creating a record -/

theorem mem_update_lists {k l : K} {r' : ℕ} :
    r' ∈ update lists k records l ↔ if l = k then r' ∈ records else r' ∈ lists l := by
  by_cases heq : l = k
  · rw [heq, update_self, if_pos rfl]
  · rw [update_of_ne heq, if_neg heq]

def Shared.publish (c : Shared K D T) (k : K) (r : ℕ) : Shared K D T :=
  { c with
    newEntry := c.newEntry + 1
    entries := update c.entries c.newEntry ⟨.request (some r), false⟩
    table := update c.table k (some c.newEntry)
    live := (k, r) :: c.live }

theorem publish_table_self (c : Shared K D T) (k : K) (r : ℕ) : (c.publish k r).table k = some c.newEntry :=
  update_self _ _ _

theorem publish_table_of_ne (c : Shared K D T) {k l : K} (r : ℕ) (hne : l ≠ k) :
    (c.publish k r).table l = c.table l :=
  update_of_ne hne _ _

omit [DecidableEq T] in
theorem requestTableGetAndInsert_new (hpool : c.requestTableEntryFreeList = []) {data : Request K D}
    (htable : c.table data.request = none) (htake : c.getScorepRequestFromPool = (r, c')) :
    c.requestTableGetAndInsert data = (true, c.newEntry, (c'.setRequest r data).publish data.request r) := by
  rw [Shared.getScorepRequestFromPool] at htake
  cases hlist : c.requestFreeList with
  | nil =>
    simp only [hlist, Prod.mk.injEq] at htake
    obtain ⟨rfl, rfl⟩ := htake
    simp [Shared.requestTableGetAndInsert, htable, Shared.requestTableValueCtor,
      Shared.getRequestTableEntryFromPool, hpool, Shared.getScorepRequestFromPool, Shared.setEntry, hlist,
      Shared.setRequest, Shared.publish]
  | cons first rest =>
    simp only [hlist, Prod.mk.injEq] at htake
    obtain ⟨rfl, rfl⟩ := htake
    simp [Shared.requestTableGetAndInsert, htable, Shared.requestTableValueCtor,
      Shared.getRequestTableEntryFromPool, hpool, Shared.getScorepRequestFromPool, Shared.setEntry, hlist,
      Shared.setRequest, Shared.publish]

theorem Stored.publish (h : Stored c place lists) {t : T} {k : K} (hplace : place r = .owned t)
    (htable : c.table k = none) (hrequest : (c.requests r).request = k) (hnext : (c.requests r).next = none) :
    Stored (c.publish k r) (update place r (.listed k)) (update lists k [r]) := { h with
  pool_mem := by
    intro r'
    rw [Shared.publish, h.pool_mem]
    by_cases heq : r' = r
    · rw [heq, update_self, hplace]
      simp
    · rw [update_of_ne heq]
  fresh := by
    intro r' hle
    have hfresh := h.fresh r' hle
    have hne : r' ≠ r := by
      rintro rfl
      rw [hplace] at hfresh
      cases hfresh
    rw [update_of_ne hne]
    exact hfresh
  lists_mem := by
    intro l r'
    have hempty := h.absent k htable
    rw [mem_update_lists]
    by_cases heq : r' = r
    · rw [heq, update_self]
      have hnot : r ∉ lists l := by
        rw [h.lists_mem, hplace]
        intro hl
        cases hl
      by_cases hl : l = k
      · simp [hl]
      · simp [hl, hnot, Ne.symm hl]
    · rw [update_of_ne heq, ← h.lists_mem]
      by_cases hl : l = k
      · simp [hl, heq, hempty]
      · simp [hl]
  lists_nodup := by
    intro l
    by_cases hl : l = k
    · rw [hl, update_self]
      exact nodup_singleton r
    · rw [update_of_ne hl]
      exact h.lists_nodup l
  absent := by
    intro l hl
    by_cases heq : l = k
    · rw [heq, publish_table_self] at hl
      cases hl
    · rw [publish_table_of_ne c r heq] at hl
      rw [update_of_ne heq]
      exact h.absent l hl
  entry := by
    intro l e hl
    by_cases heq : l = k
    · rw [heq, publish_table_self] at hl
      cases hl
      rw [heq, update_self]
      refine ⟨Nat.lt_succ_self _, cons_ne_nil _ _, some r, ?_, chain_cons.mpr ⟨rfl, hnext⟩⟩
      simp [Shared.publish]
    · rw [publish_table_of_ne c r heq] at hl
      obtain ⟨hlt, hne, head, hpayload, hchain⟩ := h.entry l e hl
      rw [update_of_ne heq]
      refine ⟨Nat.lt_succ_of_lt hlt, hne, head, ?_, hchain⟩
      simp [Shared.publish, update_of_ne (Nat.ne_of_lt hlt), hpayload]
  table_inj := by
    have hold : ∀ l e, c.table l = some e → e ≠ c.newEntry :=
      fun l e hl => Nat.ne_of_lt (h.entry l e hl).1
    intro l m e hl hm
    by_cases hlk : l = k
    · by_cases hmk : m = k
      · rw [hlk, hmk]
      · rw [hlk, publish_table_self] at hl
        rw [publish_table_of_ne c r hmk] at hm
        cases hl
        exact absurd rfl (hold m _ hm)
    · by_cases hmk : m = k
      · rw [hmk, publish_table_self] at hm
        rw [publish_table_of_ne c r hlk] at hl
        cases hm
        exact absurd rfl (hold l _ hl)
      · rw [publish_table_of_ne c r hlk] at hl
        rw [publish_table_of_ne c r hmk] at hm
        exact h.table_inj l m e hl hm
  request_eq := by
    intro l r' hr'
    by_cases heq : r' = r
    · rw [heq, update_self] at hr'
      cases hr'
      rw [heq]
      exact hrequest
    · rw [update_of_ne heq] at hr'
      exact h.request_eq l r' hr'
  handed := by
    intro u r' hmem
    obtain ⟨l, hl, hmark⟩ := h.handed u r' hmem
    have hne : r' ≠ r := by
      rintro rfl
      rw [hplace] at hl
      cases hl
    exact ⟨l, (update_of_ne hne _ _).trans hl, hmark⟩
  live_mem := by
    intro l r'
    rw [Shared.publish, mem_cons, h.live_mem, Prod.mk.injEq]
    by_cases heq : r' = r
    · rw [heq, update_self, hplace]
      simp [eq_comm]
    · rw [update_of_ne heq]
      simp [heq]
  live_nodup := by
    rw [Shared.publish, map_cons, nodup_cons]
    refine ⟨?_, h.live_nodup⟩
    intro hmem
    obtain ⟨⟨l, r'⟩, hold, rfl⟩ := mem_map.mp hmem
    rw [h.live_mem, hplace] at hold
    cases hold }

/-! ## Changing a list -/

structure Relisted (c c' : Shared K D T) (place place' : ℕ → Place K T) (lists : K → List ℕ) (k : K)
    (records : List ℕ) : Prop where
  shared : ∃ entries requests handed live, c' = { c with entries, requests, handed, live }
  pooled : ∀ r, place r = .pooled ↔ place' r = .pooled
  fresh : ∀ r, place r = .fresh → place' r = .fresh
  listed : ∀ l r, place' r = .listed l ↔ if l = k then r ∈ records else place r = .listed l
  records_ne : records ≠ []
  records_nodup : records.Nodup
  requests : ∀ r, (c'.requests r).request = (c.requests r).request ∧
    (c'.requests r).marker = (c.requests r).marker
  request_eq : ∀ r ∈ records, (c.requests r).request = k
  chain : ∃ e head, c.table k = some e ∧ (c'.entries e).payload = .request head ∧ Chain c'.next head records
  others : ∀ l e, c.table l = some e → l ≠ k → (c'.entries e).payload = (c.entries e).payload ∧
    ∀ r ∈ lists l, c'.next r = c.next r
  handed : c'.handed.Sublist c.handed
  handed_listed : ∀ t r, (t, r) ∈ c'.handed → ∃ l, place' r = .listed l
  live_mem : ∀ l r, (l, r) ∈ c'.live ↔ place' r = .listed l
  live_nodup : (c'.live.map Prod.snd).Nodup

theorem Stored.relist (h : Stored c place lists) {place' : ℕ → Place K T} {k : K}
    (hr : Relisted c c' place place' lists k records) : Stored c' place' (update lists k records) := by
  obtain ⟨entries, requests, handed, live, hshared⟩ := hr.shared
  have htable : c'.table = c.table := by rw [hshared]
  have hpool : c'.requestFreeList = c.requestFreeList := by rw [hshared]
  obtain ⟨e, head, hk, hpayload, hchain⟩ := hr.chain
  constructor
  · intro r
    rw [hpool, h.pool_mem]
    exact hr.pooled r
  · rw [hpool]
    exact h.pool_nodup
  · intro r hle
    apply hr.fresh r (h.fresh r _)
    rw [hshared] at hle
    exact hle
  · intro l r
    rw [mem_update_lists, hr.listed, h.lists_mem]
  · intro l
    by_cases hl : l = k
    · rw [hl, update_self]
      exact hr.records_nodup
    · rw [update_of_ne hl]
      exact h.lists_nodup l
  · intro l hl
    rw [htable] at hl
    have hne : l ≠ k := by
      rintro rfl
      rw [hk] at hl
      cases hl
    rw [update_of_ne hne]
    exact h.absent l hl
  · intro l e' hl
    rw [htable] at hl
    obtain ⟨hlt, hne, head', hpayload', hchain'⟩ := h.entry l e' hl
    have hlt' : e' < c'.newEntry := by rw [hshared]; exact hlt
    by_cases hlk : l = k
    · rw [hlk] at hl
      have he : e' = e := Option.some.inj (hl.symm.trans hk)
      rw [hlk, update_self, he]
      exact ⟨he ▸ hlt', hr.records_ne, head, hpayload, hchain⟩
    · obtain ⟨hsame, hnext⟩ := hr.others l e' hl hlk
      rw [update_of_ne hlk]
      exact ⟨hlt', hne, head', hsame.trans hpayload', hchain'.congr hnext⟩
  · rw [htable]
    exact h.table_inj
  · rw [hshared]
    exact h.entryPool
  · intro l r hl
    rw [(hr.requests r).1]
    rw [hr.listed] at hl
    by_cases hlk : l = k
    · rw [if_pos hlk] at hl
      rw [hlk]
      exact hr.request_eq r hl
    · rw [if_neg hlk] at hl
      exact h.request_eq l r hl
  · intro t r hmem
    obtain ⟨-, -, hmark⟩ := h.handed t r (hr.handed.subset hmem)
    obtain ⟨l, hl⟩ := hr.handed_listed t r hmem
    exact ⟨l, hl, (hr.requests r).2.trans hmark⟩
  · exact h.handed_nodup.sublist (hr.handed.map _)
  · exact hr.live_mem
  · exact hr.live_nodup
  · rw [hshared]
    exact h.found
  · rw [hshared]
    exact h.unpooled

theorem Stored.append (h : Stored c place lists) {k : K} {e first new : ℕ} {t : T}
    (htable : c.table k = some e) (hpayload : (c.entries e).payload = .request (some first))
    (hplace : place new = .owned t) (hrequest : (c.requests new).request = k) :
    Stored (c.append first new) (update place new (.listed k)) (update lists k (lists k ++ [new])) := by
  obtain ⟨-, hne, head, hhead, hchain⟩ := h.entry k e htable
  have hfirst : head = some first := by
    rw [hpayload] at hhead
    cases hhead
    rfl
  obtain ⟨before, last, hsplit⟩ := eq_nil_or_concat (lists k) |>.resolve_left hne
  rw [concat_eq_append] at hsplit
  rw [hfirst, hsplit] at hchain
  have hlength := h.length_le k
  rw [hsplit, length_append] at hlength
  have hlast : c.lastOf c.newRequest first = last :=
    lastOf_eq hchain (Nat.le_of_succ_le hlength)
  have hnodup := h.lists_nodup k
  rw [hsplit] at hnodup
  have hnew : ∀ l, new ∉ lists l := by
    intro l hmem
    rw [h.lists_mem, hplace] at hmem
    cases hmem
  have hlastMem : last ∈ lists k := by
    rw [hsplit]
    exact mem_append_right _ mem_cons_self
  have hnewLast : new ≠ last := fun heq => hnew k (heq ▸ hlastMem)
  have hnextNew : (c.append first new).next new = none := by
    simp [Shared.append, Shared.next, Shared.setRequest]
  have hnextLast : (c.append first new).next last = some new := by
    simp [Shared.append, Shared.next, Shared.setRequest, hlast, Ne.symm hnewLast]
  have hnextOther : ∀ r, r ≠ new → r ≠ last → (c.append first new).next r = c.next r := by
    intro r hrn hrl
    simp [Shared.append, Shared.next, Shared.setRequest, hlast, update_of_ne hrn, update_of_ne hrl]
  have hrequests : ∀ r, ((c.append first new).requests r).request = (c.requests r).request ∧
      ((c.append first new).requests r).marker = (c.requests r).marker := by
    intro r
    by_cases hrn : r = new
    · rw [hrn]
      simp [Shared.append, Shared.setRequest, hlast, update_of_ne hnewLast]
    · by_cases hrl : r = last
      · rw [hrl]
        simp [Shared.append, Shared.setRequest, hlast, Ne.symm hnewLast]
      · simp [Shared.append, Shared.setRequest, hlast, update_of_ne hrn, update_of_ne hrl]
  have hlive : (c.append first new).live = (k, new) :: c.live := by
    have heq := (hrequests new).1
    rw [hrequest] at heq
    exact congrArg (fun key => (key, new) :: c.live) heq
  apply h.relist
  constructor
  · exact ⟨_, _, _, _, rfl⟩
  · intro r
    by_cases hrn : r = new
    · rw [hrn, update_self, hplace]
      simp
    · rw [update_of_ne hrn]
  · intro r hfresh
    have hrn : r ≠ new := by
      rintro rfl
      rw [hplace] at hfresh
      cases hfresh
    rw [update_of_ne hrn]
    exact hfresh
  · intro l r
    by_cases hrn : r = new
    · rw [hrn, update_self, hplace]
      by_cases hlk : l = k
      · simp [hlk]
      · simp [hlk, Ne.symm hlk]
    · rw [update_of_ne hrn]
      by_cases hlk : l = k
      · simp [hlk, hrn, h.lists_mem]
      · simp [hlk]
  · simp
  · rw [nodup_append]
    refine ⟨h.lists_nodup k, nodup_singleton new, ?_⟩
    intro r hr r' hr' heq
    rw [mem_singleton] at hr'
    exact hnew k (hr' ▸ heq ▸ hr)
  · exact hrequests
  · intro r hr
    rcases mem_append.mp hr with hold | hlastNew
    · exact h.request_eq k r ((h.lists_mem k r).mp hold)
    · rw [mem_singleton.mp hlastNew]
      exact hrequest
  · refine ⟨e, some first, htable, hpayload, ?_⟩
    rw [hsplit]
    apply hchain.snoc _ hnextLast hnextNew
    intro x hx
    have hxk : x ∈ lists k := by rw [hsplit]; exact mem_append_left _ hx
    apply hnextOther x (fun heq => hnew k (heq ▸ hxk))
    intro heq
    exact (nodup_append.mp hnodup).2.2 x hx last mem_cons_self heq
  · intro l e' hl hlk
    refine ⟨rfl, ?_⟩
    intro r hr
    apply hnextOther r (fun heq => hnew l (heq ▸ hr))
    rintro rfl
    have hboth := ((h.lists_mem l r).mp hr).symm.trans ((h.lists_mem k r).mp hlastMem)
    cases hboth
    exact hlk rfl
  · exact List.Sublist.refl _
  · intro u r hmem
    obtain ⟨l, hl, -⟩ := h.handed u r hmem
    have hrn : r ≠ new := by
      rintro rfl
      rw [hplace] at hl
      cases hl
    exact ⟨l, (update_of_ne hrn _ _).trans hl⟩
  · intro l r
    rw [hlive, mem_cons, h.live_mem, Prod.mk.injEq]
    by_cases hrn : r = new
    · rw [hrn, update_self, hplace]
      simp [eq_comm]
    · rw [update_of_ne hrn]
      simp [hrn]
  · rw [hlive, map_cons, nodup_cons]
    refine ⟨?_, h.live_nodup⟩
    intro hmem
    obtain ⟨⟨l, r⟩, hold, rfl⟩ := mem_map.mp hmem
    rw [h.live_mem, hplace] at hold
    cases hold

theorem Stored.unlink (h : Stored c place lists) {k : K} {e req : ℕ} {before behind : List ℕ}
    (htable : c.table k = some e) (hlist : lists k = before ++ req :: behind)
    (hrest : before ++ behind ≠ []) (t : T) :
    Stored (c.unlink e before.getLast? req) (update place req (.owned t))
      (update lists k (before ++ behind)) := by
  obtain ⟨-, -, head, hpayload, hchain⟩ := h.entry k e htable
  rw [hlist] at hchain
  have hnodup := h.lists_nodup k
  rw [hlist] at hnodup
  have hreqMem : req ∈ lists k := by
    rw [hlist]
    exact mem_append_right _ mem_cons_self
  have hplace : place req = .listed k := (h.lists_mem k req).mp hreqMem
  have hrestNodup : (before ++ behind).Nodup :=
    hnodup.sublist ((sublist_cons_self req behind).append_left before)
  have hrestMem : ∀ r, r ∈ before ++ behind ↔ r ∈ lists k ∧ r ≠ req := by
    intro r
    have hnotBefore : req ∉ before := fun hin =>
      (nodup_append.mp hnodup).2.2 req hin req mem_cons_self rfl
    have hnotBehind : req ∉ behind :=
      (nodup_cons.mp (nodup_append.mp hnodup).2.1).1
    rw [hlist, mem_append, mem_append, mem_cons]
    constructor
    · rintro (hb | hb)
      · exact ⟨.inl hb, fun heq => hnotBefore (heq ▸ hb)⟩
      · exact ⟨.inr (.inr hb), fun heq => hnotBehind (heq ▸ hb)⟩
    · rintro ⟨hb | hb | hb, hne⟩
      · exact .inl hb
      · exact absurd hb hne
      · exact .inr hb
  have hotherNe : ∀ l r, l ≠ k → r ∈ lists l → ∀ x ∈ lists k, r ≠ x := by
    intro l r hlk hr x hx heq
    have hboth := ((h.lists_mem l r).mp hr).symm.trans (heq ▸ (h.lists_mem k x).mp hx)
    cases hboth
    exact hlk rfl
  -- what the write to the entry or to the record before does
  have hshape : (∃ entries requests, c.unlink e before.getLast? req =
        ({ c with entries, requests } : Shared K D T).forget req) ∧
      (∀ r, ((c.unlink e before.getLast? req).requests r).request = (c.requests r).request ∧
        ((c.unlink e before.getLast? req).requests r).marker = (c.requests r).marker) ∧
      (∃ head, ((c.unlink e before.getLast? req).entries e).payload = .request head ∧
        Chain (c.unlink e before.getLast? req).next head (before ++ behind)) ∧
      (∀ e', e' ≠ e → (c.unlink e before.getLast? req).entries e' = c.entries e') ∧
      ∀ r, r ∉ lists k → (c.unlink e before.getLast? req).next r = c.next r := by
    rcases eq_nil_or_concat before with hnil | ⟨earlier, last, hconcat⟩
    · rw [hnil] at hchain ⊢
      obtain ⟨-, hbehind⟩ := chain_cons.mp hchain
      refine ⟨⟨_, _, rfl⟩, fun r => ⟨rfl, rfl⟩, ⟨c.next req, ?_, hbehind⟩, ?_, fun r _ => rfl⟩
      · simp [Shared.unlink, Shared.forget, Shared.setEntry]
      · intro e' hne
        simp [Shared.unlink, Shared.forget, Shared.setEntry, update_of_ne hne]
    · rw [concat_eq_append] at hconcat
      have hgetLast : before.getLast? = some last := by rw [hconcat]; simp
      have hnext : ∀ r, r ≠ last → (c.unlink e before.getLast? req).next r = c.next r := by
        intro r hne
        simp [hgetLast, Shared.unlink, Shared.forget, Shared.next, Shared.setRequest, update_of_ne hne]
      have hnextLast : (c.unlink e before.getLast? req).next last = c.next req := by
        simp [hgetLast, Shared.unlink, Shared.forget, Shared.next, Shared.setRequest]
      have hlastMem : last ∈ lists k := by
        rw [hlist, hconcat]
        simp
      rw [hconcat] at hnodup hchain
      refine ⟨?_, ?_, ⟨head, ?_, ?_⟩, ?_, ?_⟩
      · rw [hgetLast]
        exact ⟨_, _, rfl⟩
      · intro r
        by_cases hrl : r = last
        · rw [hrl]
          simp [hgetLast, Shared.unlink, Shared.forget, Shared.setRequest]
        · simp [hgetLast, Shared.unlink, Shared.forget, Shared.setRequest, update_of_ne hrl]
      · rw [hgetLast]
        exact hpayload
      · rw [hconcat] at hnext hnextLast ⊢
        have hparts := nodup_append.mp hnodup
        apply hchain.remove
        · intro x hx
          apply hnext x
          intro heq
          exact (nodup_append.mp hparts.1).2.2 x hx last mem_cons_self heq
        · exact hnextLast
        · intro x hx
          apply hnext x
          intro heq
          exact hparts.2.2 last (by simp) x (mem_cons_of_mem req hx) heq.symm
      · intro e' _
        rw [hgetLast]
        rfl
      · intro r hr
        exact hnext r fun heq => hr (heq ▸ hlastMem)
  obtain ⟨⟨entries, requests, hforget⟩, hrequests, ⟨head', hpayload', hchain'⟩, hentries, hnext⟩ :=
    hshape
  apply h.relist
  constructor
  · exact ⟨entries, requests, _, _, hforget⟩
  · intro r
    by_cases hrr : r = req
    · rw [hrr, update_self, hplace]
      simp
    · rw [update_of_ne hrr]
  · intro r hfresh
    have hrr : r ≠ req := by
      rintro rfl
      rw [hplace] at hfresh
      cases hfresh
    rw [update_of_ne hrr]
    exact hfresh
  · intro l r
    by_cases hrr : r = req
    · rw [hrr, update_self, hplace, hrestMem]
      by_cases hlk : l = k
      · simp [hlk]
      · simp [hlk, Ne.symm hlk]
    · rw [update_of_ne hrr, hrestMem, h.lists_mem]
      by_cases hlk : l = k
      · simp [hlk, hrr]
      · simp [hlk]
  · exact hrest
  · exact hrestNodup
  · exact hrequests
  · intro r hr
    exact h.request_eq k r ((h.lists_mem k r).mp ((hrestMem r).mp hr).1)
  · exact ⟨e, head', htable, hpayload', hchain'⟩
  · intro l e' hl hlk
    have hne : e' ≠ e := by
      rintro rfl
      exact hlk (h.table_inj l k e' hl htable)
    refine ⟨by rw [hentries e' hne], ?_⟩
    intro r hr
    exact hnext r fun hin => hotherNe l r hlk hr r hin rfl
  · rw [hforget]
    exact filter_sublist
  · intro u r hmem
    rw [hforget] at hmem
    obtain ⟨hold, hne⟩ := mem_filter.mp hmem
    obtain ⟨l, hl, -⟩ := h.handed u r hold
    have hrr : r ≠ req := by simpa using hne
    exact ⟨l, (update_of_ne hrr _ _).trans hl⟩
  · intro l r
    rw [hforget, Shared.forget, mem_filter, h.live_mem]
    by_cases hrr : r = req
    · rw [hrr, update_self]
      simp
    · rw [update_of_ne hrr]
      simp [hrr]
  · rw [hforget]
    exact h.live_nodup.sublist (filter_sublist.map _)

end Storage

end ScoreP.Mpi.Requests
