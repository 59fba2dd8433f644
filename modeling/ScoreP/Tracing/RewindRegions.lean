import ScoreP.Foundations.Chain
import ScoreP.Tracing.RewindStack

/-!
# The items of the rewind stack

`Holds d items unused` says that the stack of `d` passes the items `items`, that its free list passes the
items `unused`, and that these are distinct items. Each function of the stack has one lemma that says which
lists hold after it and how the regions of the items changed.

`scorep_rewind_stack_push` takes the second item of the stack for the first: `push_second` says what it does
then, `push_top`, `push_below` and `push_new` are the other cases.
-/

namespace ScoreP.Tracing

open Foundations Function List

structure Holds (d : TracingData) (items unused : List ℕ) : Prop where
  stack : Chain d.prev d.rewindStack items
  free : Chain d.prev d.rewindFreeList unused
  nodup : (items ++ unused).Nodup
  bounded : ∀ i ∈ items ++ unused, i < d.allocated

def RewindRegion.affected (region : RewindRegion) (paradigm : RewindParadigm) : RewindRegion :=
  { region with paradigmAffected := update region.paradigmAffected paradigm true }

namespace TracingData

variable (d : TracingData) {i : ℕ}

/-! ## Stores -/

@[simp] theorem setPrev_prev (p : Option ℕ) : (d.setPrev i p).prev = update d.prev i p := by
  funext k
  by_cases hk : k = i
  · subst hk
    simp [setPrev, setItem, prev]
  · simp [setPrev, setItem, prev, hk]

@[simp] theorem setPrev_region (p : Option ℕ) : (d.setPrev i p).region = d.region := by
  funext k
  by_cases hk : k = i
  · subst hk
    simp [setPrev, setItem, region]
  · simp [setPrev, setItem, region, hk]

@[simp] theorem setEntertimestamp_prev (t : ℕ) : (d.setEntertimestamp i t).prev = d.prev := by
  funext k
  by_cases hk : k = i
  · subst hk
    simp [setEntertimestamp, setItem, prev]
  · simp [setEntertimestamp, setItem, prev, hk]

@[simp] theorem setEntertimestamp_region (t : ℕ) : (d.setEntertimestamp i t).region =
    update d.region i { d.region i with entertimestamp := t } := by
  funext k
  by_cases hk : k = i
  · subst hk
    simp [setEntertimestamp, setItem, region]
  · simp [setEntertimestamp, setItem, region, hk]

@[simp] theorem setAffected_prev (paradigm : RewindParadigm) : (d.setAffected i paradigm).prev = d.prev := by
  funext k
  by_cases hk : k = i
  · subst hk
    simp [setAffected, setItem, prev]
  · simp [setAffected, setItem, prev, hk]

@[simp] theorem setAffected_region (paradigm : RewindParadigm) : (d.setAffected i paradigm).region =
    update d.region i ((d.region i).affected paradigm) := by
  funext k
  by_cases hk : k = i
  · subst hk
    simp [setAffected, setItem, region, RewindRegion.affected]
  · simp [setAffected, setItem, region, RewindRegion.affected, hk]

end TracingData

variable {d : TracingData} {items unused as bs : List ℕ} {i id t rounds : ℕ} {p last : Option ℕ}

theorem Holds.length_le (h : Holds d items unused) : items.length ≤ d.allocated := by
  have hnodup := (nodup_append.1 h.nodup).1
  exact length_le_of_bounded hnodup fun i hi => h.bounded i (mem_append_left unused hi)

theorem map_update_of_notMem {β : Type} {f : ℕ → β} {value : β} (hi : i ∉ items) :
    items.map (update f i value) = items.map f := by
  apply map_congr_left
  intro k hk
  have hne : k ≠ i := fun heq => hi (heq ▸ hk)
  exact update_of_ne hne value f

/-! ## Searching -/

theorem search_found (h : Chain d.prev p (as ++ i :: bs)) (has : ∀ a ∈ as, (d.region a).id ≠ id)
    (hi : (d.region i).id = id) (hrounds : as.length < rounds) :
    d.search id rounds last p = some (as.getLast?.or last, some i) := by
  induction as generalizing p last rounds with
  | nil =>
    obtain ⟨rfl, -⟩ := chain_cons.1 h
    cases rounds with
    | zero => exact absurd hrounds (Nat.not_lt_zero _)
    | succ rounds =>
      have hid : (d.item i).id = id := hi
      rw [TracingData.search, if_neg (not_not_intro hid)]
      rfl
  | cons a as ih =>
    obtain ⟨rfl, hrest⟩ := chain_cons.1 h
    cases rounds with
    | zero => exact absurd hrounds (Nat.not_lt_zero _)
    | succ rounds =>
      have ha : (d.item a).id ≠ id := has a mem_cons_self
      rw [TracingData.search, if_pos ha,
        ih hrest (fun b hb => has b (mem_cons_of_mem a hb)) (Nat.lt_of_succ_lt_succ hrounds)]
      cases as with
      | nil => rfl
      | cons b as => simp [getLast?_cons]

theorem search_missed (last : Option ℕ) (h : Chain d.prev p items)
    (hitems : ∀ a ∈ items, (d.region a).id ≠ id) (hrounds : items.length < rounds) : ∃ last', d.search id rounds last p = some (last', none) := by
  induction items generalizing p last rounds with
  | nil =>
    cases rounds with
    | zero => exact absurd hrounds (Nat.not_lt_zero _)
    | succ rounds =>
      rw [chain_nil.1 h]
      exact ⟨last, rfl⟩
  | cons a items ih =>
    obtain ⟨rfl, hrest⟩ := chain_cons.1 h
    cases rounds with
    | zero => exact absurd hrounds (Nat.not_lt_zero _)
    | succ rounds =>
      have ha : (d.item a).id ≠ id := hitems a mem_cons_self
      rw [TracingData.search, if_pos ha]
      exact ih _ hrest (fun b hb => hitems b (mem_cons_of_mem a hb)) (Nat.lt_of_succ_lt_succ hrounds)

theorem find_found (as : List ℕ) (h : Holds d (as ++ i :: bs) unused)
    (has : ∀ a ∈ as, (d.region a).id ≠ id) (hi : (d.region i).id = id) : d.rewindStackFind id = some true := by
  have hlength := h.length_le
  rw [length_append, length_cons] at hlength
  have hid : (d.item i).id = id := hi
  simp [TracingData.rewindStackFind, search_found h.stack has hi (by omega : as.length < d.allocated + 1), hid]

theorem find_missed (h : Holds d items unused) (hitems : ∀ a ∈ items, (d.region a).id ≠ id) :
    d.rewindStackFind id = some false := by
  obtain ⟨last, hsearch⟩ := search_missed none h.stack hitems (Nat.lt_succ_of_le h.length_le)
  simp [TracingData.rewindStackFind, hsearch]

/-! ## Pushing -/

theorem push_found (as : List ℕ) (h : Holds d (as ++ i :: bs) unused)
    (has : ∀ a ∈ as, (d.region a).id ≠ id) (hi : (d.region i).id = id) :
    d.search id (d.allocated + 1) d.rewindStack d.rewindStack =
      some (as.getLast?.or d.rewindStack, some i) := by
  have hlength := h.length_le
  rw [length_append, length_cons] at hlength
  exact search_found h.stack has hi (by omega)

theorem Holds.setEntertimestamp (h : Holds d items unused) : Holds (d.setEntertimestamp i t) items unused where
  stack := by
    rw [TracingData.setEntertimestamp_prev]
    exact h.stack
  free := by
    rw [TracingData.setEntertimestamp_prev]
    exact h.free
  nodup := h.nodup
  bounded := h.bounded

theorem push_top (h : Holds d (i :: bs) unused) (hi : (d.region i).id = id) :
    d.rewindStackPush id t = some (d.setEntertimestamp i t) := by
  have hfind := find_found [] h (by simp) hi
  have hsearch := push_found [] h (by simp) hi
  obtain ⟨hhead, -⟩ := chain_cons.1 h.stack
  rw [hhead] at hsearch
  simp [TracingData.rewindStackPush, hfind, hhead, hsearch, TracingData.setEntertimestamp,
    TracingData.setItem]

theorem push_second {a : ℕ} (h : Holds d (a :: i :: bs) unused) (ha : (d.region a).id ≠ id)
    (hi : (d.region i).id = id) : d.rewindStackPush id t = some (d.setEntertimestamp a t) := by
  have hno : ∀ b ∈ [a], (d.region b).id ≠ id := by simpa using ha
  have hfind := find_found [a] h hno hi
  have hsearch := push_found [a] h hno hi
  obtain ⟨hhead, -⟩ := chain_cons.1 h.stack
  rw [hhead] at hsearch
  simp [TracingData.rewindStackPush, hfind, hhead, hsearch, TracingData.setEntertimestamp,
    TracingData.setItem]

theorem push_below {a b : ℕ} (h : Holds d (a :: as ++ [b] ++ i :: bs) unused)
    (hno : ∀ x ∈ a :: as ++ [b], (d.region x).id ≠ id) (hi : (d.region i).id = id) :
    ∃ d', d.rewindStackPush id t = some d' ∧ Holds d' (i :: (a :: as ++ [b] ++ bs)) unused ∧
      d'.region = update d.region i { d.region i with entertimestamp := t } := by
  have hfind := find_found _ h hno hi
  have hsearch := push_found _ h hno hi
  have hhead : d.rewindStack = some a := by
    obtain ⟨hhead, -⟩ := chain_cons.1 h.stack
    exact hhead
  have hitems := (nodup_append.1 h.nodup).1
  have hdisjoint := disjoint_of_nodup_append h.nodup
  have hba : b ≠ a := by
    rintro rfl
    simp at hitems
  have hlast : (a :: as ++ [b]).getLast? = some b := getLast?_concat
  rw [hlast, hhead, Option.some_or] at hsearch
  have hperm : (i :: (a :: as ++ [b] ++ bs) ++ unused).Perm (a :: as ++ [b] ++ i :: bs ++ unused) :=
    (perm_middle.symm).append_right unused
  let e := ((d.setPrev b (d.prev i)).setPrev i d.rewindStack).setEntertimestamp i t
  have hprev : e.prev = update (update d.prev b (d.prev i)) i d.rewindStack := by
    simp [e]
  have hregion : e.region = update d.region i { d.region i with entertimestamp := t } := by
    simp [e]
  refine ⟨{ e with rewindStack := some i }, ?_, ⟨?_, ?_, hperm.nodup_iff.2 h.nodup, ?_⟩, hregion⟩
  · simp [TracingData.rewindStackPush, hfind, hhead, hsearch, hba, e, TracingData.setEntertimestamp,
      TracingData.setItem]
  · show Chain e.prev (some i) _
    rw [hprev]
    exact h.stack.moveToFront hitems
  · show Chain e.prev d.rewindFreeList unused
    rw [hprev]
    apply h.free.congr
    intro x hx
    have hxi : x ≠ i := by
      rintro rfl
      exact hdisjoint (by simp) hx
    have hxb : x ≠ b := by
      rintro rfl
      exact hdisjoint (by simp) hx
    rw [update_of_ne hxi, update_of_ne hxb]
  · intro x hx
    exact h.bounded x (hperm.mem_iff.1 hx)

theorem takeItem_spec (h : Holds d items unused) : ∃ n unused' d', d.takeItem = (n, d') ∧
    d'.prev = d.prev ∧ d'.region = d.region ∧ d'.rewindStack = d.rewindStack ∧
      Chain d.prev d'.rewindFreeList unused' ∧ (n :: items ++ unused').Nodup ∧
        ∀ i ∈ n :: items ++ unused', i < d'.allocated := by
  cases unused with
  | nil =>
    have hnone : d.rewindFreeList = none := chain_nil.1 h.free
    have hnodup := h.nodup
    have hbounded := h.bounded
    rw [append_nil] at hnodup hbounded
    refine ⟨d.allocated, [], { d with allocated := d.allocated + 1 }, ?_, rfl, rfl, rfl, hnone, ?_, ?_⟩
    · simp [TracingData.takeItem, hnone]
    · rw [append_nil, nodup_cons]
      exact ⟨fun hmem => Nat.lt_irrefl _ (hbounded _ hmem), hnodup⟩
    · intro i hi
      rw [append_nil] at hi
      rcases mem_cons.1 hi with rfl | hi
      · exact Nat.lt_succ_self _
      · exact Nat.lt_succ_of_lt (hbounded i hi)
  | cons n unused =>
    obtain ⟨hsome, hrest⟩ := chain_cons.1 h.free
    have hperm : (n :: items ++ unused).Perm (items ++ n :: unused) := perm_middle.symm
    refine ⟨n, unused, { d with rewindFreeList := d.prev n }, ?_, rfl, rfl, rfl, hrest,
      hperm.nodup_iff.2 h.nodup, fun i hi => h.bounded i (hperm.mem_iff.1 hi)⟩
    simp [TracingData.takeItem, hsome]

theorem push_new (h : Holds d items unused) (hitems : ∀ a ∈ items, (d.region a).id ≠ id) :
    ∃ n unused' d', d.rewindStackPush id t = some d' ∧ Holds d' (n :: items) unused' ∧ n ∉ items ∧
      d'.region = update d.region n ⟨id, t, fun _ => false⟩ := by
  have hfind := find_missed h hitems
  obtain ⟨n, unused', e, htake, hprev, hregion, hstack, hfree, hnodup, hbounded⟩ := takeItem_spec h
  have hn : n ∉ items ++ unused' := hnodup.notMem
  have hnew : (e.setItem n ⟨id, t, d.rewindStack, fun _ => false⟩).prev =
      update d.prev n d.rewindStack := by
    rw [← hprev]
    funext k
    by_cases hk : k = n
    · subst hk
      simp [TracingData.setItem, TracingData.prev]
    · simp [TracingData.setItem, TracingData.prev, hk]
  have hother : ∀ x ∈ items ++ unused', update d.prev n d.rewindStack x = d.prev x := by
    intro x hx
    have hne : x ≠ n := fun heq => hn (heq ▸ hx)
    exact update_of_ne hne _ _
  refine ⟨n, unused', { e.setItem n ⟨id, t, d.rewindStack, fun _ => false⟩ with rewindStack := some n },
    ?_, ⟨?_, ?_, hnodup, hbounded⟩, fun hmem => hn (mem_append_left unused' hmem), ?_⟩
  · simp [TracingData.rewindStackPush, hfind, htake]
  · show Chain (e.setItem n _).prev (some n) (n :: items)
    rw [hnew]
    refine ⟨rfl, ?_⟩
    rw [update_self]
    exact h.stack.congr fun x hx => hother x (mem_append_left unused' hx)
  · show Chain (e.setItem n _).prev e.rewindFreeList unused'
    rw [hnew]
    exact hfree.congr fun x hx => hother x (mem_append_right items hx)
  · rw [← hregion]
    funext k
    by_cases hk : k = n
    · subst hk
      simp [TracingData.setItem, TracingData.region]
    · simp [TracingData.setItem, TracingData.region, hk]

/-! ## Popping -/

theorem release_spec (h : Holds d (i :: items) unused) :
    Holds (d.release i) items (i :: unused) ∧ (d.release i).region = d.region := by
  obtain ⟨-, hrest⟩ := chain_cons.1 h.stack
  have hprev : (d.release i).prev = update d.prev i d.rewindFreeList :=
    d.setPrev_prev d.rewindFreeList
  have hi : i ∉ items ++ unused := h.nodup.notMem
  have hother : ∀ x ∈ items ++ unused, (d.release i).prev x = d.prev x := by
    intro x hx
    have hne : x ≠ i := fun heq => hi (heq ▸ hx)
    rw [hprev, update_of_ne hne]
  have hperm : (items ++ i :: unused).Perm (i :: items ++ unused) := perm_middle
  refine ⟨⟨?_, ⟨rfl, ?_⟩, hperm.nodup_iff.2 h.nodup, ?_⟩, d.setPrev_region d.rewindFreeList⟩
  · exact hrest.congr fun x hx => hother x (mem_append_left unused hx)
  · rw [hprev, update_self, ← hprev]
    exact h.free.congr fun x hx => hother x (mem_append_right items hx)
  · intro x hx
    exact h.bounded x (hperm.mem_iff.1 hx)

theorem pop_spec {outcome : RewindRegion} (h : Holds d (i :: items) unused) :
    d.rewindStackPop outcome = (d.region i, d.release i) := by
  obtain ⟨hhead, -⟩ := chain_cons.1 h.stack
  rw [TracingData.rewindStackPop, hhead]

theorem popRewindPoints_spec (outcome : RewindRegion) (h : Holds d (as ++ i :: bs) unused)
    (has : ∀ a ∈ as, (d.region a).id ≠ id) (hi : (d.region i).id = id) (hrounds : as.length < rounds) :
    ∃ d', popRewindPoints id rounds outcome d =
        some (as.map fun a => .clearRewindPoint (d.region a).id, d.region i, d') ∧
      Holds d' bs (i :: (as.reverse ++ unused)) ∧ d'.region = d.region := by
  induction as generalizing d unused rounds outcome with
  | nil =>
    cases rounds with
    | zero => exact absurd hrounds (Nat.not_lt_zero _)
    | succ rounds =>
      obtain ⟨hholds, hregion⟩ := release_spec h
      refine ⟨d.release i, ?_, hholds, hregion⟩
      simp [popRewindPoints, pop_spec h, hi]
  | cons a as ih =>
    cases rounds with
    | zero => exact absurd hrounds (Nat.not_lt_zero _)
    | succ rounds =>
      obtain ⟨hholds, hregion⟩ := release_spec h
      have ha : id ≠ (d.region a).id := (has a mem_cons_self).symm
      obtain ⟨d', hpop, hholds', hregion'⟩ := ih (d.region a) hholds (by
          rw [hregion]
          exact fun b hb => has b (mem_cons_of_mem a hb))
        (by rw [hregion]; exact hi) (Nat.lt_of_succ_lt_succ hrounds)
      refine ⟨d', ?_, ?_, hregion'.trans hregion⟩
      · rw [hregion] at hpop
        simp [popRewindPoints, pop_spec h, ha, hpop]
      · simpa using hholds'

theorem delete_spec (h : Holds d items unused) (hrounds : items.length < rounds) :
    ∃ d', TracingData.rewindStackDelete rounds d = some d' ∧ Holds d' [] (items.reverse ++ unused) := by
  induction items generalizing d unused rounds with
  | nil =>
    cases rounds with
    | zero => exact absurd hrounds (Nat.not_lt_zero _)
    | succ rounds =>
      have hnone : d.rewindStack = none := chain_nil.1 h.stack
      refine ⟨d, ?_, h⟩
      rw [TracingData.rewindStackDelete, hnone]
  | cons i items ih =>
    cases rounds with
    | zero => exact absurd hrounds (Nat.not_lt_zero _)
    | succ rounds =>
      obtain ⟨hhead, -⟩ := chain_cons.1 h.stack
      obtain ⟨hholds, -⟩ := release_spec h
      obtain ⟨d', hdelete, hholds'⟩ := ih hholds (Nat.lt_of_succ_lt_succ hrounds)
      refine ⟨d', ?_, ?_⟩
      · rw [TracingData.rewindStackDelete, hhead]
        exact hdelete
      · simpa using hholds'

/-! ## Events of a paradigm -/

theorem setAffectedParadigm_spec (paradigm : RewindParadigm) (h : Chain d.prev p as) (hnodup : as.Nodup)
    (hrounds : as.length < rounds) : ∃ d', TracingData.setAffectedParadigm paradigm rounds p d = some d' ∧
      d'.prev = d.prev ∧ d'.rewindStack = d.rewindStack ∧ d'.rewindFreeList = d.rewindFreeList ∧
      d'.allocated = d.allocated ∧ (∀ k ∉ as, d'.region k = d.region k) ∧
        ∀ k ∈ as, d'.region k = (d.region k).affected paradigm := by
  induction as generalizing d p rounds with
  | nil =>
    cases rounds with
    | zero => exact absurd hrounds (Nat.not_lt_zero _)
    | succ rounds =>
      rw [chain_nil.1 h]
      exact ⟨d, rfl, rfl, rfl, rfl, rfl, fun _ _ => rfl, fun k hk => absurd hk not_mem_nil⟩
  | cons a as ih =>
    cases rounds with
    | zero => exact absurd hrounds (Nat.not_lt_zero _)
    | succ rounds =>
      obtain ⟨rfl, hrest⟩ := chain_cons.1 h
      rw [← d.setAffected_prev (i := a) paradigm] at hrest
      obtain ⟨d', hset, hprev, hstack, hfree, hallocated, hothers, haffected⟩ :=
        ih hrest hnodup.of_cons (Nat.lt_of_succ_lt_succ hrounds)
      rw [d.setAffected_prev] at hset hprev
      rw [d.setAffected_region] at hothers haffected
      refine ⟨d', hset, hprev, hstack, hfree, hallocated, ?_, ?_⟩
      · intro k hk
        obtain ⟨hka, hkas⟩ := not_or.1 (mt mem_cons.2 hk)
        rw [hothers k hkas, update_of_ne hka]
      · intro k hk
        rcases mem_cons.1 hk with rfl | hkas
        · rw [hothers k hnodup.notMem, update_self]
        · have hka : k ≠ a := fun heq => hnodup.notMem (heq ▸ hkas)
          rw [haffected k hkas, update_of_ne hka]

end ScoreP.Tracing
