import Mathlib.Algebra.BigOperators.Group.List.Basic
import ScoreP.AllocMetric.Metric
import ScoreP.Foundations.Keyed
import ScoreP.Foundations.Transition

/-!
# What a metric tracks

The ledger says what the calls mean: which allocations are live, with the size that was reported
last, which ones are acquired, and how much memory was overwritten because an address was reported
that was still live. The tree of the metric is to hold exactly the live allocations (`Contents`),
and `Tracks` is kept by every call, with one exception.

The exception is the third branch of `insert_memory_allocation`. An address that is still tracked
has just been splayed to the root when the new item becomes the root of a tree without children:
every other allocation is lost. A history is tracked throughout if and only if a call reports an
address that is live only while no other address is (`meets_iff_keeps`).
-/

namespace ScoreP.AllocMetric

open BinaryTree Foundations Foundations.SearchTree Foundations.Keyed Option
open List hiding nil lookup

/-! ## The ledger -/

structure Ledger where
  live : List Item
  acquired : List Item
  overwritten : BitVec 64

def Ledger.init : Ledger where
  live := []
  acquired := []
  overwritten := 0

def sizes (items : List Item) : BitVec 64 :=
  (items.map Item.size).sum

def Ledger.report (g : Ledger) (item : Item) : Ledger :=
  { g with
    live := put Item.address item g.live
    overwritten := g.overwritten + sizes (lookup Item.address item.address g.live).toList }

def Ledger.apply (g : Ledger) : Op → Ledger
  | .handleAlloc resultAddr size => g.report { address := resultAddr, size := size }
  | .acquireAlloc addr =>
    { g with
      live := without Item.address addr g.live
      acquired := g.acquired ++ (lookup Item.address addr g.live).toList }
  | .handleRealloc resultAddr size prevAllocation =>
    match handBack g.acquired prevAllocation with
    | none => g
    | some (_, acquired) =>
      { g with acquired := acquired }.report { address := resultAddr, size := size }
  | .handleFree allocation =>
    match handBack g.acquired allocation with
    | none => g
    | some (_, acquired) => { g with acquired := acquired }
  | .addrExists _ => g

def ledgerAfter (ops : List Op) : Ledger :=
  ops.foldl Ledger.apply .init

/-- The metric answers for the ledger. -/
structure Meets (s : Session) (g : Ledger) : Prop where
  exists_iff : ∀ addr, (s.process.metric.addrExists addr).2 = true ↔ ∃ item ∈ g.live, item.address = addr
  acquire_eq : ∀ addr, addr ≠ 0 → ∃ m,
    s.process.metric.acquireAlloc addr = some (m, lookup Item.address addr g.live)
  total_eq : s.process.metric.totalAllocatedMemory = sizes g.live + sizes g.acquired + g.overwritten

def Ledger.Keeps (g : Ledger) : Op → Prop
  | .handleAlloc resultAddr _ | .handleRealloc resultAddr _ _ =>
    (∃ item ∈ g.live, item.address = resultAddr) → ∀ item ∈ g.live, item.address = resultAddr
  | _ => True

/-! ## The tree holds the live allocations -/

structure Contents (m : Metric) (live : List Item) : Prop where
  ordered : Ordered Item.address m.allocations
  perm : (inorder m.allocations).Perm live

theorem Ordered.distinct {t : BinaryTree Item} (h : Ordered Item.address t) :
    Distinct Item.address (inorder t) := by
  refine List.Pairwise.imp ?_ h
  intro x y hxy
  exact Nat.ne_of_lt hxy

variable {live : List Item} {m : Metric}

theorem Contents.distinct (h : Contents m live) : Distinct Item.address live :=
  (Ordered.distinct h.ordered).perm h.perm

theorem Contents.splay_cases (h : Contents m live) (key : ℕ) : (m.allocations = nil ∧ live = []) ∨
      ∃ root l r, splay m.allocations key = node root l r ∧
        Contents { m with allocations := node root l r } live ∧
        (∀ x ∈ inorder l, x.address < key) ∧ ∀ x ∈ inorder r, key < x.address := by
  by_cases hnil : m.allocations = nil
  · refine Or.inl ⟨hnil, ?_⟩
    have hp := h.perm
    rw [hnil] at hp
    exact hp.nil_eq.symm
  · obtain ⟨root, l, r, hsplay, hinorder, hl, hr⟩ := splay_splitAt key _ hnil h.ordered
    rw [hsplay] at hinorder
    refine Or.inr ⟨root, l, r, hsplay, ⟨h.ordered.of_inorder_eq hinorder, ?_⟩, hl, hr⟩
    show (inorder (node root l r)).Perm live
    rw [hinorder]
    exact h.perm

theorem without_split {l r : List Item} (root : Item) {key : ℕ}
    (hl : ∀ x ∈ l, x.address < key) (hr : ∀ x ∈ r, key < x.address) :
    without Item.address key (l ++ root :: r) = if root.address = key then l ++ r else l ++ root :: r := by
  have hl' : without Item.address key l = l :=
    without_eq_self fun x hx => Nat.ne_of_lt (hl x hx)
  have hr' : without Item.address key r = r :=
    without_eq_self fun x hx => Nat.ne_of_gt (hr x hx)
  simp only [without] at hl' hr' ⊢
  rw [filter_append, filter_cons, hl', hr']
  by_cases hroot : root.address = key
  · simp [hroot]
  · simp [hroot]

theorem Contents.find_spec (h : Contents m live) (addr : ℕ) :
    (m.findMemoryAllocation addr).2 = lookup Item.address addr live ∧
      Contents (m.findMemoryAllocation addr).1 live ∧ ∀ item ∈ (m.findMemoryAllocation addr).2,
        ∃ l r, (m.findMemoryAllocation addr).1.allocations = node item l r := by
  cases h.splay_cases addr with
  | inl hnil =>
    obtain ⟨hm, hlive⟩ := hnil
    have hsplay : splay m.allocations addr = nil := by rw [hm]; rfl
    simpa [Metric.findMemoryAllocation, hsplay, hlive, lookup] using hlive ▸ h
  | inr hnode =>
    obtain ⟨root, l, r, hsplay, hcontents, hl, hr⟩ := hnode
    simp only [Metric.findMemoryAllocation, hsplay]
    refine ⟨?_, hcontents, ?_⟩
    · by_cases hroot : addr = root.address
      · rw [if_pos hroot, eq_comm, lookup_eq_some h.distinct]
        refine ⟨hcontents.perm.mem_iff.1 ?_, hroot.symm⟩
        simp
      · rw [if_neg hroot, eq_comm, lookup_eq_none]
        intro x hx
        have hx' := hcontents.perm.mem_iff.2 hx
        simp only [inorder_node, mem_append, mem_cons] at hx'
        obtain hx' | rfl | hx' := hx'
        · exact Nat.ne_of_lt (hl x hx')
        · exact fun he => hroot he.symm
        · exact Nat.ne_of_gt (hr x hx')
    · intro item hitem
      by_cases hroot : addr = root.address
      · simp only [if_pos hroot, mem_def, some.injEq] at hitem
        exact ⟨l, r, by rw [hitem]⟩
      · simp [if_neg hroot] at hitem

theorem removeMemoryAllocation_inorder (hord : Ordered Item.address m.allocations) {item : Item}
    {l r : BinaryTree Item} (hroot : m.allocations = node item l r) :
    inorder (m.removeMemoryAllocation item).allocations = inorder l ++ inorder r := by
  rw [hroot] at hord
  obtain ⟨hordl, -, hl, -⟩ := ordered_node.1 hord
  unfold Metric.removeMemoryAllocation
  simp only [hroot, ne_eq, not_true_eq_false, if_false]
  cases l with
  | nil => rfl
  | node a ll lr =>
    obtain ⟨b, bl, br, hsplay, hinorder, -, hbr⟩ :=
      splay_splitAt item.address (node a ll lr) (by simp) hordl
    rw [hsplay] at hinorder
    -- the greatest address of the left subtree comes up, without a right child
    have hbr_nil : br = nil := by
      cases br with
      | nil => rfl
      | node c cl cr =>
        have hc : c.address < item.address := hl c (hinorder ▸ by simp)
        exact absurd (hbr c (by simp)) (Nat.lt_asymm hc)
    rw [hbr_nil] at hinorder
    simp only [hsplay, ← hinorder]
    simp

theorem Contents.remove_spec (h : Contents m live) {item : Item} {l r : BinaryTree Item}
    (hroot : m.allocations = node item l r) :
    Contents (m.removeMemoryAllocation item) (without Item.address item.address live) := by
  have hinorder := removeMemoryAllocation_inorder h.ordered hroot
  obtain ⟨hord, hp⟩ := h
  rw [hroot] at hord hp
  obtain ⟨-, -, hl, hr⟩ := ordered_node.1 hord
  have hsplit := without_split item hl hr
  rw [if_pos rfl] at hsplit
  refine ⟨?_, ?_⟩
  · unfold Ordered
    rw [hinorder]
    exact List.Pairwise.sublist ((sublist_cons_self _ _).append_left _) hord
  · rw [hinorder, ← hsplit]
    exact hp.filter _

/-! ## Insertion -/

theorem Contents.insert_spec (h : Contents m live) {item : Item}
    (hkeeps : (∃ x ∈ live, x.address = item.address) → ∀ x ∈ live, x.address = item.address) :
    Contents (m.insertMemoryAllocation item) (put Item.address item live) := by
  unfold Metric.insertMemoryAllocation
  cases h.splay_cases item.address with
  | inl hnil =>
    obtain ⟨hm, hlive⟩ := hnil
    have hsplay : splay m.allocations item.address = nil := by rw [hm]; rfl
    simp only [hsplay, hlive]
    exact ⟨by simp [Ordered], by simp [put, without]⟩
  | inr hnode =>
    obtain ⟨root, l, r, hsplay, hcontents, hl, hr⟩ := hnode
    simp only [hsplay]
    have hp : (without Item.address item.address (inorder l ++ root :: inorder r)).Perm
        (without Item.address item.address live) := hcontents.perm.filter _
    rw [without_split root hl hr] at hp
    obtain ⟨hordl, hordr, hlroot, hrroot⟩ := ordered_node.1 hcontents.ordered
    by_cases hlt : item.address < root.address
    · rw [if_pos hlt]
      rw [if_neg (Nat.ne_of_gt hlt)] at hp
      refine ⟨?_, ?_⟩
      · refine ordered_node.2 ⟨hordl, ordered_node.2 ⟨by simp [Ordered], hordr, by simp, hrroot⟩, hl, ?_⟩
        exact forall_inorder_node.2 ⟨by simp, hlt, hr⟩
      · show (inorder l ++ item :: root :: inorder r).Perm _
        exact perm_middle.trans (hp.cons item)
    · rw [if_neg hlt]
      by_cases hgt : item.address > root.address
      · rw [if_pos hgt]
        rw [if_neg (Nat.ne_of_lt hgt)] at hp
        refine ⟨?_, ?_⟩
        · refine ordered_node.2 ⟨ordered_node.2 ⟨hordl, by simp [Ordered], hlroot, by simp⟩, hordr, ?_, hr⟩
          exact forall_inorder_node.2 ⟨hl, hgt, by simp⟩
        · show ((inorder l ++ [root]) ++ item :: inorder r).Perm _
          refine perm_middle.trans (List.Perm.cons item ?_)
          simpa using hp
      · -- the address is known: nothing else may be live
        rw [if_neg hgt]
        have hroot : root.address = item.address := by omega
        have hall := hkeeps ⟨root, hcontents.perm.mem_iff.1 (by simp), hroot⟩
        have hnone : without Item.address item.address live = [] := by
          simpa [without] using hall
        exact ⟨by simp [Ordered], by simp [put, hnone]⟩

theorem Contents.insert_known (h : Contents m live) {item x : Item} (hx : x ∈ live)
    (haddr : x.address = item.address) : (m.insertMemoryAllocation item).allocations = node item nil nil := by
  unfold Metric.insertMemoryAllocation
  cases h.splay_cases item.address with
  | inl hnil =>
    rw [hnil.2] at hx
    simp at hx
  | inr hnode =>
    obtain ⟨root, l, r, hsplay, hcontents, hl, hr⟩ := hnode
    have hroot : root.address = item.address := by
      have hx' := hcontents.perm.mem_iff.2 hx
      simp only [inorder_node, mem_append, mem_cons] at hx'
      obtain hx' | rfl | hx' := hx'
      · exact absurd haddr (Nat.ne_of_lt (hl x hx'))
      · exact haddr
      · exact absurd haddr (Nat.ne_of_gt (hr x hx'))
    simp [hsplay, hroot]

/-! ## The calls -/

structure Tracks (s : Session) (g : Ledger) : Prop where
  contents : Contents s.process.metric g.live
  acquired_eq : s.acquired = g.acquired
  total_eq : s.process.metric.totalAllocatedMemory = sizes g.live + sizes g.acquired + g.overwritten

theorem Tracks.init : Tracks .init .init where
  contents := ⟨by simp [Session.init, newScoped, Ordered], by simp [Session.init, newScoped, Ledger.init]⟩
  acquired_eq := rfl
  total_eq := by simp [Session.init, newScoped, Ledger.init, sizes]

theorem Tracks.meets {s : Session} {g : Ledger} (h : Tracks s g) : Meets s g where
  exists_iff := by
    intro addr
    obtain ⟨heq, -, -⟩ := h.contents.find_spec addr
    simp only [Metric.addrExists, heq]
    constructor
    · intro hsome
      obtain ⟨item, hitem⟩ := isSome_iff_exists.1 hsome
      exact ⟨item, (lookup_eq_some h.contents.distinct).1 hitem⟩
    · intro hex
      obtain ⟨item, hitem⟩ := hex
      rw [(lookup_eq_some h.contents.distinct).2 hitem]
      rfl
  acquire_eq := by
    intro addr haddr
    obtain ⟨heq, -, -⟩ := h.contents.find_spec addr
    rw [← heq]
    unfold Metric.acquireAlloc
    rw [if_neg haddr]
    cases hfind : s.process.metric.findMemoryAllocation addr with
    | mk m found =>
      cases found with
      | none => exact ⟨_, rfl⟩
      | some item => exact ⟨_, rfl⟩
  total_eq := h.total_eq

/-! ### Sizes -/

theorem sizes_cons (item : Item) (items : List Item) : sizes (item :: items) = item.size + sizes items := by
  simp [sizes]

theorem sizes_append (items items' : List Item) : sizes (items ++ items') = sizes items + sizes items' := by
  simp [sizes]

theorem sizes_perm {items items' : List Item} (h : items.Perm items') : sizes items = sizes items' :=
  (h.map Item.size).sum_eq

theorem sizes_without (h : Distinct Item.address live) (addr : ℕ) :
    sizes (without Item.address addr live) + sizes (lookup Item.address addr live).toList = sizes live := by
  cases hl : lookup Item.address addr live with
  | none =>
    rw [without_eq_self (lookup_eq_none.1 hl)]
    simp [sizes]
  | some item =>
    obtain ⟨hmem, rfl⟩ := (lookup_eq_some h).1 hl
    rw [sizes_perm (perm_cons_without h hmem), sizes_cons, BitVec.add_comm]
    simp [sizes]

theorem sizes_handBack {acquired rest : List Item} {item : Option Item} {i : Option ℕ}
    (h : handBack acquired i = some (item, rest)) : sizes acquired = sizes item.toList + sizes rest := by
  cases i with
  | none =>
    simp only [handBack, some.injEq, Prod.mk.injEq] at h
    simp [← h.1, ← h.2, sizes]
  | some i =>
    simp only [handBack, map_eq_some_iff, Prod.mk.injEq] at h
    obtain ⟨x, hx, rfl, rfl⟩ := h
    obtain ⟨hi, rfl⟩ := List.getElem?_eq_some_iff.1 hx
    rw [sizes_perm (getElem_cons_eraseIdx_perm hi).symm, sizes_cons]
    simp [sizes]

/-! ### The total -/

@[simp] theorem insertMemoryAllocation_total (m : Metric) (item : Item) :
    (m.insertMemoryAllocation item).totalAllocatedMemory = m.totalAllocatedMemory := by
  unfold Metric.insertMemoryAllocation
  split
  · rfl
  · split
    · rfl
    · split
      · rfl
      · rfl

@[simp] theorem addMemoryAllocation_total (m : Metric) (addr : ℕ) (size : BitVec 64) :
    (m.addMemoryAllocation addr size).totalAllocatedMemory = m.totalAllocatedMemory := by
  simp [Metric.addMemoryAllocation]

@[simp] theorem findMemoryAllocation_total (m : Metric) (addr : ℕ) :
    (m.findMemoryAllocation addr).1.totalAllocatedMemory = m.totalAllocatedMemory := by
  unfold Metric.findMemoryAllocation
  split
  · rfl
  · rfl

@[simp] theorem removeMemoryAllocation_total (m : Metric) (item : Item) :
    (m.removeMemoryAllocation item).totalAllocatedMemory = m.totalAllocatedMemory := by
  unfold Metric.removeMemoryAllocation
  split
  · rfl
  · split
    · rfl
    · split
      · rfl
      · split
        · rfl
        · rfl

theorem handleRealloc_total (p : Process) (resultAddr : ℕ) (size : BitVec 64) (prev : Option Item) :
    (p.handleRealloc resultAddr size prev).1.metric.totalAllocatedMemory =
      p.metric.totalAllocatedMemory + size - sizes prev.toList := by
  cases prev with
  | none => simp [Process.handleRealloc, sizes]
  | some allocation =>
    unfold Process.handleRealloc
    by_cases haddr : allocation.address = resultAddr
    · simp only [if_pos haddr, insertMemoryAllocation_total, toList_some, sizes_cons]
      simp only [sizes, map_nil, sum_nil]
      grind
    · simp only [if_neg haddr, insertMemoryAllocation_total, toList_some, sizes_cons]
      simp only [sizes, map_nil, sum_nil]
      grind

theorem handleAlloc_insert (p : Process) (resultAddr : ℕ) (size : BitVec 64) :
    ∃ m : Metric, m.allocations = p.metric.allocations ∧ (p.handleAlloc resultAddr size).metric =
        m.insertMemoryAllocation { address := resultAddr, size := size } := by
  refine ⟨_, ?_, rfl⟩
  rfl

theorem handleRealloc_insert (p : Process) (resultAddr : ℕ) (size : BitVec 64) (prev : Option Item) :
    ∃ m : Metric, m.allocations = p.metric.allocations ∧ (p.handleRealloc resultAddr size prev).1.metric =
        m.insertMemoryAllocation { address := resultAddr, size := size } := by
  cases prev with
  | none =>
    refine ⟨_, ?_, rfl⟩
    rfl
  | some allocation =>
    by_cases haddr : allocation.address = resultAddr
    · subst haddr
      simp only [Process.handleRealloc, if_true]
      refine ⟨_, ?_, rfl⟩
      rfl
    · simp only [Process.handleRealloc, if_neg haddr]
      refine ⟨_, ?_, rfl⟩
      rfl

theorem Contents.congr {m m' : Metric} (h : Contents m live) (heq : m'.allocations = m.allocations) :
    Contents m' live := by
  obtain ⟨hord, hp⟩ := h
  exact ⟨heq ▸ hord, heq ▸ hp⟩

theorem acquireAlloc_spec {m m' : Metric} (h : Contents m live) {addr : ℕ} {found : Option Item}
    (hacquire : m.acquireAlloc addr = some (m', found)) :
    found = lookup Item.address addr live ∧ Contents m' (without Item.address addr live) ∧
      m'.totalAllocatedMemory = m.totalAllocatedMemory := by
  obtain ⟨hfind, hcontents, hroot⟩ := h.find_spec addr
  have htotal := findMemoryAllocation_total m addr
  unfold Metric.acquireAlloc at hacquire
  by_cases haddr : addr = 0
  · simp [haddr] at hacquire
  · rw [if_neg haddr] at hacquire
    cases hpair : m.findMemoryAllocation addr with
    | mk m₁ item =>
      simp only [hpair] at hfind hcontents hroot htotal hacquire
      cases item with
      | none =>
        simp only [some.injEq, Prod.mk.injEq] at hacquire
        obtain ⟨rfl, rfl⟩ := hacquire
        rw [without_eq_self (lookup_eq_none.1 hfind.symm)]
        exact ⟨hfind, hcontents, htotal⟩
      | some item =>
        simp only [some.injEq, Prod.mk.injEq] at hacquire
        obtain ⟨rfl, rfl⟩ := hacquire
        obtain ⟨l, r, hroot⟩ := hroot item rfl
        obtain ⟨-, haddr⟩ := (lookup_eq_some h.distinct).1 hfind.symm
        refine ⟨hfind, ?_, ?_⟩
        · rw [← haddr]
          exact hcontents.remove_spec hroot
        · rw [removeMemoryAllocation_total, htotal]

theorem Tracks.step {s t : Session} {g : Ledger} (h : Tracks s g) {op : Op} (hkeeps : g.Keeps op)
    (hstep : s.step op = some t) : Tracks t (g.apply op) := by
  have hdistinct := h.contents.distinct
  have htotal := h.total_eq
  cases op with
  | handleAlloc resultAddr size =>
    simp only [Session.step, some.injEq] at hstep
    subst hstep
    have hsum := sizes_without hdistinct resultAddr
    refine ⟨?_, h.acquired_eq, ?_⟩
    · obtain ⟨m, hm, hmetric⟩ := handleAlloc_insert s.process resultAddr size
      show Contents (s.process.handleAlloc resultAddr size).metric _
      rw [hmetric]
      exact (h.contents.congr hm).insert_spec hkeeps
    · simp only [Process.handleAlloc, addMemoryAllocation_total, Ledger.apply, Ledger.report, put, sizes_cons]
      grind
  | acquireAlloc addr =>
    simp only [Session.step, map_eq_some_iff] at hstep
    obtain ⟨⟨m, found⟩, hacquire, rfl⟩ := hstep
    obtain ⟨hfound, hcontents, hm⟩ := acquireAlloc_spec h.contents hacquire
    have hsum := sizes_without hdistinct addr
    refine ⟨hcontents, ?_, ?_⟩
    · simp [Ledger.apply, hfound, h.acquired_eq]
    · simp only [Ledger.apply, hm, sizes_append]
      grind
  | handleRealloc resultAddr size prev =>
    simp only [Session.step, map_eq_some_iff] at hstep
    obtain ⟨⟨item, rest⟩, hback, rfl⟩ := hstep
    rw [h.acquired_eq] at hback
    have hsum := sizes_without hdistinct resultAddr
    have hacquired := sizes_handBack hback
    refine ⟨?_, ?_, ?_⟩
    · obtain ⟨m, hm, hmetric⟩ := handleRealloc_insert s.process resultAddr size item
      simp only [Ledger.apply, hback, Ledger.report, hmetric]
      exact (h.contents.congr hm).insert_spec hkeeps
    · simp [Ledger.apply, hback, Ledger.report]
    · simp only [handleRealloc_total, Ledger.apply, hback, Ledger.report, put, sizes_cons]
      grind
  | handleFree allocation =>
    simp only [Session.step, map_eq_some_iff] at hstep
    obtain ⟨⟨item, rest⟩, hback, rfl⟩ := hstep
    rw [h.acquired_eq] at hback
    have hacquired := sizes_handBack hback
    cases item with
    | none =>
      refine ⟨?_, ?_, ?_⟩
      · simpa only [Ledger.apply, hback, Process.handleFree] using h.contents
      · simp [Ledger.apply, hback]
      · simp only [Process.handleFree, Ledger.apply, hback]
        simp only [sizes, toList_none, map_nil, sum_nil] at hacquired htotal ⊢
        grind
    | some allocation =>
      refine ⟨?_, ?_, ?_⟩
      · simp only [Ledger.apply, hback]
        exact ⟨h.contents.ordered, h.contents.perm⟩
      · simp [Ledger.apply, hback]
      · simp only [Process.handleFree, Metric.freeMemoryAllocation, Ledger.apply, hback]
        simp only [toList_some, sizes_cons] at hacquired
        simp only [sizes, map_nil, sum_nil] at hacquired htotal ⊢
        grind
  | addrExists addr =>
    simp only [Session.step, some.injEq] at hstep
    subst hstep
    obtain ⟨-, hcontents, -⟩ := h.contents.find_spec addr
    refine ⟨hcontents, h.acquired_eq, ?_⟩
    simpa only [Metric.addrExists, findMemoryAllocation_total, Ledger.apply] using htotal

theorem not_meets_of_single {s : Session} {g : Ledger} (item : Item) {x : Item}
    (hsingle : s.process.metric.allocations = node item nil nil) (hx : x ∈ g.live)
    (hne : x.address ≠ item.address) : ¬ Meets s g := by
  intro h
  have hfound := (h.exists_iff x.address).2 ⟨x, hx, rfl⟩
  have hsplay : splay (node item nil nil) x.address = node item nil nil := by
    by_cases hlt : x.address < item.address
    · simp [splay, splayLoop, hlt, assemble, plugRight, plugLeft]
    · have hgt : item.address < x.address := by omega
      simp [splay, splayLoop, hlt, hgt, assemble, plugRight, plugLeft]
  simp [Metric.addrExists, Metric.findMemoryAllocation, hsingle, hsplay, hne] at hfound

theorem Tracks.keeps_of_meets {s t : Session} {g : Ledger} (h : Tracks s g) {op : Op}
    (hstep : s.step op = some t) (hmeets : Meets t (g.apply op)) : g.Keeps op := by
  cases op with
  | handleAlloc resultAddr size =>
    intro hknown
    obtain ⟨x, hx, hxaddr⟩ := hknown
    intro y hy
    by_contra hne
    simp only [Session.step, some.injEq] at hstep
    subst hstep
    refine not_meets_of_single ⟨resultAddr, size⟩ (x := y) ?_ ?_ hne hmeets
    · obtain ⟨m, hm, hmetric⟩ := handleAlloc_insert s.process resultAddr size
      show (s.process.handleAlloc resultAddr size).metric.allocations = _
      rw [hmetric]
      exact (h.contents.congr hm).insert_known hx hxaddr
    · exact mem_put.2 (Or.inr ⟨hy, hne⟩)
  | handleRealloc resultAddr size prev =>
    intro hknown
    obtain ⟨x, hx, hxaddr⟩ := hknown
    intro y hy
    by_contra hne
    simp only [Session.step, map_eq_some_iff] at hstep
    obtain ⟨⟨item, rest⟩, hback, rfl⟩ := hstep
    rw [h.acquired_eq] at hback
    refine not_meets_of_single ⟨resultAddr, size⟩ (x := y) ?_ ?_ hne hmeets
    · obtain ⟨m, hm, hmetric⟩ := handleRealloc_insert s.process resultAddr size item
      simp only [hmetric]
      exact (h.contents.congr hm).insert_known hx hxaddr
    · simp only [Ledger.apply, hback]
      exact mem_put.2 (Or.inr ⟨hy, hne⟩)
  | acquireAlloc addr => trivial
  | handleFree allocation => trivial
  | addrExists addr => trivial

/-! ## Histories -/

def Runs (ops : List Op) (s : Session) : Prop :=
  Steps (fun s op t => Session.step s op = some t) .init ops s

theorem ledgerAfter_append (ops : List Op) (op : Op) :
    ledgerAfter (ops ++ [op]) = (ledgerAfter ops).apply op := by
  simp [ledgerAfter]

theorem runs_append {ops : List Op} {op : Op} {t : Session} :
    Runs (ops ++ [op]) t ↔ ∃ s, Runs ops s ∧ s.step op = some t := by
  unfold Runs
  rw [Steps.append_iff]
  constructor
  · intro h
    obtain ⟨s, hs, hlast⟩ := h
    obtain ⟨u, hu, hnil⟩ := Steps.cons_iff.1 hlast
    exact ⟨s, hs, Steps.nil_iff.1 hnil ▸ hu⟩
  · intro h
    obtain ⟨s, hs, hlast⟩ := h
    exact ⟨s, hs, .single hlast⟩

theorem tracks_of_keeps {ops : List Op} {s : Session} (h : Runs ops s)
    (hkeeps : ∀ p op, p ++ [op] <+: ops → (ledgerAfter p).Keeps op) : Tracks s (ledgerAfter ops) := by
  induction ops using List.reverseRecOn generalizing s with
  | nil =>
    rw [← Steps.nil_iff.1 h]
    exact .init
  | append_singleton ops op ih =>
    obtain ⟨t, ht, hstep⟩ := runs_append.1 h
    have htracks := ih ht fun p o hp => hkeeps p o (hp.trans (prefix_append _ _))
    rw [ledgerAfter_append]
    exact htracks.step (hkeeps ops op prefix_rfl) hstep

/-- The metric tracks exactly the live allocations throughout a history if and only if every call
that reports a live address reports the only live one. -/
theorem meets_iff_keeps {ops : List Op} {s : Session} (h : Runs ops s) :
    (∀ p t, p <+: ops → Runs p t → Meets t (ledgerAfter p)) ↔
      ∀ p op, p ++ [op] <+: ops → (ledgerAfter p).Keeps op := by
  constructor
  · intro hmeets
    induction ops using List.reverseRecOn generalizing s with
    | nil =>
      intro p op hp
      simp at hp
    | append_singleton ops o ih =>
      obtain ⟨t, ht, hstep⟩ := runs_append.1 h
      have hbefore := ih ht fun p u hp => hmeets p u (hp.trans (prefix_append _ _))
      intro p op hp
      cases prefix_concat_iff.1 hp with
      | inl heq =>
        obtain ⟨rfl, hop⟩ := append_inj' heq rfl
        simp only [List.cons.injEq, and_true] at hop
        subst hop
        refine (tracks_of_keeps ht hbefore).keeps_of_meets hstep ?_
        rw [← ledgerAfter_append]
        exact hmeets _ s prefix_rfl h
      | inr hp => exact hbefore p op hp
  · intro hkeeps p t hp ht
    exact (tracks_of_keeps ht fun q op hq => hkeeps q op (hq.trans hp)).meets

/-- An allocation that is moved by a reallocation. -/
theorem meets_realloc : ∃ s, Runs [.handleAlloc 64 8, .acquireAlloc 64, .handleRealloc 128 16 (some 0)] s ∧
      ∀ p t, p <+: [.handleAlloc 64 8, .acquireAlloc 64, .handleRealloc 128 16 (some 0)] →
        Runs p t → Meets t (ledgerAfter p) := by
  have hruns : Runs [.handleAlloc 64 8, .acquireAlloc 64, .handleRealloc 128 16 (some 0)] _ :=
    .cons rfl (.cons rfl (.cons rfl (.nil _)))
  refine ⟨_, hruns, (meets_iff_keeps hruns).2 ?_⟩
  intro p op hp
  match p, hp with
  | [], hp =>
    simp only [nil_append, cons_prefix_cons, nil_prefix, and_true] at hp
    subst hp
    simp [ledgerAfter, Ledger.init, Ledger.Keeps]
  | [x], hp =>
    simp only [cons_append, nil_append, cons_prefix_cons, nil_prefix, and_true] at hp
    obtain ⟨-, rfl⟩ := hp
    trivial
  | [x, y], hp =>
    simp only [cons_append, nil_append, cons_prefix_cons, nil_prefix, and_true] at hp
    obtain ⟨rfl, rfl, rfl⟩ := hp
    simp [ledgerAfter, Ledger.init, Ledger.apply, Ledger.report, Ledger.Keeps, put, without]
  | x :: y :: z :: p, hp =>
    have hlen := hp.length_le
    simp only [length_append, length_cons, length_nil] at hlen
    omega

/-- The first allocation is reported again: the second one is lost. -/
theorem not_meets_alloc_twice : ∃ s, Runs [.handleAlloc 64 8, .handleAlloc 128 16, .handleAlloc 64 24] s ∧
      ¬ Meets s (ledgerAfter [.handleAlloc 64 8, .handleAlloc 128 16, .handleAlloc 64 24]) := by
  refine ⟨_, .cons rfl (.cons rfl (.cons rfl (.nil _))), ?_⟩
  refine not_meets_of_single ⟨64, 24⟩ (x := ⟨128, 16⟩) rfl ?_ (by decide)
  decide

end ScoreP.AllocMetric
