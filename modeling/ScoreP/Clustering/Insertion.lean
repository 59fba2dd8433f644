import Mathlib.Algebra.BigOperators.Group.List.Basic
import Mathlib.Algebra.GroupWithZero.Nat
import ScoreP.Clustering.Filling
import ScoreP.Foundations.Forest

/-!
# A new iteration

`Sets` is what holds of the disjoint sets of the clustered iterations and of the counts.
`insertCluster_spec` says where a new cluster comes to stand, `entered` that lists, minima and sets are
again in order with it, and `insertIteration_spec` that its distances are calculated when they are in use.
-/

namespace ScoreP.Clustering

open Foundations Clusterer Function List

variable {W R F D : Type} {n : ℕ} [LinearOrder D] {P : Profile W R F D n} {c c' c'' : Clusterer W R F D n}
  {k j lt : ℕ} {pre later clusters : List ℕ} {list new : EquivClusterList D}
  {lists lists' : List (EquivClusterList D)} {path : R}

namespace Clusterer

def parent (c : Clusterer W R F D n) (i : ℕ) : Option ℕ := (c.iteration i).parent

def rank (c : Clusterer W R F D n) (i : ℕ) : ℕ := (c.iteration i).rank

end Clusterer

structure Sets (c : Clusterer W R F D n) : Prop where
  ranked : Ranked c.parent c.rank
  rankLe : ∀ i, c.rank i ≤ c.clItCount
  parents : ∀ i p, c.parent i = some p → i < c.clItCount ∧ p < c.clItCount
  roots : ∀ i, i < c.clItCount → c.parent i = none →
    (c.iteration i).cluster ∈ c.live ∧ (c.cluster (c.iteration i).cluster).disjointSet = i
  backs : ∀ k ∈ c.live, (c.cluster k).disjointSet < c.clItCount ∧
    c.parent (c.cluster k).disjointSet = none ∧ (c.iteration (c.cluster k).disjointSet).cluster = k
  total : (c.live.map fun k => (c.cluster k).iterationCount).sum = c.clItCount

theorem SameClusters.sets (h : SameClusters c c') (hsets : Sets c) : Sets c' := by
  have hparent : c'.parent = c.parent := by
    funext i
    rw [Clusterer.parent, Clusterer.parent, h.iteration]
  have hrank : c'.rank = c.rank := by
    funext i
    rw [Clusterer.rank, Clusterer.rank, h.iteration]
  refine ⟨?_, ?_, ?_, fun i hi hroot => ?_, fun k hk => ?_, ?_⟩
  · rw [hparent, hrank]
    exact hsets.ranked
  · rw [hrank, h.clItCount]
    exact hsets.rankLe
  · rw [hparent, h.clItCount]
    exact hsets.parents
  · rw [hparent] at hroot
    rw [h.clItCount] at hi
    rw [h.iteration, h.live, (h.cluster _).disjointSet]
    exact hsets.roots i hi hroot
  · rw [h.live] at hk
    rw [hparent, h.iteration, h.clItCount, (h.cluster k).disjointSet]
    exact hsets.backs k hk
  · rw [h.live, h.clItCount, ← hsets.total]
    exact congrArg List.sum (map_congr_left fun k _ => (h.cluster k).iterationCount)

/-! ## The place of a new cluster -/

def Inserted (k : ℕ) (new : EquivClusterList D) (lists : List (EquivClusterList D)) (lt : ℕ)
    (lists' : List (EquivClusterList D)) : Prop :=
  (∃ pre list post, lists = pre ++ list :: post ∧ lt = list.name ∧
    lists' = pre ++ { list with clusters := k :: list.clusters } :: post) ∨
  ∃ pre post, lists = pre ++ post ∧ lt = new.name ∧ lists' = pre ++ new :: post

theorem Inserted.cons (h : Inserted k new lists lt lists') :
    Inserted k new (list :: lists) lt (list :: lists') := by
  obtain ⟨pre, l, post, rfl, hname, rfl⟩ | ⟨pre, post, rfl, hname, rfl⟩ := h
  · exact Or.inl ⟨list :: pre, l, post, rfl, hname, rfl⟩
  · exact Or.inr ⟨list :: pre, post, rfl, hname, rfl⟩

theorem insertEqual_spec (hne : ∀ l ∈ lists, l.clusters ≠ []) : ∃ lt lists',
    insertEqual P c k new lists = some (lt, lists') ∧ Inserted k new lists lt lists' := by
  induction lists with
  | nil => exact ⟨_, _, rfl, Or.inr ⟨[], [], rfl, rfl, rfl⟩⟩
  | cons list lists ih =>
    obtain ⟨lt, lists', heq, hinserted⟩ := ih fun l hl => hne l (mem_cons_of_mem list hl)
    obtain ⟨head, tail, hclusters⟩ := exists_cons_of_ne_nil (hne list mem_cons_self)
    simp only [insertEqual, hclusters]
    by_cases hhash : (c.cluster head).hash = (c.cluster k).hash
    · rw [if_pos hhash]
      by_cases hcompare : P.compareCallTrees c.trees (c.cluster head).root (c.cluster k).root
          (c.cluster head).iterationCount (c.cluster k).iterationCount = true
      · rw [if_pos hcompare, ← hclusters]
        exact ⟨_, _, rfl, Or.inl ⟨[], list, lists, rfl, rfl, rfl⟩⟩
      · rw [if_neg hcompare, heq]
        exact ⟨_, _, rfl, hinserted.cons⟩
    · rw [if_neg hhash]
      exact ⟨_, _, rfl, Or.inr ⟨[], list :: lists, rfl, rfl, rfl⟩⟩

theorem insertSorted_spec (hne : ∀ l ∈ lists, l.clusters ≠ []) : ∃ lt lists',
    insertSorted P c k new lists = some (lt, lists') ∧ Inserted k new lists lt lists' := by
  induction lists with
  | nil => exact ⟨_, _, rfl, Or.inr ⟨[], [], rfl, rfl, rfl⟩⟩
  | cons list lists ih =>
    obtain ⟨lt, lists', heq, hinserted⟩ := ih fun l hl => hne l (mem_cons_of_mem list hl)
    obtain ⟨head, tail, hclusters⟩ := exists_cons_of_ne_nil (hne list mem_cons_self)
    have hequal := @insertEqual_spec _ _ _ _ _ _ P c k new (list :: lists) hne
    simp only [insertSorted, hclusters]
    by_cases hhash : (c.cluster head).hash < (c.cluster k).hash
    · rw [if_pos hhash, heq]
      exact ⟨_, _, rfl, hinserted.cons⟩
    · rw [if_neg hhash]
      exact hequal

theorem Inserted.perm (h : Inserted k new lists lt lists') (hnew : new.clusters = [k]) :
    (lists'.flatMap EquivClusterList.clusters).Perm (k :: lists.flatMap EquivClusterList.clusters) := by
  obtain ⟨pre, list, post, rfl, -, rfl⟩ | ⟨pre, post, rfl, -, rfl⟩ := h
  · simp only [flatMap_append, flatMap_cons, cons_append]
    exact perm_middle
  · simp only [flatMap_append, flatMap_cons, hnew, cons_append, nil_append]
    exact perm_middle

theorem Inserted.mem (h : Inserted k new lists lt lists') {l : EquivClusterList D} (hl : l ∈ lists') :
    l ∈ lists ∨ (∃ list ∈ lists, lt = list.name ∧ l = { list with clusters := k :: list.clusters }) ∨
      l = new ∧ lt = new.name := by
  obtain ⟨pre, list, post, rfl, hname, rfl⟩ | ⟨pre, post, rfl, hname, rfl⟩ := h
  · obtain hl | hl := mem_append.1 hl
    · exact Or.inl (mem_append_left _ hl)
    · obtain rfl | hl := mem_cons.1 hl
      · exact Or.inr (Or.inl ⟨list, by simp, hname, rfl⟩)
      · exact Or.inl (mem_append_right _ (mem_cons_of_mem _ hl))
  · obtain hl | hl := mem_append.1 hl
    · exact Or.inl (mem_append_left _ hl)
    · obtain rfl | hl := mem_cons.1 hl
      · exact Or.inr (Or.inr ⟨rfl, hname⟩)
      · exact Or.inl (mem_append_right _ hl)

/-! ## The new cluster -/

/-- The cluster `k` of the next iteration entered the list `lt`. -/
structure Entered (c : Clusterer W R F D n) (k lt : ℕ) (c' : Clusterer W R F D n) : Prop where
  inserted : Inserted k ⟨c.allocatedLists, [k], ⊤, none⟩ c.lists lt c'.lists
  minVal : c'.eqClLtSet.minVal = c.eqClLtSet.minVal
  minPos : c'.eqClLtSet.minPos = c.eqClLtSet.minPos
  other : ∀ j, j ≠ k → c'.cluster j = c.cluster j
  fresh : Fresh (c'.cluster k)
  iterationCount : (c'.cluster k).iterationCount = 1
  disjointSet : (c'.cluster k).disjointSet = c.clItCount
  iteration : c'.iteration = update c.iteration c.clItCount ⟨k, c.clItCount + 1, 0, none⟩
  maxClCount : c'.maxClCount = c.maxClCount
  clCount : c'.clCount = c.clCount
  clItCount : c'.clItCount = c.clItCount + 1
  freeClusterDistances : c'.freeClusterDistances = c.freeClusterDistances
  allocatedDistances : c'.allocatedDistances = c.allocatedDistances
  clusters : (k :: c.live ++ c'.freeClusters).Nodup
  allocated : ∀ j ∈ k :: c.live ++ c'.freeClusters, j < c'.allocatedClusters
  allocatedLists : c'.allocatedLists = c.allocatedLists + 1

theorem takeCluster_spec (h : Layout c) : ∃ k free allocated,
    c.takeCluster = (k, { c with freeClusters := free, allocatedClusters := allocated }) ∧
      (k :: c.live ++ free).Nodup ∧ ∀ j ∈ k :: c.live ++ free, j < allocated := by
  have hnodup := h.live
  have hbound := h.allocated
  unfold takeCluster
  cases hfree : c.freeClusters with
  | nil =>
    rw [hfree] at hnodup hbound
    refine ⟨c.allocatedClusters, [], c.allocatedClusters + 1, by simp only [hfree], ?_, fun j hj => ?_⟩
    · exact nodup_cons.2 ⟨fun hmem => Nat.lt_irrefl _ (hbound _ hmem), hnodup⟩
    · obtain rfl | hj := mem_cons.1 hj
      · exact Nat.lt_succ_self _
      · exact Nat.lt_succ_of_lt (hbound j hj)
  | cons k free =>
    rw [hfree] at hnodup hbound
    have hperm : (k :: c.live ++ free).Perm (c.live ++ k :: free) := perm_middle.symm
    exact ⟨k, free, c.allocatedClusters, rfl, hperm.nodup_iff.2 hnodup,
      fun j hj => hbound j (hperm.mem_iff.1 hj)⟩

theorem insertCluster_spec (h : Layout c) : ∃ k lt c₁,
    (c.newCluster P path).1 = k ∧ insertCluster P (c.newCluster P path).2 k = some (lt, c₁) ∧
      Entered c k lt { c₁ with
        refVals := P.updateReferenceValues c₁.refVals (c₁.cluster k).metsAvg
        clItCount := c₁.clItCount + 1 } := by
  obtain ⟨k, free, allocated, htake, hnodup, hbound⟩ := takeCluster_spec h
  obtain ⟨lt, lists', hsorted, hinserted⟩ := @insertSorted_spec _ _ _ _ _ _ P (c.newCluster P path).2 k
    ⟨c.allocatedLists, [k], ⊤, none⟩ c.lists h.nonempty
  have hlists : (c.newCluster P path).2.eqClLtSet = c.eqClLtSet ∧
      (c.newCluster P path).2.allocatedLists = c.allocatedLists := by
    simp [newCluster, htake]
  have hinsert : insertCluster P (c.newCluster P path).2 k = some (lt, { (c.newCluster P path).2 with
      eqClLtSet := { c.eqClLtSet with lists := lists' }
      allocatedLists := c.allocatedLists + 1 }) := by
    unfold insertCluster
    rw [hlists.1, hlists.2]
    unfold Clusterer.lists at hsorted
    rw [hsorted]
  refine ⟨k, lt, _, by simp only [newCluster, htake], hinsert, ?_⟩
  simp only [newCluster, htake]
  refine ⟨hinserted, rfl, rfl, fun j hj => ?_, ?_, ?_, ?_, rfl, rfl, rfl, rfl, rfl, rfl, hnodup, hbound, rfl⟩
  · exact update_of_ne hj _ _
  · simp [Fresh]
  · simp
  · simp

section Entered

variable (h : Entered c k lt c')
include h

theorem Entered.notMem : k ∉ c.live := fun hmem =>
  (nodup_cons.1 h.clusters).1 (mem_append_left _ hmem)

theorem Entered.live : c'.live.Perm (k :: c.live) :=
  h.inserted.perm rfl

theorem Entered.mem_live : j ∈ c'.live ↔ j = k ∨ j ∈ c.live := by
  rw [h.live.mem_iff, mem_cons]

theorem Entered.ne_of_mem (hj : j ∈ c.live) : j ≠ k := fun heq => h.notMem (by rw [← heq]; exact hj)

theorem Entered.layout (hlayout : Layout c) : Layout c' where
  names := by
    have hnew : ∀ l ∈ c.lists, l.name ≠ c.allocatedLists := fun l hl =>
      Nat.ne_of_lt (hlayout.named l hl)
    have hnames := hlayout.names
    obtain ⟨pre, list, post, heq, -, heq'⟩ | ⟨pre, post, heq, -, heq'⟩ := h.inserted
    · rw [heq, map_append, map_cons] at hnames
      rw [heq', map_append, map_cons]
      exact hnames
    · rw [heq] at hnew
      rw [heq, map_append] at hnames
      rw [heq', map_append, map_cons]
      refine nodup_middle.2 (nodup_cons.2 ⟨fun hmem => ?_, hnames⟩)
      rw [← map_append] at hmem
      obtain ⟨l, hl, hname⟩ := mem_map.1 hmem
      exact hnew l hl hname
  named := fun l hl => by
    rw [h.allocatedLists]
    obtain hl | ⟨list, hlist, -, rfl⟩ | ⟨rfl, -⟩ := h.inserted.mem hl
    · exact Nat.lt_succ_of_lt (hlayout.named l hl)
    · exact Nat.lt_succ_of_lt (hlayout.named list hlist)
    · exact Nat.lt_succ_self _
  nonempty := fun l hl => by
    obtain hl | ⟨list, -, -, rfl⟩ | ⟨rfl, -⟩ := h.inserted.mem hl
    · exact hlayout.nonempty l hl
    · exact cons_ne_nil _ _
    · exact cons_ne_nil _ _
  live := (h.live.append_right _).nodup_iff.2 h.clusters
  allocated := fun j hj => h.allocated j ((h.live.append_right _).mem_iff.1 hj)

theorem Entered.names (hnames : Names c) : Names c' := by
  have hk : c'.names k = [] := by
    rw [Clusterer.names, h.fresh.1]
    rfl
  have hother : ∀ j ∈ c.live, c'.names j = c.names j := fun j hj => by
    rw [Clusterer.names, h.other j (h.ne_of_mem hj), Clusterer.names]
  have hcases : ∀ j ∈ c'.live, ∀ x ∈ c'.names j, j ∈ c.live ∧ x ∈ c.names j := by
    intro j hj x hx
    obtain rfl | hj := h.mem_live.1 hj
    · rw [hk] at hx
      exact absurd hx not_mem_nil
    · rw [hother j hj] at hx
      exact ⟨hj, hx⟩
  refine ⟨fun j hj => ?_, fun i hi j hj x hxi hxj => ?_, fun j hj x hx => ?_, ?_, fun j hj x hx => ?_, ?_⟩
  · obtain rfl | hj := h.mem_live.1 hj
    · rw [hk]
      exact nodup_nil
    · rw [hother j hj]
      exact hnames.nodup j hj
  · obtain ⟨hi, hxi⟩ := hcases i hi x hxi
    obtain ⟨hj, hxj⟩ := hcases j hj x hxj
    exact hnames.apart i hi j hj x hxi hxj
  · obtain ⟨hj, hx⟩ := hcases j hj x hx
    rw [h.freeClusterDistances]
    exact hnames.unfree j hj x hx
  · rw [h.freeClusterDistances]
    exact hnames.free
  · obtain ⟨hj, hx⟩ := hcases j hj x hx
    rw [h.allocatedDistances]
    exact hnames.bound j hj x hx
  · rw [h.freeClusterDistances, h.allocatedDistances]
    exact hnames.freeBound

theorem Entered.minima (hminima : Minima c) : Minima c' where
  cluster := fun j hj => by
    obtain rfl | hj := h.mem_live.1 hj
    · unfold Cluster.Least
      rw [h.fresh.1, h.fresh.2]
      exact leastAt_nil
    · rw [h.other j (h.ne_of_mem hj)]
      exact hminima.cluster j hj
  list := fun l hl => by
    have hsame : ∀ list ∈ c.lists, ∀ j ∈ list.clusters,
        (c'.cluster j).minVal = (c.cluster j).minVal := fun list hlist j hj => by
      rw [h.other j (h.ne_of_mem (mem_live_of_mem hlist hj))]
    obtain hl | ⟨list, hlist, -, rfl⟩ | ⟨rfl, -⟩ := h.inserted.mem hl
    · exact (hminima.list l hl).congr (fun _ => Iff.rfl) (hsame l hl)
    · refine (hminima.list list hlist).transfer (fun j hj => ?_) fun j hj => ?_
      · exact ⟨j, mem_cons_of_mem k hj, rfl, hsame list hlist j hj⟩
      · obtain rfl | hj := mem_cons.1 hj
        · exact Or.inr h.fresh.2
        · exact Or.inl ⟨j, hj, hsame list hlist j hj⟩
    · refine (@leastAt_nil _ _ _ _ (fun j => (c.cluster j).minVal) id none).transfer
        (fun j hj => absurd hj not_mem_nil) fun j hj => Or.inr ?_
      rw [mem_singleton.1 hj]
      exact h.fresh.2
  set := by
    rw [h.minVal, h.minPos]
    refine hminima.set.transfer (fun l hl => ?_) fun l hl => ?_
    · obtain ⟨pre, list, post, heq, -, heq'⟩ | ⟨pre, post, heq, -, heq'⟩ := h.inserted
      · rw [heq] at hl
        rw [heq']
        obtain hl | hl := mem_append.1 hl
        · exact ⟨l, mem_append_left _ hl, rfl, rfl⟩
        · obtain rfl | hl := mem_cons.1 hl
          · exact ⟨_, mem_append_right _ mem_cons_self, rfl, rfl⟩
          · exact ⟨l, mem_append_right _ (mem_cons_of_mem _ hl), rfl, rfl⟩
      · rw [heq] at hl
        rw [heq']
        obtain hl | hl := mem_append.1 hl
        · exact ⟨l, mem_append_left _ hl, rfl, rfl⟩
        · exact ⟨l, mem_append_right _ (mem_cons_of_mem _ hl), rfl, rfl⟩
    · obtain hl | ⟨list, hlist, -, rfl⟩ | ⟨rfl, -⟩ := h.inserted.mem hl
      · exact Or.inl ⟨l, hl, rfl⟩
      · exact Or.inl ⟨list, hlist, rfl⟩
      · exact Or.inr rfl

theorem Entered.parent (hsets : Sets c) : c'.parent = c.parent := by
  funext i
  rw [Clusterer.parent, Clusterer.parent, h.iteration]
  by_cases hi : i = c.clItCount
  · rw [hi, update_self]
    cases hp : (c.iteration c.clItCount).parent with
    | none => rfl
    | some p => exact absurd (hsets.parents _ _ hp).1 (Nat.lt_irrefl _)
  · rw [update_of_ne hi]

theorem Entered.sets (hsets : Sets c) : Sets c' := by
  have hparent := h.parent hsets
  have hold : ∀ i, i < c.clItCount → c'.iteration i = c.iteration i := fun i hi => by
    rw [h.iteration, update_of_ne (Nat.ne_of_lt hi)]
  have hnew : c'.iteration c.clItCount = ⟨k, c.clItCount + 1, 0, none⟩ := by
    rw [h.iteration, update_self]
  have hrank : ∀ i, c'.rank i ≤ c.rank i := fun i => by
    rw [Clusterer.rank, Clusterer.rank, h.iteration]
    by_cases hi : i = c.clItCount
    · rw [hi, update_self]
      exact Nat.zero_le _
    · rw [update_of_ne hi]
  refine ⟨fun i p hp => ?_, fun i => ?_, fun i p hp => ?_, fun i hi hroot => ?_, fun j hj => ?_, ?_⟩
  · rw [hparent] at hp
    obtain ⟨hi, hpn⟩ := hsets.parents i p hp
    have hlt := hsets.ranked i p hp
    unfold Clusterer.rank at hlt ⊢
    rw [hold i hi, hold p hpn]
    exact hlt
  · rw [h.clItCount]
    exact Nat.le_succ_of_le (Nat.le_trans (hrank i) (hsets.rankLe i))
  · rw [hparent] at hp
    rw [h.clItCount]
    obtain ⟨hi, hpn⟩ := hsets.parents i p hp
    exact ⟨Nat.lt_succ_of_lt hi, Nat.lt_succ_of_lt hpn⟩
  · rw [h.clItCount] at hi
    by_cases hin : i = c.clItCount
    · rw [hin, hnew, h.mem_live]
      exact ⟨Or.inl rfl, h.disjointSet⟩
    · have hi' : i < c.clItCount := by omega
      rw [hparent] at hroot
      obtain ⟨hlive, hback⟩ := hsets.roots i hi' hroot
      rw [hold i hi', h.mem_live, h.other _ (h.ne_of_mem hlive)]
      exact ⟨Or.inr hlive, hback⟩
  · rw [h.clItCount, hparent]
    obtain rfl | hj := h.mem_live.1 hj
    · rw [h.disjointSet, hnew]
      refine ⟨Nat.lt_succ_self _, ?_, rfl⟩
      cases hp : c.parent c.clItCount with
      | none => rfl
      | some p => exact absurd (hsets.parents _ _ hp).1 (Nat.lt_irrefl _)
    · obtain ⟨hlt, hroot, hback⟩ := hsets.backs j hj
      rw [h.other j (h.ne_of_mem hj), hold _ hlt]
      exact ⟨Nat.lt_succ_of_lt hlt, hroot, hback⟩
  · have hsum : ((k :: c.live).map fun j => (c'.cluster j).iterationCount).sum = c.clItCount + 1 := by
      rw [map_cons, sum_cons, h.iterationCount, ← hsets.total, Nat.add_comm]
      refine congrArg (fun l => List.sum l + 1) (map_congr_left fun j hj => ?_)
      rw [h.other j (h.ne_of_mem hj)]
    rw [h.clItCount, ← hsum]
    exact (h.live.map _).sum_eq

theorem Entered.rank_lt (hsets : Sets c) (i : ℕ) : c'.rank i < c'.clItCount := by
  rw [h.clItCount, Clusterer.rank, h.iteration]
  by_cases hi : i = c.clItCount
  · rw [hi, update_self]
    exact Nat.succ_pos _
  · rw [update_of_ne hi]
    exact Nat.lt_succ_of_le (hsets.rankLe i)

theorem Entered.aligned (haligned : ∀ l ∈ c.lists, Aligned c.cluster l.clusters) : ∃ later,
    (∃ list ∈ c'.lists, list.name = lt ∧ list.clusters = k :: later) ∧ Aligned c'.cluster later ∧
      ∀ l ∈ c'.lists, l.name = lt ∧ l.clusters = k :: later ∨ Aligned c'.cluster l.clusters := by
  have hkept : ∀ l ∈ c.lists, Aligned c'.cluster l.clusters := fun l hl =>
    (haligned l hl).congr fun j hj => by rw [h.other j (h.ne_of_mem (mem_live_of_mem hl hj))]
  obtain ⟨pre, list, post, heq, hname, heq'⟩ | ⟨pre, post, heq, hname, heq'⟩ := h.inserted
  · rw [heq] at hkept
    refine ⟨list.clusters, ⟨{ list with clusters := k :: list.clusters }, by rw [heq']; simp, hname.symm,
      rfl⟩, hkept list (by simp), fun l hl => ?_⟩
    rw [heq'] at hl
    obtain hl | hl := mem_append.1 hl
    · exact Or.inr (hkept l (mem_append_left _ hl))
    · obtain rfl | hl := mem_cons.1 hl
      · exact Or.inl ⟨hname.symm, rfl⟩
      · exact Or.inr (hkept l (mem_append_right _ (mem_cons_of_mem _ hl)))
  · rw [heq] at hkept
    refine ⟨[], ⟨⟨c.allocatedLists, [k], ⊤, none⟩, by rw [heq']; simp, hname.symm, rfl⟩, trivial,
      fun l hl => ?_⟩
    rw [heq'] at hl
    obtain hl | hl := mem_append.1 hl
    · exact Or.inr (hkept l (mem_append_left _ hl))
    · obtain rfl | hl := mem_cons.1 hl
      · exact Or.inl ⟨hname.symm, rfl⟩
      · exact Or.inr (hkept l (mem_append_right _ hl))

end Entered

/-! ## The whole insertion -/

/-- What holds between two iterations. Distances are in use from the iteration on that exceeds the
maximum number of clusters; as long as no clusters were merged there are none. -/
structure Inv (c : Clusterer W R F D n) : Prop where
  layout : Layout c
  names : Names c
  minima : Minima c
  sets : Sets c
  count : c.clCount = c.live.length
  le : c.clCount ≤ c.clItCount
  fresh : c.clCount = c.clItCount → ∀ k ∈ c.live, Fresh (c.cluster k)
  regime : c.clCount = c.clItCount ∧ c.clItCount ≤ c.maxClCount ∨
    c.clCount = c.maxClCount ∧ ∀ l ∈ c.lists, Aligned c.cluster l.clusters

structure Prepared (c : Clusterer W R F D n) : Prop where
  layout : Layout c
  names : Names c
  minima : Minima c
  sets : Sets c
  rankLt : ∀ i, c.rank i < c.clItCount
  count : c.clCount = c.live.length
  le : c.clCount ≤ c.clItCount
  regime : c.clCount = c.clItCount ∧ c.clItCount ≤ c.maxClCount ∧ (∀ k ∈ c.live, Fresh (c.cluster k)) ∨
    c.clCount = c.maxClCount + 1 ∧ c.maxClCount < c.clItCount ∧ ∀ l ∈ c.lists, Aligned c.cluster l.clusters

theorem Prepared.of (hlayout : Layout c) (hnames : Names c) (hminima : Minima c) (hsets : Sets c)
    (hrank : ∀ i, c.rank i < c.clItCount) (hcount : c.clCount + 1 = c.live.length)
    (hle : c.clCount + 1 ≤ c.clItCount) (hregime : c.clCount + 1 = c.clItCount ∧ c.clItCount ≤ c.maxClCount ∧
        (∀ k ∈ c.live, Fresh (c.cluster k)) ∨
      c.clCount = c.maxClCount ∧ c.maxClCount < c.clItCount ∧ ∀ l ∈ c.lists, Aligned c.cluster l.clusters) :
    Prepared { c with clCount := c.clCount + 1 } where
  layout := ⟨hlayout.names, hlayout.named, hlayout.nonempty, hlayout.live, hlayout.allocated⟩
  names := ⟨hnames.nodup, hnames.apart, hnames.unfree, hnames.free, hnames.bound, hnames.freeBound⟩
  minima := ⟨hminima.cluster, hminima.list, hminima.set⟩
  sets := ⟨hsets.ranked, hsets.rankLe, hsets.parents, hsets.roots, hsets.backs, hsets.total⟩
  rankLt := hrank
  count := hcount
  le := hle
  regime := by
    obtain ⟨hc, hm, hfresh⟩ | ⟨hc, hm, haligned⟩ := hregime
    · exact Or.inl ⟨hc, hm, hfresh⟩
    · exact Or.inr ⟨congrArg (· + 1) hc, hm, haligned⟩

theorem insertIteration_spec (h : Inv c) : ∃ s, insertIteration P c path = some s ∧ Prepared s ∧
    s.clItCount = c.clItCount + 1 ∧ s.maxClCount = c.maxClCount ∧ s.parent = c.parent := by
  obtain ⟨k, lt, c₁, hk, hinsert, hentered⟩ := @insertCluster_spec _ _ _ _ _ _ P c path h.layout
  obtain ⟨c₂, hc₂⟩ : ∃ c₂ : Clusterer W R F D n, c₂ = { c₁ with
      refVals := P.updateReferenceValues c₁.refVals (c₁.cluster k).metsAvg
      clItCount := c₁.clItCount + 1 } := ⟨_, rfl⟩
  have hstep : insertIteration P c path = some
      { (if c₂.maxClCount < c₂.clItCount then
          if c₂.clItCount = c₂.maxClCount + 1 then calculateDistances P c₂
          else calculateDistancesForNewCluster P k lt c₂
        else c₂) with clCount := (if c₂.maxClCount < c₂.clItCount then
          if c₂.clItCount = c₂.maxClCount + 1 then calculateDistances P c₂
          else calculateDistancesForNewCluster P k lt c₂
        else c₂).clCount + 1 } := by
    unfold insertIteration
    simp [hk, hinsert, hc₂]
  rw [← hc₂] at hentered
  have hlayout := hentered.layout h.layout
  have hnames := hentered.names h.names
  have hminima := hentered.minima h.minima
  have hsets := hentered.sets h.sets
  have hrank := hentered.rank_lt h.sets
  have hparent := hentered.parent h.sets
  have hlength : c₂.live.length = c.clCount + 1 := by
    rw [hentered.live.length_eq, length_cons, h.count]
  have hcount := hentered.clCount
  have hitCount := hentered.clItCount
  have hmax := hentered.maxClCount
  have hle := h.le
  rw [hstep]
  refine ⟨_, rfl, ?_⟩
  -- a state that only the distances set apart from the one with the new cluster
  have hfinish : ∀ c₃, SameClusters c₂ c₃ → Names c₃ → Minima c₃ →
      (c₂.maxClCount < c₂.clItCount → c₃.clCount = c₃.maxClCount ∧
        ∀ l ∈ c₃.lists, Aligned c₃.cluster l.clusters) →
      (¬c₂.maxClCount < c₂.clItCount → c₃.clCount + 1 = c₃.clItCount ∧ ∀ j ∈ c₃.live, Fresh (c₃.cluster j)) →
      Prepared { c₃ with clCount := c₃.clCount + 1 } ∧ c₃.clItCount = c.clItCount + 1 ∧
        c₃.maxClCount = c.maxClCount ∧ c₃.parent = c.parent := by
    intro c₃ hsame hnames₃ hminima₃ huse hquiet
    have hcount₃ := hsame.clCount
    have hitCount₃ := hsame.clItCount
    have hmax₃ := hsame.maxClCount
    refine ⟨Prepared.of (hsame.layout hlayout) hnames₃ hminima₃ (hsame.sets hsets) (fun i => ?_) ?_ ?_ ?_,
      by omega, by omega, ?_⟩
    · rw [hitCount₃, Clusterer.rank, hsame.iteration]
      exact hrank i
    · rw [hsame.live]
      omega
    · omega
    · by_cases hlt : c₂.maxClCount < c₂.clItCount
      · obtain ⟨hc, haligned⟩ := huse hlt
        exact Or.inr ⟨hc, by omega, haligned⟩
      · obtain ⟨hc, hfresh⟩ := hquiet hlt
        exact Or.inl ⟨hc, by omega, hfresh⟩
    · rw [← hparent]
      funext i
      rw [Clusterer.parent, Clusterer.parent, hsame.iteration]
  have hfresh : c.clCount = c.clItCount → ∀ j ∈ c₂.live, Fresh (c₂.cluster j) := by
    intro heq j hj
    obtain rfl | hj := hentered.mem_live.1 hj
    · exact hentered.fresh
    · rw [hentered.other j (hentered.ne_of_mem hj)]
      exact h.fresh heq j hj
  by_cases hlt : c₂.maxClCount < c₂.clItCount
  · by_cases hfirst : c₂.clItCount = c₂.maxClCount + 1
    · -- no clusters were merged so far
      have heq : c.clCount = c.clItCount := by
        obtain ⟨heq, -⟩ | ⟨heq, -⟩ := h.regime
        · exact heq
        · omega
      obtain ⟨hadvances, haligned⟩ := @calculateDistances_spec _ _ _ _ _ _ P c₂ hlayout hnames hminima
        (hfresh heq)
      have hmax₃ := hadvances.same.maxClCount
      have hcount₃ := hadvances.same.clCount
      rw [if_pos hlt, if_pos hfirst]
      exact hfinish _ hadvances.same hadvances.names hadvances.minima
        (fun _ => ⟨by omega, haligned⟩) (fun hnot => absurd hlt hnot)
    · have huse : c.clCount = c.maxClCount ∧ ∀ l ∈ c.lists, Aligned c.cluster l.clusters := by
        obtain ⟨heq, hquiet⟩ | huse := h.regime
        · omega
        · exact huse
      obtain ⟨later, ⟨list, hlist, rfl, hclusters⟩, hlater, hothers⟩ := hentered.aligned huse.2
      have hcalc := @calculateDistancesForNewCluster_spec _ _ _ _ _ _ P c₂ k [] later list hlayout hnames
        hminima hlist hclusters hentered.fresh
      have hmax₃ := hcalc.same.maxClCount
      have hcount₃ := hcalc.same.clCount
      have hk' := (hlayout.notMem_later hlist (show list.clusters = [] ++ k :: later from hclusters)).2
      rw [if_pos hlt, if_neg hfirst]
      refine hfinish _ hcalc.same hcalc.names hcalc.minima (fun _ => ⟨by omega, fun l hl => ?_⟩)
        (fun hnot => absurd hlt hnot)
      obtain ⟨l', hl', hname', hclusters'⟩ := exists_list_of_shape hcalc.same.shape.symm hl
      have hkeep : ∀ js, k ∉ js → Aligned c₂.cluster js →
          Aligned (calculateDistancesForNewCluster P k list.name c₂).cluster js := fun js hjs ha =>
        ha.congr fun j hj => by rw [hcalc.other j fun heq => hjs (by rw [← heq]; exact hj)]
      by_cases hl'eq : l' = list
      · rw [← hclusters', hl'eq, hclusters]
        exact ⟨hcalc.entries, hkeep later hk' hlater⟩
      · rw [← hclusters']
        obtain ⟨hname, -⟩ | ha := hothers l' hl'
        · exact absurd (hlayout.eq_of_name hlist hl' hname) hl'eq
        · refine hkeep _ (fun hmem => hl'eq ?_) ha
          exact hlayout.only hlist (by rw [hclusters]; exact mem_cons_self) l' hl' hmem
  · have heq : c.clCount = c.clItCount := by
      obtain ⟨heq, -⟩ | ⟨heq, -⟩ := h.regime
      · exact heq
      · omega
    rw [if_neg hlt]
    exact hfinish _ (.refl c₂) hnames hminima (fun hlt' => absurd hlt' hlt)
      (fun _ => ⟨by omega, hfresh heq⟩)

end ScoreP.Clustering
