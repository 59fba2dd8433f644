import ScoreP.Clustering.Safety

/-!
# The order of the equivalence lists

`insert_cluster` relies on lists that are sorted by the hashes of their clusters. `addIterations_ordered`
says that every run keeps them so (`HashOrdered`), and `insertSorted_finds` that the two loops then find
a list whose first cluster matches, if its hash is the one of the new cluster.
-/

namespace ScoreP.Clustering

open Foundations Clusterer Function List

def Clusterer.hash {W R F D : Type} {n : ℕ} (c : Clusterer W R F D n) (k : ℕ) : UInt32 :=
  (c.cluster k).hash

variable {W R F D : Type} {n : ℕ} [LinearOrder D] {P : Profile W R F D n} {c c' s : Clusterer W R F D n}
  {k j lt b : ℕ} {list new : EquivClusterList D} {lists lists' : List (EquivClusterList D)} {path : R}
  {hash hash' : ℕ → UInt32} {groups : List (List ℕ)}

def groupsOf (lists : List (EquivClusterList D)) : List (List ℕ) :=
  lists.map EquivClusterList.clusters

structure HashOrdered (hash : ℕ → UInt32) (groups : List (List ℕ)) : Prop where
  same : ∀ g ∈ groups, ∀ k ∈ g, ∀ j ∈ g, hash k = hash j
  sorted : groups.Pairwise fun g g' => ∀ k ∈ g, ∀ j ∈ g', hash k ≤ hash j

theorem HashOrdered.congr (h : HashOrdered hash groups)
    (heq : ∀ g ∈ groups, ∀ k ∈ g, hash' k = hash k) : HashOrdered hash' groups where
  same := fun g hg k hk j hj => by
    rw [heq g hg k hk, heq g hg j hj]
    exact h.same g hg k hk j hj
  sorted := h.sorted.imp_of_mem fun {g g'} hg hg' hle k hk j hj => by
    rw [heq g hg k hk, heq g' hg' j hj]
    exact hle k hk j hj

theorem HashOrdered.erase (h : HashOrdered hash groups) (b : ℕ) :
    HashOrdered hash (groups.map fun g => g.erase b) where
  same := fun g hg k hk j hj => by
    obtain ⟨g', hg', rfl⟩ := mem_map.1 hg
    exact h.same g' hg' k (mem_of_mem_erase hk) j (mem_of_mem_erase hj)
  sorted := pairwise_map.2 <| h.sorted.imp fun hle k hk j hj =>
    hle k (mem_of_mem_erase hk) j (mem_of_mem_erase hj)

theorem hashOrdered_cons {g : List ℕ} : HashOrdered hash (g :: groups) ↔
    (∀ k ∈ g, ∀ j ∈ g, hash k = hash j) ∧ (∀ g' ∈ groups, ∀ k ∈ g, ∀ j ∈ g', hash k ≤ hash j) ∧
      HashOrdered hash groups := by
  constructor
  · intro h
    obtain ⟨hle, hsorted⟩ := pairwise_cons.1 h.sorted
    exact ⟨h.same g mem_cons_self, hle,
      ⟨fun g' hg' => h.same g' (mem_cons_of_mem g hg'), hsorted⟩⟩
  · rintro ⟨hsame, hle, h⟩
    exact ⟨forall_mem_cons.2 ⟨hsame, h.same⟩, pairwise_cons.2 ⟨hle, h.sorted⟩⟩

/-! ## Where a cluster is inserted -/

theorem Inserted.mem_groups (h : Inserted k new lists lt lists') (hnew : new.clusters = [k])
    {g : List ℕ} (hg : g ∈ groupsOf lists') (hj : j ∈ g) : j = k ∨ ∃ g ∈ groupsOf lists, j ∈ g := by
  obtain ⟨l, hl, rfl⟩ := mem_map.1 hg
  rcases h.mem hl with hold | ⟨list, hlist, -, rfl⟩ | ⟨rfl, -⟩
  · exact .inr ⟨l.clusters, mem_map_of_mem hold, hj⟩
  · rcases mem_cons.1 hj with rfl | hj
    · exact .inl rfl
    · exact .inr ⟨list.clusters, mem_map_of_mem hlist, hj⟩
  · rw [hnew, mem_singleton] at hj
    exact .inl hj

theorem insertEqual_ordered (h : HashOrdered c.hash (groupsOf lists))
    (hne : ∀ l ∈ lists, l.clusters ≠ []) (hnew : new.clusters = [k])
    (hge : ∀ g ∈ groupsOf lists, ∀ j ∈ g, c.hash k ≤ c.hash j)
    (hinsert : insertEqual P c k new lists = some (lt, lists')) : HashOrdered c.hash (groupsOf lists') := by
  induction lists generalizing lt lists' with
  | nil =>
    cases hinsert
    unfold groupsOf
    rw [map_singleton, hnew]
    refine hashOrdered_cons.2 ⟨fun x hx y hy => ?_, fun g hg => (not_mem_nil hg).elim, ?_⟩
    · rw [mem_singleton.1 hx, mem_singleton.1 hy]
    · exact ⟨fun g hg => (not_mem_nil hg).elim, .nil⟩
  | cons list lists ih =>
    obtain ⟨hsame, hle, hrest⟩ := hashOrdered_cons.1 h
    obtain ⟨hgeList, hgeRest⟩ := forall_mem_cons.1 hge
    obtain ⟨head, tail, hclusters⟩ := exists_cons_of_ne_nil (hne list mem_cons_self)
    have hhead : head ∈ list.clusters := by
      rw [hclusters]
      exact mem_cons_self
    simp only [insertEqual, hclusters] at hinsert
    by_cases hhash : (c.cluster head).hash = (c.cluster k).hash
    · have hk : ∀ x ∈ list.clusters, c.hash x = c.hash k := fun x hx =>
        (hsame x hx head hhead).trans hhash
      rw [if_pos hhash] at hinsert
      by_cases hcompare : P.compareCallTrees c.trees (c.cluster head).root (c.cluster k).root
          (c.cluster head).iterationCount (c.cluster k).iterationCount = true
      · rw [if_pos hcompare, ← hclusters] at hinsert
        cases hinsert
        refine hashOrdered_cons.2 ⟨?_, fun g hg x hx => ?_, hrest⟩
        · have hall : ∀ x ∈ k :: list.clusters, c.hash x = c.hash k :=
            forall_mem_cons.2 ⟨rfl, hk⟩
          exact fun x hx y hy => (hall x hx).trans (hall y hy).symm
        · rcases mem_cons.1 hx with rfl | hx
          · exact hgeRest g hg
          · exact hle g hg x hx
      · rw [if_neg hcompare] at hinsert
        obtain ⟨⟨lt₁, lists₁⟩, hinner, heq⟩ := Option.map_eq_some_iff.1 hinsert
        cases heq
        obtain ⟨lt₂, lists₂, hspec, hinserted⟩ := @insertEqual_spec _ _ _ _ _ _ P c k new lists
          fun l hl => hne l (mem_cons_of_mem list hl)
        rw [hspec] at hinner
        cases hinner
        refine hashOrdered_cons.2 ⟨hsame, fun g hg x hx y hy => ?_,
          ih hrest (fun l hl => hne l (mem_cons_of_mem list hl)) hgeRest hspec⟩
        rcases hinserted.mem_groups hnew hg hy with rfl | ⟨g', hg', hy⟩
        · rw [hk x hx]
          exact UInt32.le_refl _
        · exact hle g' hg' x hx y hy
    · rw [if_neg hhash] at hinsert
      cases hinsert
      unfold groupsOf
      rw [map_cons, hnew]
      refine hashOrdered_cons.2 ⟨fun x hx y hy => ?_, fun g hg x hx => ?_, h⟩
      · rw [mem_singleton.1 hx, mem_singleton.1 hy]
      · rw [mem_singleton.1 hx]
        exact hge g hg

theorem insertSorted_ordered (h : HashOrdered c.hash (groupsOf lists))
    (hne : ∀ l ∈ lists, l.clusters ≠ []) (hnew : new.clusters = [k])
    (hinsert : insertSorted P c k new lists = some (lt, lists')) : HashOrdered c.hash (groupsOf lists') := by
  induction lists generalizing lt lists' with
  | nil =>
    exact insertEqual_ordered h hne hnew (fun g hg => (not_mem_nil hg).elim) hinsert
  | cons list lists ih =>
    obtain ⟨hsame, hle, hrest⟩ := hashOrdered_cons.1 h
    obtain ⟨head, tail, hclusters⟩ := exists_cons_of_ne_nil (hne list mem_cons_self)
    have hhead : head ∈ list.clusters := by
      rw [hclusters]
      exact mem_cons_self
    simp only [insertSorted, hclusters] at hinsert
    by_cases hlt : (c.cluster head).hash < (c.cluster k).hash
    · rw [if_pos hlt] at hinsert
      obtain ⟨⟨lt₁, lists₁⟩, hinner, heq⟩ := Option.map_eq_some_iff.1 hinsert
      cases heq
      obtain ⟨lt₂, lists₂, hspec, hinserted⟩ := @insertSorted_spec _ _ _ _ _ _ P c k new lists
        fun l hl => hne l (mem_cons_of_mem list hl)
      rw [hspec] at hinner
      cases hinner
      refine hashOrdered_cons.2 ⟨hsame, fun g hg x hx y hy => ?_,
        ih hrest (fun l hl => hne l (mem_cons_of_mem list hl)) hspec⟩
      rcases hinserted.mem_groups hnew hg hy with rfl | ⟨g', hg', hy⟩
      · rw [hsame x hx head hhead]
        exact UInt32.le_of_lt hlt
      · exact hle g' hg' x hx y hy
    · rw [if_neg hlt] at hinsert
      have hge : c.hash k ≤ c.hash head := UInt32.not_lt.1 hlt
      refine insertEqual_ordered h hne hnew (fun g hg y hy => ?_) hinsert
      refine UInt32.le_trans hge ?_
      rcases mem_cons.1 hg with rfl | hg
      · rw [hsame head hhead y hy]
        exact UInt32.le_refl _
      · exact hle g hg head hhead y hy

/-! ## What is found -/

def Matching (P : Profile W R F D n) (c : Clusterer W R F D n) (k : ℕ) (list : EquivClusterList D) : Prop :=
  ∃ head tail, list.clusters = head :: tail ∧ c.hash head = c.hash k ∧
    P.compareCallTrees c.trees (c.cluster head).root (c.cluster k).root
      (c.cluster head).iterationCount (c.cluster k).iterationCount = true

omit [LinearOrder D] in
theorem insertEqual_finds (h : HashOrdered c.hash (groupsOf lists)) (hne : ∀ l ∈ lists, l.clusters ≠ [])
    (hge : ∀ g ∈ groupsOf lists, ∀ j ∈ g, c.hash k ≤ c.hash j) (hlist : list ∈ lists)
    (hmatch : Matching P c k list) : ∃ l ∈ lists, Matching P c k l ∧
      ∃ lists', insertEqual P c k new lists = some (l.name, lists') := by
  induction lists with
  | nil => exact (not_mem_nil hlist).elim
  | cons first lists ih =>
    obtain ⟨hsame, hle, hrest⟩ := hashOrdered_cons.1 h
    obtain ⟨hgeFirst, hgeRest⟩ := forall_mem_cons.1 hge
    obtain ⟨head, tail, hclusters⟩ := exists_cons_of_ne_nil (hne first mem_cons_self)
    have hhead : head ∈ first.clusters := by
      rw [hclusters]
      exact mem_cons_self
    simp only [insertEqual, hclusters]
    -- the hashes up to the matching list are neither lower nor higher than the one of `k`
    have hhash : (c.cluster head).hash = (c.cluster k).hash := by
      obtain ⟨head', tail', hclusters', hhash', -⟩ := hmatch
      have hhead' : head' ∈ list.clusters := by
        rw [hclusters']
        exact mem_cons_self
      refine UInt32.le_antisymm ?_ (hgeFirst head hhead)
      rcases mem_cons.1 hlist with rfl | hlist
      · exact UInt32.le_of_eq ((hsame head hhead head' hhead').trans hhash')
      · have hlower := hle list.clusters (mem_map_of_mem hlist) head hhead head' hhead'
        rw [hhash'] at hlower
        exact hlower
    rw [if_pos hhash]
    by_cases hcompare : P.compareCallTrees c.trees (c.cluster head).root (c.cluster k).root
        (c.cluster head).iterationCount (c.cluster k).iterationCount = true
    · rw [if_pos hcompare]
      exact ⟨first, mem_cons_self, ⟨head, tail, hclusters, hhash, hcompare⟩, _, rfl⟩
    · rw [if_neg hcompare]
      have hlist : list ∈ lists := by
        rcases mem_cons.1 hlist with rfl | hlist
        · obtain ⟨head', tail', hclusters', -, hcompare'⟩ := hmatch
          rw [hclusters] at hclusters'
          cases hclusters'
          exact absurd hcompare' hcompare
        · exact hlist
      obtain ⟨l, hl, hmatch, lists', heq⟩ := ih hrest
        (fun l hl => hne l (mem_cons_of_mem first hl)) hgeRest hlist
      rw [heq]
      exact ⟨l, mem_cons_of_mem first hl, hmatch, _, rfl⟩

omit [LinearOrder D] in
theorem insertSorted_finds (h : HashOrdered c.hash (groupsOf lists)) (hne : ∀ l ∈ lists, l.clusters ≠ [])
    (hlist : list ∈ lists) (hmatch : Matching P c k list) : ∃ l ∈ lists, Matching P c k l ∧
      ∃ lists', insertSorted P c k new lists = some (l.name, lists') := by
  induction lists with
  | nil => exact (not_mem_nil hlist).elim
  | cons first lists ih =>
    obtain ⟨hsame, hle, hrest⟩ := hashOrdered_cons.1 h
    obtain ⟨head, tail, hclusters⟩ := exists_cons_of_ne_nil (hne first mem_cons_self)
    have hhead : head ∈ first.clusters := by
      rw [hclusters]
      exact mem_cons_self
    simp only [insertSorted, hclusters]
    by_cases hlt : (c.cluster head).hash < (c.cluster k).hash
    · rw [if_pos hlt]
      have hlist : list ∈ lists := by
        rcases mem_cons.1 hlist with rfl | hlist
        · obtain ⟨head', tail', hclusters', hhash', -⟩ := hmatch
          rw [hclusters] at hclusters'
          cases hclusters'
          exact absurd hlt (UInt32.not_lt.2 (UInt32.le_of_eq hhash'.symm))
        · exact hlist
      obtain ⟨l, hl, hmatch, lists', heq⟩ := ih hrest
        (fun l hl => hne l (mem_cons_of_mem first hl)) hlist
      rw [heq]
      exact ⟨l, mem_cons_of_mem first hl, hmatch, _, rfl⟩
    · rw [if_neg hlt]
      refine insertEqual_finds h hne (fun g hg y hy => ?_) hlist hmatch
      refine UInt32.le_trans (UInt32.not_lt.1 hlt) ?_
      rcases mem_cons.1 hg with rfl | hg
      · rw [show (c.cluster head).hash = c.hash y from hsame head hhead y hy]
        exact UInt32.le_refl _
      · exact hle g hg head hhead y hy

/-! ## What keeps the hashes -/

theorem updateDistance_hash {cl cl' : Cluster R D n} {pos source target : ℕ} {value : D}
    (h : cl.updateDistance pos value source target = some cl') : cl'.hash = cl.hash := by
  unfold Cluster.updateDistance at h
  split at h
  · exact nomatch h
  · cases h
    split_ifs <;> rfl

theorem dropDistance_hash {cl cl' : Cluster R D n} {pos name : ℕ}
    (h : cl.dropDistance pos = some (name, cl')) : cl'.hash = cl.hash := by
  unfold Cluster.dropDistance at h
  split at h
  · exact nomatch h
  · cases h
    dsimp only
    split_ifs <;> rfl

omit [LinearOrder D] in
theorem setCluster_hash (c : Clusterer W R F D n) {cl : Cluster R D n} (h : cl.hash = c.hash k) :
    (c.setCluster k cl).hash = c.hash := by
  funext j
  unfold Clusterer.hash Clusterer.setCluster
  dsimp only
  by_cases hj : j = k
  · rw [hj, update_self]
    exact h
  · rw [update_of_ne hj]

omit [LinearOrder D] in
theorem addUp_hash {a : ℕ} (h : addUp P c a b = some c') : c'.hash = c.hash := by
  unfold addUp at h
  dsimp only at h
  split at h
  · exact nomatch h
  · split at h
    · exact nomatch h
    · cases h
      exact setCluster_hash c rfl

theorem updateBefore_hash {a ctrA ctrDiff ctrCl : ℕ} {before : List ℕ}
    (h : updateBefore P a ctrA ctrDiff before ctrCl c = some c') : c'.hash = c.hash := by
  induction before generalizing c ctrCl with
  | nil =>
    cases h
    rfl
  | cons cl before ih =>
    rw [updateBefore] at h
    split at h
    · cases h
    · rename_i updated hupdated
      split at h
      · cases h
      · rename_i name dropped hdropped
        rw [ih h]
        exact setCluster_hash c ((dropDistance_hash hdropped).trans (updateDistance_hash hupdated))

theorem dropBetween_hash {ctrDiff ctrCl : ℕ} {between : List ℕ}
    (h : dropBetween ctrDiff between ctrCl c = some c') : c'.hash = c.hash := by
  induction between generalizing c ctrCl with
  | nil =>
    cases h
    rfl
  | cons cl between ih =>
    rw [dropBetween] at h
    split at h
    · cases h
    · rename_i name dropped hdropped
      rw [ih h]
      exact setCluster_hash c (dropDistance_hash hdropped)

theorem refreshDistances_hash {a : ℕ} {later : List ℕ} (h : refreshDistances P c a later = some c') :
    c'.hash = c.hash := by
  unfold refreshDistances at h
  split at h
  · exact nomatch h
  · cases h
    exact setCluster_hash c rfl

theorem mergeClusters_hash {a ctrDiff : ℕ} {clusters : List ℕ}
    (h : mergeClusters P c lt a b ctrDiff clusters = some c') : c'.hash = c.hash := by
  unfold mergeClusters at h
  dsimp only at h
  split at h
  · exact nomatch h
  · rename_i c₁ hadd
    split at h
    · exact nomatch h
    · rename_i c₂ hbefore
      split at h
      · exact nomatch h
      · rename_i c₃ hbetween
        split at h
        · exact nomatch h
        · rename_i c₄ hrefresh
          cases h
          calc c₄.hash = (c₃.deleteCluster lt b).hash := refreshDistances_hash hrefresh
            _ = c₃.hash := setCluster_hash c₃ rfl
            _ = c₂.hash := dropBetween_hash hbetween
            _ = c₁.hash := updateBefore_hash hbefore
            _ = c.hash := addUp_hash hadd

theorem mergeClosest_hash {a : ℕ} (h : mergeClosest P c = some (a, b, c')) : c'.hash = c.hash := by
  unfold mergeClosest at h
  split at h
  · exact nomatch h
  · split at h
    · exact nomatch h
    · split at h
      · exact nomatch h
      · split at h
        · exact nomatch h
        · obtain ⟨c₁, hmerge, heq⟩ := Option.map_eq_some_iff.1 h
          cases heq
          exact mergeClusters_hash hmerge

omit [LinearOrder D] in
theorem groupsOf_eq_shape (c : Clusterer W R F D n) : groupsOf c.lists = c.shape.map Prod.snd := by
  rw [groupsOf, Clusterer.shape, map_map]
  rfl

theorem Reduces.ordered (hreduces : Reduces P c c') (h : HashOrdered c.hash (groupsOf c.lists)) :
    HashOrdered c'.hash (groupsOf c'.lists) := by
  cases hreduces with
  | keep => exact h
  | grow => exact h
  | merge hlt hmerge hclosest hmerged =>
    rename_i a b
    rw [mergeClosest_hash hmerge, groupsOf_eq_shape, hmerged.clusters, map_map]
    rw [groupsOf_eq_shape] at h
    have herase := h.erase b
    rw [map_map] at herase
    exact herase

omit [LinearOrder D] in
theorem fillDistances_hash (c : Clusterer W R F D n) (later : List ℕ) : (fillDistances P k later c).2.hash = c.hash ∧
    (fillDistances P k later c).2.eqClLtSet = c.eqClLtSet := by
  induction later generalizing c with
  | nil => exact ⟨rfl, rfl⟩
  | cons cl later ih =>
    have htake : c.newClusterDistance.2.hash = c.hash ∧ c.newClusterDistance.2.eqClLtSet = c.eqClLtSet := by
      unfold newClusterDistance
      split <;> exact ⟨rfl, rfl⟩
    rw [fillDistances]
    exact ⟨(ih _).1.trans htake.1, (ih _).2.trans htake.2⟩

theorem noteMinimum_groups {minVal : WithTop D} (set : EquivClusterListSet D) :
    groupsOf (noteMinimum lt k minVal set).lists = groupsOf set.lists := by
  have hmap : groupsOf (set.lists.map fun list =>
      if list.name = lt then { list with minVal := minVal, minPos := some k } else list) =
        groupsOf set.lists := by
    unfold groupsOf
    rw [map_map]
    refine map_congr_left fun l hl => ?_
    rw [Function.comp_apply]
    split_ifs <;> rfl
  unfold noteMinimum
  split
  · rfl
  · split_ifs
    · exact hmap
    · exact hmap
    · rfl

theorem calculateDistancesForNewCluster_hash (c : Clusterer W R F D n) (k lt : ℕ) :
    (calculateDistancesForNewCluster P k lt c).hash = c.hash ∧
    groupsOf (calculateDistancesForNewCluster P k lt c).lists = groupsOf c.lists := by
  unfold calculateDistancesForNewCluster
  split
  · exact ⟨rfl, rfl⟩
  · rename_i list hlist
    obtain ⟨hhash, hset⟩ := @fillDistances_hash _ _ _ _ _ P k c (nextClusters k list.clusters)
    constructor
    · rw [← hhash]
      exact setCluster_hash _ rfl
    · unfold Clusterer.lists
      rw [noteMinimum_groups]
      dsimp only [setCluster]
      rw [hset]

theorem calculateDistances_hash (c : Clusterer W R F D n) : (calculateDistances P c).hash = c.hash ∧
    groupsOf (calculateDistances P c).lists = groupsOf c.lists := by
  have hinner : ∀ (lt : ℕ) (clusters : List ℕ) (c' : Clusterer W R F D n),
      (clusters.foldl (fun c k => calculateDistancesForNewCluster P k lt c) c').hash = c'.hash ∧
        groupsOf (clusters.foldl (fun c k => calculateDistancesForNewCluster P k lt c) c').lists =
          groupsOf c'.lists := by
    intro lt clusters
    induction clusters with
    | nil => exact fun c' => ⟨rfl, rfl⟩
    | cons k clusters ih =>
      intro c'
      obtain ⟨hhash, hgroups⟩ := ih (calculateDistancesForNewCluster P k lt c')
      have hstep := @calculateDistancesForNewCluster_hash _ _ _ _ _ _ P c' k lt
      exact ⟨hhash.trans hstep.1, hgroups.trans hstep.2⟩
  have houter : ∀ (lists : List (EquivClusterList D)) (c' : Clusterer W R F D n), (lists.foldl (fun c lt =>
        lt.clusters.foldl (fun c k => calculateDistancesForNewCluster P k lt.name c) c) c').hash = c'.hash ∧
        groupsOf (lists.foldl (fun c lt =>
          lt.clusters.foldl (fun c k => calculateDistancesForNewCluster P k lt.name c) c) c').lists =
            groupsOf c'.lists := by
    intro lists
    induction lists with
    | nil => exact fun c' => ⟨rfl, rfl⟩
    | cons lt lists ih =>
      intro c'
      obtain ⟨hhash, hgroups⟩ := ih
        (lt.clusters.foldl (fun c k => calculateDistancesForNewCluster P k lt.name c) c')
      obtain ⟨hhash', hgroups'⟩ := hinner lt.name lt.clusters c'
      exact ⟨hhash.trans hhash', hgroups.trans hgroups'⟩
  exact houter c.lists c

/-! ## The run -/

theorem newCluster_ordered (h : HashOrdered c.hash (groupsOf c.lists)) (hlayout : Layout c) :
    (c.newCluster P path).1 ∉ c.live ∧ (c.newCluster P path).2.lists = c.lists ∧
      (∀ j, j ≠ (c.newCluster P path).1 → (c.newCluster P path).2.cluster j = c.cluster j) ∧
      HashOrdered (c.newCluster P path).2.hash (groupsOf c.lists) := by
  obtain ⟨k, free, allocated, htake, hnodup, -⟩ := takeCluster_spec hlayout
  have hk : k ∉ c.live := fun hmem =>
    (nodup_cons.1 hnodup).1 (mem_append_left _ hmem)
  have hother : ∀ j, j ≠ k → (c.newCluster P path).2.cluster j = c.cluster j := by
    intro j hj
    simp only [newCluster, htake]
    exact update_of_ne hj _ _
  have hname : (c.newCluster P path).1 = k := by simp [newCluster, htake]
  have hlists : (c.newCluster P path).2.lists = c.lists := by
    simp [Clusterer.lists, newCluster, htake]
  rw [hname]
  refine ⟨hk, hlists, hother, h.congr fun g hg j hj => ?_⟩
  obtain ⟨l, hl, rfl⟩ := mem_map.1 hg
  unfold Clusterer.hash
  rw [hother j fun heq => hk (by rw [← heq]; exact mem_live_of_mem hl hj)]

theorem insertIteration_ordered (h : HashOrdered c.hash (groupsOf c.lists)) (hlayout : Layout c)
    (hinsert : insertIteration P c path = some s) : HashOrdered s.hash (groupsOf s.lists) := by
  obtain ⟨-, hlists, -, hordered⟩ := @newCluster_ordered _ _ _ _ _ _ P c path h hlayout
  unfold insertIteration at hinsert
  dsimp only at hinsert
  split at hinsert
  · exact nomatch hinsert
  · rename_i lt c₁ hcluster
    cases hinsert
    have hordered₁ : HashOrdered c₁.hash (groupsOf c₁.lists) := by
      unfold insertCluster at hcluster
      split at hcluster
      · exact nomatch hcluster
      · rename_i lt₁ lists₁ hsorted
        cases hcluster
        rw [← hlists] at hordered
        have hnonempty : ∀ l ∈ (c.newCluster P path).2.lists, l.clusters ≠ [] := by
          rw [hlists]
          exact hlayout.nonempty
        have hresult := insertSorted_ordered hordered hnonempty rfl hsorted
        exact hresult
    have hkeep : ∀ c₂ c₃ : Clusterer W R F D n, c₃.hash = c₂.hash ∧ groupsOf c₃.lists = groupsOf c₂.lists →
        HashOrdered c₂.hash (groupsOf c₂.lists) → HashOrdered c₃.hash (groupsOf c₃.lists) := by
      intro c₂ c₃ hsame hordered₂
      rw [hsame.1, hsame.2]
      exact hordered₂
    split_ifs
    · exact hkeep _ _ (calculateDistances_hash _) hordered₁
    · exact hkeep _ _ (calculateDistancesForNewCluster_hash _ _ _) hordered₁
    · exact hordered₁

theorem addIterations_ordered {max : ℕ} (hruns : Runs max c) (h : HashOrdered c.hash (groupsOf c.lists))
    (paths : List R) (hrun : addIterations P paths c = some c') :
    Runs max c' ∧ HashOrdered c'.hash (groupsOf c'.lists) := by
  induction paths generalizing c with
  | nil =>
    cases hrun
    exact ⟨hruns, h⟩
  | cons path paths ih =>
    obtain ⟨s, c₁, hinsert, -, hstep, hreduces, hruns₁, -⟩ :=
      @addIterToClustering_spec _ _ _ _ _ _ P c max hruns path
    simp only [addIterations, hstep] at hrun
    exact ih hruns₁ (hreduces.ordered (insertIteration_ordered h hruns.inv.layout hinsert)) hrun

end ScoreP.Clustering
