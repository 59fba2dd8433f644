import ScoreP.Clustering.Merging

/-!
# Joining two disjoint sets

`addUp_spec` says what the sum of two clusters is and how their disjoint sets are linked (`Joins`).
`Joins.sets` carries the disjoint sets and the counts over to the state without the second cluster, and
`Joins.inCluster` says that its iterations now belong to the first one and the others where they were.
-/

namespace ScoreP.Clustering

open Foundations Clusterer Function List

variable {W R F D : Type} {n : ℕ} [LinearOrder D] {P : Profile W R F D n} {c c' : Clusterer W R F D n}
  {a b i k j r x y fuel : ℕ} {iteration : ℕ → ClusteredIteration}

/-- The iteration `i` belongs to the cluster `k`. -/
def InCluster (c : Clusterer W R F D n) (i k : ℕ) : Prop :=
  ∃ r, RootOf c.parent i r ∧ (c.iteration r).cluster = k

theorem Sets.root_lt (h : Sets c) (hi : i < c.clItCount) (hr : RootOf c.parent i r) : r < c.clItCount := by
  induction hr with
  | root _ => exact hi
  | step hp _ ih => exact ih (h.parents _ _ hp).2

/-! ## Linking two roots -/

structure Links (iteration : ℕ → ClusteredIteration) (root lost k : ℕ)
    (iteration' : ℕ → ClusteredIteration) : Prop where
  parent : (fun i => (iteration' i).parent) =
    update (fun i => (iteration i).parent) lost (some root)
  cluster : (iteration' root).cluster = k
  other : ∀ i, i ≠ root → (iteration' i).cluster = (iteration i).cluster
  rank : ∀ i, i ≠ root → (iteration' i).rank = (iteration i).rank
  rankRoot : (iteration root).rank ≤ (iteration' root).rank
  rankLe : (iteration' root).rank ≤ (iteration root).rank + 1
  rankLt : (iteration lost).rank < (iteration' root).rank

theorem linkRoots_links {it : ℕ → ClusteredIteration} (hne : x ≠ y)
    (hparent : ∀ i, (it i).parent = (iteration i).parent)
    (hcluster : ∀ i, (it i).cluster = (iteration i).cluster)
    (hrank : ∀ i, i ≠ x → (it i).rank = (iteration i).rank)
    (hrankRoot : (iteration x).rank ≤ (it x).rank) (hrankLe : (it x).rank ≤ (iteration x).rank + 1)
    (hrankLt : (iteration y).rank < (it x).rank) : Links iteration x y k (linkRoots it x y k) := by
  have hx : linkRoots it x y k x = { it x with cluster := k } := by
    simp only [linkRoots, update_self, update_of_ne hne]
  have hy : linkRoots it x y k y = { it y with parent := some x } := by
    simp only [linkRoots, update_self, update_of_ne hne.symm]
  have hother : ∀ i, i ≠ x → i ≠ y → linkRoots it x y k i = it i := fun i hix hiy => by
    simp only [linkRoots, update_of_ne hix, update_of_ne hiy]
  refine ⟨?_, by rw [hx], fun i hi => ?_, fun i hi => ?_, by rw [hx]; exact hrankRoot,
    by rw [hx]; exact hrankLe, by rw [hx]; exact hrankLt⟩
  · funext i
    by_cases hiy : i = y
    · rw [hiy, hy, update_self]
    · rw [update_of_ne hiy, ← hparent i]
      by_cases hix : i = x
      · rw [hix, hx]
      · rw [hother i hix hiy]
  · by_cases hiy : i = y
    · rw [hiy, hy]
      exact hcluster y
    · rw [hother i hi hiy]
      exact hcluster i
  · by_cases hiy : i = y
    · rw [hiy, hy]
      exact hrank y hne.symm
    · rw [hother i hi hiy]
      exact hrank i hi

theorem disjointSetLink_spec (hne : x ≠ y) : ∃ root lost iteration',
    disjointSetLink iteration x y k = (root, iteration') ∧
      (root = x ∧ lost = y ∨ root = y ∧ lost = x) ∧ Links iteration root lost k iteration' := by
  unfold disjointSetLink
  by_cases hlt : (iteration x).rank < (iteration y).rank
  · rw [if_pos hlt]
    exact ⟨y, x, _, rfl, Or.inr ⟨rfl, rfl⟩, linkRoots_links hne.symm (fun _ => rfl) (fun _ => rfl)
      (fun _ _ => rfl) (Nat.le_refl _) (Nat.le_succ _) hlt⟩
  · rw [if_neg hlt]
    by_cases heq : (iteration x).rank = (iteration y).rank
    · rw [if_pos heq]
      have hself : update iteration x { iteration x with rank := (iteration x).rank + 1 } x =
          { iteration x with rank := (iteration x).rank + 1 } := update_self _ _ _
      refine ⟨x, y, _, rfl, Or.inl ⟨rfl, rfl⟩, linkRoots_links hne (fun i => ?_) (fun i => ?_)
        (fun i hi => by rw [update_of_ne hi]) (by rw [hself]; exact Nat.le_succ _)
        (by rw [hself]) (by rw [hself, ← heq]; exact Nat.lt_succ_self _)⟩
      · by_cases hi : i = x
        · rw [hi, hself]
        · rw [update_of_ne hi]
      · by_cases hi : i = x
        · rw [hi, hself]
        · rw [update_of_ne hi]
    · rw [if_neg heq]
      exact ⟨x, y, _, rfl, Or.inl ⟨rfl, rfl⟩, linkRoots_links hne (fun _ => rfl) (fun _ => rfl)
        (fun _ _ => rfl) (Nat.le_refl _) (Nat.le_succ _) (by omega)⟩

/-! ## The sum of two clusters -/

/-- The cluster `b` is added up in the cluster `a`. -/
structure Joins (c : Clusterer W R F D n) (a b root lost : ℕ) (c' : Clusterer W R F D n) : Prop where
  links : Links c.iteration root lost a c'.iteration
  ends : root = (c.cluster a).disjointSet ∧ lost = (c.cluster b).disjointSet ∨
    root = (c.cluster b).disjointSet ∧ lost = (c.cluster a).disjointSet
  other : ∀ j, j ≠ a → c'.cluster j = c.cluster j
  d : (c'.cluster a).d = (c.cluster a).d
  minVal : (c'.cluster a).minVal = (c.cluster a).minVal
  minPos : (c'.cluster a).minPos = (c.cluster a).minPos
  iterationCount : (c'.cluster a).iterationCount = (c.cluster a).iterationCount + (c.cluster b).iterationCount
  disjointSet : (c'.cluster a).disjointSet = root
  rest : c' = { c with trees := c'.trees, cluster := c'.cluster, iteration := c'.iteration }

theorem Joins.distances {root lost : ℕ} (h : Joins c a b root lost c') (j : ℕ) :
    (c'.cluster j).d = (c.cluster j).d ∧ (c'.cluster j).minVal = (c.cluster j).minVal ∧
      (c'.cluster j).minPos = (c.cluster j).minPos := by
  by_cases hj : j = a
  · rw [hj]
    exact ⟨h.d, h.minVal, h.minPos⟩
  · rw [h.other j hj]
    exact ⟨rfl, rfl, rfl⟩

theorem Joins.minima {root lost : ℕ} (h : Joins c a b root lost c') (hminima : Minima c) : Minima c' := by
  have hset : c'.eqClLtSet = c.eqClLtSet := by rw [h.rest]
  have hlists : c'.lists = c.lists := by rw [Clusterer.lists, hset, Clusterer.lists]
  have hlive : c'.live = c.live := by rw [Clusterer.live, hlists, Clusterer.live]
  refine ⟨fun k hk => ?_, fun l hl => ?_, ?_⟩
  · obtain ⟨hd, hminVal, hminPos⟩ := h.distances k
    have hleast := hminima.cluster k (by rw [← hlive]; exact hk)
    unfold Cluster.Least at hleast ⊢
    rw [hd, hminVal, hminPos]
    exact hleast
  · rw [hlists] at hl
    exact (hminima.list l hl).congr (fun _ => Iff.rfl) fun k _ => (h.distances k).2.1
  · rw [hlists, hset]
    exact hminima.set

theorem getRoot_of_root (h : (iteration i).parent = none) :
    disjointSetGetRoot (fuel + 1) iteration i = some (i, iteration) := by
  simp [disjointSetGetRoot, h]

theorem Sets.ends_ne (h : Sets c) (ha : a ∈ c.live) (hb : b ∈ c.live) (hne : a ≠ b) :
    (c.cluster a).disjointSet ≠ (c.cluster b).disjointSet := by
  intro heq
  have hclusterA := (h.backs a ha).2.2
  rw [heq, (h.backs b hb).2.2] at hclusterA
  exact hne hclusterA.symm

theorem addUp_spec (h : Sets c) (ha : a ∈ c.live) (hb : b ∈ c.live) (hne : a ≠ b) :
    ∃ root lost c', addUp P c a b = some c' ∧ Joins c a b root lost c' := by
  have hrootA : (c.iteration (c.cluster a).disjointSet).parent = none := (h.backs a ha).2.1
  have hrootB : (c.iteration (c.cluster b).disjointSet).parent = none := (h.backs b hb).2.1
  obtain ⟨root, lost, iteration', hlink, hends, hlinks⟩ := @disjointSetLink_spec a
    (c.cluster a).disjointSet (c.cluster b).disjointSet c.iteration (h.ends_ne ha hb hne)
  have hrootA' : (c.iteration (addMetrics (c.cluster a) (c.cluster b)).disjointSet).parent = none :=
    hrootA
  have hsum : addUp P c a b = some { c with
      trees := P.mergeSubtree c.trees (addMetrics (c.cluster a) (c.cluster b)).root (c.cluster b).root
      cluster := update c.cluster a
        { addMetrics (c.cluster a) (c.cluster b) with disjointSet := root }
      iteration := iteration' } := by
    have hlink' : disjointSetLink c.iteration (addMetrics (c.cluster a) (c.cluster b)).disjointSet
        (c.cluster b).disjointSet a = (root, iteration') := hlink
    simp [addUp, getRoot_of_root hrootA', getRoot_of_root hrootB, hlink']
  refine ⟨root, lost, _, hsum, hlinks, hends, fun j hj => update_of_ne hj _ _, ?_, ?_, ?_, ?_, ?_, rfl⟩
  all_goals simp only [update_self, addMetrics]

/-! ## The sets without the second cluster -/

section Joins

variable {root lost : ℕ} (h : Joins c a b root lost c') (hsets : Sets c) (ha : a ∈ c.live)
  (hb : b ∈ c.live) (hne : a ≠ b)
include h hsets ha hb hne

theorem Joins.roots : root < c.clItCount ∧ lost < c.clItCount ∧ c.parent root = none ∧
    c.parent lost = none ∧ root ≠ lost := by
  obtain ⟨hltA, hrootA, -⟩ := hsets.backs a ha
  obtain ⟨hltB, hrootB, -⟩ := hsets.backs b hb
  have hends := hsets.ends_ne ha hb hne
  obtain ⟨rfl, rfl⟩ | ⟨rfl, rfl⟩ := h.ends
  · exact ⟨hltA, hltB, hrootA, hrootB, hends⟩
  · exact ⟨hltB, hltA, hrootB, hrootA, hends.symm⟩

theorem Joins.cluster_iff (hi : i < c.clItCount) (hroot : c.parent i = none) :
    (c.iteration i).cluster = a ∨ (c.iteration i).cluster = b ↔ i = root ∨ i = lost := by
  have hA := (hsets.backs a ha).2.2
  have hB := (hsets.backs b hb).2.2
  obtain ⟨hlive, hback⟩ := hsets.roots i hi hroot
  constructor
  · rintro (hcluster | hcluster)
    · rw [hcluster] at hback
      obtain ⟨rfl, rfl⟩ | ⟨rfl, rfl⟩ := h.ends
      · exact Or.inl hback.symm
      · exact Or.inr hback.symm
    · rw [hcluster] at hback
      obtain ⟨rfl, rfl⟩ | ⟨rfl, rfl⟩ := h.ends
      · exact Or.inr hback.symm
      · exact Or.inl hback.symm
  · obtain ⟨rfl, rfl⟩ | ⟨rfl, rfl⟩ := h.ends
    · rintro (rfl | rfl)
      · exact Or.inl hA
      · exact Or.inr hB
    · rintro (rfl | rfl)
      · exact Or.inr hB
      · exact Or.inl hA

theorem Joins.parent : c'.parent = update c.parent lost (some root) :=
  h.links.parent

theorem Joins.sets {c'' : Clusterer W R F D n} (hrank : ∀ i, c.rank i < c.clItCount)
    (hnodup : c.live.Nodup) (hlive : c.live.Perm (b :: c''.live))
    (hiteration : c''.iteration = c'.iteration) (hcount : c''.clItCount = c.clItCount)
    (hkeeps : ∀ j ∈ c''.live, (c'.cluster j).Keeps (c''.cluster j)) : Sets c'' := by
  obtain ⟨hrootLt, hlostLt, hrootNone, hlostNone, hrootNe⟩ := h.roots hsets ha hb hne
  have hmem : ∀ j, j ∈ c''.live ↔ j ∈ c.live ∧ j ≠ b := by
    intro j
    have hnot := (nodup_cons.1 (hlive.nodup_iff.1 hnodup)).1
    rw [hlive.mem_iff, mem_cons]
    constructor
    · intro hj
      refine ⟨Or.inr hj, ?_⟩
      rintro rfl
      exact hnot hj
    · rintro ⟨hj | hj, hjb⟩
      · exact absurd hj hjb
      · exact hj
  have hparent : c''.parent = update c.parent lost (some root) := by
    rw [← h.parent hsets ha hb hne]
    funext i
    rw [Clusterer.parent, Clusterer.parent, hiteration]
  have hrank' : ∀ i, i ≠ root → c''.rank i = c.rank i := fun i hi => by
    rw [Clusterer.rank, hiteration]
    exact h.links.rank i hi
  have hrankRoot : c''.rank root = (c'.iteration root).rank := by rw [Clusterer.rank, hiteration]
  have haLive : a ∈ c''.live := (hmem a).2 ⟨ha, hne⟩
  refine ⟨?_, fun i => ?_, fun i p hp => ?_, fun i hi hroot => ?_, fun j hj => ?_, ?_⟩
  · rw [hparent]
    refine ranked_link hsets.ranked hrootNone ?_ ?_ hrank' hrootNe
    · rw [hrankRoot]
      exact h.links.rankLt
    · rw [hrankRoot]
      exact h.links.rankRoot
  · rw [hcount]
    by_cases hi : i = root
    · have hle := h.links.rankLe
      have hlt := hrank root
      rw [hi, hrankRoot]
      unfold Clusterer.rank at hlt
      omega
    · rw [hrank' i hi]
      exact Nat.le_of_lt (hrank i)
  · rw [hparent] at hp
    rw [hcount]
    by_cases hi : i = lost
    · rw [hi, update_self] at hp
      rw [hi, ← Option.some.inj hp]
      exact ⟨hlostLt, hrootLt⟩
    · rw [update_of_ne hi] at hp
      exact hsets.parents i p hp
  · rw [hcount] at hi
    rw [hparent] at hroot
    have hilost : i ≠ lost := by
      rintro rfl
      rw [update_self] at hroot
      cases hroot
    rw [update_of_ne hilost] at hroot
    rw [hiteration]
    by_cases hir : i = root
    · rw [hir, h.links.cluster]
      refine ⟨haLive, ?_⟩
      rw [(hkeeps a haLive).disjointSet, h.disjointSet]
    · obtain ⟨hclusterLive, hback⟩ := hsets.roots i hi hroot
      have hneither : ¬((c.iteration i).cluster = a ∨ (c.iteration i).cluster = b) := by
        rw [h.cluster_iff hsets ha hb hne hi hroot]
        rintro (heq | heq)
        · exact hir heq
        · exact hilost heq
      rw [h.links.other i hir]
      have hin : (c.iteration i).cluster ∈ c''.live :=
        (hmem _).2 ⟨hclusterLive, fun heq => hneither (Or.inr heq)⟩
      refine ⟨hin, ?_⟩
      rw [(hkeeps _ hin).disjointSet, h.other _ fun heq => hneither (Or.inl heq)]
      exact hback
  · rw [hcount, hparent, hiteration, (hkeeps j hj).disjointSet]
    by_cases hja : j = a
    · rw [hja, h.disjointSet, h.links.cluster, update_of_ne hrootNe]
      exact ⟨hrootLt, hrootNone, rfl⟩
    · obtain ⟨hjLive, hjb⟩ := (hmem j).1 hj
      obtain ⟨hlt, hroot, hback⟩ := hsets.backs j hjLive
      have hneither : ¬((c.cluster j).disjointSet = root ∨ (c.cluster j).disjointSet = lost) := by
        rw [← h.cluster_iff hsets ha hb hne hlt hroot, hback]
        rintro (heq | heq)
        · exact hja heq
        · exact hjb heq
      rw [h.other j hja, update_of_ne fun heq => hneither (Or.inr heq),
        h.links.other _ fun heq => hneither (Or.inl heq)]
      exact ⟨hlt, hroot, hback⟩
  · have hperm : c''.live.Perm (a :: c''.live.erase a) := perm_cons_erase haLive
    have hnodup'' : c''.live.Nodup := (nodup_cons.1 (hlive.nodup_iff.1 hnodup)).2
    have haNot : a ∉ c''.live.erase a := (nodup_cons.1 (hperm.nodup_iff.1 hnodup'')).1
    have hrest : (c''.live.erase a).map (fun j => (c''.cluster j).iterationCount) =
        (c''.live.erase a).map fun j => (c.cluster j).iterationCount := by
      refine map_congr_left fun j hj => ?_
      have hja : j ≠ a := by
        rintro rfl
        exact haNot hj
      rw [(hkeeps j (mem_of_mem_erase hj)).iterationCount, h.other j hja]
    have htotal := hsets.total
    rw [(hlive.map _).sum_eq, map_cons, sum_cons, (hperm.map _).sum_eq, map_cons, sum_cons] at htotal
    rw [hcount, (hperm.map _).sum_eq, map_cons, sum_cons, hrest,
      (hkeeps a haLive).iterationCount, h.iterationCount]
    omega

theorem Joins.inCluster (hrank : ∀ i, c.rank i < c.clItCount) (hi : i < c.clItCount) :
    InCluster c' i k ↔ InCluster c i k ∧ k ≠ b ∨ InCluster c i b ∧ k = a := by
  obtain ⟨hrootLt, hlostLt, hrootNone, hlostNone, hrootNe⟩ := h.roots hsets ha hb hne
  have hlink : ∀ s, RootOf c'.parent i s ↔
      RootOf c.parent i lost ∧ s = root ∨ RootOf c.parent i s ∧ s ≠ lost := fun s => by
    rw [h.parent hsets ha hb hne]
    exact rootOf_link hsets.ranked hrank hrootNone hlostNone hrootNe
  have hends : (c.iteration root).cluster = a ∧ (c.iteration lost).cluster = b ∨
      (c.iteration root).cluster = b ∧ (c.iteration lost).cluster = a := by
    have hA := (hsets.backs a ha).2.2
    have hB := (hsets.backs b hb).2.2
    obtain ⟨rfl, rfl⟩ | ⟨rfl, rfl⟩ := h.ends
    · exact Or.inl ⟨hA, hB⟩
    · exact Or.inr ⟨hB, hA⟩
  -- an iteration with one of the two roots
  have hboth : ∀ s, RootOf c.parent i s → s = root ∨ s = lost → InCluster c i a ∨ InCluster c i b := by
    intro s hs hor
    obtain ⟨hra, hlb⟩ | ⟨hrb, hla⟩ := hends
    · obtain rfl | rfl := hor
      · exact Or.inl ⟨s, hs, hra⟩
      · exact Or.inr ⟨s, hs, hlb⟩
    · obtain rfl | rfl := hor
      · exact Or.inr ⟨s, hs, hrb⟩
      · exact Or.inl ⟨s, hs, hla⟩
  constructor
  · rintro ⟨s, hs, hcluster⟩
    have hjoined : s = root → k = a := by
      rintro rfl
      rw [← hcluster, h.links.cluster]
    obtain ⟨hs', hsr⟩ | ⟨hs', hsl⟩ := (hlink s).1 hs
    · rw [hjoined hsr]
      obtain hin | hin := hboth lost hs' (Or.inr rfl)
      · exact Or.inl ⟨hin, hne⟩
      · exact Or.inr ⟨hin, rfl⟩
    · by_cases hsr : s = root
      · rw [hjoined hsr]
        obtain hin | hin := hboth s hs' (Or.inl hsr)
        · exact Or.inl ⟨hin, hne⟩
        · exact Or.inr ⟨hin, rfl⟩
      · rw [h.links.other s hsr] at hcluster
        refine Or.inl ⟨⟨s, hs', hcluster⟩, fun hkb => ?_⟩
        have hor := (h.cluster_iff hsets ha hb hne (hsets.root_lt hi hs') hs'.isRoot).1
          (Or.inr (hcluster.trans hkb))
        exact hor.elim hsr hsl
  · have hto : ∀ s, RootOf c.parent i s → s = root ∨ s = lost → InCluster c' i a := by
      intro s hs hor
      refine ⟨root, (hlink root).2 ?_, h.links.cluster⟩
      obtain rfl | rfl := hor
      · exact Or.inr ⟨hs, hrootNe⟩
      · exact Or.inl ⟨hs, rfl⟩
    rintro (⟨⟨s, hs, hcluster⟩, hkb⟩ | ⟨⟨s, hs, hcluster⟩, rfl⟩)
    · by_cases hor : s = root ∨ s = lost
      · have hka : k = a := by
          have hab := (h.cluster_iff hsets ha hb hne (hsets.root_lt hi hs) hs.isRoot).2 hor
          rw [hcluster] at hab
          exact hab.resolve_right hkb
        rw [hka]
        exact hto s hs hor
      · have hsr : s ≠ root := fun heq => hor (Or.inl heq)
        have hsl : s ≠ lost := fun heq => hor (Or.inr heq)
        refine ⟨s, (hlink s).2 (Or.inr ⟨hs, hsl⟩), ?_⟩
        rw [h.links.other s hsr]
        exact hcluster
    · exact hto s hs ((h.cluster_iff hsets ha hb hne (hsets.root_lt hi hs) hs.isRoot).1 (Or.inr hcluster))

end Joins

end ScoreP.Clustering
