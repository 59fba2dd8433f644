import Mathlib.Data.List.Nodup
import ScoreP.Clustering.Distances
import ScoreP.Foundations.Buckets

/-!
# The distances of new clusters

`Layout`, `Names` and `Minima` are what holds of the lists, of the distance objects and of the noted
minima at any time. `calculateDistancesForNewCluster_spec` says that a cluster without distances gets one
for each cluster after it (`EntriesFor`), `calculateDistances_spec` that all of them do.
-/

namespace ScoreP.Clustering

open Foundations Clusterer Function List

variable {W R F D : Type} {n : ℕ} [LinearOrder D] {P : Profile W R F D n} {c c' c'' : Clusterer W R F D n}
  {k j lt : ℕ} {pre later clusters : List ℕ} {list : EquivClusterList D}

namespace Clusterer

def lists (c : Clusterer W R F D n) : List (EquivClusterList D) := c.eqClLtSet.lists

def live (c : Clusterer W R F D n) : List ℕ := c.lists.flatMap EquivClusterList.clusters

def names (c : Clusterer W R F D n) (k : ℕ) : List ℕ := (c.cluster k).d.map Distance.name

def shape (c : Clusterer W R F D n) : List (ℕ × List ℕ) :=
  c.lists.map fun list => (list.name, list.clusters)

end Clusterer

structure Layout (c : Clusterer W R F D n) : Prop where
  names : (c.lists.map EquivClusterList.name).Nodup
  named : ∀ list ∈ c.lists, list.name < c.allocatedLists
  nonempty : ∀ list ∈ c.lists, list.clusters ≠ []
  live : (c.live ++ c.freeClusters).Nodup
  allocated : ∀ k ∈ c.live ++ c.freeClusters, k < c.allocatedClusters

structure Names (c : Clusterer W R F D n) : Prop where
  nodup : ∀ k ∈ c.live, (c.names k).Nodup
  apart : ∀ k ∈ c.live, ∀ j ∈ c.live, ∀ x ∈ c.names k, x ∈ c.names j → k = j
  unfree : ∀ k ∈ c.live, ∀ x ∈ c.names k, x ∉ c.freeClusterDistances
  free : c.freeClusterDistances.Nodup
  bound : ∀ k ∈ c.live, ∀ x ∈ c.names k, x < c.allocatedDistances
  freeBound : ∀ x ∈ c.freeClusterDistances, x < c.allocatedDistances

structure Minima (c : Clusterer W R F D n) : Prop where
  cluster : ∀ k ∈ c.live, (c.cluster k).Least
  list : ∀ list ∈ c.lists,
    LeastAt (fun k => (c.cluster k).minVal) id list.clusters (list.minVal, list.minPos)
  set : LeastAt EquivClusterList.minVal EquivClusterList.name c.lists
    (c.eqClLtSet.minVal, c.eqClLtSet.minPos)

structure EntriesFor (d : List (Distance D)) (k : ℕ) (later : List ℕ) : Prop where
  targets : d.map Distance.target = later
  sources : ∀ e ∈ d, e.source = k
  finite : ∀ e ∈ d, e.value ≠ ⊤

def Aligned (cluster : ℕ → Cluster R D n) : List ℕ → Prop
  | [] => True
  | k :: later => EntriesFor (cluster k).d k later ∧ Aligned cluster later

def Fresh (cl : Cluster R D n) : Prop :=
  cl.d = [] ∧ cl.minVal = ⊤

structure SameClusters (c c' : Clusterer W R F D n) : Prop where
  shape : c'.shape = c.shape
  cluster : ∀ k, (c.cluster k).Keeps (c'.cluster k)
  iteration : c'.iteration = c.iteration
  maxClCount : c'.maxClCount = c.maxClCount
  clCount : c'.clCount = c.clCount
  clItCount : c'.clItCount = c.clItCount
  freeClusters : c'.freeClusters = c.freeClusters
  allocatedClusters : c'.allocatedClusters = c.allocatedClusters
  allocatedLists : c'.allocatedLists = c.allocatedLists

theorem SameClusters.refl (c : Clusterer W R F D n) : SameClusters c c :=
  ⟨rfl, fun _ => .refl _, rfl, rfl, rfl, rfl, rfl, rfl, rfl⟩

theorem SameClusters.trans (h : SameClusters c c') (h' : SameClusters c' c'') : SameClusters c c'' where
  shape := h'.shape.trans h.shape
  cluster := fun k => (h.cluster k).trans (h'.cluster k)
  iteration := h'.iteration.trans h.iteration
  maxClCount := h'.maxClCount.trans h.maxClCount
  clCount := h'.clCount.trans h.clCount
  clItCount := h'.clItCount.trans h.clItCount
  freeClusters := h'.freeClusters.trans h.freeClusters
  allocatedClusters := h'.allocatedClusters.trans h.allocatedClusters
  allocatedLists := h'.allocatedLists.trans h.allocatedLists

/-! ## The lists -/

theorem live_eq_shape : c.live = c.shape.flatMap Prod.snd := by
  rw [Clusterer.live, Clusterer.shape, flatMap_map]

theorem mem_live_of_mem (hlist : list ∈ c.lists) (hk : k ∈ list.clusters) : k ∈ c.live :=
  mem_flatMap.2 ⟨list, hlist, hk⟩

theorem exists_list_of_shape (h : c'.shape = c.shape) (hlist : list ∈ c.lists) :
    ∃ list' ∈ c'.lists, list'.name = list.name ∧ list'.clusters = list.clusters := by
  have hmem : (list.name, list.clusters) ∈ c'.shape := by
    rw [h]
    exact mem_map_of_mem hlist
  obtain ⟨list', hlist', heq⟩ := mem_map.1 hmem
  exact ⟨list', hlist', congrArg Prod.fst heq, congrArg Prod.snd heq⟩

theorem SameClusters.live (h : SameClusters c c') : c'.live = c.live := by
  rw [live_eq_shape, h.shape, ← live_eq_shape]

theorem SameClusters.layout (h : SameClusters c c') (hlayout : Layout c) : Layout c' where
  names := by
    have hnames : c'.lists.map EquivClusterList.name = c.lists.map EquivClusterList.name := by
      have hfst := congrArg (List.map Prod.fst) h.shape
      simpa only [Clusterer.shape, map_map, Function.comp_def] using hfst
    rw [hnames]
    exact hlayout.names
  named := fun list hlist => by
    obtain ⟨list', hlist', hname, -⟩ := exists_list_of_shape h.shape.symm hlist
    rw [← hname, h.allocatedLists]
    exact hlayout.named list' hlist'
  nonempty := fun list hlist => by
    obtain ⟨list', hlist', -, hclusters⟩ := exists_list_of_shape h.shape.symm hlist
    rw [← hclusters]
    exact hlayout.nonempty list' hlist'
  live := by
    rw [h.live, h.freeClusters]
    exact hlayout.live
  allocated := by
    rw [h.live, h.freeClusters, h.allocatedClusters]
    exact hlayout.allocated

theorem Layout.congr (h : Layout c) (hset : c'.eqClLtSet = c.eqClLtSet)
    (hfree : c'.freeClusters = c.freeClusters) (hclusters : c'.allocatedClusters = c.allocatedClusters)
    (hlists : c'.allocatedLists = c.allocatedLists) : Layout c' := by
  have hsame : c'.lists = c.lists := by rw [Clusterer.lists, hset, Clusterer.lists]
  have hlive : c'.live = c.live := by rw [Clusterer.live, hsame, Clusterer.live]
  refine ⟨?_, ?_, ?_, ?_, ?_⟩
  · rw [hsame]
    exact h.names
  · rw [hsame, hlists]
    exact h.named
  · rw [hsame]
    exact h.nonempty
  · rw [hlive, hfree]
    exact h.live
  · rw [hlive, hfree, hclusters]
    exact h.allocated

theorem Names.congr (h : Names c) (hlive : c'.live = c.live) (hnames : ∀ k, c'.names k = c.names k)
    (hfree : c'.freeClusterDistances = c.freeClusterDistances)
    (halloc : c'.allocatedDistances = c.allocatedDistances) : Names c' := by
  refine ⟨?_, ?_, ?_, ?_, ?_, ?_⟩
  · simp only [hlive, hnames]
    exact h.nodup
  · simp only [hlive, hnames]
    exact h.apart
  · simp only [hlive, hnames, hfree]
    exact h.unfree
  · rw [hfree]
    exact h.free
  · simp only [hlive, hnames, halloc]
    exact h.bound
  · rw [hfree, halloc]
    exact h.freeBound

theorem Layout.eq_of_name (h : Layout c) {list' : EquivClusterList D} (hlist : list ∈ c.lists)
    (hlist' : list' ∈ c.lists) (hname : list'.name = list.name) : list' = list :=
  inj_on_of_nodup_map h.names hlist' hlist hname

theorem Layout.find (h : Layout c) (hlist : list ∈ c.lists) :
    (c.eqClLtSet.lists.find? fun l => decide (l.name = list.name)) = some list := by
  cases hfind : c.eqClLtSet.lists.find? fun l => decide (l.name = list.name) with
  | none =>
    have hnone := find?_eq_none.1 hfind list hlist
    simp at hnone
  | some list' =>
    have hname : list'.name = list.name := by simpa using find?_some hfind
    rw [h.eq_of_name hlist (mem_of_find?_eq_some hfind) hname]

theorem Layout.clusters_nodup (h : Layout c) (hlist : list ∈ c.lists) : list.clusters.Nodup := by
  have hlive : c.live.Nodup := (nodup_append.1 h.live).1
  exact (nodup_flatMap.1 hlive).1 list hlist

theorem Layout.notMem_later (h : Layout c) (hlist : list ∈ c.lists)
    (hsplit : list.clusters = pre ++ k :: later) : k ∉ pre ∧ k ∉ later := by
  have hnodup := h.clusters_nodup hlist
  rw [hsplit] at hnodup
  have hperm := nodup_middle.1 hnodup
  have hnotMem := (nodup_cons.1 hperm).1
  exact ⟨fun hk => hnotMem (mem_append_left _ hk), fun hk => hnotMem (mem_append_right _ hk)⟩

theorem nextClusters_middle (hpre : k ∉ pre) : nextClusters k (pre ++ k :: later) = later := by
  unfold nextClusters
  have hdrop : (pre ++ k :: later).dropWhile (· != k) = k :: later := by
    rw [dropWhile_append_of_pos fun j hj => bne_iff_ne.2 fun hjk => hpre (by rw [← hjk]; exact hj)]
    simp
  rw [hdrop]
  rfl

/-! ## Distance objects -/

structure Takes (c : Clusterer W R F D n) (taken : List ℕ) (c' : Clusterer W R F D n) : Prop where
  rest : c' = { c with
    freeClusterDistances := c'.freeClusterDistances
    allocatedDistances := c'.allocatedDistances }
  nodup : taken.Nodup
  origin : ∀ x ∈ taken, (x ∈ c.freeClusterDistances ∨ c.allocatedDistances ≤ x) ∧
    x < c'.allocatedDistances ∧ x ∉ c'.freeClusterDistances
  free : c'.freeClusterDistances ⊆ c.freeClusterDistances
  freeNodup : c'.freeClusterDistances.Nodup
  grows : c.allocatedDistances ≤ c'.allocatedDistances

theorem newClusterDistance_takes (hfree : c.freeClusterDistances.Nodup)
    (hbound : ∀ x ∈ c.freeClusterDistances, x < c.allocatedDistances) :
    Takes c [c.newClusterDistance.1] c.newClusterDistance.2 := by
  unfold newClusterDistance
  cases hlist : c.freeClusterDistances with
  | nil =>
    refine ⟨by simp only [hlist], nodup_singleton _, fun x hx => ?_, ?_, ?_, Nat.le_succ _⟩
    · rw [mem_singleton.1 hx]
      exact ⟨Or.inr (Nat.le_refl _), Nat.lt_succ_self _, by simp [hlist]⟩
    · simp [hlist]
    · simp [hlist]
  | cons name free =>
    rw [hlist] at hfree hbound
    obtain ⟨hname, hnodup⟩ := nodup_cons.1 hfree
    refine ⟨rfl, nodup_singleton _, fun x hx => ?_, ?_, hnodup, Nat.le_refl _⟩
    · rw [mem_singleton.1 hx]
      exact ⟨Or.inl (by rw [hlist]; exact mem_cons_self), hbound name mem_cons_self, hname⟩
    · rw [hlist]
      exact subset_cons_self name free

theorem Takes.append {taken taken' : List ℕ} (h : Takes c taken c') (h' : Takes c' taken' c'') :
    Takes c (taken ++ taken') c'' where
  rest := by
    have hrest := h'.rest
    rw [h.rest] at hrest
    exact hrest
  nodup := nodup_append.2 ⟨h.nodup, h'.nodup, fun x hx y hy hxy => by
    obtain ⟨hy', -, -⟩ := h'.origin y hy
    obtain ⟨-, hlt, hnot⟩ := h.origin x hx
    rw [hxy] at hlt hnot
    obtain hfree | hge := hy'
    · exact hnot hfree
    · omega⟩
  origin := fun x hx => by
    obtain hx | hx := mem_append.1 hx
    · obtain ⟨hold, hlt, hnot⟩ := h.origin x hx
      exact ⟨hold, Nat.lt_of_lt_of_le hlt h'.grows, fun hmem => hnot (h'.free hmem)⟩
    · obtain ⟨hold, hlt, hnot⟩ := h'.origin x hx
      refine ⟨?_, hlt, hnot⟩
      obtain hfree | hge := hold
      · exact Or.inl (h.free hfree)
      · exact Or.inr (Nat.le_trans h.grows hge)
  free := fun x hx => h.free (h'.free hx)
  freeNodup := h'.freeNodup
  grows := Nat.le_trans h.grows h'.grows

theorem Takes.freeBound {taken : List ℕ} (h : Takes c taken c')
    (hbound : ∀ x ∈ c.freeClusterDistances, x < c.allocatedDistances) :
    ∀ x ∈ c'.freeClusterDistances, x < c'.allocatedDistances := fun x hx =>
  Nat.lt_of_lt_of_le (hbound x (h.free hx)) h.grows

theorem takes_nil (hfree : c.freeClusterDistances.Nodup) : Takes c [] c :=
  ⟨rfl, nodup_nil, fun _ hx => absurd hx not_mem_nil, fun _ hx => hx, hfree, Nat.le_refl _⟩

theorem fillDistances_spec (hfree : c.freeClusterDistances.Nodup)
    (hbound : ∀ x ∈ c.freeClusterDistances, x < c.allocatedDistances) :
    EntriesFor (fillDistances P k later c).1 k later ∧
      Takes c ((fillDistances P k later c).1.map Distance.name) (fillDistances P k later c).2 := by
  induction later generalizing c with
  | nil => exact ⟨⟨rfl, by simp [fillDistances], by simp [fillDistances]⟩, takes_nil hfree⟩
  | cons cl later ih =>
    have hnew := newClusterDistance_takes hfree hbound
    obtain ⟨hentries, htakes⟩ := @ih c.newClusterDistance.2 hnew.freeNodup (hnew.freeBound hbound)
    refine ⟨⟨?_, fun e he => ?_, fun e he => ?_⟩, hnew.append htakes⟩
    · simp [fillDistances, hentries.targets]
    · obtain rfl | he := mem_cons.1 he
      · rfl
      · exact hentries.sources e he
    · obtain rfl | he := mem_cons.1 he
      · exact WithTop.coe_ne_top
      · exact hentries.finite e he

section NoteMinimum

variable {set : EquivClusterListSet D} {f g : ℕ → WithTop D}

theorem mem_map_list {lists : List (EquivClusterList D)} {h : EquivClusterList D → EquivClusterList D}
    {l : EquivClusterList D} (hl : l ∈ lists.map fun l => if l.name = list.name then h l else l)
    (hname : ∀ l ∈ lists, l.name = list.name → l = list) : l = h list ∨ l ∈ lists ∧ l.name ≠ list.name := by
  obtain ⟨l', hl', rfl⟩ := mem_map.1 hl
  by_cases heq : l'.name = list.name
  · rw [if_pos heq, hname l' hl' heq]
    exact Or.inl rfl
  · rw [if_neg heq]
    exact Or.inr ⟨hl', heq⟩

theorem noteMinimum_eq (hfind : (set.lists.find? fun l => decide (l.name = list.name)) = some list) :
    noteMinimum list.name k (g k) set = if g k < list.minVal then ⟨set.lists.map fun l =>
            if l.name = list.name then { l with minVal := g k, minPos := some k } else l,
          (if g k < set.minVal then (g k, some list.name)
            else (set.minVal, set.minPos)).1,
          (if g k < set.minVal then (g k, some list.name)
            else (set.minVal, set.minPos)).2⟩
      else set := by
  unfold noteMinimum
  rw [hfind]
  by_cases hlt : g k < list.minVal
  · by_cases hset : g k < set.minVal
    · simp only [if_pos hlt, if_pos hset]
    · simp only [if_pos hlt, if_neg hset]
  · simp only [if_neg hlt]

theorem noteMinimum_spec (hfind : (set.lists.find? fun l => decide (l.name = list.name)) = some list)
    (hname : ∀ l ∈ set.lists, l.name = list.name → l = list)
    (honly : ∀ l ∈ set.lists, k ∈ l.clusters → l = list) (hk : k ∈ list.clusters)
    (hlists : ∀ l ∈ set.lists, LeastAt f id l.clusters (l.minVal, l.minPos))
    (hset : LeastAt EquivClusterList.minVal EquivClusterList.name set.lists (set.minVal, set.minPos))
    (hother : ∀ j, j ≠ k → g j = f j) (hle : g k ≤ f k) :
    (∀ l ∈ (noteMinimum list.name k (g k) set).lists, LeastAt g id l.clusters (l.minVal, l.minPos)) ∧
    LeastAt EquivClusterList.minVal EquivClusterList.name (noteMinimum list.name k (g k) set).lists
      ((noteMinimum list.name k (g k) set).minVal, (noteMinimum list.name k (g k) set).minPos) ∧
    (noteMinimum list.name k (g k) set).lists.map (fun l => (l.name, l.clusters)) =
      set.lists.map fun l => (l.name, l.clusters) := by
  have hmem : list ∈ set.lists := mem_of_find?_eq_some hfind
  have hlower : LeastAt g id list.clusters (if g k < list.minVal then
      (g k, some k) else (list.minVal, list.minPos)) :=
    (hlists list hmem).lower hk hle fun j _ hj => hother j hj
  have helse : ∀ l ∈ set.lists, l.name ≠ list.name → LeastAt g id l.clusters (l.minVal, l.minPos) := by
    intro l hl hne
    refine (hlists l hl).congr (fun _ => Iff.rfl) fun j hj => hother j ?_
    rintro rfl
    exact hne (by rw [honly l hl hj])
  rw [noteMinimum_eq hfind]
  by_cases hlt : g k < list.minVal
  · rw [if_pos hlt] at hlower ⊢
    refine ⟨fun l hl => ?_, ?_, ?_⟩
    · obtain rfl | ⟨hl, hne⟩ := mem_map_list hl hname
      · exact hlower
      · exact helse l hl hne
    · refine LeastAt.map ?_
      have hvalue : ∀ l : EquivClusterList D, (if l.name = list.name then
          { l with minVal := g k, minPos := some k } else l).name = l.name := by
        intro l
        split <;> rfl
      simp only [hvalue]
      have hrise := @LeastAt.lower _ _ _ _ EquivClusterList.minVal EquivClusterList.name set.lists
        (set.minVal, set.minPos) (fun l => (if l.name = list.name then
          { l with minVal := g k, minPos := some k } else l).minVal) list hset hmem
        (by rw [if_pos rfl]; exact le_of_lt hlt)
        (fun l hl hne => by rw [if_neg fun heq => hne (hname l hl heq)])
      rw [if_pos rfl] at hrise
      exact hrise
    · rw [map_map]
      refine map_congr_left fun l _ => ?_
      rw [Function.comp_apply]
      split <;> rfl
  · rw [if_neg hlt] at hlower ⊢
    refine ⟨fun l hl => ?_, hset, rfl⟩
    by_cases heq : l.name = list.name
    · rw [hname l hl heq]
      exact hlower
    · exact helse l hl heq

end NoteMinimum

/-! ## The distances of a new cluster -/

theorem keeps_update {cl : Cluster R D n} (h : (c.cluster k).Keeps cl) (j : ℕ) :
    (c.cluster j).Keeps (update c.cluster k cl j) := by
  by_cases hj : j = k
  · rw [hj, update_self]
    exact h
  · rw [update_of_ne hj]
    exact .refl _

theorem EntriesFor.length {d : List (Distance D)} (h : EntriesFor d k later) : d.length = later.length := by
  rw [← h.targets, length_map]

theorem Names.take {taken : List ℕ} {c₁ : Clusterer W R F D n} (h : Names c) (htakes : Takes c taken c₁)
    (hlive : c'.live = c.live) (hk : c'.names k = taken) (hother : ∀ j, j ≠ k → c'.names j = c.names j)
    (hfree : c'.freeClusterDistances = c₁.freeClusterDistances)
    (halloc : c'.allocatedDistances = c₁.allocatedDistances) : Names c' := by
  have hcases : ∀ j ∈ c'.live, ∀ x ∈ c'.names j,
      j = k ∧ x ∈ taken ∨ j ≠ k ∧ j ∈ c.live ∧ x ∈ c.names j := by
    intro j hj x hx
    by_cases hjk : j = k
    · rw [hjk, hk] at hx
      exact Or.inl ⟨hjk, hx⟩
    · rw [hother j hjk] at hx
      rw [hlive] at hj
      exact Or.inr ⟨hjk, hj, hx⟩
  have hnew : ∀ j ∈ c.live, ∀ x ∈ c.names j, x ∉ taken := by
    intro j hj x hx hmem
    obtain hold | hge := (htakes.origin x hmem).1
    · exact h.unfree j hj x hx hold
    · exact Nat.lt_irrefl _ (Nat.lt_of_lt_of_le (h.bound j hj x hx) hge)
  refine ⟨fun j hj => ?_, fun i hi j hj x hxi hxj => ?_, fun j hj x hx => ?_, ?_, fun j hj x hx => ?_, ?_⟩
  · by_cases hjk : j = k
    · rw [hjk, hk]
      exact htakes.nodup
    · rw [hother j hjk]
      rw [hlive] at hj
      exact h.nodup j hj
  · obtain ⟨rfl, hxi⟩ | ⟨hik, hi, hxi⟩ := hcases i hi x hxi
    · obtain ⟨rfl, -⟩ | ⟨-, hj, hxj⟩ := hcases j hj x hxj
      · rfl
      · exact absurd hxi (hnew j hj x hxj)
    · obtain ⟨rfl, hxj⟩ | ⟨-, hj, hxj⟩ := hcases j hj x hxj
      · exact absurd hxj (hnew i hi x hxi)
      · exact h.apart i hi j hj x hxi hxj
  · rw [hfree]
    obtain ⟨-, hx⟩ | ⟨-, hj, hx⟩ := hcases j hj x hx
    · exact (htakes.origin x hx).2.2
    · exact fun hmem => h.unfree j hj x hx (htakes.free hmem)
  · rw [hfree]
    exact htakes.freeNodup
  · rw [halloc]
    obtain ⟨-, hx⟩ | ⟨-, hj, hx⟩ := hcases j hj x hx
    · exact (htakes.origin x hx).2.1
    · exact Nat.lt_of_lt_of_le (h.bound j hj x hx) htakes.grows
  · rw [hfree, halloc]
    exact htakes.freeBound h.freeBound

theorem Layout.only (h : Layout c) (hlist : list ∈ c.lists) (hk : k ∈ list.clusters) :
    ∀ l ∈ c.lists, k ∈ l.clusters → l = list := by
  intro l hl hkl
  exact Buckets.eq_of_nodup_flatMap (nodup_append.1 h.live).1 hl hlist hkl hk

/-- What the calculation of the distances of `k` leaves behind. -/
structure Calculated (c : Clusterer W R F D n) (k : ℕ) (later : List ℕ) (c' : Clusterer W R F D n) :
    Prop where
  same : SameClusters c c'
  names : Names c'
  minima : Minima c'
  other : ∀ j, j ≠ k → c'.cluster j = c.cluster j
  entries : EntriesFor (c'.cluster k).d k later

theorem calculateDistancesForNewCluster_spec (hlayout : Layout c) (hnames : Names c)
    (hminima : Minima c) (hlist : list ∈ c.lists) (hsplit : list.clusters = pre ++ k :: later)
    (hfresh : Fresh (c.cluster k)) :
    Calculated c k later (calculateDistancesForNewCluster P k list.name c) := by
  have hk : k ∈ list.clusters := by
    rw [hsplit]
    exact mem_append_right _ mem_cons_self
  have hnext : nextClusters k list.clusters = later := by
    rw [hsplit]
    exact nextClusters_middle (hlayout.notMem_later hlist hsplit).1
  obtain ⟨entries, c₁, hfill, hentries, htakes⟩ : ∃ entries c₁,
      fillDistances P k later c = (entries, c₁) ∧ EntriesFor entries k later ∧
        Takes c (entries.map Distance.name) c₁ :=
    ⟨_, _, rfl, fillDistances_spec hnames.free hnames.freeBound⟩
  have hrest := htakes.rest
  have hcluster : c₁.cluster = c.cluster := by rw [hrest]
  have hset : c₁.eqClLtSet = c.eqClLtSet := by rw [hrest]
  have hd : (if entries.isEmpty then (c.cluster k).d else entries) = entries := by
    cases entries with
    | nil => exact hfresh.1
    | cons e entries => rfl
  simp only [calculateDistancesForNewCluster, hlayout.find hlist, hnext, hfill, Clusterer.setCluster,
    hcluster, hset, hd]
  -- the cluster with its distances
  obtain ⟨cl, hcl⟩ : ∃ cl : Cluster R D n, cl = { c.cluster k with
      d := entries
      minVal := (scanMinimum Distance.value Distance.name entries
        ((c.cluster k).minVal, (c.cluster k).minPos)).1
      minPos := (scanMinimum Distance.value Distance.name entries
        ((c.cluster k).minVal, (c.cluster k).minPos)).2 } := ⟨_, rfl⟩
  have hkeeps : (c.cluster k).Keeps cl := by
    rw [hcl]
    exact ⟨rfl, rfl, rfl, rfl⟩
  have hleast : cl.Least := by
    rw [hcl]
    unfold Cluster.Least
    simp only [hfresh.2]
    exact leastAt_scan
  have hmin : (update c.cluster k cl k).minVal = cl.minVal := by rw [update_self]
  have hother : ∀ j, j ≠ k → update c.cluster k cl j = c.cluster j := fun j hj =>
    update_of_ne hj _ _
  obtain ⟨hlists, hsetLeast, hshape⟩ := noteMinimum_spec
    (g := fun j => (update c.cluster k cl j).minVal) (hlayout.find hlist)
    (fun l hl heq => hlayout.eq_of_name hlist hl heq) (hlayout.only hlist hk) hk hminima.list hminima.set
    (fun j hj => by rw [hother j hj]) (by rw [hfresh.2]; exact le_top)
  rw [hmin] at hlists hsetLeast hshape
  rw [← hcl, show (scanMinimum Distance.value Distance.name entries
        ((c.cluster k).minVal, (c.cluster k).minPos)).1 = cl.minVal by rw [hcl]]
  have hsame : SameClusters c { c₁ with
      cluster := update c.cluster k cl
      eqClLtSet := noteMinimum list.name k cl.minVal c.eqClLtSet } := by
    refine ⟨hshape, fun j => keeps_update hkeeps j, ?_, ?_, ?_, ?_, ?_, ?_, ?_⟩ <;> rw [hrest]
  have hself : update c.cluster k cl k = cl := update_self _ _ _
  refine ⟨hsame, ?_, ⟨fun j hj => ?_, hlists, hsetLeast⟩, hother, ?_⟩
  · refine hnames.take (k := k) htakes hsame.live ?_ (fun j hj => ?_) rfl rfl
    · show (update c.cluster k cl k).d.map Distance.name = entries.map Distance.name
      rw [hself, hcl]
    · show (update c.cluster k cl j).d.map Distance.name = c.names j
      rw [hother j hj]
      rfl
  · show (update c.cluster k cl j).Least
    by_cases hjk : j = k
    · rw [hjk, hself]
      exact hleast
    · rw [hother j hjk]
      rw [hsame.live] at hj
      exact hminima.cluster j hj
  · show EntriesFor (update c.cluster k cl k).d k later
    rw [hself, hcl]
    exact hentries

/-! ## All distances -/

/-- The distances of the clusters `ks` were calculated. -/
structure Advances (c : Clusterer W R F D n) (ks : List ℕ) (c' : Clusterer W R F D n) : Prop where
  same : SameClusters c c'
  names : Names c'
  minima : Minima c'
  other : ∀ j, j ∉ ks → c'.cluster j = c.cluster j

theorem Advances.append {ks js : List ℕ} (h : Advances c ks c') (h' : Advances c' js c'') :
    Advances c (ks ++ js) c'' where
  same := h.same.trans h'.same
  names := h'.names
  minima := h'.minima
  other := fun j hj => by
    rw [h'.other j fun hmem => hj (mem_append_right _ hmem),
      h.other j fun hmem => hj (mem_append_left _ hmem)]

theorem Aligned.congr {cluster cluster' : ℕ → Cluster R D n} (h : Aligned cluster clusters)
    (heq : ∀ k ∈ clusters, (cluster' k).d = (cluster k).d) : Aligned cluster' clusters := by
  induction clusters with
  | nil => trivial
  | cons k later ih =>
    refine ⟨?_, ih h.2 fun j hj => heq j (mem_cons_of_mem k hj)⟩
    rw [heq k mem_cons_self]
    exact h.1

theorem calculateList_spec {ks : List ℕ} (hlayout : Layout c) (hnames : Names c) (hminima : Minima c)
    (hlist : ∃ list ∈ c.lists, list.name = lt ∧ list.clusters = pre ++ ks)
    (hfresh : ∀ k ∈ ks, Fresh (c.cluster k)) :
    Advances c ks (ks.foldl (fun c k => calculateDistancesForNewCluster P k lt c) c) ∧
      Aligned (ks.foldl (fun c k => calculateDistancesForNewCluster P k lt c) c).cluster ks := by
  induction ks generalizing c pre with
  | nil => exact ⟨⟨.refl c, hnames, hminima, fun _ _ => rfl⟩, trivial⟩
  | cons k later ih =>
    obtain ⟨list, hmem, rfl, hsplit⟩ := hlist
    have hcalc := @calculateDistancesForNewCluster_spec _ _ _ _ _ _ P _ _ _ _ _ hlayout hnames hminima
      hmem hsplit (hfresh k mem_cons_self)
    have hnotMem := (hlayout.notMem_later hmem hsplit).2
    obtain ⟨list', hmem', hname', hclusters'⟩ := exists_list_of_shape hcalc.same.shape hmem
    obtain ⟨hadvances, haligned⟩ := ih (hcalc.same.layout hlayout) hcalc.names hcalc.minima
      ⟨list', hmem', hname', by rw [hclusters', hsplit, append_cons]⟩ (fun j hj => by
        rw [hcalc.other j fun heq => hnotMem (by rw [← heq]; exact hj)]
        exact hfresh j (mem_cons_of_mem k hj))
    have hfirst : Advances c [k] (calculateDistancesForNewCluster P k list.name c) :=
      ⟨hcalc.same, hcalc.names, hcalc.minima, fun j hj => hcalc.other j fun heq => hj (by simp [heq])⟩
    refine ⟨hfirst.append hadvances, ?_, haligned⟩
    rw [foldl_cons, hadvances.other k hnotMem]
    exact hcalc.entries

theorem calculateLists_spec {ls : List (EquivClusterList D)} (hlayout : Layout c) (hnames : Names c)
    (hminima : Minima c) (hls : ∀ l ∈ ls, (l.name, l.clusters) ∈ c.shape)
    (hnodup : (ls.flatMap EquivClusterList.clusters).Nodup)
    (hfresh : ∀ k ∈ ls.flatMap EquivClusterList.clusters, Fresh (c.cluster k)) :
    Advances c (ls.flatMap EquivClusterList.clusters) (ls.foldl (fun c l =>
        l.clusters.foldl (fun c k => calculateDistancesForNewCluster P k l.name c) c) c) ∧
      ∀ l ∈ ls, Aligned (ls.foldl (fun c l =>
        l.clusters.foldl (fun c k => calculateDistancesForNewCluster P k l.name c) c) c).cluster
          l.clusters := by
  induction ls generalizing c with
  | nil => exact ⟨⟨.refl c, hnames, hminima, fun _ _ => rfl⟩, fun _ hl => absurd hl not_mem_nil⟩
  | cons l ls ih =>
    rw [flatMap_cons] at hnodup hfresh
    obtain ⟨-, hrest, hdisjoint⟩ := nodup_append.1 hnodup
    obtain ⟨list, hmem, heq⟩ := mem_map.1 (hls l mem_cons_self)
    obtain ⟨hadvances, haligned⟩ := @calculateList_spec _ _ _ _ _ _ P c l.name [] l.clusters hlayout
      hnames hminima ⟨list, hmem, congrArg Prod.fst heq, congrArg Prod.snd heq⟩
      fun k hk => hfresh k (mem_append_left _ hk)
    obtain ⟨hadvances', haligned'⟩ := ih (hadvances.same.layout hlayout) hadvances.names
      hadvances.minima (fun l' hl' => by
        rw [hadvances.same.shape]
        exact hls l' (mem_cons_of_mem l hl')) hrest (fun k hk => by
        rw [hadvances.other k fun hmem => hdisjoint k hmem k hk rfl]
        exact hfresh k (mem_append_right _ hk))
    refine ⟨hadvances.append hadvances', fun l' hl' => ?_⟩
    obtain rfl | hl' := mem_cons.1 hl'
    · refine haligned.congr fun k hk => ?_
      rw [foldl_cons, hadvances'.other k fun hmem => hdisjoint k hk k hmem rfl]
    · exact haligned' l' hl'

theorem calculateDistances_spec (hlayout : Layout c) (hnames : Names c) (hminima : Minima c)
    (hfresh : ∀ k ∈ c.live, Fresh (c.cluster k)) :
    Advances c c.live (calculateDistances P c) ∧ ∀ list ∈ (calculateDistances P c).lists,
        Aligned (calculateDistances P c).cluster list.clusters := by
  obtain ⟨hadvances, haligned⟩ := @calculateLists_spec _ _ _ _ _ _ P c c.lists hlayout hnames hminima
    (fun l hl => mem_map_of_mem hl) (nodup_append.1 hlayout.live).1 hfresh
  refine ⟨hadvances, fun list hlist => ?_⟩
  obtain ⟨list', hlist', -, hclusters⟩ := exists_list_of_shape hadvances.same.shape.symm hlist
  rw [← hclusters]
  exact haligned list' hlist'

end ScoreP.Clustering
