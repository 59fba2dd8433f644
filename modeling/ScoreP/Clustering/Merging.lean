import ScoreP.Clustering.Insertion

/-!
# Merging two clusters

The loops of a merge: `updateBefore_spec` for the clusters before `cl_a`, `dropBetween_spec` for those
between the two, `refreshDistances_spec` for `cl_a`. Each takes the distance to `cl_b` out of its place,
so that the distances stay aligned with the clusters that are left (`AlignedBefore`).
-/

namespace ScoreP.Clustering

open Foundations Clusterer Function List

variable {W R F D : Type} {n : ℕ} [LinearOrder D] {P : Profile W R F D n} {c c' c'' : Clusterer W R F D n}
  {a b k j lt : ℕ} {before mid post rest ks js : List ℕ} {d : List (Distance D)} {cl cl' : Cluster R D n}

/-! ## Alignment with what follows -/

def AlignedBefore (cluster : ℕ → Cluster R D n) (rest : List ℕ) : List ℕ → Prop
  | [] => True
  | k :: later => EntriesFor (cluster k).d k (later ++ rest) ∧ AlignedBefore cluster rest later

theorem aligned_append {cluster : ℕ → Cluster R D n} : Aligned cluster (ks ++ js) ↔
    AlignedBefore cluster js ks ∧ Aligned cluster js := by
  induction ks with
  | nil => exact ⟨fun h => ⟨trivial, h⟩, fun h => h.2⟩
  | cons k ks ih =>
    rw [cons_append, Aligned, ih, AlignedBefore, and_assoc]

theorem AlignedBefore.congr {cluster cluster' : ℕ → Cluster R D n} (h : AlignedBefore cluster rest ks)
    (heq : ∀ k ∈ ks, (cluster' k).d = (cluster k).d) : AlignedBefore cluster' rest ks := by
  induction ks with
  | nil => trivial
  | cons k later ih =>
    refine ⟨?_, ih h.2 fun j hj => heq j (mem_cons_of_mem k hj)⟩
    rw [heq k mem_cons_self]
    exact h.1

theorem EntriesFor.split (h : EntriesFor d k (ks ++ j :: js)) : ∃ pre e post,
    d = pre ++ e :: post ∧ EntriesFor pre k ks ∧ e.target = j ∧ e.source = k ∧ e.value ≠ ⊤ ∧
      EntriesFor post k js := by
  obtain ⟨pre, tail, rfl, hpre, htail⟩ := map_eq_append_iff.1 h.targets
  obtain ⟨e, post, rfl, he, hpost⟩ := map_eq_cons_iff.1 htail
  have hsources := h.sources
  have hfinite := h.finite
  refine ⟨pre, e, post, rfl, ⟨hpre, fun x hx => hsources x ?_, fun x hx => hfinite x ?_⟩, he,
    hsources e ?_, hfinite e ?_, ⟨hpost, fun x hx => hsources x ?_, fun x hx => hfinite x ?_⟩⟩
  all_goals simp_all

theorem EntriesFor.append {d' : List (Distance D)} (h : EntriesFor d k ks) (h' : EntriesFor d' k js) :
    EntriesFor (d ++ d') k (ks ++ js) where
  targets := by rw [map_append, h.targets, h'.targets]
  sources := fun e he => (mem_append.1 he).elim (h.sources e) (h'.sources e)
  finite := fun e he => (mem_append.1 he).elim (h.finite e) (h'.finite e)

theorem EntriesFor.cons {e : Distance D} (h : EntriesFor d k ks) (hsource : e.source = k)
    (hfinite : e.value ≠ ⊤) : EntriesFor (e :: d) k (e.target :: ks) where
  targets := by rw [map_cons, h.targets]
  sources := fun x hx => by
    obtain rfl | hx := mem_cons.1 hx
    · exact hsource
    · exact h.sources x hx
  finite := fun x hx => by
    obtain rfl | hx := mem_cons.1 hx
    · exact hfinite
    · exact h.finite x hx

/-! ## Distances that go -/

/-- Some distances of the clusters `ks` went. -/
structure Trims (c : Clusterer W R F D n) (ks : List ℕ) (c' : Clusterer W R F D n) : Prop where
  rest : c' = { c with cluster := c'.cluster, freeClusterDistances := c'.freeClusterDistances }
  keeps : ∀ j, (c.cluster j).Keeps (c'.cluster j)
  other : ∀ j, j ∉ ks → c'.cluster j = c.cluster j
  names : Names c'
  least : ∀ j ∈ ks, (c'.cluster j).Least

theorem Trims.live (h : Trims c ks c') : c'.live = c.live := by
  have hrest := h.rest
  rw [hrest]
  rfl

theorem Trims.append (h : Trims c ks c') (h' : Trims c' js c'') : Trims c (ks ++ js) c'' where
  rest := by
    have hrest := h'.rest
    rw [h.rest] at hrest
    exact hrest
  keeps := fun j => (h.keeps j).trans (h'.keeps j)
  other := fun j hj => by
    rw [h'.other j fun hmem => hj (mem_append_right _ hmem),
      h.other j fun hmem => hj (mem_append_left _ hmem)]
  names := h'.names
  least := fun j hj => by
    by_cases hjs : j ∈ js
    · exact h'.least j hjs
    · rw [h'.other j hjs]
      exact h.least j ((mem_append.1 hj).resolve_right hjs)

theorem Names.drop {x : ℕ} {pre post : List ℕ} (h : Names c) (hk : k ∈ c.live)
    (hnames : c.names k = pre ++ x :: post) (hd : cl.d.map Distance.name = pre ++ post) :
    Names ((c.setCluster k cl).deleteClusterDistance x) := by
  obtain ⟨c', hc'⟩ : ∃ c', c' = (c.setCluster k cl).deleteClusterDistance x := ⟨_, rfl⟩
  have hself : c'.names k = pre ++ post := by
    rw [← hd, hc']
    show (update c.cluster k cl k).d.map Distance.name = _
    rw [update_self]
  have hother : ∀ j, j ≠ k → c'.names j = c.names j := fun j hj => by
    rw [hc']
    show (update c.cluster k cl j).d.map Distance.name = _
    rw [update_of_ne hj]
    rfl
  have hsub : ∀ j, ∀ y ∈ c'.names j, y ∈ c.names j := by
    intro j y hy
    by_cases hj : j = k
    · rw [hj, hself] at hy
      rw [hj, hnames]
      obtain hy | hy := mem_append.1 hy
      · exact mem_append_left _ hy
      · exact mem_append_right _ (mem_cons_of_mem x hy)
    · rw [hother j hj] at hy
      exact hy
  have hnodup := h.nodup k hk
  rw [hnames] at hnodup
  obtain ⟨hnotMem, hnodup'⟩ := nodup_cons.1 (nodup_middle.1 hnodup)
  have hx : x ∈ c.names k := by
    rw [hnames]
    exact mem_append_right _ mem_cons_self
  have hlive : c'.live = c.live := by
    rw [hc']
    rfl
  have hfree : c'.freeClusterDistances = x :: c.freeClusterDistances := by
    rw [hc']
    rfl
  have halloc : c'.allocatedDistances = c.allocatedDistances := by
    rw [hc']
    rfl
  rw [← hc']
  refine ⟨fun j hj => ?_, fun i hi j hj y hyi hyj => ?_, fun j hj y hy => ?_, ?_, fun j hj y hy => ?_, ?_⟩
  · rw [hlive] at hj
    by_cases hjk : j = k
    · rw [hjk, hself]
      exact hnodup'
    · rw [hother j hjk]
      exact h.nodup j hj
  · rw [hlive] at hi hj
    exact h.apart i hi j hj y (hsub i y hyi) (hsub j y hyj)
  · rw [hlive] at hj
    rw [hfree]
    intro hmem
    obtain rfl | hmem := mem_cons.1 hmem
    · have hjk := h.apart j hj k hk y (hsub j y hy) hx
      rw [hjk, hself] at hy
      exact hnotMem hy
    · exact h.unfree j hj y (hsub j y hy) hmem
  · rw [hfree]
    exact nodup_cons.2 ⟨h.unfree k hk x hx, h.free⟩
  · rw [hlive] at hj
    rw [halloc]
    exact h.bound j hj y (hsub j y hy)
  · rw [hfree, halloc]
    intro y hy
    obtain rfl | hy := mem_cons.1 hy
    · exact h.bound k hk y hx
    · exact h.freeBound y hy

theorem trims_one {x : ℕ} {pre post : List ℕ} (h : Names c) (hk : k ∈ c.live)
    (hnames : c.names k = pre ++ x :: post) (hd : cl.d.map Distance.name = pre ++ post)
    (hkeeps : (c.cluster k).Keeps cl) (hleast : cl.Least) :
    Trims c [k] ((c.setCluster k cl).deleteClusterDistance x) where
  rest := rfl
  keeps := fun j => keeps_update hkeeps j
  other := fun j hj => update_of_ne (fun heq => hj (by simp [heq])) _ _
  names := h.drop hk hnames hd
  least := fun j hj => by
    rw [mem_singleton.1 hj]
    show (update c.cluster k cl k).Least
    rw [update_self]
    exact hleast

theorem updateBefore_spec {ctrA ctrDiff ctrCl : ℕ} (hdiff : ctrDiff = mid.length + 1)
    (hctr : ctrA + 1 = ctrCl + before.length) (hnodup : before.Nodup) (hlive : ∀ k ∈ before, k ∈ c.live)
    (hnames : Names c) (hleast : ∀ k ∈ before, (c.cluster k).Least)
    (haligned : AlignedBefore c.cluster (a :: mid ++ b :: post) before) : ∃ c',
    updateBefore P a ctrA ctrDiff before ctrCl c = some c' ∧ Trims c before c' ∧
      AlignedBefore c'.cluster (a :: mid ++ post) before := by
  induction before generalizing c ctrCl with
  | nil =>
    exact ⟨c, rfl, ⟨rfl, fun _ => .refl _, fun _ _ => rfl, hnames, fun _ hj => absurd hj not_mem_nil⟩,
      trivial⟩
  | cons k later ih =>
    obtain ⟨hk, hnodup'⟩ := nodup_cons.1 hnodup
    obtain ⟨d₁, e₁, d', hd, h₁, -, -, -, h'⟩ := @EntriesFor.split _ _ k a later (mid ++ b :: post) _
      haligned.1
    obtain ⟨d₂, e₂, d₃, rfl, h₂, -, -, -, h₃⟩ := h'.split
    have hk' := hlive k mem_cons_self
    have hnamesK : c.names k = (d₁ ++ e₁ :: (d₂ ++ e₂ :: d₃)).map Distance.name := by
      rw [← hd]
      rfl
    -- the distance to `cl_a` gets its new value
    have hname : ∀ x ∈ d₁ ++ (d₂ ++ e₂ :: d₃), x.name ≠ e₁.name := by
      intro x hx heq
      have hnodupNames := hnames.nodup k hk'
      rw [hnamesK, map_append, map_cons] at hnodupNames
      have hnotMem := (nodup_cons.1 (nodup_middle.1 hnodupNames)).1
      rw [← map_append, ← heq] at hnotMem
      exact hnotMem (mem_map_of_mem hx)
    have hpos : ctrA - ctrCl = d₁.length := by
      rw [h₁.length]
      simp only [length_cons] at hctr
      omega
    obtain ⟨cl₁, hupdate, hkeeps₁, hleast₁, hd₁⟩ := @updateDistance_spec _ _ _ _
      (c.cluster k) e₁ d₁ (d₂ ++ e₂ :: d₃) (ctrA - ctrCl) (clusterDistance P c k a) k a hd hpos
      (hleast k mem_cons_self) hname
    obtain ⟨e₁', he₁'⟩ : ∃ e : Distance D, e = ⟨e₁.name, (clusterDistance P c k a : D), k, a⟩ := ⟨_, rfl⟩
    rw [← he₁'] at hd₁
    -- the distance to `cl_b` goes
    have hd₁' : cl₁.d = (d₁ ++ e₁' :: d₂) ++ e₂ :: d₃ := by
      rw [hd₁, append_assoc]
      rfl
    have hpos' : ctrA - ctrCl + ctrDiff = (d₁ ++ e₁' :: d₂).length := by
      rw [length_append, length_cons, h₂.length, hpos, hdiff]
    obtain ⟨cl₂, hdrop, hkeeps₂, hleast₂, hd₂⟩ := dropDistance_spec hd₁' hpos' hleast₁
    have htrims : Trims c [k] ((c.setCluster k cl₂).deleteClusterDistance e₂.name) := by
      refine @trims_one _ _ _ _ _ _ c k cl₂ e₂.name ((d₁ ++ e₁' :: d₂).map Distance.name)
        (d₃.map Distance.name) hnames hk' ?_ ?_ (hkeeps₁.trans hkeeps₂) hleast₂
      · rw [hnamesK, he₁']
        simp
      · rw [hd₂, map_append]
    obtain ⟨c', hrun, htrims', haligned'⟩ := @ih ((c.setCluster k cl₂).deleteClusterDistance e₂.name)
      (ctrCl + 1) (by simp only [length_cons] at hctr; omega) hnodup'
      (fun j hj => by rw [htrims.live]; exact hlive j (mem_cons_of_mem k hj)) htrims.names
      (fun j hj => by
        rw [htrims.other j fun hmem => hk (by rw [← mem_singleton.1 hmem]; exact hj)]
        exact hleast j (mem_cons_of_mem k hj))
      (haligned.2.congr fun j hj => by
        rw [htrims.other j fun hmem => hk (by rw [← mem_singleton.1 hmem]; exact hj)])
    refine ⟨c', ?_, htrims.append htrims', ?_, haligned'⟩
    · simp only [updateBefore, hupdate, hdrop]
      exact hrun
    · have hself : (c'.cluster k).d = d₁ ++ e₁' :: (d₂ ++ d₃) := by
        rw [htrims'.other k hk]
        show (update c.cluster k cl₂ k).d = _
        rw [update_self, hd₂, append_assoc]
        rfl
      have hfirst : EntriesFor (e₁' :: (d₂ ++ d₃)) k (e₁'.target :: (mid ++ post)) := by
        refine (h₂.append h₃).cons ?_ ?_
        · rw [he₁']
        · rw [he₁']
          exact WithTop.coe_ne_top
      rw [he₁'] at hfirst
      rw [hself, he₁']
      exact h₁.append hfirst

theorem dropBetween_spec {ctrDiff ctrCl : ℕ} (hctr : ctrDiff + 1 = ctrCl + mid.length)
    (hnodup : mid.Nodup) (hlive : ∀ k ∈ mid, k ∈ c.live) (hnames : Names c)
    (hleast : ∀ k ∈ mid, (c.cluster k).Least) (haligned : AlignedBefore c.cluster (b :: post) mid) :
    ∃ c', dropBetween ctrDiff mid ctrCl c = some c' ∧ Trims c mid c' ∧ AlignedBefore c'.cluster post mid := by
  induction mid generalizing c ctrCl with
  | nil =>
    exact ⟨c, rfl, ⟨rfl, fun _ => .refl _, fun _ _ => rfl, hnames, fun _ hj => absurd hj not_mem_nil⟩,
      trivial⟩
  | cons k later ih =>
    obtain ⟨hk, hnodup'⟩ := nodup_cons.1 hnodup
    obtain ⟨d₁, e, d₂, hd, h₁, -, -, -, h₂⟩ := haligned.1.split
    have hk' := hlive k mem_cons_self
    have hnamesK : c.names k = (d₁ ++ e :: d₂).map Distance.name := by
      rw [← hd]
      rfl
    have hpos : ctrDiff - ctrCl = d₁.length := by
      rw [h₁.length]
      simp only [length_cons] at hctr
      omega
    obtain ⟨cl₁, hdrop, hkeeps, hleast₁, hd₁⟩ := dropDistance_spec hd hpos (hleast k mem_cons_self)
    have htrims : Trims c [k] ((c.setCluster k cl₁).deleteClusterDistance e.name) := by
      refine @trims_one _ _ _ _ _ _ c k cl₁ e.name (d₁.map Distance.name) (d₂.map Distance.name) hnames
        hk' ?_ ?_ hkeeps hleast₁
      · rw [hnamesK, map_append, map_cons]
      · rw [hd₁, map_append]
    obtain ⟨c', hrun, htrims', haligned'⟩ := @ih ((c.setCluster k cl₁).deleteClusterDistance e.name)
      (ctrCl + 1) (by simp only [length_cons] at hctr; omega) hnodup'
      (fun j hj => by rw [htrims.live]; exact hlive j (mem_cons_of_mem k hj)) htrims.names
      (fun j hj => by
        rw [htrims.other j fun hmem => hk (by rw [← mem_singleton.1 hmem]; exact hj)]
        exact hleast j (mem_cons_of_mem k hj))
      (haligned.2.congr fun j hj => by
        rw [htrims.other j fun hmem => hk (by rw [← mem_singleton.1 hmem]; exact hj)])
    refine ⟨c', ?_, htrims.append htrims', ?_, haligned'⟩
    · simp only [dropBetween, hdrop]
      exact hrun
    · have hself : (c'.cluster k).d = d₁ ++ d₂ := by
        rw [htrims'.other k hk]
        show (update c.cluster k cl₁ k).d = _
        rw [update_self, hd₁]
      rw [hself]
      exact h₁.append h₂

/-! ## The cluster that goes -/

theorem map_list_middle {pre post : List (EquivClusterList D)} {list : EquivClusterList D}
    {f : EquivClusterList D → EquivClusterList D}
    (h : ((pre ++ list :: post).map EquivClusterList.name).Nodup) :
    ((pre ++ list :: post).map fun l => if l.name = list.name then f l else l) = pre ++ f list :: post := by
  rw [map_append, map_cons] at h
  have hnotMem := (nodup_cons.1 (nodup_middle.1 h)).1
  have hid : ∀ ls : List (EquivClusterList D), list.name ∉ ls.map EquivClusterList.name →
      (ls.map fun l => if l.name = list.name then f l else l) = ls := by
    intro ls hls
    rw [map_congr_left (g := id) fun l hl => ?_, map_id]
    rw [if_neg fun heq => hls (by rw [← heq]; exact mem_map_of_mem hl)]
    rfl
  rw [map_append, map_cons, if_pos rfl, hid pre fun hmem => hnotMem (mem_append_left _ hmem),
    hid post fun hmem => hnotMem (mem_append_right _ hmem)]

/-- `b` left its list and its memory is free. -/
structure Leaves (c : Clusterer W R F D n) (b : ℕ) (c' : Clusterer W R F D n) : Prop where
  live : c.live.Perm (b :: c'.live)
  layout : Layout c'
  names : Names c'
  other : ∀ j, j ≠ b → c'.cluster j = c.cluster j
  iteration : c'.iteration = c.iteration
  maxClCount : c'.maxClCount = c.maxClCount
  clCount : c'.clCount = c.clCount
  clItCount : c'.clItCount = c.clItCount

theorem foldl_names {free : List ℕ} :
    d.foldl (fun free e => e.name :: free) free = (d.map Distance.name).reverse ++ free := by
  induction d generalizing free with
  | nil => rfl
  | cons e d ih =>
    rw [foldl_cons, ih, map_cons, reverse_cons, append_assoc]
    rfl

theorem deleteCluster_spec {list : EquivClusterList D} {pre' post' : List (EquivClusterList D)}
    (hlayout : Layout c) (hnames : Names c) (hlists : c.lists = pre' ++ list :: post')
    (hb : b ∈ list.clusters) (ha : a ∈ list.clusters) (hab : a ≠ b) :
    Leaves c b (c.deleteCluster list.name b) ∧ (c.deleteCluster list.name b).lists =
      pre' ++ { list with clusters := list.clusters.erase b } :: post' := by
  have hnodup := hlayout.names
  rw [hlists] at hnodup
  have hlists' : (c.deleteCluster list.name b).lists =
      pre' ++ { list with clusters := list.clusters.erase b } :: post' := by
    show c.lists.map _ = _
    rw [hlists]
    exact map_list_middle hnodup
  have hlive : c.live.Perm (b :: (c.deleteCluster list.name b).live) := by
    unfold Clusterer.live
    rw [hlists, hlists']
    simp only [flatMap_append, flatMap_cons]
    have hperm : list.clusters.Perm (b :: list.clusters.erase b) := perm_cons_erase hb
    exact ((hperm.append_right _).append_left _).trans perm_middle
  have hlist : list ∈ c.lists := by
    rw [hlists]
    exact mem_append_right _ mem_cons_self
  have hbLive : b ∈ c.live := mem_live_of_mem hlist hb
  obtain ⟨hbNot, -⟩ := nodup_cons.1 (hlive.nodup_iff.1 (nodup_append.1 hlayout.live).1)
  have hmem : ∀ j ∈ (c.deleteCluster list.name b).live, j ∈ c.live ∧ j ≠ b := by
    intro j hj
    refine ⟨hlive.mem_iff.2 (mem_cons_of_mem b hj), ?_⟩
    rintro rfl
    exact hbNot hj
  have hother : ∀ j, j ≠ b → (c.deleteCluster list.name b).cluster j = c.cluster j := fun j hj =>
    update_of_ne hj _ _
  have hnamesOther : ∀ j, j ≠ b → (c.deleteCluster list.name b).names j = c.names j := fun j hj => by
    rw [Clusterer.names, hother j hj]
    rfl
  have hfree : (c.deleteCluster list.name b).freeClusterDistances =
      (c.names b).reverse ++ c.freeClusterDistances := foldl_names
  have hall : (c.live ++ c.freeClusters).Perm ((c.deleteCluster list.name b).live ++ b :: c.freeClusters) :=
    (hlive.append_right _).trans perm_middle.symm
  refine ⟨⟨hlive, ⟨?_, fun l hl => ?_, fun l hl => ?_, hall.nodup_iff.1 hlayout.live,
    fun j hj => hlayout.allocated j (hall.mem_iff.2 hj)⟩, ?_, hother, rfl, rfl, rfl, rfl⟩, hlists'⟩
  · rw [hlists']
    simpa only [map_append, map_cons] using hnodup
  · rw [hlists'] at hl
    have hnamed := hlayout.named
    rw [hlists] at hnamed
    obtain hl | hl := mem_append.1 hl
    · exact hnamed l (mem_append_left _ hl)
    · obtain rfl | hl := mem_cons.1 hl
      · exact hnamed list (by simp)
      · exact hnamed l (mem_append_right _ (mem_cons_of_mem _ hl))
  · rw [hlists'] at hl
    have hnonempty := hlayout.nonempty
    rw [hlists] at hnonempty
    obtain hl | hl := mem_append.1 hl
    · exact hnonempty l (mem_append_left _ hl)
    · obtain rfl | hl := mem_cons.1 hl
      · exact ne_nil_of_mem ((mem_erase_of_ne hab).2 ha)
      · exact hnonempty l (mem_append_right _ (mem_cons_of_mem _ hl))
  · refine ⟨fun j hj => ?_, fun i hi j hj x hxi hxj => ?_, fun j hj x hx => ?_, ?_, fun j hj x hx => ?_,
      fun x hx => ?_⟩
    · obtain ⟨hj, hjb⟩ := hmem j hj
      rw [hnamesOther j hjb]
      exact hnames.nodup j hj
    · obtain ⟨hi, hib⟩ := hmem i hi
      obtain ⟨hj, hjb⟩ := hmem j hj
      rw [hnamesOther i hib] at hxi
      rw [hnamesOther j hjb] at hxj
      exact hnames.apart i hi j hj x hxi hxj
    · obtain ⟨hj, hjb⟩ := hmem j hj
      rw [hnamesOther j hjb] at hx
      rw [hfree]
      intro hmem
      obtain hmem | hmem := mem_append.1 hmem
      · exact hjb (hnames.apart j hj b hbLive x hx (mem_reverse.1 hmem))
      · exact hnames.unfree j hj x hx hmem
    · rw [hfree]
      refine nodup_append.2 ⟨nodup_reverse.2 (hnames.nodup b hbLive), hnames.free, ?_⟩
      rintro x hx y hy rfl
      exact hnames.unfree b hbLive x (mem_reverse.1 hx) hy
    · obtain ⟨hj, hjb⟩ := hmem j hj
      rw [hnamesOther j hjb] at hx
      exact hnames.bound j hj x hx
    · rw [hfree] at hx
      obtain hx | hx := mem_append.1 hx
      · exact hnames.bound b hbLive x (mem_reverse.1 hx)
      · exact hnames.freeBound x hx

/-! ## The distances of the merged cluster and the minima -/

theorem recalculate_spec (h : EntriesFor d a ks) : ∃ entries, recalculate P c a d ks = some entries ∧
    EntriesFor entries a ks ∧ entries.map Distance.name = d.map Distance.name := by
  induction d generalizing ks with
  | nil =>
    have hnil : ks = [] := by
      rw [← h.targets]
      rfl
    exact ⟨[], rfl, by rw [hnil]; exact ⟨rfl, by simp, by simp⟩, rfl⟩
  | cons e d ih =>
    have htargets := h.targets
    rw [map_cons] at htargets
    obtain ⟨entries, heq, hentries, hnames⟩ := @ih (d.map Distance.target)
      ⟨rfl, fun x hx => h.sources x (mem_cons_of_mem e hx),
        fun x hx => h.finite x (mem_cons_of_mem e hx)⟩
    rw [← htargets]
    refine ⟨⟨e.name, (clusterDistance P c a e.target : D), a, e.target⟩ :: entries, ?_, ?_, ?_⟩
    · rw [recalculate, heq]
      rfl
    · exact hentries.cons rfl WithTop.coe_ne_top
    · rw [map_cons, map_cons, hnames]

theorem refreshDistances_spec (hnames : Names c) (h : EntriesFor (c.cluster a).d a ks) : ∃ cl,
    refreshDistances P c a ks = some (c.setCluster a cl) ∧ (c.cluster a).Keeps cl ∧ cl.Least ∧
      EntriesFor cl.d a ks ∧ Names (c.setCluster a cl) := by
  obtain ⟨entries, heq, hentries, hentryNames⟩ := @recalculate_spec _ _ _ _ _ _ P c a ks _ h
  refine ⟨Cluster.rescan { c.cluster a with d := entries }, by simp only [refreshDistances, heq],
    ⟨rfl, rfl, rfl, rfl⟩, rescan_least _, hentries, ?_⟩
  have hsame : ∀ j, (c.setCluster a (Cluster.rescan { c.cluster a with d := entries })).names j =
      c.names j := by
    intro j
    show (update c.cluster a _ j).d.map Distance.name = _
    by_cases hj : j = a
    · rw [hj, update_self]
      exact hentryNames
    · rw [update_of_ne hj]
      rfl
  exact hnames.congr rfl hsame rfl rfl

theorem refreshMinima_spec {list : EquivClusterList D} {pre' post' : List (EquivClusterList D)}
    (hlayout : Layout c) (hlists : c.lists = pre' ++ list :: post')
    (hcluster : ∀ k ∈ c.live, (c.cluster k).Least)
    (hothers : ∀ l ∈ pre' ++ post', LeastAt (fun k => (c.cluster k).minVal) id l.clusters
      (l.minVal, l.minPos)) : SameClusters c (c.refreshMinima list.name) ∧ Minima (c.refreshMinima list.name) ∧
      (c.refreshMinima list.name).cluster = c.cluster ∧
      (c.refreshMinima list.name).freeClusterDistances = c.freeClusterDistances := by
  have hnodup := hlayout.names
  rw [hlists] at hnodup
  obtain ⟨list', hlist'⟩ : ∃ list' : EquivClusterList D, list' = { list with
      minVal := (scanMinimum (fun k => (c.cluster k).minVal) id list.clusters (⊤, list.minPos)).1
      minPos := (scanMinimum (fun k => (c.cluster k).minVal) id list.clusters (⊤, list.minPos)).2 } :=
    ⟨_, rfl⟩
  have hlists' : (c.refreshMinima list.name).lists = pre' ++ list' :: post' := by
    show c.lists.map _ = _
    rw [hlists, hlist']
    exact map_list_middle hnodup
  have hshape : (c.refreshMinima list.name).shape = c.shape := by
    unfold Clusterer.shape
    rw [hlists', hlists, hlist']
    simp
  have hsame : SameClusters c (c.refreshMinima list.name) :=
    ⟨hshape, fun _ => .refl _, rfl, rfl, rfl, rfl, rfl, rfl, rfl⟩
  refine ⟨hsame, ⟨fun k hk => ?_, fun l hl => ?_, ?_⟩, rfl, rfl⟩
  · rw [hsame.live] at hk
    exact hcluster k hk
  · rw [hlists'] at hl
    obtain hl | hl := mem_append.1 hl
    · exact hothers l (mem_append_left _ hl)
    · obtain rfl | hl := mem_cons.1 hl
      · rw [hlist']
        exact leastAt_scan
      · exact hothers l (mem_append_right _ hl)
  · exact leastAt_scan

end ScoreP.Clustering
