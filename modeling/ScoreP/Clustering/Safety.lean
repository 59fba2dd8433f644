import ScoreP.Clustering.Joining

/-!
# The clusterer over any sequence of iterations

`mergeClosest_spec` puts the loops of a merge together: the clusters merged are the two ends of a lowest
distance (`Closest`), afterwards everything is in order without the second one (`Merged`).
`run_sound` is the result for every sequence of iterations: the disjoint sets and counts (`Sound`), the
distances and minima (`Measured`), and what the next iteration does (`Reduces`).
-/

namespace ScoreP.Clustering

open Foundations Clusterer Function List

variable {W R F D : Type} {n : ℕ} [LinearOrder D] {P : Profile W R F D n} {c c' s : Clusterer W R F D n}
  {a b k j lt : ℕ} {before mid post : List ℕ} {list : EquivClusterList D}

/-! ## The two clusters -/

structure Closest (c : Clusterer W R F D n) (a b : ℕ) : Prop where
  ends : ∃ list ∈ c.lists, c.eqClLtSet.minPos = some list.name ∧ list.minPos = some a ∧
    ∃ before mid post pre e rest, list.clusters = before ++ a :: mid ++ b :: post ∧
      (c.cluster a).d = pre ++ e :: rest ∧ pre.length = mid.length ∧
      (c.cluster a).minPos = some e.name ∧ e.source = a ∧ e.target = b ∧
      ∀ k ∈ c.live, ∀ x ∈ (c.cluster k).d, e.value ≤ x.value

structure Merged (c : Clusterer W R F D n) (a b : ℕ) (c' : Clusterer W R F D n) : Prop where
  live : c.live.Perm (b :: c'.live)
  clusters : c'.shape = c.shape.map fun list => (list.1, list.2.erase b)
  count : (c'.cluster a).iterationCount = (c.cluster a).iterationCount + (c.cluster b).iterationCount
  others : ∀ k ∈ c'.live, k ≠ a → (c.cluster k).Keeps (c'.cluster k)
  sets : ∀ i, i < c.clItCount → ∀ k, (InCluster c' i k ↔ InCluster c i k ∧ k ≠ b ∨ InCluster c i b ∧ k = a)

theorem Minima.le (h : Minima c) (hk : k ∈ c.live) {x : Distance D} (hx : x ∈ (c.cluster k).d) :
    c.eqClLtSet.minVal ≤ x.value := by
  obtain ⟨list, hlist, hmem⟩ := mem_flatMap.1 hk
  exact le_trans (h.set.le list hlist) (le_trans ((h.list list hlist).le k hmem) ((h.cluster k hk).le x hx))

theorem walkTo_spec {pre rest : List (Distance D)} {e : Distance D}
    (hnames : ∀ x ∈ pre, x.name ≠ e.name) (hlength : pre.length = mid.length) :
    walkTo e.name (pre ++ e :: rest) (mid ++ b :: post) = some (b, mid.length + 1) := by
  induction pre generalizing mid with
  | nil =>
    have hmid : mid = [] := length_eq_zero_iff.1 hlength.symm
    rw [hmid]
    exact if_pos rfl
  | cons x pre ih =>
    cases mid with
    | nil => exact nomatch hlength
    | cons k mid =>
      rw [cons_append, cons_append, walkTo, if_neg (hnames x mem_cons_self),
        ih (fun y hy => hnames y (mem_cons_of_mem x hy)) (by simpa using hlength)]
      rfl

theorem exists_closest (hlayout : Layout c) (hnames : Names c) (hminima : Minima c)
    (haligned : ∀ l ∈ c.lists, Aligned c.cluster l.clusters) (hmin : c.eqClLtSet.minVal ≠ ⊤) :
    ∃ list ∈ c.lists, ∃ a before mid b post,
      (c.eqClLtSet.lists.find? fun l => some l.name = c.eqClLtSet.minPos) = some list ∧
      list.minPos = some a ∧ list.clusters = before ++ a :: mid ++ b :: post ∧
      (∃ shortest, (c.cluster a).minPos = some shortest ∧
        walkTo shortest (c.cluster a).d (mid ++ b :: post) = some (b, mid.length + 1)) ∧ Closest c a b := by
  obtain ⟨list, hlist, hsetPos, hlistMin⟩ := hminima.set.attained hmin
  obtain ⟨a, ha, hlistPos, haMin⟩ := (hminima.list list hlist).attained (by rw [hlistMin]; exact hmin)
  have haLive : a ∈ c.live := mem_live_of_mem hlist ha
  obtain ⟨e, he, haPos, heValue⟩ := (hminima.cluster a haLive).attained (by
    show (c.cluster a).minVal ≠ ⊤
    rw [show (c.cluster a).minVal = list.minVal from haMin, hlistMin]
    exact hmin)
  obtain ⟨before, after, hclusters⟩ := append_of_mem ha
  obtain ⟨pre, rest, hd⟩ := append_of_mem he
  have hentries : EntriesFor (c.cluster a).d a after := by
    have hall := haligned list hlist
    rw [hclusters] at hall
    exact (aligned_append.1 hall).2.1
  have htargets := hentries.targets
  rw [hd, map_append, map_cons] at htargets
  have hafter : after = pre.map Distance.target ++ e.target :: rest.map Distance.target := htargets.symm
  have hname : ∀ x ∈ pre, x.name ≠ e.name := by
    intro x hx heq
    have hnodup := hnames.nodup a haLive
    rw [Clusterer.names, hd, map_append, map_cons] at hnodup
    have hnotMem := (nodup_cons.1 (nodup_middle.1 hnodup)).1
    exact hnotMem (mem_append_left _ (by rw [← heq]; exact mem_map_of_mem hx))
  have hlength : pre.length = (pre.map Distance.target).length := (length_map _).symm
  have hfind : (c.eqClLtSet.lists.find? fun l => some l.name = c.eqClLtSet.minPos) = some list := by
    have hsetPos' : c.eqClLtSet.minPos = some list.name := hsetPos
    rw [hsetPos']
    simpa only [Option.some.injEq] using hlayout.find hlist
  have hclusters' : list.clusters = before ++ a :: pre.map Distance.target ++
      e.target :: rest.map Distance.target := by
    rw [hclusters, hafter, append_assoc]
    rfl
  refine ⟨list, hlist, a, before, pre.map Distance.target, e.target, rest.map Distance.target, hfind,
    hlistPos, hclusters', ⟨e.name, haPos, ?_⟩, ⟨list, hlist, hsetPos, hlistPos, before,
      pre.map Distance.target, rest.map Distance.target, pre, e, rest, hclusters', hd, hlength, haPos,
      hentries.sources e he, rfl, fun k hk x hx => ?_⟩⟩
  · rw [hd]
    exact walkTo_spec hname hlength
  · have hle := hminima.le hk hx
    rw [heValue, show (c.cluster a).minVal = list.minVal from haMin, hlistMin]
    exact hle

/-! ## The merge -/

theorem split_clusters (h : (before ++ a :: mid ++ b :: post).Nodup) :
    (before ++ a :: mid ++ b :: post).takeWhile (· != a) = before ∧
      ((before ++ a :: mid ++ b :: post).dropWhile (· != a)).takeWhile (· != b) = a :: mid ∧
      (before ++ a :: mid ++ b :: post).erase b = before ++ a :: mid ++ post ∧
      nextClusters a (before ++ a :: mid ++ b :: post) = mid ++ b :: post ∧
      nextClusters a (before ++ a :: mid ++ post) = mid ++ post := by
  have hb : b ∉ before ++ a :: mid := by
    have hperm := (nodup_cons.1 (nodup_middle.1 h)).1
    exact fun hmem => hperm (mem_append_left _ hmem)
  have ha : a ∉ before := by
    rw [append_assoc] at h
    have hperm := (nodup_cons.1 (nodup_middle.1 h)).1
    exact fun hmem => hperm (mem_append_left _ hmem)
  have hbefore : ∀ x ∈ before, (x != a) = true := fun x hx => bne_iff_ne.2 fun heq => ha (by
    rw [← heq]
    exact hx)
  have hmid : ∀ x ∈ a :: mid, (x != b) = true := fun x hx => bne_iff_ne.2 fun heq => hb (by
    rw [← heq]
    exact mem_append_right _ hx)
  have hassoc : ∀ tail : List ℕ, before ++ a :: mid ++ tail = before ++ a :: (mid ++ tail) := fun tail => by
    rw [append_assoc]
    rfl
  refine ⟨?_, ?_, ?_, ?_, ?_⟩
  · rw [hassoc, takeWhile_append_of_pos hbefore]
    simp
  · rw [hassoc, dropWhile_append_of_pos hbefore]
    have hstop : (a :: (mid ++ b :: post)).dropWhile (· != a) = a :: (mid ++ b :: post) := by simp
    rw [hstop, ← cons_append, takeWhile_append_of_pos hmid]
    simp
  · rw [erase_append_right _ hb, erase_cons_head]
  · rw [hassoc]
    exact nextClusters_middle ha
  · rw [hassoc]
    exact nextClusters_middle ha

structure Shrinks (c : Clusterer W R F D n) (b : ℕ) (c' : Clusterer W R F D n) : Prop where
  live : c.live.Perm (b :: c'.live)
  shape : c'.shape = c.shape.map fun list => (list.1, list.2.erase b)
  layout : Layout c'
  names : Names c'
  minima : Minima c'
  aligned : ∀ l ∈ c'.lists, Aligned c'.cluster l.clusters
  keeps : ∀ k, k ≠ b → (c.cluster k).Keeps (c'.cluster k)
  iteration : c'.iteration = c.iteration
  maxClCount : c'.maxClCount = c.maxClCount
  clCount : c'.clCount = c.clCount
  clItCount : c'.clItCount = c.clItCount

theorem shape_erase {pre' post' : List (EquivClusterList D)} (hb : ∀ l ∈ pre' ++ post', b ∉ l.clusters) :
    (pre' ++ { list with clusters := list.clusters.erase b } :: post').map (fun l => (l.name, l.clusters)) =
      ((pre' ++ list :: post').map fun l => (l.name, l.clusters)).map fun l => (l.1, l.2.erase b) := by
  have hid : ∀ ls : List (EquivClusterList D), (∀ l ∈ ls, b ∉ l.clusters) →
      (ls.map fun l => (l.name, l.clusters)) =
        (ls.map fun l => (l.name, l.clusters)).map fun l => (l.1, l.2.erase b) := by
    intro ls hls
    rw [map_map]
    refine map_congr_left fun l hl => ?_
    simp only [Function.comp_apply, erase_of_not_mem (hls l hl)]
  simp only [map_append, map_cons]
  rw [← hid pre' fun l hl => hb l (mem_append_left _ hl),
    ← hid post' fun l hl => hb l (mem_append_right _ hl)]

theorem shrink_spec (hlayout : Layout c) (hnames : Names c) (hminima : Minima c)
    (haligned : ∀ l ∈ c.lists, Aligned c.cluster l.clusters) (hlist : list ∈ c.lists)
    (hclusters : list.clusters = before ++ a :: mid ++ b :: post) : ∃ c₁ c₂ c₃,
    updateBefore P a before.length (mid.length + 1) before 1 c = some c₁ ∧
      dropBetween (mid.length + 1) (a :: mid) 1 c₁ = some c₂ ∧
      refreshDistances P (c₂.deleteCluster list.name b) a (mid ++ post) = some c₃ ∧
      Shrinks c b (c₃.refreshMinima list.name) := by
  have hnodup := hlayout.clusters_nodup hlist
  have hallAligned := haligned list hlist
  have hmem : ∀ k ∈ before ++ a :: mid ++ b :: post, k ∈ c.live := fun k hk =>
    mem_live_of_mem hlist (by rw [hclusters]; exact hk)
  have hmemA : a ∈ list.clusters := by simp [hclusters]
  have hmemB : b ∈ list.clusters := by simp [hclusters]
  rw [hclusters] at hnodup hallAligned
  obtain ⟨-, -, herase, -, -⟩ := split_clusters hnodup
  obtain ⟨hfrontNodup, hbackNodup, hfrontBack⟩ := nodup_append.1 hnodup
  obtain ⟨hbeforeNodup, hmidNodup, hbeforeMid⟩ := nodup_append.1 hfrontNodup
  have hbNot : b ∉ before ++ a :: mid := fun hmem => hfrontBack b hmem b mem_cons_self rfl
  have hne : a ≠ b := by
    rintro rfl
    exact hbNot (by simp)
  have hmidNot : ∀ k ∈ a :: mid, k ∉ before := fun k hk hmem => hbeforeMid k hmem k hk rfl
  obtain ⟨halignedBefore, halignedTail⟩ : AlignedBefore c.cluster (a :: mid ++ b :: post) before ∧
      Aligned c.cluster (a :: mid ++ b :: post) := by
    rw [append_assoc] at hallAligned
    exact aligned_append.1 hallAligned
  obtain ⟨halignedMid, halignedB⟩ := aligned_append.1 halignedTail
  -- the loops over the clusters before `b`
  obtain ⟨c₁, hrun₁, htrims₁, haligned₁⟩ := @updateBefore_spec _ _ _ _ _ _ P c a b before mid post
    before.length (mid.length + 1) 1 rfl (Nat.add_comm _ _) hbeforeNodup
    (fun k hk => hmem k (by simp [hk])) hnames
    (fun k hk => hminima.cluster k (hmem k (by simp [hk]))) halignedBefore
  obtain ⟨c₂, hrun₂, htrims₂, haligned₂⟩ := @dropBetween_spec _ _ _ _ _ _ c₁ b (a :: mid) post
    (mid.length + 1) 1 (by simp only [length_cons]; omega) hmidNodup
    (fun k hk => by rw [htrims₁.live]; exact hmem k (mem_append_left _ (mem_append_right _ hk)))
    htrims₁.names
    (fun k hk => by
      rw [htrims₁.other k (hmidNot k hk)]
      exact hminima.cluster k (hmem k (mem_append_left _ (mem_append_right _ hk))))
    (halignedMid.congr fun k hk => by rw [htrims₁.other k (hmidNot k hk)])
  have htrims := htrims₁.append htrims₂
  have hset : c₂.eqClLtSet = c.eqClLtSet := by rw [htrims.rest]
  have hlists : c₂.lists = c.lists := by rw [Clusterer.lists, hset, Clusterer.lists]
  have hlayout₂ : Layout c₂ := by
    refine hlayout.congr hset ?_ ?_ ?_ <;> rw [htrims.rest]
  -- `b` leaves
  obtain ⟨pre', post', hsplit⟩ := append_of_mem hlist
  obtain ⟨hleaves, hlistsLeft⟩ := deleteCluster_spec hlayout₂ htrims.names (hlists.trans hsplit) hmemB
    hmemA hne
  have hentries : EntriesFor ((c₂.deleteCluster list.name b).cluster a).d a (mid ++ post) := by
    rw [hleaves.other a hne]
    exact haligned₂.1
  -- the distances of `a`
  obtain ⟨cl, hrun₃, hkeepsA, hleastA, hentriesA, hnames₃⟩ := @refreshDistances_spec _ _ _ _ _ _ P
    (c₂.deleteCluster list.name b) a (mid ++ post) hleaves.names hentries
  obtain ⟨c₃, hc₃⟩ : ∃ c₃, c₃ = (c₂.deleteCluster list.name b).setCluster a cl := ⟨_, rfl⟩
  rw [← hc₃] at hrun₃ hnames₃
  have hlists₃ : c₃.lists = pre' ++ { list with clusters := list.clusters.erase b } :: post' := by
    rw [hc₃]
    exact hlistsLeft
  have hlive₃ : c₃.live = (c₂.deleteCluster list.name b).live := by
    rw [hc₃]
    rfl
  have hlayout₃ : Layout c₃ := by
    refine hleaves.layout.congr ?_ ?_ ?_ ?_ <;> rw [hc₃] <;> rfl
  have hself : c₃.cluster a = cl := by
    rw [hc₃]
    exact update_self _ _ _
  have hother : ∀ k, k ≠ a → k ≠ b → c₃.cluster k = c₂.cluster k := fun k hka hkb => by
    rw [hc₃]
    show update (c₂.deleteCluster list.name b).cluster a cl k = _
    rw [update_of_ne hka, hleaves.other k hkb]
  have hkept : ∀ k, k ∉ before ++ a :: mid → k ≠ b → c₃.cluster k = c.cluster k := fun k hk hkb => by
    rw [hother k (fun heq => hk (by simp [heq])) hkb, htrims.other k hk]
  -- the clusters of the other lists
  have hapart : ∀ l ∈ pre' ++ post', ∀ k ∈ l.clusters, k ∉ before ++ a :: mid ++ b :: post := by
    intro l hl k hk hmem
    have hnodupNames := hlayout.names
    rw [hsplit, map_append, map_cons] at hnodupNames
    have hnotMem := (nodup_cons.1 (nodup_middle.1 hnodupNames)).1
    rw [← map_append] at hnotMem
    have hl' : l ∈ c.lists := by
      rw [hsplit]
      obtain hl | hl := mem_append.1 hl
      · exact mem_append_left _ hl
      · exact mem_append_right _ (mem_cons_of_mem _ hl)
    have heq := hlayout.only hlist (by rw [hclusters]; exact hmem) l hl' hk
    exact hnotMem (by rw [← heq]; exact mem_map_of_mem hl)
  have hfar : ∀ l ∈ pre' ++ post', ∀ k ∈ l.clusters, c₃.cluster k = c.cluster k := fun l hl k hk =>
    hkept k (fun hmem => hapart l hl k hk (mem_append_left _ hmem)) fun heq =>
      hapart l hl k hk (by simp [heq])
  have hbLive₃ : b ∉ c₃.live := by
    have hperm := hleaves.live.nodup_iff.1 (nodup_append.1 hlayout₂.live).1
    rw [hlive₃]
    exact (nodup_cons.1 hperm).1
  have hleast₃ : ∀ k ∈ c₃.live, (c₃.cluster k).Least := by
    intro k hk
    by_cases hka : k = a
    · rw [hka, hself]
      exact hleastA
    · have hkb : k ≠ b := fun heq => hbLive₃ (by rw [← heq]; exact hk)
      rw [hother k hka hkb]
      by_cases hfront : k ∈ before ++ a :: mid
      · exact htrims.least k hfront
      · rw [htrims.other k hfront]
        refine hminima.cluster k ?_
        rw [hlive₃] at hk
        rw [← htrims.live]
        exact hleaves.live.mem_iff.2 (mem_cons_of_mem b hk)
  obtain ⟨hsame, hminima₄, hcluster₄, hfree₄⟩ := refreshMinima_spec hlayout₃ hlists₃ hleast₃ fun l hl => by
      refine (hminima.list l ?_).congr (fun _ => Iff.rfl) fun k hk => by rw [hfar l hl k hk]
      rw [hsplit]
      obtain hl | hl := mem_append.1 hl
      · exact mem_append_left _ hl
      · exact mem_append_right _ (mem_cons_of_mem _ hl)
  refine ⟨c₁, c₂, c₃, hrun₁, hrun₂, hrun₃, ?_, ?_, hsame.layout hlayout₃, ?_, hminima₄, ?_, ?_, ?_, ?_,
    ?_, ?_⟩
  · rw [hsame.live, hlive₃, ← htrims.live]
    exact hleaves.live
  · rw [hsame.shape, Clusterer.shape, Clusterer.shape, hlists₃, hsplit]
    exact shape_erase fun l hl hmem => hapart l hl b hmem (by simp)
  · refine hnames₃.congr hsame.live (fun k => ?_) hfree₄ rfl
    rw [Clusterer.names, Clusterer.names, hcluster₄]
  · intro l hl
    obtain ⟨l', hl', -, hclusters'⟩ := exists_list_of_shape hsame.shape.symm hl
    rw [← hclusters', hcluster₄]
    rw [hlists₃] at hl'
    have hfarAligned : ∀ l ∈ pre' ++ post', l ∈ c.lists → Aligned c₃.cluster l.clusters :=
      fun l hl hlc => (haligned l hlc).congr fun k hk => by rw [hfar l hl k hk]
    obtain hl' | hl' := mem_append.1 hl'
    · exact hfarAligned l' (mem_append_left _ hl') (by rw [hsplit]; exact mem_append_left _ hl')
    · obtain rfl | hl' := mem_cons.1 hl'
      · show Aligned c₃.cluster (list.clusters.erase b)
        rw [hclusters, herase, append_assoc]
        have hmidB : ∀ k ∈ a :: mid, k ≠ b := fun k hk heq =>
          hbNot (mem_append_right _ (by rw [← heq]; exact hk))
        have hmidA : ∀ k ∈ mid, k ≠ a := fun k hk heq =>
          (nodup_cons.1 hmidNodup).1 (by rw [← heq]; exact hk)
        refine aligned_append.2 ⟨haligned₁.congr fun k hk => ?_, ?_, aligned_append.2 ⟨?_, ?_⟩⟩
        · rw [hother k (fun heq => hmidNot a mem_cons_self (by rw [← heq]; exact hk))
            fun heq => hbNot (mem_append_left _ (by rw [← heq]; exact hk)),
            htrims₂.other k fun hmem => hmidNot k hmem hk]
        · rw [hself]
          exact hentriesA
        · refine haligned₂.2.congr fun k hk => ?_
          rw [hother k (hmidA k hk) (hmidB k (mem_cons_of_mem a hk))]
        · refine halignedB.2.congr fun k hk => ?_
          rw [hkept k (fun hmem => hfrontBack k hmem k (mem_cons_of_mem b hk) rfl) fun heq =>
            (nodup_cons.1 hbackNodup).1 (by rw [← heq]; exact hk)]
      · exact hfarAligned l' (mem_append_right _ hl') (by
          rw [hsplit]
          exact mem_append_right _ (mem_cons_of_mem _ hl'))
  · intro k hkb
    rw [hcluster₄]
    by_cases hka : k = a
    · have hkeeps := htrims.keeps a
      rw [← hleaves.other a hne] at hkeeps
      rw [hka, hself]
      exact hkeeps.trans hkeepsA
    · rw [hother k hka hkb]
      exact htrims.keeps k
  · rw [hsame.iteration, hc₃]
    exact hleaves.iteration.trans (by rw [htrims.rest])
  · rw [hsame.maxClCount, hc₃]
    exact hleaves.maxClCount.trans (by rw [htrims.rest])
  · rw [hsame.clCount, hc₃]
    exact hleaves.clCount.trans (by rw [htrims.rest])
  · rw [hsame.clItCount, hc₃]
    exact hleaves.clItCount.trans (by rw [htrims.rest])

theorem mergeClusters_spec (h : Prepared c) (hmax : c.maxClCount < c.clCount)
    (hlist : list ∈ c.lists) (hclusters : list.clusters = before ++ a :: mid ++ b :: post) : ∃ c',
    mergeClusters P c list.name a b (mid.length + 1) list.clusters = some c' ∧ Merged c a b c' ∧ Inv c' ∧
      c'.clItCount = c.clItCount ∧ c'.maxClCount = c.maxClCount := by
  have huse : c.clCount = c.maxClCount + 1 ∧ c.maxClCount < c.clItCount ∧
      ∀ l ∈ c.lists, Aligned c.cluster l.clusters := by
    obtain ⟨heq, hle, -⟩ | huse := h.regime
    · omega
    · exact huse
  have hnodup := h.layout.clusters_nodup hlist
  rw [hclusters] at hnodup
  obtain ⟨htake, hbetween, herase, -, hnext⟩ := split_clusters hnodup
  have ha : a ∈ c.live := mem_live_of_mem hlist (by simp [hclusters])
  have hb : b ∈ c.live := mem_live_of_mem hlist (by simp [hclusters])
  have hne : a ≠ b := by
    rintro rfl
    exact (nodup_append.1 hnodup).2.2 a (by simp) a mem_cons_self rfl
  obtain ⟨root, lost, c₁, hadd, hjoin⟩ := @addUp_spec _ _ _ _ _ _ P c a b h.sets ha hb hne
  -- the sum leaves the lists and the distances as they are
  have hset₁ : c₁.eqClLtSet = c.eqClLtSet := by rw [hjoin.rest]
  have hlists₁ : c₁.lists = c.lists := by rw [Clusterer.lists, hset₁, Clusterer.lists]
  have hlive₁ : c₁.live = c.live := by rw [Clusterer.live, hlists₁, Clusterer.live]
  have hlayout₁ : Layout c₁ := by
    refine h.layout.congr hset₁ ?_ ?_ ?_ <;> rw [hjoin.rest]
  have hnames₁ : Names c₁ := by
    refine h.names.congr hlive₁ (fun k => ?_) (by rw [hjoin.rest]) (by rw [hjoin.rest])
    rw [Clusterer.names, (hjoin.distances k).1, Clusterer.names]
  obtain ⟨c₂, c₃, c₄, hrun₂, hrun₃, hrun₄, hshrinks⟩ := @shrink_spec _ _ _ _ _ _ P c₁ a b before mid post
    list hlayout₁ hnames₁ (hjoin.minima h.minima)
    (fun l hl => (huse.2.2 l (by rw [← hlists₁]; exact hl)).congr fun k _ => (hjoin.distances k).1)
    (by rw [hlists₁]; exact hlist) hclusters
  obtain ⟨c₅, hc₅⟩ : ∃ c₅, c₅ = c₄.refreshMinima list.name := ⟨_, rfl⟩
  rw [← hc₅] at hshrinks
  have hperm : c.live.Perm (b :: c₅.live) := by
    rw [← hlive₁]
    exact hshrinks.live
  have hlength := hperm.length_eq
  have hbNot : b ∉ c₅.live :=
    (nodup_cons.1 (hperm.nodup_iff.1 (nodup_append.1 h.layout.live).1)).1
  have hneOf : ∀ k ∈ c₅.live, k ≠ b := fun k hk heq => hbNot (by rw [← heq]; exact hk)
  have hitCount : c₅.clItCount = c.clItCount := hshrinks.clItCount.trans (by rw [hjoin.rest])
  have hmaxCount : c₅.maxClCount = c.maxClCount := hshrinks.maxClCount.trans (by rw [hjoin.rest])
  have hclCount : c₅.clCount = c.clCount := hshrinks.clCount.trans (by rw [hjoin.rest])
  have hcount := h.count
  have hle := h.le
  rw [length_cons] at hlength
  have hsets : Sets { c₅ with clCount := c₅.clCount - 1 } :=
    hjoin.sets h.sets ha hb hne h.rankLt (nodup_append.1 h.layout.live).1 hperm hshrinks.iteration
      hitCount fun k hk => hshrinks.keeps k (hneOf k hk)
  refine ⟨{ c₅ with clCount := c₅.clCount - 1 }, ?_, ⟨hperm, ?_, ?_, fun k hk hka => ?_, fun i hi k => ?_⟩,
    ⟨?_, ?_, ?_, hsets, ?_, ?_, fun heq => ?_, Or.inr ⟨?_, hshrinks.aligned⟩⟩, hitCount, hmaxCount⟩
  · simp only [mergeClusters, hclusters, htake, hbetween, herase, hnext, hadd, hrun₂, hrun₃, hrun₄, hc₅]
  · show c₅.shape = _
    rw [hshrinks.shape, Clusterer.shape, hlists₁, Clusterer.shape]
  · rw [← hjoin.iterationCount]
    exact (hshrinks.keeps a hne).iterationCount
  · rw [← hjoin.other k hka]
    exact hshrinks.keeps k (hneOf k hk)
  · rw [← hjoin.inCluster h.sets ha hb hne h.rankLt hi]
    show (∃ r, RootOf (fun i => (c₅.iteration i).parent) i r ∧ (c₅.iteration r).cluster = k) ↔ _
    rw [hshrinks.iteration]
    rfl
  · exact ⟨hshrinks.layout.names, hshrinks.layout.named, hshrinks.layout.nonempty, hshrinks.layout.live,
      hshrinks.layout.allocated⟩
  · exact ⟨hshrinks.names.nodup, hshrinks.names.apart, hshrinks.names.unfree, hshrinks.names.free,
      hshrinks.names.bound, hshrinks.names.freeBound⟩
  · exact ⟨hshrinks.minima.cluster, hshrinks.minima.list, hshrinks.minima.set⟩
  · show c₅.clCount - 1 = c₅.live.length
    omega
  · show c₅.clCount - 1 ≤ c₅.clItCount
    omega
  · have heq' : c₅.clCount - 1 = c₅.clItCount := heq
    omega
  · show c₅.clCount - 1 = c₅.maxClCount
    omega

theorem mergeClosest_spec (h : Prepared c) (hmax : c.maxClCount < c.clCount)
    (hmin : c.eqClLtSet.minVal ≠ ⊤) : ∃ a b c', mergeClosest P c = some (a, b, c') ∧ Closest c a b ∧
      Merged c a b c' ∧ Inv c' ∧ c'.clItCount = c.clItCount ∧ c'.maxClCount = c.maxClCount := by
  have haligned : ∀ l ∈ c.lists, Aligned c.cluster l.clusters := by
    obtain ⟨heq, hle, -⟩ | ⟨-, -, haligned⟩ := h.regime
    · omega
    · exact haligned
  obtain ⟨list, hlist, a, before, mid, b, post, hfind, hpos, hclusters, ⟨shortest, hshortest, hwalk⟩,
    hclosest⟩ := exists_closest h.layout h.names h.minima haligned hmin
  obtain ⟨c', hmerge, hmerged, hinv, hitCount, hmaxCount⟩ := @mergeClusters_spec _ _ _ _ _ _ P c a b before
    mid post list h hmax hlist hclusters
  have hnodup := h.layout.clusters_nodup hlist
  rw [hclusters] at hnodup
  have hnext : nextClusters a list.clusters = mid ++ b :: post := by
    rw [hclusters]
    exact (split_clusters hnodup).2.2.2.1
  refine ⟨a, b, c', ?_, hclosest, hmerged, hinv, hitCount, hmaxCount⟩
  simp [mergeClosest, hfind, hpos, hshortest, hnext, hwalk, hmerge]

/-! ## What is promised -/

structure Sound (c : Clusterer W R F D n) : Prop where
  acyclic : ∀ i, ¬Relation.TransGen (fun i p => c.parent i = some p) i i
  roots : ∀ i, i < c.clItCount → c.parent i = none →
    (c.iteration i).cluster ∈ c.live ∧ (c.cluster (c.iteration i).cluster).disjointSet = i
  clusters : ∀ k ∈ c.live, (c.cluster k).disjointSet < c.clItCount ∧
    c.parent (c.cluster k).disjointSet = none ∧ (c.iteration (c.cluster k).disjointSet).cluster = k
  found : ∀ i, i < c.clItCount → ∃ k ∈ c.live, ∀ j, InCluster c i j ↔ j = k
  different : c.live.Nodup
  total : (c.live.map fun k => (c.cluster k).iterationCount).sum = c.clItCount
  count : c.clCount = c.live.length
  le : c.clCount ≤ c.maxClCount

structure LowestOf (ds : List (Distance D)) (least : WithTop D) : Prop where
  le : ∀ e ∈ ds, least ≤ e.value
  attained : least ≠ ⊤ → ∃ e ∈ ds, e.value = least
  none : least = ⊤ ↔ ds = []

structure Measured (c : Clusterer W R F D n) : Prop where
  length : ∀ list ∈ c.lists, ∀ i (hi : i < list.clusters.length),
    (c.cluster list.clusters[i]).d.length = list.clusters.length - 1 - i
  entry : ∀ list ∈ c.lists, ∀ i (hi : i < list.clusters.length) k e,
    (c.cluster list.clusters[i]).d[k]? = some e →
      e.source = list.clusters[i] ∧ list.clusters[i + 1 + k]? = some e.target
  cluster : ∀ k ∈ c.live, LowestOf (c.cluster k).d (c.cluster k).minVal ∧
    ((c.cluster k).minVal ≠ ⊤ → ∃ e ∈ (c.cluster k).d,
      (c.cluster k).minPos = some e.name ∧ e.value = (c.cluster k).minVal)
  list : ∀ list ∈ c.lists, LowestOf (list.clusters.flatMap fun k => (c.cluster k).d) list.minVal ∧
    (list.minVal ≠ ⊤ → ∃ k ∈ list.clusters, list.minPos = some k ∧ (c.cluster k).minVal = list.minVal)
  set : LowestOf (c.live.flatMap fun k => (c.cluster k).d) c.eqClLtSet.minVal ∧
    (c.eqClLtSet.minVal ≠ ⊤ → ∃ list ∈ c.lists,
      c.eqClLtSet.minPos = some list.name ∧ list.minVal = c.eqClLtSet.minVal)

/-- What the end of an iteration does with the state `s` after its insertion. -/
inductive Reduces (P : Profile W R F D n) (s : Clusterer W R F D n) : Clusterer W R F D n → Prop
  | keep (h : s.clCount ≤ s.maxClCount) : Reduces P s s
  | grow (h : s.maxClCount < s.clCount) (hmin : s.eqClLtSet.minVal = ⊤) :
      Reduces P s { s with maxClCount := s.maxClCount + 1 }
  | merge {c' : Clusterer W R F D n} {a b : ℕ} (h : s.maxClCount < s.clCount)
      (hmerge : mergeClosest P s = some (a, b, c')) (hclosest : Closest s a b)
      (hmerged : Merged s a b c') : Reduces P s c'

theorem Inv.sound (h : Inv c) : Sound c where
  acyclic := h.sets.ranked.acyclic
  roots := h.sets.roots
  clusters := h.sets.backs
  found := fun i hi => by
    obtain ⟨r, hr⟩ := h.sets.ranked.exists_rootOf (fun i => Nat.lt_succ_of_le (h.sets.rankLe i)) i
    refine ⟨(c.iteration r).cluster, (h.sets.roots r (h.sets.root_lt hi hr) hr.isRoot).1, fun j => ?_⟩
    constructor
    · rintro ⟨s, hs, rfl⟩
      rw [hr.unique hs]
    · rintro rfl
      exact ⟨r, hr, rfl⟩
  different := (nodup_append.1 h.layout.live).1
  total := h.sets.total
  count := h.count
  le := by
    obtain ⟨heq, hle⟩ | ⟨heq, -⟩ := h.regime
    · omega
    · exact heq.le

theorem Aligned.entries {clusters : List ℕ} (h : Aligned c.cluster clusters) {i : ℕ}
    (hi : i < clusters.length) : EntriesFor (c.cluster clusters[i]).d clusters[i] (clusters.drop (i + 1)) := by
  induction clusters generalizing i with
  | nil => exact absurd hi (Nat.not_lt_zero i)
  | cons k later ih =>
    cases i with
    | zero => exact h.1
    | succ i => exact ih h.2 (Nat.lt_of_succ_lt_succ hi)

theorem Aligned.finite {clusters : List ℕ} (h : Aligned c.cluster clusters) (hk : k ∈ clusters) :
    ∀ e ∈ (c.cluster k).d, e.value ≠ ⊤ := by
  obtain ⟨i, hi, rfl⟩ := mem_iff_getElem.1 hk
  exact (h.entries hi).finite

theorem lowestOf {ds : List (Distance D)} {least : WithTop D} (hle : ∀ e ∈ ds, least ≤ e.value)
    (hattained : least ≠ ⊤ → ∃ e ∈ ds, e.value = least) (hfinite : ∀ e ∈ ds, e.value ≠ ⊤) :
    LowestOf ds least := by
  refine ⟨hle, hattained, fun htop => eq_nil_iff_forall_not_mem.2 fun e he => ?_, fun hnil => ?_⟩
  · have hele := hle e he
    rw [htop] at hele
    exact hfinite e he (top_le_iff.1 hele)
  · by_contra hne
    obtain ⟨e, he, -⟩ := hattained hne
    rw [hnil] at he
    exact not_mem_nil he

theorem Minima.measured (h : Minima c) (haligned : ∀ l ∈ c.lists, Aligned c.cluster l.clusters) :
    Measured c := by
  have hfinite : ∀ k ∈ c.live, ∀ e ∈ (c.cluster k).d, e.value ≠ ⊤ := fun k hk => by
    obtain ⟨list, hlist, hmem⟩ := mem_flatMap.1 hk
    exact (haligned list hlist).finite hmem
  have hlistAttained : ∀ list ∈ c.lists, list.minVal ≠ ⊤ → ∃ k ∈ list.clusters,
      list.minPos = some k ∧ (c.cluster k).minVal = list.minVal := fun list hlist =>
    (h.list list hlist).attained
  have hentry : ∀ k ∈ c.live, (c.cluster k).minVal ≠ ⊤ →
      ∃ e ∈ (c.cluster k).d, e.value = (c.cluster k).minVal := fun k hk hne => by
    obtain ⟨e, he, -, hvalue⟩ := (h.cluster k hk).attained hne
    exact ⟨e, he, hvalue⟩
  have hlistEntry : ∀ list ∈ c.lists, list.minVal ≠ ⊤ → ∃ k ∈ list.clusters,
      ∃ e ∈ (c.cluster k).d, e.value = list.minVal := fun list hlist hne => by
    obtain ⟨k, hk, -, hvalue⟩ := hlistAttained list hlist hne
    obtain ⟨e, he, heq⟩ := hentry k (mem_live_of_mem hlist hk) (by rw [hvalue]; exact hne)
    exact ⟨k, hk, e, he, heq.trans hvalue⟩
  refine ⟨fun list hlist i hi => ?_, fun list hlist i hi k e he => ?_, fun k hk => ⟨?_, ?_⟩,
    fun list hlist => ⟨?_, hlistAttained list hlist⟩, ?_, h.set.attained⟩
  · rw [((haligned list hlist).entries hi).length, length_drop]
    omega
  · have hentries := (haligned list hlist).entries hi
    refine ⟨hentries.sources e (mem_of_getElem? he), ?_⟩
    rw [← getElem?_drop, ← hentries.targets, getElem?_map, he]
    rfl
  · exact lowestOf (h.cluster k hk).le (hentry k hk) (hfinite k hk)
  · exact (h.cluster k hk).attained
  · refine lowestOf (fun e he => ?_) (fun hne => ?_) fun e he => ?_
    · obtain ⟨k, hk, he⟩ := mem_flatMap.1 he
      exact le_trans ((h.list list hlist).le k hk) ((h.cluster k (mem_live_of_mem hlist hk)).le e he)
    · obtain ⟨k, hk, e, he, heq⟩ := hlistEntry list hlist hne
      exact ⟨e, mem_flatMap.2 ⟨k, hk, he⟩, heq⟩
    · obtain ⟨k, hk, he⟩ := mem_flatMap.1 he
      exact hfinite k (mem_live_of_mem hlist hk) e he
  · refine lowestOf (fun e he => ?_) (fun hne => ?_) fun e he => ?_
    · obtain ⟨k, hk, he⟩ := mem_flatMap.1 he
      exact h.le hk he
    · obtain ⟨list, hlist, -, hvalue⟩ := h.set.attained hne
      obtain ⟨k, hk, e, he, heq⟩ := hlistEntry list hlist (by
        intro htop
        exact hne (hvalue.symm.trans htop))
      exact ⟨e, mem_flatMap.2 ⟨k, mem_live_of_mem hlist hk, he⟩, heq.trans hvalue⟩
    · obtain ⟨k, hk, he⟩ := mem_flatMap.1 he
      exact hfinite k hk e he

/-! ## The run -/

theorem Minima.fresh (h : Minima c) (haligned : ∀ l ∈ c.lists, Aligned c.cluster l.clusters)
    (hmin : c.eqClLtSet.minVal = ⊤) (hk : k ∈ c.live) : Fresh (c.cluster k) := by
  have hnil : (c.live.flatMap fun k => (c.cluster k).d) = [] :=
    (h.measured haligned).set.1.none.1 hmin
  have hd : (c.cluster k).d = [] := flatMap_eq_nil_iff.1 hnil k hk
  exact ⟨hd, ((h.measured haligned).cluster k hk).1.none.2 hd⟩

theorem reduceClusters_spec (h : Prepared c) : ∃ c', reduceClusters P c = some c' ∧ Reduces P c c' ∧
    Inv c' ∧ c'.clItCount = c.clItCount ∧ c.maxClCount ≤ c'.maxClCount ∧
      (c'.maxClCount = c.maxClCount ∨ c.maxClCount < c.clItCount) ∧ (c.maxClCount < c.clCount →
        c'.clCount = c'.maxClCount ∧ ∀ l ∈ c'.lists, Aligned c'.cluster l.clusters) := by
  unfold reduceClusters
  by_cases hmax : c.maxClCount < c.clCount
  · have hcount := h.count
    have hle := h.le
    have hlt : c.maxClCount < c.clItCount := by omega
    rw [if_pos hmax]
    by_cases hmin : c.eqClLtSet.minVal = ⊤
    · obtain ⟨heq, haligned⟩ : c.clCount = c.maxClCount + 1 ∧
          ∀ l ∈ c.lists, Aligned c.cluster l.clusters := by
        obtain ⟨heq, hle, -⟩ | ⟨heq, -, haligned⟩ := h.regime
        · omega
        · exact ⟨heq, haligned⟩
      rw [if_pos hmin]
      refine ⟨{ c with maxClCount := c.maxClCount + 1 }, rfl, .grow hmax hmin,
        ⟨?_, ?_, ?_, ?_, hcount, hle, fun _ k hk => ?_, Or.inr ⟨heq, haligned⟩⟩, rfl, Nat.le_succ _,
        Or.inr hlt, fun _ => ⟨heq, haligned⟩⟩
      · exact ⟨h.layout.names, h.layout.named, h.layout.nonempty, h.layout.live, h.layout.allocated⟩
      · exact ⟨h.names.nodup, h.names.apart, h.names.unfree, h.names.free, h.names.bound, h.names.freeBound⟩
      · exact ⟨h.minima.cluster, h.minima.list, h.minima.set⟩
      · exact ⟨h.sets.ranked, h.sets.rankLe, h.sets.parents, h.sets.roots, h.sets.backs, h.sets.total⟩
      · exact h.minima.fresh haligned hmin hk
    · obtain ⟨a, b, c', hmerge, hclosest, hmerged, hinv, hitCount, hmaxCount⟩ :=
        @mergeClosest_spec _ _ _ _ _ _ P c h hmax hmin
      rw [if_neg hmin, hmerge]
      refine ⟨c', rfl, .merge hmax hmerge hclosest hmerged, hinv, hitCount, hmaxCount.ge,
        Or.inl hmaxCount, fun _ => hinv.regime.resolve_left ?_⟩
      rintro ⟨heq, -⟩
      have hlength := hmerged.live.length_eq
      have hcount' := hinv.count
      rw [length_cons] at hlength
      omega
  · rw [if_neg hmax]
    have hfresh : c.clCount = c.clItCount ∧ c.clItCount ≤ c.maxClCount ∧
        ∀ k ∈ c.live, Fresh (c.cluster k) := by
      obtain hfresh | ⟨heq, -⟩ := h.regime
      · exact hfresh
      · omega
    exact ⟨c, rfl, .keep (Nat.le_of_not_lt hmax), ⟨h.layout, h.names, h.minima, h.sets, h.count, h.le,
      fun _ => hfresh.2.2, Or.inl ⟨hfresh.1, hfresh.2.1⟩⟩, rfl, Nat.le_refl _, Or.inl rfl,
      fun hlt => absurd hlt hmax⟩

/-- What a run keeps that began with the maximum `max`. -/
structure Runs (max : ℕ) (c : Clusterer W R F D n) : Prop where
  inv : Inv c
  start : c.clItCount ≤ max → c.maxClCount = max
  use : max < c.clItCount → c.clCount = c.maxClCount ∧ ∀ l ∈ c.lists, Aligned c.cluster l.clusters

theorem runs_new {trees : W} {memory : ℕ → Cluster R D n} {max : ℕ} :
    Runs max (newClusterer P trees memory max) where
  inv := {
    layout := ⟨nodup_nil, by simp [newClusterer, Clusterer.lists],
      by simp [newClusterer, Clusterer.lists], nodup_nil,
      by simp [newClusterer, Clusterer.live, Clusterer.lists]⟩
    names := by
      refine ⟨?_, ?_, ?_, nodup_nil, ?_, ?_⟩ <;>
        simp [newClusterer, Clusterer.live, Clusterer.lists]
    minima := by
      refine ⟨?_, ?_, leastAt_nil⟩ <;> simp [newClusterer, Clusterer.live, Clusterer.lists]
    sets := by
      refine ⟨?_, ?_, ?_, ?_, ?_, rfl⟩ <;>
        simp [newClusterer, Clusterer.live, Clusterer.lists, Clusterer.rank, Clusterer.parent, Ranked]
    count := rfl
    le := Nat.le_refl _
    fresh := fun _ => by simp [newClusterer, Clusterer.live, Clusterer.lists]
    regime := Or.inl ⟨rfl, Nat.zero_le _⟩ }
  start := fun _ => rfl
  use := fun h => absurd h (Nat.not_lt_zero max)

theorem addIterToClustering_spec {max : ℕ} (h : Runs max c) (path : R) : ∃ s c',
    insertIteration P c path = some s ∧ reduceClusters P s = some c' ∧
      addIterToClustering P c path = some c' ∧ Reduces P s c' ∧ Runs max c' ∧
      c'.clItCount = c.clItCount + 1 := by
  obtain ⟨s, hinsert, hprepared, hitCount, hmaxCount, -⟩ := @insertIteration_spec _ _ _ _ _ _ P c path h.inv
  obtain ⟨c', hreduce, hreduces, hinv, hitCount', hmaxLe, hmaxCount', huse⟩ :=
    @reduceClusters_spec _ _ _ _ _ _ P s hprepared
  have hstart := h.start
  refine ⟨s, c', hinsert, hreduce, by simp only [addIterToClustering, hinsert, hreduce], hreduces,
    ⟨hinv, fun hle => by omega, fun hlt => huse ?_⟩, by omega⟩
  -- there were more iterations than clusters may be, so the new cluster is one too many
  obtain ⟨heq, hle, -⟩ | ⟨heq, -⟩ := hprepared.regime
  · by_cases hbefore : max < c.clItCount
    · have hcount := (h.use hbefore).1
      have hclLe := h.inv.le
      omega
    · omega
  · omega

theorem addIterations_spec {max : ℕ} (h : Runs max c) (paths : List R) : ∃ c',
    addIterations P paths c = some c' ∧ Runs max c' ∧ c'.clItCount = c.clItCount + paths.length := by
  induction paths generalizing c with
  | nil => exact ⟨c, rfl, h, rfl⟩
  | cons path paths ih =>
    obtain ⟨-, c₁, -, -, hstep, -, hruns, hcount⟩ := @addIterToClustering_spec _ _ _ _ _ _ P c max h path
    obtain ⟨c', hrun, hruns', hcount'⟩ := ih hruns
    refine ⟨c', ?_, hruns', by rw [hcount', hcount, length_cons]; omega⟩
    simp only [addIterations, hstep]
    exact hrun

/-- After any sequence of iterations, the sets, counts, distances and minima are as they should be, and
the next iteration merges the ends of a lowest distance if it merges at all. -/
theorem run_sound (P : Profile W R F D n) (trees : W) (memory : ℕ → Cluster R D n) (max : ℕ)
    (paths : List R) : ∃ c, addIterations P paths (newClusterer P trees memory max) = some c ∧
      c.clItCount = paths.length ∧ Sound c ∧ (max < paths.length → Measured c) ∧
      ∀ path, ∃ s c', insertIteration P c path = some s ∧ reduceClusters P s = some c' ∧
        addIterToClustering P c path = some c' ∧ Reduces P s c' := by
  obtain ⟨c, hrun, hruns, hcount⟩ := @addIterations_spec _ _ _ _ _ _ P _ max
    (@runs_new _ _ _ _ _ _ P trees memory max) paths
  have hlength : c.clItCount = paths.length := hcount.trans (Nat.zero_add _)
  refine ⟨c, hrun, hlength, hruns.inv.sound, fun hlt => ?_, fun path => ?_⟩
  · exact hruns.inv.minima.measured (hruns.use (by omega)).2
  · obtain ⟨s, c', hinsert, hreduce, hadd, hreduces, -⟩ :=
      @addIterToClustering_spec _ _ _ _ _ _ P c max hruns path
    exact ⟨s, c', hinsert, hreduce, hadd, hreduces⟩

end ScoreP.Clustering
