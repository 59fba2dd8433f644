import Mathlib.Algebra.BigOperators.Group.Finset.Piecewise
import Mathlib.Data.Fin.VecNotation
import Mathlib.Data.Fintype.Basic
import ScoreP.Foundations.Accounts
import ScoreP.Score.CalltreeTypes
import ScoreP.Score.Estimator

/-!
# What the estimate adds up to

Every node of the call tree is posted to its groups and its region (`calculate_groups`,
`calculate_regions`, `calculate_filtered`). The groups and the regions add up to the group of all regions;
with a filter, the artificial child regions of dynamic regions are missing in the filtered groups, so these
add up just when no artificial child region is visited (`estimate_adds_up_iff`).
-/

namespace ScoreP.Score

open Foundations.Accounts Function List
open scoped BigOperators

abbrev Totals (processes : ℕ) := (Fin processes → ℕ) × ℕ × ℕ × ℕ

variable {processes : ℕ}

def Group.totals (group : Group processes) : Totals processes :=
  (group.maxBuf, group.totalBuf, group.visits, group.hits)

def single (process : Fin processes) (bytes visits hits : ℕ) : Totals processes :=
  (Pi.single process bytes, bytes, visits, hits)

theorem totals_updateProcess (group : Group processes) (process : Fin processes) (bytes visits hits : ℕ) :
    (group.updateProcess process bytes visits hits).totals = group.totals + single process bytes visits hits := by
  have hbuf : update group.maxBuf process (group.maxBuf process + bytes) =
      group.maxBuf + Pi.single process bytes := by
    funext other
    rw [Pi.add_apply]
    by_cases hother : other = process
    · rw [hother, update_self, Pi.single_eq_same]
    · rw [update_of_ne hother, Pi.single_eq_of_ne hother, Nat.add_zero]
  rw [Group.totals, Group.updateProcess, hbuf]
  rfl

theorem totals_doFilter (group : Group processes) (filter : FilterState) :
    (group.doFilter filter).totals = group.totals := rfl

theorem single_zero (process : Fin processes) : single process 0 0 0 = 0 := by
  rw [single, Pi.single_zero]
  rfl

namespace Setup

/-! ## Postings -/

variable (setup : Setup)

def dynamicParent (node : setup.Visit) : Option (Fin setup.profile.numberOfRegions) :=
  if setup.profile.isDynamicRegion node.region then node.parentRegion else none

def chargedRegion (node : setup.Visit) : Fin setup.profile.numberOfRegions :=
  (setup.dynamicParent node).getD node.region

def nodeBytes (node : setup.Visit) : ℕ :=
  match setup.dynamicParent node with
  | some parentRegion => node.visits * bytesPerVisits setup.profile setup.denseNum setup.output parentRegion
  | none =>
    node.visits * (bytesPerVisits setup.profile setup.denseNum setup.output node.region +
        node.numParameters * bytesPerNumParameter setup.profile setup.denseNum setup.output +
        node.strParameters * bytesPerStrParameter setup.profile setup.denseNum setup.output) +
      node.hits * bytesPerHit setup.profile setup.denseNum setup.output

def charge (node : setup.Visit) : Totals setup.profile.numberOfProcesses :=
  single node.process (setup.nodeBytes node) node.visits
    (if (setup.dynamicParent node).isSome then 0 else node.hits)

def groupPosting (node : setup.Visit) (type : ScoreType) : Totals setup.profile.numberOfProcesses :=
  if type = .all ∨ type = setup.profile.getGroup node.region then setup.charge node else 0

def regionPosting (node : setup.Visit) (region : Fin setup.profile.numberOfRegions) :
    Totals setup.profile.numberOfProcesses :=
  if region = setup.chargedRegion node then setup.charge node else 0

def filteredPosting (doFilter : Fin setup.profile.numberOfRegions → Bool) (node : setup.Visit)
    (type : ScoreType) : Totals setup.profile.numberOfProcesses :=
  if (setup.dynamicParent node).isSome then 0
  else if setup.matchFilter doFilter node.region then (if type = .flt then setup.charge node else 0)
  else setup.groupPosting node type

theorem charge_unvisited {node : setup.Visit} (h : node.visits = 0 ∧ node.hits = 0) : setup.charge node = 0 := by
  have hbytes : setup.nodeBytes node = 0 := by
    rw [nodeBytes, h.1, h.2]
    split
    · rw [Nat.zero_mul]
    · rw [Nat.zero_mul, Nat.zero_mul]
  rw [charge, hbytes, h.1, h.2, ite_self, single_zero]

theorem totals_updateGroups {groups : ScoreType → Group processes} {group : ScoreType} (hgroup : group.IsGroup)
    (process : Fin processes) (bytes visits hits : ℕ) (type : ScoreType) :
    (updateGroups groups group process bytes visits hits type).totals =
      (groups type).totals + if type = .all ∨ type = group then single process bytes visits hits else 0 := by
  rw [updateGroups]
  by_cases hall : type = .all
  · rw [hall, update_self, update_of_ne (Ne.symm hgroup.1), totals_updateProcess, if_pos (Or.inl rfl)]
  · rw [update_of_ne hall]
    by_cases hsame : type = group
    · rw [hsame, update_self, totals_updateProcess, if_pos (Or.inr rfl)]
    · rw [update_of_ne hsame, if_neg (by rw [not_or]; exact ⟨hall, hsame⟩), add_zero]

theorem totals_update {ι : Type} [DecidableEq ι] {groups : ι → Group processes} (i j : ι)
    (process : Fin processes) (bytes visits hits : ℕ) :
    (update groups i ((groups i).updateProcess process bytes visits hits) j).totals =
      (groups j).totals + if j = i then single process bytes visits hits else 0 := by
  by_cases hij : j = i
  · rw [hij, update_self, totals_updateProcess, if_pos rfl]
  · rw [update_of_ne hij, if_neg hij, add_zero]

theorem totals_update_doFilter {ι : Type} [DecidableEq ι] {groups : ι → Group processes} (i j : ι)
    (filter : FilterState) : (update groups i ((groups i).doFilter filter) j).totals = (groups j).totals := by
  by_cases hij : j = i
  · rw [hij, update_self, totals_doFilter]
  · rw [update_of_ne hij]

/-! ## One node -/

variable {setup : Setup} {state : setup.State} {node : setup.Visit}

theorem visitNode_unvisited (h : node.visits = 0 ∧ node.hits = 0) : setup.visitNode state node = state := by
  rw [visitNode, if_pos h]

theorem groups_visitNode (type : ScoreType) : ((setup.visitNode state node).groups type).totals =
      (state.groups type).totals + setup.groupPosting node type := by
  have hgroup := setup.profile.isGroup_getGroup node.region
  by_cases hvisited : node.visits = 0 ∧ node.hits = 0
  · rw [visitNode_unvisited hvisited, groupPosting, setup.charge_unvisited hvisited, ite_self, add_zero]
  · rw [visitNode, if_neg hvisited, groupPosting, charge, nodeBytes]
    cases hparent : setup.dynamicParent node with
    | some parentRegion =>
      rw [dynamicParent] at hparent
      simp only [hparent]
      exact totals_updateGroups hgroup _ _ _ _ _
    | none =>
      rw [dynamicParent] at hparent
      simp only [hparent]
      cases setup.filter with
      | none => exact totals_updateGroups hgroup _ _ _ _ _
      | some doFilter => exact totals_updateGroups hgroup _ _ _ _ _

theorem regions_visitNode (hshow : setup.showRegions = true) (region : Fin setup.profile.numberOfRegions) :
    ((setup.visitNode state node).regions region).totals =
      (state.regions region).totals + setup.regionPosting node region := by
  by_cases hvisited : node.visits = 0 ∧ node.hits = 0
  · rw [visitNode_unvisited hvisited, regionPosting, setup.charge_unvisited hvisited, ite_self, add_zero]
  · rw [visitNode, if_neg hvisited, regionPosting, charge, nodeBytes, chargedRegion]
    cases hparent : setup.dynamicParent node with
    | some parentRegion =>
      rw [dynamicParent] at hparent
      simp only [hparent, if_pos hshow]
      exact totals_update _ _ _ _ _ _
    | none =>
      rw [dynamicParent] at hparent
      simp only [hparent, if_pos hshow]
      cases setup.filter with
      | none => exact totals_update _ _ _ _ _ _
      | some doFilter =>
        dsimp only
        rw [totals_update_doFilter]
        exact totals_update _ _ _ _ _ _

theorem filtered_visitNode {doFilter : Fin setup.profile.numberOfRegions → Bool}
    (hfilter : setup.filter = some doFilter) (type : ScoreType) :
    ((setup.visitNode state node).filtered type).totals =
      (state.filtered type).totals + setup.filteredPosting doFilter node type := by
  have hgroup := setup.profile.isGroup_getGroup node.region
  by_cases hvisited : node.visits = 0 ∧ node.hits = 0
  · rw [visitNode_unvisited hvisited, filteredPosting, groupPosting, setup.charge_unvisited hvisited, ite_self,
      ite_self, ite_self, ite_self, add_zero]
  · rw [visitNode, if_neg hvisited, filteredPosting]
    cases hparent : setup.dynamicParent node with
    | some parentRegion =>
      rw [if_pos Option.isSome_some, add_zero]
      rw [dynamicParent] at hparent
      simp only [hparent]
    | none =>
      have hcharge : setup.charge node = single node.process (setup.nodeBytes node) node.visits node.hits := by
        rw [charge, hparent, Option.isSome_none, if_neg Bool.false_ne_true]
      rw [Option.isSome_none, if_neg Bool.false_ne_true, groupPosting, hcharge, nodeBytes, hparent]
      rw [dynamicParent] at hparent
      simp only [hparent, hfilter]
      cases setup.matchFilter doFilter node.region with
      | true => exact totals_update _ _ _ _ _ _
      | false => exact totals_updateGroups hgroup _ _ _ _ _

/-! ## All processes -/

def nodes (setup : Setup) : List setup.Visit :=
  (List.finRange setup.profile.numberOfProcesses).flatMap setup.profile.visitsOf

theorem calculate_eq_foldl : setup.calculate = setup.nodes.foldl setup.visitNode setup.start := by
  rw [calculate, nodes, foldl_flatMap]
  congr 1
  funext state process
  exact setup.profile.iterateCalltree_eq_foldl setup.visitNode process state

theorem calculate_groups (type : ScoreType) :
    (setup.calculate.groups type).totals = posted setup.groupPosting setup.nodes type := by
  rw [calculate_eq_foldl]
  have hrun := account_foldl setup.visitNode (fun state type => (state.groups type).totals) setup.groupPosting
    (fun _ _ => groups_visitNode type) setup.nodes setup.start
  exact hrun.trans (zero_add _)

theorem calculate_regions (hshow : setup.showRegions = true) (region : Fin setup.profile.numberOfRegions) :
    (setup.calculate.regions region).totals = posted setup.regionPosting setup.nodes region := by
  rw [calculate_eq_foldl]
  have hrun := account_foldl setup.visitNode (fun state region => (state.regions region).totals) setup.regionPosting
    (fun _ _ => regions_visitNode hshow region) setup.nodes setup.start
  exact hrun.trans (zero_add _)

theorem calculate_filtered {doFilter : Fin setup.profile.numberOfRegions → Bool}
    (hfilter : setup.filter = some doFilter) (type : ScoreType) :
    (setup.calculate.filtered type).totals = posted (setup.filteredPosting doFilter) setup.nodes type := by
  rw [calculate_eq_foldl]
  have hrun := account_foldl setup.visitNode (fun state type => (state.filtered type).totals) (setup.filteredPosting doFilter)
    (fun _ _ => filtered_visitNode hfilter type) setup.nodes setup.start
  exact hrun.trans (zero_add _)

/-! ## Sums -/

theorem posted_all : posted setup.groupPosting setup.nodes .all = (setup.nodes.map setup.charge).sum := by
  apply congrArg List.sum
  apply map_congr_left
  intro node _
  exact if_pos (Or.inl rfl)

theorem sum_groups :
    ∑ type ∈ groupTypes, posted setup.groupPosting setup.nodes type = (setup.nodes.map setup.charge).sum := by
  rw [sum_posted]
  apply congrArg List.sum
  apply map_congr_left
  intro node _
  have hgroup := mem_groupTypes.2 (setup.profile.isGroup_getGroup node.region)
  have hposting : ∀ type ∈ groupTypes, setup.groupPosting node type =
      if setup.profile.getGroup node.region = type then setup.charge node else 0 := by
    intro type htype
    have hall : (type = .all ∨ type = setup.profile.getGroup node.region) ↔
        setup.profile.getGroup node.region = type := by
      rw [or_iff_right (mem_groupTypes.1 htype).1, eq_comm]
    rw [groupPosting]
    exact if_congr hall rfl rfl
  rw [Finset.sum_congr rfl hposting, Finset.sum_ite_eq, if_pos hgroup]

theorem sum_regions :
    ∑ region, posted setup.regionPosting setup.nodes region = (setup.nodes.map setup.charge).sum := by
  rw [sum_posted]
  apply congrArg List.sum
  apply map_congr_left
  intro node _
  exact (Finset.sum_ite_eq' _ _ _).trans (if_pos (Finset.mem_univ _))

def artificialTotals (setup : Setup) : Totals setup.profile.numberOfProcesses :=
  (setup.nodes.map fun node => if (setup.dynamicParent node).isSome then setup.charge node else 0).sum

variable {doFilter : Fin setup.profile.numberOfRegions → Bool}

theorem filtered_add_artificial : posted (setup.filteredPosting doFilter) setup.nodes .all +
          posted (setup.filteredPosting doFilter) setup.nodes .flt + setup.artificialTotals =
      posted setup.groupPosting setup.nodes .all := by
  rw [posted_all, posted_add, artificialTotals, ← sum_map_add]
  apply congrArg List.sum
  apply map_congr_left
  intro node _
  have hflt : ¬(ScoreType.flt = .all ∨ .flt = setup.profile.getGroup node.region) := by
    rw [not_or]
    exact ⟨by decide, (setup.profile.isGroup_getGroup node.region).2.symm⟩
  rw [filteredPosting, filteredPosting, groupPosting, groupPosting, if_pos (Or.inl rfl), if_neg hflt,
    if_pos rfl, if_neg (by decide : ScoreType.all ≠ .flt)]
  by_cases hartificial : (setup.dynamicParent node).isSome
  · rw [if_pos hartificial, if_pos hartificial, if_pos hartificial, zero_add, zero_add]
  · rw [if_neg hartificial, if_neg hartificial, if_neg hartificial, add_zero]
    by_cases hmatch : setup.matchFilter doFilter node.region
    · rw [if_pos hmatch, if_pos hmatch, zero_add]
    · rw [if_neg hmatch, if_neg hmatch, add_zero]

def DynamicUnvisited (setup : Setup) : Prop :=
  ∀ node ∈ setup.nodes, (setup.dynamicParent node).isSome → node.visits = 0

theorem charge_of_unvisited (hparent : (setup.dynamicParent node).isSome) (hvisits : node.visits = 0) :
    setup.charge node = 0 := by
  obtain ⟨parentRegion, hsome⟩ := Option.isSome_iff_exists.1 hparent
  have hbytes : setup.nodeBytes node = 0 := by
    rw [nodeBytes, hsome, hvisits]
    exact Nat.zero_mul _
  rw [charge, hbytes, hvisits, if_pos hparent, single_zero]

theorem artificialTotals_eq_zero_iff : setup.artificialTotals = 0 ↔ setup.DynamicUnvisited := by
  constructor
  · intro hzero node hnode hparent
    -- the third component counts the visits
    let visitsOf : Totals setup.profile.numberOfProcesses →+ ℕ :=
      (AddMonoidHom.fst ℕ ℕ).comp ((AddMonoidHom.snd ℕ (ℕ × ℕ)).comp (AddMonoidHom.snd _ _))
    have hsum := congrArg visitsOf hzero
    rw [artificialTotals, map_list_sum, map_zero, List.map_map, List.sum_eq_zero_iff_forall_eq_nat,
      forall_mem_map] at hsum
    have hnodeVisits := hsum node hnode
    rw [Function.comp_apply, if_pos hparent] at hnodeVisits
    exact hnodeVisits
  · intro hunvisited
    rw [artificialTotals]
    apply sum_eq_zero
    intro total htotal
    obtain ⟨node, hnode, rfl⟩ := mem_map.1 htotal
    by_cases hparent : (setup.dynamicParent node).isSome
    · rw [if_pos hparent, charge_of_unvisited hparent (hunvisited node hnode hparent)]
    · rw [if_neg hparent]

/-! ## What the claims of the output mean -/

def regionTotals (setup : Setup) (region : Fin setup.profile.numberOfRegions) :
    Totals setup.profile.numberOfProcesses :=
  posted setup.regionPosting setup.nodes region

def unfilteredPart (setup : Setup) (doFilter : Fin setup.profile.numberOfRegions → Bool) (type : ScoreType) :
    Totals setup.profile.numberOfProcesses :=
  (setup.nodes.map fun node =>
    if setup.matchFilter doFilter (setup.chargedRegion node) = false ∧
        type = setup.profile.getGroup node.region then setup.charge node
    else 0).sum

def unfilteredTotals (setup : Setup) (doFilter : Fin setup.profile.numberOfRegions → Bool) :
    Totals setup.profile.numberOfProcesses :=
  ∑ region with setup.matchFilter doFilter region = false, setup.regionTotals region

def filteredRunBuffer (setup : Setup) (doFilter : Fin setup.profile.numberOfRegions → Bool) : ℕ :=
  (List.finRange setup.profile.numberOfProcesses).foldl
    (fun largest process => max largest ((setup.unfilteredTotals doFilter).1 process)) 0

structure FilterBalanced (setup : Setup) (doFilter : Fin setup.profile.numberOfRegions → Bool) : Prop where
  whole : (setup.calculate.filtered .all).totals + (setup.calculate.filtered .flt).totals =
    (setup.calculate.groups .all).totals
  group : ∀ type, type.IsGroup → (setup.calculate.filtered type).totals = setup.unfilteredPart doFilter type
  regions : (setup.calculate.filtered .all).totals = setup.unfilteredTotals doFilter
  maxBuf : setup.maxBuf = setup.filteredRunBuffer doFilter

structure Balanced (setup : Setup) : Prop where
  groups : (setup.calculate.groups .all).totals = ∑ type ∈ groupTypes, (setup.calculate.groups type).totals
  regions : setup.showRegions = true →
    (∀ region, (setup.calculate.regions region).totals = setup.regionTotals region) ∧
      (setup.calculate.groups .all).totals = ∑ region, (setup.calculate.regions region).totals
  filtered : ∀ doFilter, setup.filter = some doFilter → setup.FilterBalanced doFilter

theorem posted_filtered_group (hunvisited : setup.DynamicUnvisited) {type : ScoreType} (htype : type.IsGroup) :
    posted (setup.filteredPosting doFilter) setup.nodes type = setup.unfilteredPart doFilter type := by
  apply congrArg List.sum
  apply map_congr_left
  intro node hnode
  rw [filteredPosting, groupPosting, chargedRegion]
  cases hparent : setup.dynamicParent node with
  | some parentRegion =>
    have hsome : (setup.dynamicParent node).isSome := by rw [hparent]; rfl
    rw [charge_of_unvisited hsome (hunvisited node hnode hsome)]
    simp only [ite_self]
  | none =>
    rw [Option.isSome_none, if_neg Bool.false_ne_true, Option.getD_none, if_neg htype.2]
    cases setup.matchFilter doFilter node.region with
    | true => rw [if_pos rfl, if_neg (fun h => absurd h.1 Bool.noConfusion)]
    | false =>
      rw [if_neg Bool.false_ne_true]
      exact if_congr (by rw [or_iff_right htype.1, and_iff_right rfl]) rfl rfl

theorem posted_filtered_all (hunvisited : setup.DynamicUnvisited) :
    posted (setup.filteredPosting doFilter) setup.nodes .all = setup.unfilteredTotals doFilter := by
  rw [unfilteredTotals]
  refine Eq.trans ?_ (sum_posted setup.regionPosting setup.nodes _).symm
  apply congrArg List.sum
  apply map_congr_left
  intro node hnode
  rw [filteredPosting, groupPosting]
  cases hparent : setup.dynamicParent node with
  | some parentRegion =>
    have hsome : (setup.dynamicParent node).isSome := by rw [hparent]; rfl
    rw [if_pos Option.isSome_some]
    symm
    apply Finset.sum_eq_zero
    intro region _
    rw [regionPosting, charge_of_unvisited hsome (hunvisited node hnode hsome), ite_self]
  | none =>
    have hregion : setup.chargedRegion node = node.region := by rw [chargedRegion, hparent]; rfl
    have hsum := Finset.sum_ite_eq' (Finset.univ.filter fun region => setup.matchFilter doFilter region = false)
      node.region fun _ => setup.charge node
    rw [Option.isSome_none, if_neg Bool.false_ne_true, if_neg (by decide : ScoreType.all ≠ .flt),
      if_pos (Or.inl rfl)]
    simp only [regionPosting, hregion]
    rw [hsum]
    by_cases hmatch : setup.matchFilter doFilter node.region = true
    · have hnot : node.region ∉ Finset.univ.filter fun region => setup.matchFilter doFilter region = false := by
        intro hmem
        exact absurd (hmatch.symm.trans (Finset.mem_filter.1 hmem).2) Bool.noConfusion
      rw [if_pos hmatch, if_neg hnot]
    · have hmem : node.region ∈ Finset.univ.filter fun region => setup.matchFilter doFilter region = false :=
        Finset.mem_filter.2 ⟨Finset.mem_univ _, Bool.eq_false_iff.2 hmatch⟩
      rw [if_neg hmatch, if_pos hmem]

theorem maxBuf_of_filter (hfilter : setup.filter = some doFilter)
    (hall : (setup.calculate.filtered .all).totals = setup.unfilteredTotals doFilter) :
    setup.maxBuf = setup.filteredRunBuffer doFilter := by
  have hbuf : (setup.calculate.filtered .all).maxBuf = (setup.unfilteredTotals doFilter).1 :=
    congrArg Prod.fst hall
  rw [maxBuf, if_pos (by rw [hfilter]; rfl), Group.getMaxTraceBufferSize, hbuf, filteredRunBuffer]

theorem filterBalanced_iff (hfilter : setup.filter = some doFilter) :
    setup.FilterBalanced doFilter ↔ setup.DynamicUnvisited := by
  constructor
  · intro hbalanced
    have hwhole := hbalanced.whole
    rw [calculate_groups, calculate_filtered hfilter, calculate_filtered hfilter,
      ← @filtered_add_artificial _ doFilter] at hwhole
    exact artificialTotals_eq_zero_iff.1 (left_eq_add.1 hwhole)
  · intro hunvisited
    have hall : (setup.calculate.filtered .all).totals = setup.unfilteredTotals doFilter := by
      rw [calculate_filtered hfilter, posted_filtered_all hunvisited]
    refine ⟨?_, ?_, hall, maxBuf_of_filter hfilter hall⟩
    · rw [calculate_groups, calculate_filtered hfilter, calculate_filtered hfilter,
        ← @filtered_add_artificial _ doFilter, artificialTotals_eq_zero_iff.2 hunvisited, add_zero]
    · intro type htype
      rw [calculate_filtered hfilter, posted_filtered_group hunvisited htype]

/-- The estimate adds up just when there is no filter or no artificial child region has visits. -/
theorem estimate_adds_up_iff (setup : Setup) : setup.Balanced ↔ setup.filter = none ∨ setup.DynamicUnvisited := by
  constructor
  · intro hbalanced
    cases hfilter : setup.filter with
    | none => exact Or.inl rfl
    | some doFilter => exact Or.inr ((filterBalanced_iff hfilter).1 (hbalanced.filtered doFilter hfilter))
  · intro hcases
    refine ⟨?_, ?_, ?_⟩
    · rw [calculate_groups, posted_all, ← sum_groups]
      exact Finset.sum_congr rfl fun type _ => (calculate_groups type).symm
    · intro hshow
      refine ⟨calculate_regions hshow, ?_⟩
      rw [calculate_groups, posted_all, ← sum_regions]
      exact Finset.sum_congr rfl fun region _ => (calculate_regions hshow region).symm
    · intro doFilter hfilter
      rcases hcases with hnone | hunvisited
      · exact absurd (hnone.symm.trans hfilter) (Option.some_ne_none doFilter).symm
      · exact (filterBalanced_iff hfilter).2 hunvisited

def loopSetup : Setup where
  profile :=
    { numberOfRegions := 2
      numberOfProcesses := 1
      regions := ![{ name := "loop", paradigm := "user", descr := "", numberOfArguments := none },
        { name := "iteration=1", paradigm := "user", descr := "", numberOfArguments := none }]
      roots := [.node 0 (fun _ => 0) (fun _ => 0) 0 0 [.node 1 (fun _ => 1) (fun _ => 0) 0 0 []]]
      hasHits := false }
  denseNum := 0
  output := []
  showRegions := false
  filter := some fun _ => false

/-- The visit of the iteration is in the group of all regions and in no filtered group. -/
theorem not_balanced_loop : ¬loopSetup.Balanced := by
  intro hbalanced
  have hunvisited := (filterBalanced_iff rfl).1 (hbalanced.filtered _ rfl)
  have hiteration : (⟨0, 1, some 0, 1, 0, 0, 0⟩ : Profile.Visit 2 1) ∈ loopSetup.nodes :=
    mem_cons_of_mem _ mem_cons_self
  exact absurd (hunvisited _ hiteration (by decide)) Nat.one_ne_zero

end Setup

end ScoreP.Score
