import ScoreP.Tracing.RewindRegions

/-!
# What the rewind stack remembers

The events of one location are a history. `Meets` says of a history what each of its events has to do: an
enter leaves the region on top of the others, which do not change, and an exit removes the region with those
that were entered after it, and rewinds to its last enter. `Remembers` is the invariant that connects the
stack to the events before.

`scorep_rewind_stack_push` fails for the region directly below the top, and for no other one
(`meets_iff_avoids`).
-/

namespace ScoreP.Tracing

open Foundations Function List

inductive Event where
  | enter (id timestamp : ℕ)
  | affect (paradigm : RewindParadigm)
  | exit (id : ℕ) (doRewind : Bool)
  | flush
deriving DecidableEq

def perform (d : TracingData) : Event → Option (List Record × TracingData)
  | .enter id timestamp => storeRewindPoint d timestamp id
  | .affect paradigm => do
    let d ← TracingData.setAffectedParadigm paradigm (d.allocated + 1) d.rewindStack d
    return ([], d)
  | .exit id doRewind => exitRewindPoint d id doRewind
  | .flush => do
    let d ← TracingData.rewindStackDelete (d.allocated + 1) d
    return ([], d)

def initial (item : ℕ → RewindStackItem) : TracingData :=
  ⟨none, none, item, 0⟩

/-! ## What the events ask for -/

def enters (id : ℕ) : Event → Bool
  | .enter i _ => i = id
  | _ => false

def sinceEnter (id : ℕ) (past : List Event) : List Event :=
  past.takeWhile fun event => !enters id event

def lastEnter (id : ℕ) : List Event → Option ℕ
  | [] => none
  | .enter i timestamp :: past => if i = id then some timestamp else lastEnter id past
  | _ :: past => lastEnter id past

def Record.isMeasurement : Record → Bool
  | .measurementOff _ => true
  | .measurementOn _ => true
  | _ => false

structure RewindMeets (past : List Event) (id : ℕ) (records : List Record) : Prop where
  measurement : ∃ timestamp, lastEnter id past = some timestamp ∧
    records.filter Record.isMeasurement = [.measurementOff timestamp, .measurementOn timestamp]
  invalidated : ∀ paradigm, .affect paradigm ∈ sinceEnter id past →
    .invalidateProperty paradigm.property ∈ records

def EventMeets (past : List Event) (regions regions' : List RewindRegion) (records : List Record) : Event → Prop
  | .enter id timestamp => ∃ paradigmAffected,
      regions' = ⟨id, timestamp, paradigmAffected⟩ :: regions.filter fun region => region.id ≠ id
  | .exit id doRewind =>
      if id ∈ regions.map RewindRegion.id then
        regions' = (regions.filter fun region =>
          region.id ≠ id && !(sinceEnter id past).any (enters region.id)) ∧
        (doRewind = true → RewindMeets past id records)
      else regions' = regions
  | _ => True

def Stacks (d : TracingData) (regions : List RewindRegion) : Prop :=
  ∃ items unused, Chain d.prev d.rewindStack items ∧ Chain d.prev d.rewindFreeList unused ∧
    items.Disjoint unused ∧ items.map d.region = regions

def Meets : List Event → TracingData → List Event → Prop
  | _, d, [] => ∃ regions, Stacks d regions
  | past, d, event :: events => ∃ records d' regions regions', perform d event = some (records, d') ∧
      Stacks d regions ∧ Stacks d' regions' ∧ EventMeets past regions regions' records event ∧
        Meets (event :: past) d' events

def BelowTop (d : TracingData) (id : ℕ) : Prop :=
  ∃ top second, d.rewindStack = some top ∧ d.prev top = some second ∧ (d.item second).id = id

def Avoids : TracingData → List Event → Prop
  | _, [] => True
  | d, event :: events => (∀ id timestamp, event = .enter id timestamp → ¬BelowTop d id) ∧
      ∀ records d', perform d event = some (records, d') → Avoids d' events

/-! ## The invariant -/

structure Remembers (past : List Event) (regions : List RewindRegion) : Prop where
  timestamp : ∀ region ∈ regions, lastEnter region.id past = some region.entertimestamp
  affected : ∀ region ∈ regions, ∀ paradigm, .affect paradigm ∈ sinceEnter region.id past →
    region.paradigmAffected paradigm = true
  order : regions.Pairwise fun upper lower => upper.id ≠ lower.id ∧
    (sinceEnter lower.id past).any (enters upper.id) = true ∧
      (sinceEnter upper.id past).any (enters lower.id) = false

variable {d : TracingData} {past : List Event} {regions : List RewindRegion} {items unused : List ℕ}
  {id t : ℕ}

@[simp] theorem sinceEnter_self : sinceEnter id (.enter id t :: past) = [] := by
  simp [sinceEnter, enters]

variable {event : Event}

theorem sinceEnter_cons (h : enters id event = false) :
    sinceEnter id (event :: past) = event :: sinceEnter id past := by
  simp [sinceEnter, h]

theorem lastEnter_cons (h : enters id event = false) : lastEnter id (event :: past) = lastEnter id past := by
  cases event with
  | enter i timestamp =>
    have hne : i ≠ id := by simpa [enters] using h
    rw [lastEnter, if_neg hne]
  | affect paradigm => rfl
  | exit i doRewind => rfl
  | flush => rfl

theorem Remembers.enter {paradigmAffected : RewindParadigm → Bool} (h : Remembers past regions) :
    Remembers (.enter id t :: past)
      (⟨id, t, paradigmAffected⟩ :: regions.filter fun region => region.id ≠ id) := by
  have hother : ∀ region ∈ regions.filter fun region => region.id ≠ id,
      region ∈ regions ∧ region.id ≠ id ∧ enters region.id (.enter id t) = false := by
    intro region hmem
    obtain ⟨hregion, hid⟩ := mem_filter.1 hmem
    have hne : region.id ≠ id := by simpa using hid
    exact ⟨hregion, hne, by simpa [enters] using hne.symm⟩
  refine ⟨?_, ?_, ?_⟩
  · intro region hmem
    rcases mem_cons.1 hmem with rfl | hmem
    · simp [lastEnter]
    · obtain ⟨hregion, -, henters⟩ := hother region hmem
      rw [lastEnter_cons henters]
      exact h.timestamp region hregion
  · intro region hmem paradigm haffect
    rcases mem_cons.1 hmem with rfl | hmem
    · simp at haffect
    · obtain ⟨hregion, -, henters⟩ := hother region hmem
      rw [sinceEnter_cons henters] at haffect
      rcases mem_cons.1 haffect with heq | haffect
      · cases heq
      · exact h.affected region hregion paradigm haffect
  · rw [pairwise_cons]
    constructor
    · intro lower hmem
      obtain ⟨-, hne, henters⟩ := hother lower hmem
      refine ⟨hne.symm, ?_, by simp⟩
      rw [sinceEnter_cons henters]
      simp [enters]
    · apply (h.order.filter _).imp_of_mem
      intro upper lower hupper hlower hpair
      obtain ⟨-, hupper', hentersUpper⟩ := hother upper hupper
      obtain ⟨-, hlower', hentersLower⟩ := hother lower hlower
      obtain ⟨hne, hafter, hbefore⟩ := hpair
      refine ⟨hne, ?_, ?_⟩
      · rw [sinceEnter_cons hentersLower, any_cons, hafter, Bool.or_true]
      · rw [sinceEnter_cons hentersUpper, any_cons, hbefore, hentersLower, Bool.or_false]

theorem Remembers.other {regions' : List RewindRegion} (h : Remembers past regions)
    (hevent : ∀ i, enters i event = false)
    (hsub : List.Sublist (regions'.map fun region => (region.id, region.entertimestamp))
      (regions.map fun region => (region.id, region.entertimestamp)))
    (haffected : ∀ region' ∈ regions', ∃ region ∈ regions, region.id = region'.id ∧
      ∀ paradigm, (region.paradigmAffected paradigm = true ∨ event = .affect paradigm) →
        region'.paradigmAffected paradigm = true) : Remembers (event :: past) regions' := by
  have hmem : ∀ region' ∈ regions', ∃ region ∈ regions,
      (region.id, region.entertimestamp) = (region'.id, region'.entertimestamp) := by
    intro region' hmem
    have hpair := hsub.subset (mem_map_of_mem hmem)
    exact mem_map.1 hpair
  refine ⟨?_, ?_, ?_⟩
  · intro region' hmem'
    obtain ⟨region, hregion, heq⟩ := hmem region' hmem'
    obtain ⟨hid, htimestamp⟩ := Prod.mk.inj heq
    rw [lastEnter_cons (hevent _), ← hid, ← htimestamp]
    exact h.timestamp region hregion
  · intro region' hmem' paradigm haffect
    obtain ⟨region, hregion, hid, hflags⟩ := haffected region' hmem'
    rw [sinceEnter_cons (hevent _)] at haffect
    apply hflags paradigm
    rcases mem_cons.1 haffect with heq | haffect
    · exact .inr heq.symm
    · rw [← hid] at haffect
      exact .inl (h.affected region hregion paradigm haffect)
  · have hold : (regions.map fun region => (region.id, region.entertimestamp)).Pairwise
        fun upper lower => upper.1 ≠ lower.1 ∧ (sinceEnter lower.1 past).any (enters upper.1) = true ∧
            (sinceEnter upper.1 past).any (enters lower.1) = false :=
      pairwise_map.2 h.order
    have hnew := pairwise_map.1 (hold.sublist hsub)
    apply hnew.imp
    intro upper lower hpair
    obtain ⟨hne, hafter, hbefore⟩ := hpair
    rw [sinceEnter_cons (hevent _), sinceEnter_cons (hevent _), any_cons, any_cons, hevent,
      hevent, hafter, hbefore]
    exact ⟨hne, rfl, rfl⟩

variable {region : RewindRegion}

theorem Remembers.below {upper lower : List RewindRegion} (h : Remembers past (upper ++ region :: lower)) :
    ((upper ++ region :: lower).filter fun other =>
      other.id ≠ region.id && !(sinceEnter region.id past).any (enters other.id)) = lower := by
  obtain ⟨-, hrest, hcross⟩ := pairwise_append.1 h.order
  obtain ⟨hlower, -⟩ := pairwise_cons.1 hrest
  have hnone : (upper.filter fun other =>
      other.id ≠ region.id && !(sinceEnter region.id past).any (enters other.id)) = [] := by
    apply filter_eq_nil_iff.2
    intro other hother
    obtain ⟨-, hafter, -⟩ := hcross other hother region mem_cons_self
    simp [hafter]
  have hall : (lower.filter fun other =>
      other.id ≠ region.id && !(sinceEnter region.id past).any (enters other.id)) = lower := by
    apply filter_eq_self.2
    intro other hother
    obtain ⟨hne, -, hbefore⟩ := hlower other hother
    simp [hbefore, hne.symm]
  rw [filter_append, hnone, nil_append, filter_cons_of_neg (by simp), hall]

/-! ## Steps -/

theorem split_items (h : Remembers past (items.map d.region))
    (hmem : id ∈ (items.map d.region).map RewindRegion.id) : ∃ as i bs, items = as ++ i :: bs ∧
      (d.region i).id = id ∧ (∀ a ∈ as, (d.region a).id ≠ id) ∧ ∀ b ∈ bs, (d.region b).id ≠ id := by
  rw [map_map] at hmem
  obtain ⟨i, hi, hid⟩ := mem_map.1 hmem
  obtain ⟨as, bs, rfl⟩ := append_of_mem hi
  have horder := pairwise_map.1 h.order
  obtain ⟨-, hrest, hcross⟩ := pairwise_append.1 horder
  obtain ⟨hlower, -⟩ := pairwise_cons.1 hrest
  have hid' : (d.region i).id = id := hid
  refine ⟨as, i, bs, rfl, hid', ?_, ?_⟩
  · intro a ha
    rw [← hid']
    exact (hcross a ha i mem_cons_self).1
  · intro b hb
    rw [← hid']
    exact (hlower b hb).1.symm

theorem regions_moved {as bs : List ℕ} {i : ℕ} (hnodup : (as ++ i :: bs).Nodup)
    (hi : (d.region i).id = id) (has : ∀ a ∈ as, (d.region a).id ≠ id) (hbs : ∀ b ∈ bs, (d.region b).id ≠ id) :
    (i :: (as ++ bs)).map (update d.region i region) =
      region :: ((as ++ i :: bs).map d.region).filter fun other => other.id ≠ id := by
  have hnotMem : i ∉ as ++ bs := (nodup_middle.1 hnodup).notMem
  have hother : ∀ b ∈ as ++ bs, (d.region b).id ≠ id := by
    intro b hb
    rcases mem_append.1 hb with ha | hb
    · exact has b ha
    · exact hbs b hb
  have hkept : ((as ++ bs).map d.region).filter (fun other => other.id ≠ id) = (as ++ bs).map d.region := by
    apply filter_eq_self.2
    intro other hmem
    obtain ⟨b, hb, rfl⟩ := mem_map.1 hmem
    simpa using hother b hb
  rw [map_cons, update_self, map_update_of_notMem hnotMem, ← hkept]
  simp [hi]

theorem enter_spec (h : Holds d items unused) (hremembers : Remembers past (items.map d.region))
    (habove : ¬BelowTop d id) : ∃ d' items' unused' paradigmAffected,
      perform d (.enter id t) = some ([.storeRewindPoint id], d') ∧ Holds d' items' unused' ∧
        items'.map d'.region = ⟨id, t, paradigmAffected⟩ ::
          (items.map d.region).filter fun region => region.id ≠ id := by
  have hnodup := (nodup_append.1 h.nodup).1
  by_cases hmem : id ∈ (items.map d.region).map RewindRegion.id
  · obtain ⟨as, i, bs, rfl, hi, has, hbs⟩ := split_items hremembers hmem
    cases as with
    | nil =>
      refine ⟨d.setEntertimestamp i t, i :: bs, unused, (d.region i).paradigmAffected, ?_,
        h.setEntertimestamp, ?_⟩
      · simp [perform, storeRewindPoint, push_top h hi]
      · rw [d.setEntertimestamp_region, ← hi]
        exact regions_moved hnodup rfl (by simp) (by rwa [hi])
    | cons a as =>
      rcases eq_nil_or_concat' as with rfl | ⟨as, b, rfl⟩
      · -- The region is directly below the top.
        obtain ⟨htop, hrest⟩ := chain_cons.1 h.stack
        obtain ⟨hsecond, -⟩ := chain_cons.1 hrest
        exact absurd ⟨a, i, htop, hsecond, hi⟩ habove
      · obtain ⟨d', hpush, hholds, hregion⟩ := push_below (t := t) h has hi
        refine ⟨d', _, unused, (d.region i).paradigmAffected, ?_, hholds, ?_⟩
        · simp [perform, storeRewindPoint, hpush]
        · rw [hregion, ← hi]
          exact regions_moved hnodup rfl (by rwa [hi]) (by rwa [hi])
  · have hno : ∀ a ∈ items, (d.region a).id ≠ id := by
      intro a ha heq
      exact hmem (heq ▸ mem_map_of_mem (mem_map_of_mem ha))
    obtain ⟨n, unused', d', hpush, hholds, hn, hregion⟩ := push_new (t := t) h hno
    refine ⟨d', n :: items, unused', fun _ => false, ?_, hholds, ?_⟩
    · simp [perform, storeRewindPoint, hpush]
    · have hkept : ((items.map d.region).filter fun region => region.id ≠ id) = items.map d.region := by
        apply filter_eq_self.2
        intro region hregion
        obtain ⟨a, ha, rfl⟩ := mem_map.1 hregion
        simpa using hno a ha
      rw [hregion, map_cons, update_self, map_update_of_notMem hn, hkept]

theorem mem_invalidations {paradigmAffected : RewindParadigm → Bool} {paradigm : RewindParadigm}
    (h : paradigmAffected paradigm = true) :
    .invalidateProperty paradigm.property ∈ invalidations paradigmAffected := by
  refine mem_map.2 ⟨paradigm, mem_filter.2 ⟨?_, h⟩, rfl⟩
  cases paradigm <;> decide

theorem rewindMeets (cleared : List ℕ) (htimestamp : lastEnter id past = some region.entertimestamp)
    (haffected : ∀ paradigm, .affect paradigm ∈ sinceEnter id past → region.paradigmAffected paradigm = true) :
    RewindMeets past id (cleared.map Record.clearRewindPoint ++
      ([.rewind id, .measurementOff region.entertimestamp, .measurementOn region.entertimestamp] ++
        invalidations region.paradigmAffected) ++ [.clearRewindPoint id]) where
  measurement := by
    refine ⟨region.entertimestamp, htimestamp, ?_⟩
    have hcleared : (cleared.map Record.clearRewindPoint).filter Record.isMeasurement = [] := by
      apply filter_eq_nil_iff.2
      intro record hrecord
      obtain ⟨i, -, rfl⟩ := mem_map.1 hrecord
      simp [Record.isMeasurement]
    have hinvalid : (invalidations region.paradigmAffected).filter Record.isMeasurement = [] := by
      apply filter_eq_nil_iff.2
      intro record hrecord
      obtain ⟨paradigm, -, rfl⟩ := mem_map.1 hrecord
      simp [Record.isMeasurement]
    rw [filter_append, filter_append, filter_append, hcleared, hinvalid]
    rfl
  invalidated := by
    intro paradigm hmem
    apply mem_append_left
    apply mem_append_right
    exact mem_append_right _ (mem_invalidations (haffected paradigm hmem))

theorem exit_spec (id : ℕ) (doRewind : Bool) (h : Holds d items unused)
    (hremembers : Remembers past (items.map d.region)) : ∃ records d' items' unused',
      perform d (.exit id doRewind) = some (records, d') ∧ Holds d' items' unused' ∧
        d'.region = d.region ∧ List.Sublist items' items ∧
          EventMeets past (items.map d.region) (items'.map d'.region) records (.exit id doRewind) := by
  by_cases hmem : id ∈ (items.map d.region).map RewindRegion.id
  · obtain ⟨as, i, bs, rfl, hi, has, -⟩ := split_items hremembers hmem
    have hlength := h.length_le
    rw [length_append, length_cons] at hlength
    have hfind := find_found _ h has hi
    obtain ⟨d', hpop, hholds, hregion⟩ := popRewindPoints_spec ⟨0, 0, fun _ => false⟩ h has hi
      (by omega : as.length < d.allocated + 1)
    let rewound :=
      if doRewind then
        [.rewind id, .measurementOff (d.region i).entertimestamp, .measurementOn (d.region i).entertimestamp] ++
          invalidations (d.region i).paradigmAffected
      else []
    refine ⟨(as.map fun a => .clearRewindPoint (d.region a).id) ++ rewound ++ [.clearRewindPoint id], d', bs,
      i :: (as.reverse ++ unused), ?_, hholds, hregion, ?_, ?_⟩
    · simp [perform, exitRewindPoint, hfind, hpop, rewound]
    · exact (sublist_cons_self i bs).trans (sublist_append_right as (i :: bs))
    · rw [EventMeets, if_pos hmem, hregion]
      rw [map_append, map_cons] at hremembers ⊢
      refine ⟨?_, ?_⟩
      · have hbelow := hremembers.below
        rw [hi] at hbelow
        exact hbelow.symm
      · intro hrewind
        subst hrewind
        have hregion : d.region i ∈ as.map d.region ++ d.region i :: bs.map d.region :=
          mem_append_right _ mem_cons_self
        have htimestamp := hremembers.timestamp _ hregion
        have haffected := hremembers.affected _ hregion
        rw [hi] at htimestamp haffected
        have hmeets := rewindMeets (as.map fun a => (d.region a).id) htimestamp haffected
        rw [map_map] at hmeets
        exact hmeets
  · have hno : ∀ a ∈ items, (d.region a).id ≠ id := by
      intro a ha heq
      exact hmem (heq ▸ mem_map_of_mem (mem_map_of_mem ha))
    have hfind := find_missed h hno
    refine ⟨[.warning], d, items, unused, ?_, h, rfl, List.Sublist.refl items, ?_⟩
    · simp [perform, exitRewindPoint, hfind]
    · rw [EventMeets, if_neg hmem]

theorem affect_spec (paradigm : RewindParadigm) (h : Holds d items unused) :
    ∃ d', perform d (.affect paradigm) = some ([], d') ∧ Holds d' items unused ∧
      ∀ k ∈ items, d'.region k = (d.region k).affected paradigm := by
  have hnodup := (nodup_append.1 h.nodup).1
  obtain ⟨d', hset, hprev, hstack, hfree, hallocated, -, haffected⟩ :=
    setAffectedParadigm_spec paradigm h.stack hnodup (Nat.lt_succ_of_le h.length_le)
  refine ⟨d', ?_, ⟨?_, ?_, h.nodup, ?_⟩, haffected⟩
  · simp [perform, hset]
  · rw [hprev, hstack]
    exact h.stack
  · rw [hprev, hfree]
    exact h.free
  · rw [hallocated]
    exact h.bounded

theorem flush_spec (h : Holds d items unused) :
    ∃ d', perform d .flush = some ([], d') ∧ Holds d' [] (items.reverse ++ unused) := by
  obtain ⟨d', hdelete, hholds⟩ := delete_spec h (Nat.lt_succ_of_le h.length_le)
  refine ⟨d', ?_, hholds⟩
  simp [perform, hdelete]

theorem Holds.stacks (h : Holds d items unused) : Stacks d (items.map d.region) :=
  ⟨items, unused, h.stack, h.free, disjoint_of_nodup_append h.nodup, rfl⟩

theorem Remembers.step (h : Holds d items unused) (hremembers : Remembers past (items.map d.region))
    (habove : ∀ i timestamp, event = .enter i timestamp → ¬BelowTop d i) :
    ∃ records d' items' unused', perform d event = some (records, d') ∧ Holds d' items' unused' ∧
      Remembers (event :: past) (items'.map d'.region) ∧
        EventMeets past (items.map d.region) (items'.map d'.region) records event := by
  cases event with
  | enter id timestamp =>
    obtain ⟨d', items', unused', paradigmAffected, hperform, hholds, hregions⟩ :=
      enter_spec (t := timestamp) h hremembers (habove id timestamp rfl)
    refine ⟨_, d', items', unused', hperform, hholds, ?_, paradigmAffected, hregions⟩
    rw [hregions]
    exact hremembers.enter
  | affect paradigm =>
    obtain ⟨d', hperform, hholds, haffected⟩ := affect_spec paradigm h
    refine ⟨_, d', items, unused, hperform, hholds, ?_, trivial⟩
    apply hremembers.other (fun _ => rfl)
    · rw [map_map, map_map]
      have heq : items.map ((fun region => (region.id, region.entertimestamp)) ∘ d'.region) =
          items.map ((fun region => (region.id, region.entertimestamp)) ∘ d.region) := by
        apply map_congr_left
        intro k hk
        simp [haffected k hk, RewindRegion.affected]
      rw [heq]
    · intro region' hmem
      obtain ⟨k, hk, rfl⟩ := mem_map.1 hmem
      refine ⟨d.region k, mem_map_of_mem hk, by rw [haffected k hk]; rfl, ?_⟩
      intro other hflag
      rw [haffected k hk, RewindRegion.affected]
      by_cases hother : other = paradigm
      · subst hother
        exact update_self _ _ _
      · rcases hflag with hflag | heq
        · show update (d.region k).paradigmAffected paradigm true other = true
          rwa [update_of_ne hother]
        · cases heq
          exact absurd rfl hother
  | exit id doRewind =>
    obtain ⟨records, d', items', unused', hperform, hholds, hregion, hsub, hmeets⟩ :=
      exit_spec id doRewind h hremembers
    refine ⟨records, d', items', unused', hperform, hholds, ?_, hmeets⟩
    rw [hregion]
    apply hremembers.other (fun _ => rfl)
    · exact (hsub.map d.region).map _
    · intro region' hmem
      refine ⟨region', (hsub.map d.region).subset hmem, rfl, ?_⟩
      intro paradigm hflag
      rcases hflag with hflag | heq
      · exact hflag
      · cases heq
  | flush =>
    obtain ⟨d', hperform, hholds⟩ := flush_spec h
    refine ⟨_, d', [], _, hperform, hholds, ?_, trivial⟩
    exact hremembers.other (fun _ => rfl) (nil_sublist _) (by simp)

/-! ## Histories -/

theorem Stacks.top {d : TracingData} (h : Stacks d regions) :
    (regions.head?.map RewindRegion.id) = d.rewindStack.map fun i => (d.item i).id := by
  obtain ⟨items, unused, hstack, -, -, rfl⟩ := h
  rw [← hstack.head_eq, head?_eq_getElem?, getElem?_map, Option.map_map]
  rfl

theorem not_enterMeets {d' : TracingData} {records : List Record} {regions' : List RewindRegion}
    (h : Holds d items unused) (hremembers : Remembers past (items.map d.region)) (hbelow : BelowTop d id)
    (hperform : perform d (.enter id t) = some (records, d')) (hstacks : Stacks d' regions') :
    ¬EventMeets past regions regions' records (.enter id t) := by
  intro hmeets
  obtain ⟨a, i, htop, hsecond, hi⟩ := hbelow
  obtain ⟨bs, rfl⟩ : ∃ bs, items = a :: i :: bs := by
    have hstack := h.stack
    cases items with
    | nil => simp [htop] at hstack
    | cons x items =>
      obtain ⟨hx, hrest⟩ := chain_cons.1 hstack
      cases items with
      | nil =>
        have hnone := chain_nil.1 hrest
        rw [htop] at hx
        cases hx
        simp [hsecond] at hnone
      | cons y items =>
        obtain ⟨hy, -⟩ := chain_cons.1 hrest
        rw [htop] at hx
        cases hx
        rw [hsecond] at hy
        cases hy
        exact ⟨items, rfl⟩
  obtain ⟨hupper, -⟩ := pairwise_cons.1 hremembers.order
  have hne : (d.region a).id ≠ id := by
    have hpair := (hupper (d.region i) mem_cons_self).1
    rwa [show (d.region i).id = id from hi] at hpair
  have hpush := push_second (t := t) h hne hi
  simp only [perform, storeRewindPoint, hpush] at hperform
  cases hperform
  obtain ⟨paradigmAffected, rfl⟩ := hmeets
  have htop' := hstacks.top
  have hstack' : (d.setEntertimestamp a t).rewindStack = some a := htop
  have hid : ((d.setEntertimestamp a t).item a).id = (d.region a).id := by
    simp [TracingData.setEntertimestamp, TracingData.setItem, TracingData.region]
  rw [hstack', Option.map_some, hid] at htop'
  exact hne (Option.some.inj htop').symm

theorem Remembers.historyMeets_iff {events : List Event} (h : Holds d items unused)
    (hremembers : Remembers past (items.map d.region)) : Meets past d events ↔ Avoids d events := by
  induction events generalizing past d items unused with
  | nil =>
    constructor
    · intro _
      trivial
    · intro _
      exact ⟨_, h.stacks⟩
  | cons event events ih =>
    constructor
    · rintro ⟨records, d', regions, regions', hperform, -, hstacks', hmeets, hrest⟩
      have habove : ∀ i timestamp, event = .enter i timestamp → ¬BelowTop d i := by
        rintro i timestamp rfl hbelow
        exact not_enterMeets h hremembers hbelow hperform hstacks' hmeets
      refine ⟨habove, ?_⟩
      intro records' e hperform'
      rw [hperform] at hperform'
      cases hperform'
      obtain ⟨_, _, items', unused', hstep, hholds, hremembers', -⟩ := hremembers.step h habove
      rw [hperform] at hstep
      cases hstep
      exact (ih hholds hremembers').1 hrest
    · rintro ⟨habove, hrest⟩
      obtain ⟨records, d', items', unused', hperform, hholds, hremembers', hmeets⟩ :=
        hremembers.step h habove
      exact ⟨records, d', _, _, hperform, h.stacks, hholds.stacks, hmeets,
        (ih hholds hremembers').2 (hrest records d' hperform)⟩

theorem initial_holds (item : ℕ → RewindStackItem) : Holds (initial item) [] [] where
  stack := rfl
  free := rfl
  nodup := nodup_nil
  bounded := by simp

/-- Every event does what it is asked for exactly as long as no event enters the region directly below the
top of the stack. -/
theorem meets_iff_avoids (item : ℕ → RewindStackItem) (events : List Event) :
    Meets [] (initial item) events ↔ Avoids (initial item) events := by
  apply Remembers.historyMeets_iff (initial_holds item)
  exact ⟨by simp, by simp, by simp⟩

def reenteredBelow : List Event :=
  [.enter 1 10, .enter 2 20, .enter 1 30]

theorem not_meets_reenteredBelow :
    ¬Meets [] (initial fun _ => ⟨0, 0, none, fun _ => false⟩) reenteredBelow := by
  rintro ⟨_, d, _, _, h, -, -, -, hmeets⟩
  cases h
  obtain ⟨_, d, _, _, h, -, -, -, hmeets⟩ := hmeets
  cases h
  obtain ⟨_, d, _, regions', h, -, hstacks, hevent, -⟩ := hmeets
  cases h
  obtain ⟨paradigmAffected, rfl⟩ := hevent
  have htop : some 1 = some 2 := hstacks.top
  cases htop

end ScoreP.Tracing
