import ScoreP.Tasks.CallPaths

/-!
# The regions in the frames of a stack

How the regions that frames hold change when a region is pushed within the first frame (`Filled.push_within`)
or in a new one (`Filled.push_frame`) and when the innermost region is popped, and what
`stack_frame_aggregation` computes along a chain of frames: the fold over the regions from the outermost to
the innermost one (`stackFrameAggregation_eq`).
-/

namespace ScoreP.Tasks

open Foundations Function List

variable {frames frames' : ℕ → StackFrame} {index : ℕ} {f g : ℕ} {fs : List ℕ}
  {regions : List RegionHandle} {region : RegionHandle}

/-! ## The regions in frames -/

theorem contents_congr (hregions : ∀ f ∈ fs, (frames' f).regions = (frames f).regions) :
    contents frames' fs index = contents frames fs index := by
  induction fs generalizing index with
  | nil => rfl
  | cons f fs ih =>
    rw [contents, contents, hregions f mem_cons_self,
      ih fun f' hf' => hregions f' (mem_cons_of_mem f hf')]

theorem Filled.congr (h : Filled frames index fs regions)
    (hregions : ∀ f ∈ fs, (frames' f).regions = (frames f).regions) : Filled frames' index fs regions :=
  ⟨h.index_lt, h.empty, (contents_congr hregions).trans h.contents⟩

theorem filled_nil : Filled frames (taskStackSize - 1) [] [] :=
  ⟨by decide, fun _ => rfl, rfl⟩

theorem contents_cons : contents frames (f :: fs) index = (frames f).regions index ::
      (((List.range index).map (frames f).regions).reverse ++ contents frames fs (taskStackSize - 1)) := by
  rw [contents, range_succ, map_append, reverse_append]
  rfl

theorem Filled.eq_nil_iff (h : Filled frames index fs regions) : fs = [] ↔ regions = [] := by
  cases fs with
  | nil => exact iff_of_true rfl h.contents.symm
  | cons f fs =>
    have hcontents := h.contents
    rw [contents_cons] at hcontents
    rw [← hcontents]
    exact iff_of_false (cons_ne_nil _ _) (cons_ne_nil _ _)

theorem Filled.push_within (region : RegionHandle) (h : Filled frames index (f :: fs) regions) (hf : f ∉ fs)
    (hindex : index < taskStackSize - 1) : Filled (update frames f { frames f with
      regions := update (frames f).regions (index + 1) region }) (index + 1) (f :: fs)
      (region :: regions) := by
  have hlower : ∀ g ∈ fs, update frames f { frames f with
      regions := update (frames f).regions (index + 1) region } g = frames g := by
    intro g hg
    apply update_of_ne
    rintro rfl
    exact hf hg
  have hbelow : (List.range (index + 1)).map (update (frames f).regions (index + 1) region) =
      (List.range (index + 1)).map (frames f).regions := by
    apply map_congr_left
    intro i hi
    rw [mem_range] at hi
    exact update_of_ne (by omega) _ _
  refine ⟨?_, fun hnil => absurd hnil (cons_ne_nil f fs), ?_⟩
  · omega
  · rw [contents_cons, update_self]
    dsimp only
    rw [update_self, hbelow, contents_congr fun g hg => congrArg StackFrame.regions (hlower g hg)]
    exact congrArg (region :: ·) h.contents

theorem Filled.push_frame (h : Filled frames index fs regions) (hg : g ∉ fs)
    (hindex : ¬index < taskStackSize - 1) (data : StackFrame) (hdata : data.regions 0 = region) :
    Filled (update frames g data) 0 (g :: fs) (region :: regions) := by
  have hfull : index = taskStackSize - 1 := by
    have hlt := h.index_lt
    omega
  have hlower : ∀ f ∈ fs, update frames g data f = frames f := by
    intro f hf
    apply update_of_ne
    rintro rfl
    exact hg hf
  refine ⟨by decide, fun hnil => absurd hnil (cons_ne_nil g fs), ?_⟩
  rw [contents_cons, update_self, hdata,
    contents_congr fun f hf => congrArg StackFrame.regions (hlower f hf), ← hfull, h.contents]
  rfl

theorem Filled.pop_within (h : Filled frames index (f :: fs) (region :: regions)) (hindex : index ≠ 0) :
    Filled frames (index - 1) (f :: fs) regions := by
  have hcontents := h.contents
  rw [contents_cons, List.cons.injEq] at hcontents
  refine ⟨?_, fun hnil => absurd hnil (cons_ne_nil f fs), ?_⟩
  · have hlt := h.index_lt
    omega
  · rw [Tasks.contents, Nat.sub_add_cancel (Nat.one_le_iff_ne_zero.2 hindex)]
    exact hcontents.2

theorem Filled.pop_frame (h : Filled frames 0 (f :: fs) (region :: regions)) :
    Filled frames (taskStackSize - 1) fs regions := by
  have hcontents := h.contents
  rw [contents_cons, List.cons.injEq] at hcontents
  exact ⟨by decide, fun _ => rfl, hcontents.2⟩

section Hash

variable (jenkinsHash : UInt32 → UInt32 → UInt32) (hashValue : RegionHandle → UInt32)

theorem aggregateRegions_eq (hash : UInt32) {regions : List RegionHandle}
    (hfiltered : ∀ region ∈ regions, region ≠ filteredRegion) :
    aggregateRegions jenkinsHash hashValue hash regions =
      some (regions.foldl (fun hash region => jenkinsHash (hashValue region) hash) hash) := by
  induction regions generalizing hash with
  | nil => rfl
  | cons region regions ih =>
    have hregion : regionHash hashValue region = some (hashValue region) :=
      if_neg (hfiltered region mem_cons_self)
    rw [aggregateRegions, foldlM_cons, hregion]
    exact ih _ fun r hr => hfiltered r (mem_cons_of_mem region hr)

theorem stackFrameAggregation_eq (parentHashValue : UInt32) {bound : ℕ} {p : Option ℕ}
    (hchain : Chain (fun f => (frames f).prev) p fs) (hbound : fs.length < bound)
    (hfiltered : ∀ region ∈ contents frames fs index, region ≠ filteredRegion) :
    stackFrameAggregation jenkinsHash hashValue frames parentHashValue bound p index =
      some ((contents frames fs index).reverse.foldl
        (fun hash region => jenkinsHash (hashValue region) hash) parentHashValue) := by
  induction fs generalizing bound p index with
  | nil =>
    cases chain_nil.1 hchain
    obtain ⟨bound, rfl⟩ := Nat.exists_eq_succ_of_ne_zero (Nat.ne_of_gt hbound)
    rfl
  | cons f fs ih =>
    obtain ⟨rfl, htail⟩ := chain_cons.1 hchain
    obtain ⟨bound, rfl⟩ := Nat.exists_eq_succ_of_ne_zero (Nat.ne_of_gt (Nat.lt_of_le_of_lt (Nat.zero_le _) hbound))
    rw [contents] at hfiltered
    have hbelow : ∀ region ∈ contents frames fs (taskStackSize - 1), region ≠ filteredRegion :=
      fun region hregion => hfiltered region (mem_append_right _ hregion)
    have hlower := ih htail (Nat.lt_of_succ_lt_succ hbound) hbelow
    have hframe : ∀ region ∈ (List.range (index + 1)).map (frames f).regions, region ≠ filteredRegion :=
      fun region hregion => hfiltered region (mem_append_left _ (mem_reverse.2 hregion))
    rw [stackFrameAggregation, hlower, contents, reverse_append, reverse_reverse, foldl_append]
    exact aggregateRegions_eq jenkinsHash hashValue _ hframe

end Hash

end ScoreP.Tasks
