import ScoreP.Selective.Meaning
import ScoreP.Selective.Region

/-!
# Selective recording records the selected instances

The open instances of the thread form a stack. Recording is enabled just when one of them is selected
(`Inv.recording_iff`), provided that the intervals are sorted and that no region has gone past its current
interval when it has to switch recording on (`FineStep`): a region looks for its next interval only when it
switches recording off, so it can miss one after its instances were recorded for another region.
-/

namespace ScoreP.Selective

open Filter (Text)
open Foundations Function List Option

variable {R : Type} [DecidableEq R]

/-! ## Open instances -/

structure Instances (R : Type) where
  stack : List (R × ℕ)
  count : R → ℕ

def Instances.start : Instances R := ⟨[], fun _ => 0⟩

def stepInstances (instances : Instances R) : Event R → Option (Instances R)
  | .enter region =>
    some ⟨(region, instances.count region) :: instances.stack,
      update instances.count region (instances.count region + 1)⟩
  | .exit region =>
    match instances.stack with
    | [] => none
    | (top, _) :: stack => if top = region then some { instances with stack } else none

def runInstances (instances : Instances R) (events : List (Event R)) : Option (Instances R) :=
  events.foldlM stepInstances instances

def Selects (intervals : List Interval) (instance_ : ℕ) : Prop :=
  ∃ interval ∈ intervals, interval.first ≤ instance_ ∧ instance_ ≤ interval.last

def Instances.Recorded (instances : Instances R) (intervals : R → List Interval) : Prop :=
  ∃ open_ ∈ instances.stack, Selects (intervals open_.1) open_.2

/-! ## The intervals of a region -/

def Fits (intervals : List Interval) (count : ℕ) (region : UserRegion) : Prop :=
  (region.selection = none ∧ region.hasEnabled = false ∧ ∀ interval ∈ intervals, interval.last < count) ∨
    (region.selection = some intervals ∧ region.enters = count ∧
      intervals[region.currentIntervalIndex]? = some region.currentInterval ∧
        ∀ j < region.currentIntervalIndex, ∀ interval, intervals[j]? = some interval → interval.last < count)

def FineStep (s : State R) : Event R → Prop
  | .enter region =>
    s.recordingEnabled = false → ∀ intervals, (s.regions region).selection = some intervals →
      Selects intervals (s.regions region).enters →
        (s.regions region).enters ≤ (s.regions region).currentInterval.last
  | .exit _ => True

def FineEvents (s : State R) : List (Event R) → Prop
  | [] => True
  | event :: events => FineStep s event ∧ FineEvents (stepRegion s event) events

variable {intervals : List Interval} {count : ℕ} {region : UserRegion}

theorem Fits.selection_of_enabled (h : Fits intervals count region) (henabled : region.hasEnabled = true) :
    region.selection = some intervals := by
  rcases h with ⟨-, hdisabled, -⟩ | ⟨hselection, -⟩
  · rw [henabled] at hdisabled
    exact absurd hdisabled Bool.noConfusion
  · exact hselection

theorem Fits.entered {region' : UserRegion} (h : Fits intervals count region)
    (hlisted : region.selection ≠ none) (hselection : region'.selection = region.selection)
    (henters : region'.enters = region.enters + 1)
    (hindex : region'.currentIntervalIndex = region.currentIntervalIndex)
    (hinterval : region'.currentInterval = region.currentInterval) : Fits intervals (count + 1) region' := by
  rcases h with ⟨hnone, -⟩ | ⟨hsome, hcount, hcurrent, hbefore⟩
  · exact absurd hnone hlisted
  · refine Or.inr ⟨hselection.trans hsome, by rw [henters, hcount], by rw [hindex, hinterval, hcurrent], ?_⟩
    intro j hj interval hget
    exact Nat.lt_succ_of_lt (hbefore j (by rw [← hindex]; exact hj) interval hget)

theorem Fits.skipped (h : Fits intervals count region) (hnone : region.selection = none) :
    Fits intervals (count + 1) region ∧ ¬Selects intervals count := by
  rcases h with ⟨-, hdisabled, hover⟩ | ⟨hsome, -⟩
  · refine ⟨Or.inl ⟨hnone, hdisabled, fun interval hmem => Nat.lt_succ_of_lt (hover interval hmem)⟩, ?_⟩
    rintro ⟨interval, hmem, -, hlast⟩
    exact absurd (hover interval hmem) (Nat.not_lt.2 hlast)
  · exact absurd (hnone.symm.trans hsome) (some_ne_none intervals).symm

theorem Fits.current_of_selects (h : Fits intervals count region) (hsorted : Sorted intervals)
    (hlisted : region.selection ≠ none) (hselects : Selects intervals count)
    (hfine : region.enters ≤ region.currentInterval.last) :
    region.currentInterval.first ≤ region.enters ∧ region.enters ≤ region.currentInterval.last := by
  rcases h with ⟨hnone, -⟩ | ⟨-, hcount, hcurrent, hbefore⟩
  · exact absurd hnone hlisted
  · obtain ⟨interval, hmem, hfirst, hlast⟩ := hselects
    obtain ⟨j, hj, hget⟩ := getElem_of_mem hmem
    obtain ⟨hindex, hcurrent⟩ := List.getElem?_eq_some_iff.1 hcurrent
    refine ⟨?_, hfine⟩
    rw [hcount]
    rcases Nat.lt_trichotomy j region.currentIntervalIndex with hlt | heq | hgt
    · have hover := hbefore j hlt interval (by rw [getElem?_eq_getElem hj, hget])
      exact absurd hover (Nat.not_lt.2 hlast)
    · subst heq
      rw [← hcurrent, hget]
      exact hfirst
    · have hle := pairwise_iff_getElem.1 hsorted _ j hindex hj hgt
      rw [hcurrent, hget] at hle
      exact Nat.le_trans hle hfirst

theorem Fits.selects_current (h : Fits intervals count region) (hlisted : region.selection ≠ none)
    (hcurrent : region.currentInterval.first ≤ region.enters ∧ region.enters ≤ region.currentInterval.last) :
    Selects intervals count := by
  rcases h with ⟨hnone, -⟩ | ⟨-, hcount, hget, -⟩
  · exact absurd hnone hlisted
  · rw [hcount] at hcurrent
    exact ⟨_, mem_of_getElem? hget, hcurrent⟩

theorem fits_nextInterval {rest : List Interval} (h : Fits intervals count region)
    (hdisabled : region.hasEnabled = false) (hlisted : region.selection ≠ none)
    (hrest : intervals.drop (region.currentIntervalIndex + 1) = rest) :
    Fits intervals count (nextInterval rest region) ∧ (nextInterval rest region).hasEnabled = false := by
  induction rest generalizing region with
  | nil =>
    rw [nextInterval]
    rcases h with ⟨hnone, -⟩ | ⟨hsome, hcount, hcurrent, hbefore⟩
    · exact absurd hnone hlisted
    · by_cases hover : region.currentInterval.last < region.enters
      · rw [if_pos hover]
        refine ⟨Or.inl ⟨rfl, hdisabled, ?_⟩, hdisabled⟩
        intro interval hmem
        obtain ⟨j, hj, hget⟩ := getElem_of_mem hmem
        have hlength := drop_eq_nil_iff.1 hrest
        rcases Nat.lt_or_ge j region.currentIntervalIndex with hlt | hge
        · exact hbefore j hlt interval (by rw [getElem?_eq_getElem hj, hget])
        · obtain rfl : j = region.currentIntervalIndex := by omega
          rw [getElem?_eq_getElem hj, hget] at hcurrent
          rw [some.inj hcurrent, ← hcount]
          exact hover
      · rw [if_neg hover]
        exact ⟨Or.inr ⟨hsome, hcount, hcurrent, hbefore⟩, hdisabled⟩
  | cons next rest ih =>
    rw [nextInterval]
    rcases h with ⟨hnone, -⟩ | ⟨hsome, hcount, hcurrent, hbefore⟩
    · exact absurd hnone hlisted
    · by_cases hover : region.currentInterval.last < region.enters
      · rw [if_pos hover]
        have hdrop : intervals.drop (region.currentIntervalIndex + 1 + 1) = rest := by
          rw [← drop_drop (i := 1), hrest, drop_one, tail_cons]
        have hhead := congrArg List.head? hrest
        rw [head?_drop, head?_cons] at hhead
        have hbefore' : ∀ j < region.currentIntervalIndex + 1, ∀ interval, intervals[j]? = some interval →
            interval.last < count := by
          intro j hj interval hget
          rcases Nat.lt_succ_iff_lt_or_eq.1 hj with hlt | heq
          · exact hbefore j hlt interval hget
          · rw [heq, hcurrent] at hget
            rw [← some.inj hget, ← hcount]
            exact hover
        exact @ih { region with
          currentIntervalIndex := region.currentIntervalIndex + 1
          currentInterval := next } (Or.inr ⟨hsome, hcount, hhead, hbefore'⟩) hdisabled hlisted hdrop
      · rw [if_neg hover]
        exact ⟨Or.inr ⟨hsome, hcount, hcurrent, hbefore⟩, hdisabled⟩

/-! ## The invariant -/

def opened (stack : List (R × ℕ)) (region : R) : ℕ :=
  stack.countP fun open_ => open_.1 = region

theorem opened_cons_self (stack : List (R × ℕ)) (region : R) (k : ℕ) :
    opened ((region, k) :: stack) region = opened stack region + 1 := by
  exact countP_cons_of_pos (decide_eq_true rfl)

theorem opened_cons_of_ne (stack : List (R × ℕ)) {region other : R} (k : ℕ) (h : other ≠ region) :
    opened ((other, k) :: stack) region = opened stack region := by
  exact countP_cons_of_neg fun heq => h (of_decide_eq_true heq)

structure Enabled (intervals : R → List Interval) (s : State R) (stack above below : List (R × ℕ)) (region : R)
    (k : ℕ) : Prop where
  stack_eq : stack = above ++ (region, k) :: below
  selects : Selects (intervals region) k
  around : ∀ open_ ∈ below, ¬Selects (intervals open_.1) open_.2
  recording : s.recordingEnabled = true
  enabled : ∀ other, (s.regions other).hasEnabled = true ↔ other = region
  exits : (s.regions region).exits = opened above region + 1

structure Disabled (intervals : R → List Interval) (s : State R) (stack : List (R × ℕ)) : Prop where
  around : ∀ open_ ∈ stack, ¬Selects (intervals open_.1) open_.2
  recording : s.recordingEnabled = false
  enabled : ∀ other, (s.regions other).hasEnabled = false

structure Inv (intervals : R → List Interval) (s : State R) (instances : Instances R) : Prop where
  fits : ∀ region, Fits (intervals region) (instances.count region) (s.regions region)
  mode : Disabled intervals s instances.stack ∨
    ∃ above below region k, Enabled intervals s instances.stack above below region k

variable {allIntervals : R → List Interval} {s : State R} {instances instances' : Instances R}

theorem Inv.recording_iff (h : Inv allIntervals s instances) :
    s.recordingEnabled = true ↔ instances.Recorded allIntervals := by
  rcases h.mode with hdisabled | ⟨above, below, region, k, henabled⟩
  · rw [hdisabled.recording]
    constructor
    · exact fun hfalse => absurd hfalse Bool.false_ne_true
    · rintro ⟨open_, hmem, hselects⟩
      exact absurd hselects (hdisabled.around open_ hmem)
  · refine ⟨fun _ => ⟨(region, k), ?_, henabled.selects⟩, fun _ => henabled.recording⟩
    rw [henabled.stack_eq]
    exact mem_append_right above mem_cons_self

/-! ## Enters -/

variable {stack above below : List (R × ℕ)} {entered current : R} {k n : ℕ} {s' : State R}
  {regions : R → UserRegion} {updated : UserRegion}

theorem fits_update {count : R → ℕ} {n : ℕ}
    (h : ∀ region, Fits (allIntervals region) (count region) (regions region))
    (hupdated : Fits (allIntervals current) n updated) (region : R) :
    Fits (allIntervals region) (update count current n region) (update regions current updated region) := by
  by_cases hregion : region = current
  · rw [hregion, update_self, update_self]
    exact hupdated
  · rw [update_of_ne hregion, update_of_ne hregion]
    exact h region

theorem Enabled.push (h : Enabled allIntervals s stack above below current k)
    (hrecording : s'.recordingEnabled = true)
    (henabled : ∀ other, (s'.regions other).hasEnabled = (s.regions other).hasEnabled)
    (hexits : (s'.regions current).exits = opened ((entered, n) :: above) current + 1) :
    Enabled allIntervals s' ((entered, n) :: stack) ((entered, n) :: above) below current k where
  stack_eq := by rw [h.stack_eq, cons_append]
  selects := h.selects
  around := h.around
  recording := hrecording
  enabled := fun other => by rw [henabled]; exact h.enabled other
  exits := hexits

theorem Disabled.push (h : Disabled allIntervals s stack) (hnot : ¬Selects (allIntervals entered) n)
    (hrecording : s'.recordingEnabled = false)
    (henabled : ∀ other, (s'.regions other).hasEnabled = (s.regions other).hasEnabled) :
    Disabled allIntervals s' ((entered, n) :: stack) where
  around := by
    intro open_ hmem
    rcases mem_cons.1 hmem with rfl | hmem
    · exact hnot
    · exact h.around open_ hmem
  recording := hrecording
  enabled := fun other => by rw [henabled]; exact h.enabled other

theorem hasEnabled_update (h : updated.hasEnabled = (regions entered).hasEnabled) (other : R) :
    (update regions entered updated other).hasEnabled = (regions other).hasEnabled := by
  by_cases hother : other = entered
  · rw [hother, update_self, h]
  · rw [update_of_ne hother]

theorem Inv.enter (h : Inv allIntervals s instances) (hsorted : ∀ region, Sorted (allIntervals region))
    (hfine : FineStep s (.enter entered)) (hstep : stepInstances instances (.enter entered) = some instances') :
    Inv allIntervals (stepRegion s (.enter entered)) instances' := by
  obtain rfl := some.inj hstep
  have hfits := h.fits entered
  rw [stepRegion, checkEnter]
  by_cases hselection : (s.regions entered).selection = none
  · -- the region is not listed, or none of its intervals is left
    rw [if_pos hselection, update_eq_self]
    obtain ⟨hskipped, hnot⟩ := hfits.skipped hselection
    refine ⟨?_, ?_⟩
    · have hall := fits_update h.fits hskipped
      rw [update_eq_self] at hall
      exact hall
    · rcases h.mode with hdisabled | ⟨above, below, current, k, henabled⟩
      · exact Or.inl (hdisabled.push hnot hdisabled.recording fun _ => rfl)
      · have hne : entered ≠ current := by
          intro heq
          rw [heq] at hselection
          have hsome := (h.fits current).selection_of_enabled ((henabled.enabled current).2 rfl)
          exact absurd (hselection.symm.trans hsome) (some_ne_none _).symm
        refine Or.inr ⟨_, below, current, k, henabled.push henabled.recording (fun _ => rfl) ?_⟩
        rw [opened_cons_of_ne _ _ hne]
        exact henabled.exits
  · rw [if_neg hselection]
    by_cases hhas : (s.regions entered).hasEnabled = true
    · -- a recursion of the region that has switched recording on
      rw [if_pos hhas]
      refine ⟨fits_update h.fits (hfits.entered hselection rfl rfl rfl rfl), ?_⟩
      rcases h.mode with hdisabled | ⟨above, below, current, k, henabled⟩
      · exact absurd (hhas.symm.trans (hdisabled.enabled entered)) Bool.noConfusion
      · obtain rfl := (henabled.enabled entered).1 hhas
        refine Or.inr ⟨_, below, entered, k, henabled.push henabled.recording (hasEnabled_update rfl) ?_⟩
        dsimp only
        rw [update_self, opened_cons_self, henabled.exits]
    · rw [if_neg hhas]
      by_cases hrecording : s.recordingEnabled = true
      · -- an instance inside the recorded one of another region
        rw [if_pos hrecording]
        refine ⟨fits_update h.fits (hfits.entered hselection rfl rfl rfl rfl), ?_⟩
        rcases h.mode with hdisabled | ⟨above, below, current, k, henabled⟩
        · exact absurd (hrecording.symm.trans hdisabled.recording) Bool.noConfusion
        · have hne : entered ≠ current := fun heq => hhas ((henabled.enabled entered).2 heq)
          refine Or.inr ⟨_, below, current, k, henabled.push rfl (hasEnabled_update rfl) ?_⟩
          dsimp only
          rw [update_of_ne hne.symm, opened_cons_of_ne _ _ hne]
          exact henabled.exits
      · rw [if_neg hrecording]
        rcases h.mode with hdisabled | ⟨above, below, current, k, henabled⟩
        · by_cases hcurrent : (s.regions entered).currentInterval.first ≤ (s.regions entered).enters ∧
              (s.regions entered).enters ≤ (s.regions entered).currentInterval.last
          · -- the instance switches recording on
            rw [if_pos hcurrent]
            refine ⟨fits_update h.fits (hfits.entered hselection rfl rfl rfl rfl), Or.inr
              ⟨[], instances.stack, entered, _, rfl, hfits.selects_current hselection hcurrent,
                hdisabled.around, rfl, ?_, ?_⟩⟩
            · intro other
              by_cases hother : other = entered
              · rw [hother]
                dsimp only
                rw [update_self]
                exact ⟨fun _ => rfl, fun _ => rfl⟩
              · dsimp only
                rw [update_of_ne hother, hdisabled.enabled other]
                exact ⟨fun hfalse => absurd hfalse Bool.false_ne_true, fun heq => absurd heq hother⟩
            · dsimp only
              rw [update_self]
              rfl
          · rw [if_neg hcurrent]
            have hnot : ¬Selects (allIntervals entered) (instances.count entered) := by
              intro hselects
              rcases hfits with ⟨hnone, -⟩ | ⟨hall, hcount, -⟩
              · exact hselection hnone
              · have hpast := hfine hdisabled.recording _ hall (by rw [hcount]; exact hselects)
                exact hcurrent ((h.fits entered).current_of_selects (hsorted entered) hselection hselects hpast)
            exact ⟨fits_update h.fits (hfits.entered hselection rfl rfl rfl rfl),
              Or.inl (hdisabled.push hnot rfl (hasEnabled_update rfl))⟩
        · exact absurd henabled.recording hrecording

/-! ## Exits -/

theorem Disabled.pop (h : Disabled allIntervals s ((entered, n) :: stack))
    (hrecording : s'.recordingEnabled = false)
    (henabled : ∀ other, (s'.regions other).hasEnabled = (s.regions other).hasEnabled) :
    Disabled allIntervals s' stack where
  around := fun open_ hmem => h.around open_ (mem_cons_of_mem _ hmem)
  recording := hrecording
  enabled := fun other => by rw [henabled]; exact h.enabled other

theorem Enabled.pop (h : Enabled allIntervals s ((entered, n) :: stack) ((entered, n) :: above) below current k)
    (hrecording : s'.recordingEnabled = true)
    (henabled : ∀ other, (s'.regions other).hasEnabled = (s.regions other).hasEnabled)
    (hexits : (s'.regions current).exits = opened above current + 1) :
    Enabled allIntervals s' stack above below current k where
  stack_eq := (List.cons.inj (h.stack_eq.trans (cons_append))).2
  selects := h.selects
  around := h.around
  recording := hrecording
  enabled := fun other => by rw [henabled]; exact h.enabled other
  exits := hexits

theorem Enabled.top (h : Enabled allIntervals s ((entered, n) :: stack) above below current k) :
    (above = [] ∧ entered = current ∧ stack = below) ∨ ∃ above', above = (entered, n) :: above' := by
  cases above with
  | nil =>
    obtain ⟨hhead, htail⟩ := List.cons.inj h.stack_eq
    exact Or.inl ⟨rfl, congrArg Prod.fst hhead, htail⟩
  | cons open_ above' =>
    rw [← (List.cons.inj (h.stack_eq.trans cons_append)).1]
    exact Or.inr ⟨above', rfl⟩

theorem Fits.exited {region' : UserRegion} (h : Fits intervals count region)
    (hselection : region'.selection = region.selection) (henters : region'.enters = region.enters)
    (hindex : region'.currentIntervalIndex = region.currentIntervalIndex)
    (hinterval : region'.currentInterval = region.currentInterval)
    (hlisted : region.selection ≠ none) : Fits intervals count region' := by
  rcases h with ⟨hnone, -⟩ | ⟨hsome, hcount, hcurrent, hbefore⟩
  · exact absurd hnone hlisted
  · refine Or.inr ⟨hselection.trans hsome, henters.trans hcount, by rw [hindex, hinterval, hcurrent], ?_⟩
    rw [hindex]
    exact hbefore

theorem fits_update_same {count : R → ℕ}
    (h : ∀ region, Fits (allIntervals region) (count region) (regions region))
    (hupdated : Fits (allIntervals current) (count current) updated) (region : R) :
    Fits (allIntervals region) (count region) (update regions current updated region) := by
  have hall := fits_update h hupdated region
  rw [update_eq_self] at hall
  exact hall

theorem Inv.exit (h : Inv allIntervals s instances)
    (hstep : stepInstances instances (.exit entered) = some instances') :
    Inv allIntervals (stepRegion s (.exit entered)) instances' := by
  obtain ⟨stack, count⟩ := instances
  cases stack with
  | nil => exact absurd hstep.symm (some_ne_none _)
  | cons open_ stack =>
    obtain ⟨top, n⟩ := open_
    rw [stepInstances] at hstep
    dsimp only at hstep
    by_cases htop : top = entered
    · rw [if_pos htop] at hstep
      obtain rfl := some.inj hstep
      subst htop
      have hfits := h.fits top
      rw [stepRegion, checkExit]
      by_cases hhas : (s.regions top).hasEnabled = true
      · rw [if_pos hhas]
        have hselection : (s.regions top).selection = some (allIntervals top) :=
          hfits.selection_of_enabled hhas
        have hlisted : (s.regions top).selection ≠ none := by
          rw [hselection]
          exact some_ne_none _
        rcases h.mode with hdisabled | ⟨above, below, current, k, henabled⟩
        · exact absurd (hhas.symm.trans (hdisabled.enabled top)) Bool.noConfusion
        · obtain rfl := (henabled.enabled top).1 hhas
          rcases henabled.top with ⟨rfl, -, rfl⟩ | ⟨above', rfl⟩
          · -- the recorded instance ends
            have hexits : (s.regions top).exits - 1 = 0 := by
              rw [henabled.exits]
              rfl
            have hintervals : (s.regions top).selection.getD [] = allIntervals top := by
              rw [hselection, getD_some]
            have hdisabled : Fits (allIntervals top) (count top)
                { s.regions top with exits := (s.regions top).exits - 1, hasEnabled := false } :=
              hfits.exited rfl rfl rfl rfl hlisted
            obtain ⟨hnext, hoff⟩ := fits_nextInterval hdisabled rfl hlisted rfl
            rw [if_pos hexits, hintervals]
            refine ⟨fits_update_same h.fits hnext, Or.inl ⟨henabled.around, rfl, ?_⟩⟩
            intro other
            by_cases hother : other = top
            · rw [hother]
              dsimp only
              rw [update_self]
              exact hoff
            · dsimp only
              rw [update_of_ne hother]
              exact Bool.eq_false_iff.2 fun htrue => hother ((henabled.enabled other).1 htrue)
          · have hexits : (s.regions top).exits = opened above' top + 1 + 1 := by
              rw [henabled.exits, opened_cons_self]
            rw [if_neg (by omega)]
            refine ⟨fits_update_same h.fits (hfits.exited rfl rfl rfl rfl hlisted), Or.inr
              ⟨above', below, top, k, henabled.pop henabled.recording (hasEnabled_update rfl) ?_⟩⟩
            dsimp only
            rw [update_self, hexits]
            rfl
      · rw [if_neg hhas, update_eq_self]
        refine ⟨h.fits, ?_⟩
        rcases h.mode with hdisabled | ⟨above, below, current, k, henabled⟩
        · exact Or.inl (hdisabled.pop hdisabled.recording fun _ => rfl)
        · have hne : top ≠ current := fun heq => hhas ((henabled.enabled top).2 heq)
          rcases henabled.top with ⟨-, heq, -⟩ | ⟨above', rfl⟩
          · exact absurd heq hne
          · refine Or.inr ⟨above', below, current, k, henabled.pop henabled.recording (fun _ => rfl) ?_⟩
            rw [henabled.exits, opened_cons_of_ne _ _ hne]
    · rw [if_neg htop] at hstep
      exact absurd hstep.symm (some_ne_none _)

/-! ## Runs -/

theorem Inv.step {event : Event R} (h : Inv allIntervals s instances)
    (hsorted : ∀ region, Sorted (allIntervals region)) (hfine : FineStep s event)
    (hstep : stepInstances instances event = some instances') :
    Inv allIntervals (stepRegion s event) instances' := by
  cases event with
  | enter region => exact h.enter hsorted hfine hstep
  | exit region => exact h.exit hstep

theorem Inv.run {events : List (Event R)} (h : Inv allIntervals s instances)
    (hsorted : ∀ region, Sorted (allIntervals region)) (hfine : FineEvents s events)
    (hrun : runInstances instances events = some instances') :
    Inv allIntervals (runRegions s events) instances' := by
  induction events generalizing s instances with
  | nil =>
    obtain rfl := some.inj hrun
    exact h
  | cons event events ih =>
    obtain ⟨hstep, hrest⟩ := hfine
    rw [runInstances, foldlM_cons] at hrun
    cases hnext : stepInstances instances event with
    | none =>
      rw [hnext] at hrun
      exact absurd hrun.symm (some_ne_none _)
    | some next =>
      rw [hnext] at hrun
      exact ih (h.step hsorted hstep hnext) hrest hrun

/-! ## Files -/

theorem LineDenotes.intervals_ne_nil {line : Text} {entry : SelectedRegion} (h : LineDenotes line (some entry)) :
    entry.intervals ≠ [] := by
  cases h with
  | @region _ _ _ intervals =>
    dsimp only
    by_cases hnil : intervals = []
    · rw [if_pos hnil]
      exact cons_ne_nil _ _
    · rw [if_neg hnil]
      exact hnil

theorem FileDenotes.intervals_ne_nil {content : Text} {entries : List SelectedRegion}
    (h : FileDenotes content entries) : ∀ entry ∈ entries, entry.intervals ≠ [] := by
  obtain ⟨options, hlines, rfl⟩ := h
  intro entry hentry
  rw [reduceOption_mem_iff] at hentry
  generalize Filter.fileLines content = lines at hlines
  induction hlines with
  | nil => exact absurd hentry not_mem_nil
  | cons hline _ ih =>
    rcases mem_cons.1 hentry with rfl | hrest
    · exact hline.intervals_ne_nil
    · exact ih hrest

theorem selects_perm {intervals' : List Interval} (h : intervals.Perm intervals') (k : ℕ) :
    Selects intervals k ↔ Selects intervals' k := by
  constructor
  · rintro ⟨interval, hmem, hk⟩
    exact ⟨interval, h.mem_iff.1 hmem, hk⟩
  · rintro ⟨interval, hmem, hk⟩
    exact ⟨interval, h.mem_iff.2 hmem, hk⟩

theorem fits_createRegion {regions : List SelectedRegion} {name : Text}
    (hne : ∀ intervals, regionIntervals regions name = some intervals → intervals ≠ []) :
    Fits ((regionIntervals regions name).getD []) 0 (createRegion regions name) := by
  rw [regionIntervals] at hne ⊢
  rw [createRegion]
  cases hregion : selectiveGetRegion regions name with
  | none => exact Or.inl ⟨rfl, rfl, fun interval hmem => absurd hmem not_mem_nil⟩
  | some region =>
    rw [hregion] at hne
    obtain ⟨interval, rest, hcons⟩ := exists_cons_of_ne_nil (hne _ rfl)
    refine Or.inr ⟨rfl, rfl, ?_, fun j hj => absurd hj (Nat.not_lt_zero j)⟩
    rw [map_some, getD_some]
    dsimp only
    rw [hcons]
    rfl

theorem hasEnabled_createRegion (regions : List SelectedRegion) (name : Text) :
    (createRegion regions name).hasEnabled = false := by
  rw [createRegion]
  split <;> rfl

theorem inv_start {regions : List SelectedRegion} {name : R → Text}
    (hne : ∀ name intervals, regionIntervals regions name = some intervals → intervals ≠ []) :
    Inv (fun region => (regionIntervals regions (name region)).getD []) (start regions name) Instances.start where
  fits := fun region => fits_createRegion (hne (name region))
  mode := Or.inl ⟨fun open_ hmem => absurd hmem not_mem_nil, rfl,
    fun region => hasEnabled_createRegion regions (name region)⟩

/-- The intervals of every region are sorted, and recording is enabled just when an open instance is
selected. -/
theorem records_of_fine {content : Text} {entries : List SelectedRegion} (hentries : FileDenotes content entries)
    (hlines : ReadsLines content) (hcompares : ∀ name, ComparesRight [] (givenIntervals entries name))
    (name : R → Text) {events : List (Event R)} {instances : Instances R}
    (hnested : runInstances Instances.start events = some instances) :
    ∃ regions, parseFile content = some regions ∧
      (∀ name region, selectiveGetRegion regions name = some region → Sorted region.intervals) ∧
        (FineEvents (start regions name) events →
          ((runRegions (start regions name) events).recordingEnabled = true ↔
            instances.Recorded fun region => givenIntervals entries (name region))) := by
  obtain ⟨regions, hparse, hintervals⟩ := regionIntervals_entries hentries hlines
  have hsorted : ∀ name, Sorted ((regionIntervals regions name).getD []) := by
    intro name
    rw [hintervals]
    split
    · exact sorted_insertAll List.Pairwise.nil (hcompares name)
    · exact List.Pairwise.nil
  have hperm : ∀ name, ((regionIntervals regions name).getD []).Perm (givenIntervals entries name) := by
    intro name
    rw [hintervals]
    split
    case isTrue => exact insertAll_perm
    case isFalse hnone => rw [givenIntervals_eq_nil hnone, getD_none]
  have hne : ∀ name intervals, regionIntervals regions name = some intervals → intervals ≠ [] := by
    intro name intervals hsome hnil
    rw [hintervals] at hsome
    split at hsome
    case isTrue hlisted =>
      obtain ⟨entry, hentry, hname⟩ := hlisted
      obtain ⟨interval, hinterval⟩ := exists_mem_of_ne_nil _ (hentries.intervals_ne_nil entry hentry)
      have hgiven : interval ∈ givenIntervals entries name :=
        mem_flatMap.2 ⟨entry, mem_filter.2 ⟨hentry, decide_eq_true hname⟩, hinterval⟩
      have hmem := insertAll_perm.mem_iff.2 (mem_append_right [] hgiven)
      rw [some.inj hsome, hnil] at hmem
      exact absurd hmem not_mem_nil
    case isFalse => exact absurd hsome.symm (some_ne_none _)
  refine ⟨regions, hparse, ?_, ?_⟩
  · intro name region hregion
    have hname := hsorted name
    rw [regionIntervals, hregion] at hname
    exact hname
  · intro hfine
    have hrun := (inv_start hne).run (fun region => hsorted (name region)) hfine hnested
    rw [hrun.recording_iff]
    apply exists_congr
    intro open_
    exact and_congr_right fun _ => selects_perm (hperm (name open_.1)) open_.2

theorem isNumber_of_digits {text : Text} (hne : text ≠ []) (hdigits : text.all isDigit = true)
    (hsmall : decimal text < 2 ^ 31) : IsNumber text (decimal text) :=
  ⟨hne, all_eq_true.1 hdigits, rfl, hsmall⟩

theorem readsLines_single {line : Text} (hline : Filter.fileLines line = [line]) (hnul : '\x00' ∉ line)
    (hshort : line.length < Filter.bufferSize - 1) : ReadsLines line := by
  intro pre line' post hlines
  rw [hline] at hlines
  cases pre with
  | nil =>
    obtain ⟨rfl, rfl⟩ := List.cons.inj hlines
    exact ⟨hnul, fun hfills => absurd hfills.1 (Nat.not_le.2 hshort)⟩
  | cons first pre =>
    have htail := (List.cons.inj hlines).2
    exact absurd htail.symm (append_ne_nil_of_right_ne_nil _ (cons_ne_nil _ _))

def rangeFile : Text := ['a', ' ', '0', ':', '1', '\n']

theorem fileDenotes_rangeFile : FileDenotes rangeFile [⟨['a'], [⟨0, 1⟩]⟩] := by
  refine ⟨[some ⟨['a'], [⟨0, 1⟩]⟩], List.Forall₂.cons ?_ List.Forall₂.nil, rfl⟩
  have hzero : IsNumber ['0'] 0 := isNumber_of_digits (by decide) (by decide) (by decide)
  have hone : IsNumber ['1'] 1 := isNumber_of_digits (by decide) (by decide) (by decide)
  have hitems : List.Forall₂ Denotes (fields intervalDelimiters.contains [' ', '0', ':', '1', '\n'])
      [⟨0, 1⟩] := List.Forall₂.cons (Denotes.range hzero hone) List.Forall₂.nil
  have hline : LineDenotes ([] ++ (['a'] ++ [' ', '0', ':', '1', '\n'])) (some ⟨['a'], [⟨0, 1⟩]⟩) :=
    LineDenotes.region (fun c hc => absurd hc not_mem_nil) (by decide)
      (fun c hc => by rw [mem_singleton.1 hc]; decide) (fun c hc => by rw [← some.inj hc]; decide)
      hitems
  exact hline

theorem readsLines_rangeFile : ReadsLines rangeFile :=
  readsLines_single (by decide) (by decide) (by decide)

theorem comparesRight_rangeFile (name : Text) : ComparesRight [] (givenIntervals [⟨['a'], [⟨0, 1⟩]⟩] name) := by
  rw [givenIntervals_cons]
  split
  · exact ⟨trivial, trivial⟩
  · exact trivial

/-- The first instance is recorded. -/
theorem records_of_fine_rangeFile : ∃ regions, parseFile rangeFile = some regions ∧
      ((runRegions (start regions fun _ : Unit => ['a']) [.enter ()]).recordingEnabled = true ↔
        (⟨[((), 0)], update (fun _ => 0) () 1⟩ : Instances Unit).Recorded
          fun _ => givenIntervals [⟨['a'], [⟨0, 1⟩]⟩] ['a']) := by
  obtain ⟨regions, hparse, -, hrecorded⟩ := records_of_fine fileDenotes_rangeFile readsLines_rangeFile
    comparesRight_rangeFile (fun _ : Unit => ['a'])
    (rfl : runInstances Instances.start [Event.enter ()] =
      some ⟨[((), 0)], update (fun _ => 0) () 1⟩)
  refine ⟨regions, hparse, hrecorded ⟨?_, trivial⟩⟩
  intro _ intervals _ _
  rw [start, createRegion]
  dsimp only
  split <;> exact Nat.zero_le _

def distantFile : Text := ['a', ' ', '0', ',', '2', '0', '0', '\n']

theorem fileDenotes_distantFile : FileDenotes distantFile [⟨['a'], [⟨0, 0⟩, ⟨200, 200⟩]⟩] := by
  refine ⟨[some ⟨['a'], [⟨0, 0⟩, ⟨200, 200⟩]⟩], List.Forall₂.cons ?_ List.Forall₂.nil, rfl⟩
  have hzero : IsNumber ['0'] 0 := isNumber_of_digits (by decide) (by decide) (by decide)
  have hdistant : IsNumber ['2', '0', '0'] 200 := isNumber_of_digits (by decide) (by decide) (by decide)
  have hitems : List.Forall₂ Denotes (fields intervalDelimiters.contains [' ', '0', ',', '2', '0', '0', '\n'])
      [⟨0, 0⟩, ⟨200, 200⟩] :=
    List.Forall₂.cons (Denotes.number hzero) (List.Forall₂.cons (Denotes.number hdistant) List.Forall₂.nil)
  have hline : LineDenotes ([] ++ (['a'] ++ [' ', '0', ',', '2', '0', '0', '\n']))
      (some ⟨['a'], [⟨0, 0⟩, ⟨200, 200⟩]⟩) :=
    LineDenotes.region (fun c hc => absurd hc not_mem_nil) (by decide)
      (fun c hc => by rw [mem_singleton.1 hc]; decide) (fun c hc => by rw [← some.inj hc]; decide)
      hitems
  exact hline

/-- The difference of 200 is negative as an `int8_t`, so the interval of the instance 200 is put in front. -/
theorem not_sorted_distantFile : ¬ ∀ content entries, FileDenotes content entries → ReadsLines content →
      ∃ regions, parseFile content = some regions ∧
        ∀ name region, selectiveGetRegion regions name = some region → Sorted region.intervals := by
  intro hall
  have hlines : ReadsLines distantFile := readsLines_single (by decide) (by decide) (by decide)
  obtain ⟨regions, hparse, hintervals⟩ := regionIntervals_entries fileDenotes_distantFile hlines
  obtain ⟨regions', hparse', hsorted⟩ := hall _ _ fileDenotes_distantFile hlines
  obtain rfl := some.inj (hparse.symm.trans hparse')
  have hname := hintervals ['a']
  rw [if_pos ⟨_, mem_cons_self, rfl⟩, regionIntervals] at hname
  obtain ⟨region, hregion, hregionIntervals⟩ := map_eq_some_iff.1 hname
  have hregionSorted := hsorted _ _ hregion
  rw [hregionIntervals] at hregionSorted
  have hreversed : insertAll [] (givenIntervals [⟨['a'], [⟨0, 0⟩, ⟨200, 200⟩]⟩] ['a']) =
      [⟨200, 200⟩, ⟨0, 0⟩] := by decide
  rw [hreversed] at hregionSorted
  exact absurd ((pairwise_cons.1 hregionSorted).1 _ mem_cons_self) (by decide)

end ScoreP.Selective
