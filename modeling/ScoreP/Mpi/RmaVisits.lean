import ScoreP.Mpi.RmaForeach

/-!
# When the loops visit what they should

The lower bound of the loops is the first possible request of a block: that of a request without an MPI
handle that is completed separately. If the list holds such requests, the loop starts at the last of the
highest of them. If not, `foreach_on_window` starts with the requests of the window, as long as no two of
them have a target below -1; but `foreach_to_target` ends at once if the window has a request with a
smaller target, which is then the lower bound.

`foreach_visits_iff` gives the exact conditions, and `smaller_target_hides` a list on which a request is
left out.
-/

namespace ScoreP.Mpi.Rma

open Foundations Skiplist List

def Request.IsFirst (mpiRequestNull : ℤ) (window : ℕ) (target : ℤ) (r : Request) : Prop :=
  r.window = window ∧ r.target = target ∧ r.mpiHandle = mpiRequestNull ∧
    r.completionType = .separateCompletion

instance (mpiRequestNull : ℤ) (window : ℕ) (target : ℤ) (r : Request) :
    Decidable (r.IsFirst mpiRequestNull window target) :=
  inferInstanceAs (Decidable (_ ∧ _ ∧ _ ∧ _))

def firsts (mpiRequestNull : ℤ) (list : Handle Request ℕ) (L : List ℕ) (window : ℕ) (target : ℤ) : List ℕ :=
  L.filter fun n => (list.node n).payload.IsFirst mpiRequestNull window target

/-- `n` is higher than the nodes `ns`. -/
def HigherThan (list : Handle Request ℕ) (n : ℕ) (ns : List ℕ) : Prop :=
  ∀ m ∈ ns, (list.node m).height < (list.node n).height

/-- The condition for `foreachOnWindow`. -/
def WindowVisible (mpiRequestNull : ℤ) (list : Handle Request ℕ) (L : List ℕ) (window : ℕ) : Prop :=
  window ≠ invalidRmaWindow ∧
    match firsts mpiRequestNull list L window (-1) with
    | [] => (L.filter fun n =>
        (list.node n).payload.window = window ∧ (list.node n).payload.target < -1).length ≤ 1
    | n :: ns => HigherThan list n ns ∧
        ∀ m ∈ L, (list.node m).payload.window = window → -1 ≤ (list.node m).payload.target

/-- The condition for `foreachToTarget`; the headnode counts with its window and its target. -/
def TargetVisible (mpiRequestNull : ℤ) (list : Handle Request ℕ) (L : List ℕ) (window : ℕ)
    (target : ℤ) : Prop :=
  ¬(window = invalidRmaWindow ∧ target = -1) ∧
    match firsts mpiRequestNull list L window target with
    | [] =>
      (∀ n ∈ L, ¬((list.node n).payload.window = window ∧ (list.node n).payload.target = target)) ∨
        ∀ n ∈ list.headnode :: L, (list.node n).payload.window = window →
          target ≤ (list.node n).payload.target
    | n :: ns => HigherThan list n ns

variable {σ : Type} {mpiRequestNull : ℤ} {callback : Callback σ} {list : Handle Request ℕ}
  {A B C L : List ℕ} {F : ℕ → List ℕ} {s : σ} {window : ℕ} {target : ℤ}

abbrev searchInfo (mpiRequestNull : ℤ) (window : ℕ) (target : ℤ) : Request :=
  { resetPayload mpiRequestNull with window := window, target := target }

theorem cmp_searchInfo_iff (r : Request) : cmp mpiRequestNull r (searchInfo mpiRequestNull window target) = 0 ↔
      r.IsFirst mpiRequestNull window target := by
  rw [(cmp_threeWay mpiRequestNull r _).eq_zero_iff]
  constructor
  · intro hkey
    simp only [Request.key, resetPayload, toLex_inj, Prod.mk.injEq] at hkey
    obtain ⟨-, hwindow, htarget, -, hhandle, hcompletion⟩ := hkey
    refine ⟨hwindow, htarget, hhandle, ?_⟩
    cases hr : r.completionType with
    | separateCompletion => rfl
    | combinedCompletion => simp [hr, CompletionType.rank] at hcompletion
  · rintro ⟨hwindow, htarget, hhandle, hcompletion⟩
    simp [Request.key, resetPayload, hwindow, htarget, hhandle, hcompletion]

theorem searchInfo_le {r : Request} (hwindow : r.window = window) (htarget : target ≤ r.target) :
    cmp mpiRequestNull (searchInfo mpiRequestNull window target) r ≤ 0 := by
  rcases lt_or_eq_of_le htarget with hlt | heq
  · simp [cmp, hwindow, hlt]
  · by_cases hnull : r.mpiHandle = mpiRequestNull
    · by_cases hseparate : r.completionType = .separateCompletion
      · simp [cmp, resetPayload, hwindow, heq, hnull, hseparate]
      · simp [cmp, resetPayload, hwindow, heq, hnull, Ne.symm hseparate]
    · simp [cmp, resetPayload, hwindow, heq, hnull]

/-! ## What is where around the lower bound -/

theorem firsts_eq_nil (hnone : ∀ n ∈ L, ¬(list.node n).payload.IsFirst mpiRequestNull window target) :
    firsts mpiRequestNull list L window target = [] :=
  filter_eq_nil_iff.2 fun n hn => by simpa using hnone n hn

theorem firsts_around {y : ℕ} (hy : (list.node y).payload.IsFirst mpiRequestNull window target)
    (hhighest : Highest (requests mpiRequestNull) list (A ++ y :: B)
      (searchInfo mpiRequestNull window target) y) :
    ∃ n ns, firsts mpiRequestNull list (A ++ y :: B) window target = n :: ns ∧ (HigherThan list n ns ↔
        ∀ a ∈ A, ¬(list.node a).payload.IsFirst mpiRequestNull window target) := by
  have hsplit : firsts mpiRequestNull list (A ++ y :: B) window target =
      firsts mpiRequestNull list A window target ++ y :: firsts mpiRequestNull list B window target := by
    simp [firsts, hy]
  cases hfirsts : firsts mpiRequestNull list A window target with
  | nil =>
    refine ⟨y, firsts mpiRequestNull list B window target, by rw [hsplit, hfirsts]; rfl, ?_⟩
    refine iff_of_true ?_ fun a ha => by simpa using filter_eq_nil_iff.1 hfirsts a ha
    intro m hm
    obtain ⟨hmB, hmfirst⟩ := mem_filter.1 hm
    exact hhighest.2 A B rfl m hmB ((cmp_searchInfo_iff _).2 (of_decide_eq_true hmfirst))
  | cons a as =>
    refine ⟨a, as ++ y :: firsts mpiRequestNull list B window target, by rw [hsplit, hfirsts]; rfl, ?_⟩
    have ha : a ∈ firsts mpiRequestNull list A window target := by simp [hfirsts]
    obtain ⟨haA, hafirst⟩ := mem_filter.1 ha
    refine iff_of_false ?_ fun hnone => hnone a haA (of_decide_eq_true hafirst)
    intro hhigher
    have hlt := hhigher y (by simp)
    have hle := hhighest.1 a (by simp [haA]) ((cmp_searchInfo_iff _).2 (of_decide_eq_true hafirst))
    omega

variable (hbound : Bound (requests mpiRequestNull) list A B (searchInfo mpiRequestNull window target))

include hbound

theorem not_headnode (h : Inv (requests mpiRequestNull) list (A ++ B) F C) {a : ℕ} (ha : a ∈ A) :
    ¬(window = invalidRmaWindow ∧ target = -1) := by
  rintro ⟨rfl, rfl⟩
  have hhead := h.sorted.head_lt a (mem_append_left B ha)
  rw [h.head_payload] at hhead
  have hlt := (requests_lawful mpiRequestNull).lt_of_lt_of_le hhead (hbound.le a ha)
  have heq : cmp mpiRequestNull (resetPayload mpiRequestNull)
      (searchInfo mpiRequestNull invalidRmaWindow (-1)) = 0 :=
    (cmp_searchInfo_iff _).2 ⟨rfl, rfl, rfl, rfl⟩
  exact absurd heq (Int.ne_of_lt hlt)

theorem lowest_window (h : Inv (requests mpiRequestNull) list (A ++ B) F C) :
    (list.node (lowest list A)).payload.window ≤ window := by
  cases A using List.reverseRecOn with
  | nil =>
    rw [lowest, getLast?_nil, Option.getD_none, h.head_payload]
    exact Nat.zero_le window
  | append_singleton A x =>
    have hx := window_le (hbound.le x (by simp))
    simpa [lowest] using hx

theorem target_le_of_mem {b : ℕ} (hb : b ∈ B) (hwindow : (list.node b).payload.window = window) :
    target ≤ (list.node b).payload.target := by
  rcases Prod.Lex.toLex_le_toLex.1 (windowTarget_le (hbound.ge b hb)) with hlt | ⟨-, hle⟩
  · exact absurd hwindow (Nat.ne_of_gt hlt)
  · exact hle

theorem target_le_of_mem_front {a : ℕ} (ha : a ∈ A)
    (hwindow : (list.node a).payload.window = window) : (list.node a).payload.target ≤ target := by
  rcases Prod.Lex.toLex_le_toLex.1 (windowTarget_le (hbound.le a ha)) with hlt | ⟨-, hle⟩
  · exact absurd hwindow (Nat.ne_of_lt hlt)
  · exact hle

theorem isFirst_of_front {a : ℕ} (ha : a ∈ A) (hwindow : (list.node a).payload.window = window)
    (htarget : target ≤ (list.node a).payload.target) :
    (list.node a).payload.IsFirst mpiRequestNull window target := by
  have hle := hbound.le a ha
  have hge := (requests_lawful mpiRequestNull).le_iff.1 (searchInfo_le hwindow htarget)
  exact (cmp_searchInfo_iff _).1 (Int.le_antisymm hle hge)

theorem not_isFirst (hlast : ¬(list.node (lowest list A)).payload.IsFirst mpiRequestNull window target) :
    (∀ a ∈ A, cmp mpiRequestNull (list.node a).payload (searchInfo mpiRequestNull window target) < 0) ∧
      ∀ n ∈ A ++ B, ¬(list.node n).payload.IsFirst mpiRequestNull window target := by
  rcases hbound.exact with ⟨a, ha, heq⟩ | ⟨hA, hB⟩
  · rw [lowest, ha] at hlast
    exact absurd ((cmp_searchInfo_iff _).1 heq) hlast
  · refine ⟨hA, fun n hn hfirst => ?_⟩
    have heq := (cmp_searchInfo_iff _).2 hfirst
    rcases mem_append.1 hn with hnA | hnB
    · exact absurd heq (Int.ne_of_lt (hA n hnA))
    · exact absurd heq (Int.ne_of_gt (hB n hnB))

omit hbound

/-! ## The conditions -/

theorem search_spec (h : Inv (requests mpiRequestNull) list L F C) (window : ℕ) (target : ℤ) :
    ∃ A B, L = A ++ B ∧ list.lowerBound (requests mpiRequestNull) (searchInfo mpiRequestNull window target) =
        some (lowest list A) ∧
      Bound (requests mpiRequestNull) list A B (searchInfo mpiRequestNull window target) ∧
      ((list.node (lowest list A)).payload.IsFirst mpiRequestNull window target →
        Highest (requests mpiRequestNull) list L (searchInfo mpiRequestNull window target)
          (lowest list A)) := by
  have hlawful := requests_lawful mpiRequestNull
  have hceiling := And.intro h.ceiling.1 (Nat.le_of_lt h.ceiling.2)
  obtain ⟨A, B, hL, hlower, hbound⟩ := lowerBound_spec hlawful h.levels h.sorted hceiling
    (searchInfo mpiRequestNull window target)
  refine ⟨A, B, hL, hlower, hbound, fun hfirst => ?_⟩
  exact lowerBound_highest hlawful h.levels h.sorted hceiling h.height_le hlower
    ((cmp_searchInfo_iff _).2 hfirst)

theorem foreachOnWindow_iff (h : Inv (requests mpiRequestNull) list L F C) :
    Meets mpiRequestNull callback Request.window (searchInfo mpiRequestNull window (-1)) list L C s ↔
      WindowVisible mpiRequestNull list L window := by
  obtain ⟨A, B, rfl, hlower, hbound, hhighest⟩ := search_spec h window (-1)
  by_cases hwindow : (list.node (lowest list A)).payload.window = window
  · cases A using List.reverseRecOn with
    | nil =>
      rw [lowest, getLast?_nil, Option.getD_none] at hwindow
      refine iff_of_false (meets_head h hlower rfl (fun _ => id) hwindow) fun hvisible => ?_
      rw [h.head_payload] at hwindow
      exact hvisible.1 hwindow.symm
    | append_singleton A y =>
      have hlast : lowest list (A ++ [y]) = y := by simp [lowest]
      have hvalid : window ≠ invalidRmaWindow :=
        fun e => not_headnode hbound h (mem_append_right A mem_cons_self) ⟨e, rfl⟩
      have hnone := not_isFirst hbound
      have hsplit : A ++ [y] ++ B = A ++ y :: B := by simp
      rw [hlast] at hwindow hnone hhighest
      rw [hsplit] at h hnone hhighest ⊢
      rw [meets_last_iff h (hlast ▸ hlower) (fun _ _ => window_le) (fun _ => id) hwindow,
        WindowVisible, and_iff_right hvalid]
      by_cases hy : (list.node y).payload.IsFirst mpiRequestNull window (-1)
      · obtain ⟨n, ns, hfirsts, hhigher⟩ := firsts_around hy (hhighest hy)
        rw [hfirsts]
        dsimp only
        rw [hhigher]
        constructor
        · intro hA
          refine ⟨fun a ha hfirst => hA a ha hfirst.1, fun m hm hmwindow => ?_⟩
          rcases mem_append.1 hm with hmA | hmyB
          · exact absurd hmwindow (hA m hmA)
          · rcases mem_cons.1 hmyB with rfl | hmB
            · exact Int.le_of_eq hy.2.1.symm
            · exact target_le_of_mem hbound hmB hmwindow
        · rintro ⟨hA, htarget⟩ a ha hawindow
          have hfront := isFirst_of_front hbound (mem_append_left [y] ha) hawindow
          exact hA a ha (hfront (htarget a (mem_append_left _ ha) hawindow))
      · obtain ⟨hlt, hnone⟩ := hnone hy
        rw [firsts_eq_nil hnone]
        dsimp only
        have hbelow : ∀ a ∈ A ++ [y], (list.node a).payload.window = window →
            (list.node a).payload.target < -1 := by
          intro a ha hawindow
          by_contra hge
          exact hnone a (by simpa using Or.imp_right Or.inl (by simpa using ha))
            (isFirst_of_front hbound ha hawindow (Int.not_lt.1 hge))
        have hlength : ((A ++ y :: B).filter fun n => (list.node n).payload.window = window ∧
            (list.node n).payload.target < -1).length =
              (A.filter fun n => (list.node n).payload.window = window ∧
                (list.node n).payload.target < -1).length + 1 := by
          have hB : (B.filter fun n => (list.node n).payload.window = window ∧
              (list.node n).payload.target < -1) = [] := by
            apply filter_eq_nil_iff.2
            intro b hb hbelow
            obtain ⟨hbwindow, hbtarget⟩ := of_decide_eq_true hbelow
            have hge := target_le_of_mem hbound hb hbwindow
            omega
          have hytarget := hbelow y (by simp) hwindow
          simp only [filter_append, filter_cons, hB, hwindow, hytarget]
          simp
        rw [hlength]
        constructor
        · intro hA
          have hnil : (A.filter fun n => (list.node n).payload.window = window ∧
              (list.node n).payload.target < -1) = [] :=
            filter_eq_nil_iff.2 fun a ha hbelow => hA a ha (of_decide_eq_true hbelow).1
          rw [hnil]
          exact Nat.le_refl 1
        · intro hle a ha hawindow
          have hnil := eq_nil_of_length_eq_zero (Nat.le_zero.1 (Nat.le_of_succ_le_succ hle))
          exact filter_eq_nil_iff.1 hnil a ha
            (decide_eq_true ⟨hawindow, hbelow a (mem_append_left [y] ha) hawindow⟩)
  · refine iff_of_true (meets_behind h hlower (fun _ _ => window_le) (fun _ => id) hbound hwindow) ?_
    refine ⟨?_, ?_⟩
    · rintro rfl
      exact hwindow (Nat.le_zero.1 (lowest_window hbound h))
    · rw [firsts_eq_nil (not_isFirst hbound fun hfirst => hwindow hfirst.1).2]
      have hnil : ((A ++ B).filter fun n => (list.node n).payload.window = window ∧
          (list.node n).payload.target < -1) = [] := by
        apply filter_eq_nil_iff.2
        intro n hn hbelow
        obtain ⟨hnwindow, hntarget⟩ := of_decide_eq_true hbelow
        rcases mem_append.1 hn with hnA | hnB
        · exact other_window h hbound hwindow n hnA hnwindow
        · have hge := target_le_of_mem hbound hnB hnwindow
          omega
      dsimp only
      rw [hnil]
      exact Nat.zero_le 1

theorem smaller_none (h : Inv (requests mpiRequestNull) list (A ++ B) F C)
    (hbound : Bound (requests mpiRequestNull) list A B (searchInfo mpiRequestNull window target))
    (hwindow : (list.node (lowest list A)).payload.window = window)
    (htarget : (list.node (lowest list A)).payload.target ≠ target)
    (hsmaller : ∀ n ∈ list.headnode :: (A ++ B), (list.node n).payload.window = window →
      target ≤ (list.node n).payload.target) :
    ∀ n ∈ A ++ B, ¬((list.node n).payload.window = window ∧ (list.node n).payload.target = target) := by
  cases A using List.reverseRecOn with
  | nil =>
    rw [lowest, getLast?_nil, Option.getD_none] at hwindow htarget
    have hle := hsmaller _ mem_cons_self hwindow
    rw [h.head_payload] at hwindow htarget hle
    have hlt : target < -1 := lt_of_le_of_ne hle (Ne.symm htarget)
    rintro n hn ⟨hnwindow, hntarget⟩
    have hhead := h.sorted.head_lt n hn
    rw [h.head_payload] at hhead
    rcases Prod.Lex.toLex_le_toLex.1 (windowTarget_le (Int.le_of_lt hhead)) with hless | ⟨-, hge⟩
    · exact absurd (hwindow.trans hnwindow.symm) (Nat.ne_of_lt hless)
    · rw [hntarget] at hge
      exact absurd hge (Int.not_le.2 hlt)
  | append_singleton A y =>
    have hlast : lowest list (A ++ [y]) = y := by simp [lowest]
    rw [hlast] at hwindow htarget
    have hy : y ∈ A ++ [y] := mem_append_right A mem_cons_self
    have hge := hsmaller y (mem_cons_of_mem _ (mem_append_left B hy)) hwindow
    have hle := target_le_of_mem_front hbound hy hwindow
    exact absurd (Int.le_antisymm hle hge) htarget

theorem foreachToTarget_iff (h : Inv (requests mpiRequestNull) list L F C) :
    Meets mpiRequestNull callback (fun request => toLex (request.window, request.target))
      (searchInfo mpiRequestNull window target) list L C s ↔
      TargetVisible mpiRequestNull list L window target := by
  obtain ⟨A, B, rfl, hlower, hbound, hhighest⟩ := search_spec h window target
  have hwanted : ∀ r : Request, toLex (r.window, r.target) =
      toLex ((searchInfo mpiRequestNull window target).window,
        (searchInfo mpiRequestNull window target).target) ↔
        r.window = window ∧ r.target = target := by
    intro r
    rw [toLex_inj, Prod.mk.injEq]
  have hfw : ∀ r : Request, toLex (r.window, r.target) =
      toLex ((searchInfo mpiRequestNull window target).window,
        (searchInfo mpiRequestNull window target).target) →
        r.window = (searchInfo mpiRequestNull window target).window :=
    fun r hr => ((hwanted r).1 hr).1
  have hf : ∀ a b : Request, cmp mpiRequestNull a b ≤ 0 →
      toLex (a.window, a.target) ≤ toLex (b.window, b.target) := fun _ _ => windowTarget_le
  by_cases hwindow : (list.node (lowest list A)).payload.window = window
  · by_cases htarget : (list.node (lowest list A)).payload.target = target
    · cases A using List.reverseRecOn with
      | nil =>
        rw [lowest, getLast?_nil, Option.getD_none] at hwindow htarget
        refine iff_of_false (meets_head h hlower rfl hfw ((hwanted _).2 ⟨hwindow, htarget⟩)) ?_
        intro hvisible
        rw [h.head_payload] at hwindow htarget
        exact hvisible.1 ⟨hwindow.symm, htarget.symm⟩
      | append_singleton A y =>
        have hlast : lowest list (A ++ [y]) = y := by simp [lowest]
        have hsplit : A ++ [y] ++ B = A ++ y :: B := by simp
        have hhead := not_headnode hbound h (mem_append_right A mem_cons_self)
        rw [hlast] at hwindow htarget hhighest
        rw [hsplit] at h hhighest ⊢
        have hy := isFirst_of_front hbound (mem_append_right A mem_cons_self) hwindow
          (Int.le_of_eq htarget.symm)
        obtain ⟨n, ns, hfirsts, hhigher⟩ := firsts_around hy (hhighest hy)
        rw [meets_last_iff h (hlast ▸ hlower) hf hfw ((hwanted _).2 ⟨hwindow, htarget⟩),
          TargetVisible, and_iff_right hhead, hfirsts]
        dsimp only
        rw [hhigher]
        refine forall₂_congr fun a ha => not_congr ?_
        rw [hwanted]
        constructor
        · rintro ⟨hawindow, hatarget⟩
          exact isFirst_of_front hbound (mem_append_left [y] ha) hawindow (Int.le_of_eq hatarget.symm)
        · exact fun hfirst => ⟨hfirst.1, hfirst.2.1⟩
    · rw [meets_stop_iff h hlower hwindow fun he => htarget ((hwanted _).1 he).2, TargetVisible,
        firsts_eq_nil (not_isFirst hbound fun hfirst => htarget hfirst.2.1).2]
      simp only [ne_eq, hwanted]
      refine ⟨fun hnone => ⟨?_, Or.inl hnone⟩, ?_⟩
      · cases A using List.reverseRecOn with
        | nil =>
          rintro ⟨-, rfl⟩
          rw [lowest, getLast?_nil, Option.getD_none, h.head_payload] at htarget
          exact htarget rfl
        | append_singleton A y =>
          exact not_headnode hbound h (mem_append_right A mem_cons_self)
      · rintro ⟨-, hnone | hsmaller⟩
        · exact hnone
        · exact smaller_none h hbound hwindow htarget hsmaller
  · refine iff_of_true (meets_behind h hlower hf hfw hbound hwindow) ⟨?_, ?_⟩
    · rintro ⟨rfl, -⟩
      exact hwindow (Nat.le_zero.1 (lowest_window hbound h))
    · rw [firsts_eq_nil (not_isFirst hbound fun hfirst => hwindow hfirst.1).2]
      refine Or.inr fun n hn hnwindow => ?_
      rcases mem_cons.1 hn with rfl | hnL
      · rw [h.head_payload] at hnwindow
        have hle := lowest_window hbound h
        rw [← hnwindow] at hle hwindow
        exact absurd (Nat.le_zero.1 hle) hwindow
      · rcases mem_append.1 hnL with hnA | hnB
        · exact absurd hnwindow (other_window h hbound hwindow n hnA)
        · exact target_le_of_mem hbound hnB hnwindow

/-- On every list of requests: the exact conditions under which the two loops call the callback once on each
request they are for and remove those it schedules for removal. -/
theorem foreach_visits_iff (h : Inv (requests mpiRequestNull) list L F C) (callback : Callback σ) (s : σ)
    (window : ℕ) (target : ℤ) : ((∃ p, foreachOnWindow mpiRequestNull callback window list s = some p ∧
        VisitsEach mpiRequestNull callback (fun request => request.window = window) list L C s p) ↔
      WindowVisible mpiRequestNull list L window) ∧
    ((∃ p, foreachToTarget mpiRequestNull callback window target list s = some p ∧
        VisitsEach mpiRequestNull callback
          (fun request => request.window = window ∧ request.target = target) list L C s p) ↔
      TargetVisible mpiRequestNull list L window target) := by
  refine ⟨foreachOnWindow_iff h, ?_⟩
  have hwanted : (fun request : Request => decide (request.window = window ∧ request.target = target)) =
      fun request => decide (toLex (request.window, request.target) = toLex (window, target)) := by
    funext request
    simp
  rw [foreachToTarget, hwanted]
  exact foreachToTarget_iff h

def onePut : Option (ℕ × Handle Request ℕ) :=
  create 0 1 0 0 .separateCompletion 1 (Handle.createList (requests 0) 6 1)

theorem foreach_visits_iff_put : ∃ n list L F, onePut = some (n, list) ∧ Inv (requests 0) list L F [] ∧
    ((∃ p, foreachOnWindow 0 writeFullCompletion 1 list [] = some p ∧
        VisitsEach 0 writeFullCompletion (fun request => request.window = 1) list L [] [] p) ↔
      WindowVisible 0 list L 1) ∧
    ((∃ p, foreachToTarget 0 writeFullCompletion 1 0 list [] = some p ∧ VisitsEach 0 writeFullCompletion
          (fun request => request.window = 1 ∧ request.target = 0) list L [] [] p) ↔
      TargetVisible 0 list L 1 0) := by
  obtain ⟨n, list, A, B, F, -, hinv, hcreate⟩ := create_inv 0
    (createList_inv (requests 0) (show 2 ≤ 6 by decide) 1) (show 1 ≠ invalidRmaWindow by decide) 0 0
    .separateCompletion 1
  exact ⟨n, list, A ++ n :: B, F, hcreate, hinv, foreach_visits_iff hinv writeFullCompletion [] 1 0⟩

def putAndGet : Option (ℕ × Handle Request ℕ) := do
  let (_, list) ← onePut
  create 0 1 1 0 .combinedCompletion 2 list

/-- The flush of rank 1 does not find the get. -/
theorem smaller_target_hides : ∃ n list L F, putAndGet = some (n, list) ∧ Inv (requests 0) list L F [] ∧ n ∈ L ∧
    (list.node n).payload.window = 1 ∧ (list.node n).payload.target = 1 ∧
    (foreachToTarget 0 writeFullCompletion 1 1 list []).map Progress.calls = some [] := by
  obtain ⟨m, list₁, A₁, B₁, F₁, -, hinv₁, hput⟩ := create_inv 0
    (createList_inv (requests 0) (show 2 ≤ 6 by decide) 1) (show 1 ≠ invalidRmaWindow by decide) 0 0
    .separateCompletion 1
  obtain ⟨n, list, A, B, F, -, hinv, hget⟩ := create_inv 0 hinv₁
    (show 1 ≠ invalidRmaWindow by decide) 1 0 .combinedCompletion 2
  have hboth : putAndGet = some (n, list) := by
    rw [putAndGet, onePut, hput]
    exact hget
  have hrequest : putAndGet.map (fun result => (result.2.node result.1).payload.window) = some 1 ∧
      putAndGet.map (fun result => (result.2.node result.1).payload.target) = some 1 ∧
      (putAndGet.bind fun result => (foreachToTarget 0 writeFullCompletion 1 1 result.2 []).map
        Progress.calls) = some [] := by decide
  rw [hboth] at hrequest
  obtain ⟨hwindow, htarget, hcalls⟩ := hrequest
  exact ⟨n, list, A ++ n :: B, F, hboth, hinv, by simp, Option.some.inj hwindow, Option.some.inj htarget,
    hcalls⟩

end ScoreP.Mpi.Rma
