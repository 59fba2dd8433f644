import ScoreP.Mpi.RmaRequests

/-!
# Which requests the loops visit

A loop calls its function on the requests of one block of the list, from where it starts to the end of the
block (`foreachLoop_spec`). For a window it starts at the first request of the block, unless the lower
bound is further behind; for a window and a target, a request of the window with a smaller target is the
lower bound, and the loop ends at once. `foreach_visits_iff` says when each of the two loops does what it
is for.
-/

namespace ScoreP.Mpi.Rma

open Foundations Skiplist List

variable {σ : Type} {mpiRequestNull : ℤ} {callback : Callback σ} {wanted : Request → Bool}
  {list : Handle Request ℕ} {A B C L : List ℕ} {F : ℕ → List ℕ} {p : Progress σ} {s : σ}

/-! ## The loop -/

def entries (list : Handle Request ℕ) (L : List ℕ) : List (ℕ × Request) :=
  L.map fun n => (n, (list.node n).payload)

def visits (callback : Callback σ) : List (ℕ × Request) → σ → List (ℕ × Request) × σ
  | [], s => ([], s)
  | (n, request) :: rest, s =>
    let (after, s') := visits callback rest (callback.effect request s)
    ((n, callback.apply request s) :: after, s')

theorem entries_append (list : Handle Request ℕ) (A B : List ℕ) :
    entries list (A ++ B) = entries list A ++ entries list B :=
  map_append

theorem entries_congr {list' : Handle Request ℕ}
    (h : ∀ n ∈ L, (list'.node n).payload = (list.node n).payload) : entries list' L = entries list L :=
  map_congr_left fun n hn => by rw [h n hn]

theorem mem_entries {n : ℕ} {request : Request} :
    (n, request) ∈ entries list L ↔ n ∈ L ∧ (list.node n).payload = request := by
  simp [entries]

theorem touch_request (h : Inv (requests mpiRequestNull) list L F C) {n : ℕ} (hn : n ∈ L) (s : σ) :
    Inv (requests mpiRequestNull) (list.withPayload n (callback.apply (list.node n).payload s)) L F C :=
  h.touch hn (fun _ => rfl) fun _ => rfl

/-- What a run of the loop from the first node of `B` on leaves. -/
structure Ran (callback : Callback σ) (wanted : Request → Bool) (A B C : List ℕ) (p p' : Progress σ)
    (mpiRequestNull : ℤ) : Prop where
  calls : p'.calls = p.calls ++ ((entries p.list B).takeWhile fun e => wanted e.2).map Prod.fst
  state : p'.state = (visits callback ((entries p.list B).takeWhile fun e => wanted e.2) p.state).2
  list : ∃ L' F', Inv (requests mpiRequestNull) p'.list L' F' C ∧ entries p'.list L' = entries p.list A ++
      ((visits callback ((entries p.list B).takeWhile fun e => wanted e.2) p.state).1.filter
        fun e => !e.2.scheduleRemoval) ++ (entries p.list B).dropWhile fun e => wanted e.2

theorem Ran.cons {A' : List ℕ} {n : ℕ} {p₁ p' : Progress σ}
    (h : Ran callback wanted A' B C p₁ p' mpiRequestNull)
    (hwanted : wanted (p.list.node n).payload = true) (hcalls : p₁.calls = p.calls ++ [n])
    (hstate : p₁.state = callback.effect (p.list.node n).payload p.state)
    (hB : entries p₁.list B = entries p.list B) (hA : entries p₁.list A' = entries p.list A ++
      [(n, callback.apply (p.list.node n).payload p.state)].filter fun e => !e.2.scheduleRemoval) :
    Ran callback wanted A (n :: B) C p p' mpiRequestNull where
  calls := by
    rw [h.calls, hB, hcalls]
    simp [entries, hwanted]
  state := by
    rw [h.state, hB, hstate]
    simp [entries, hwanted, visits]
  list := by
    obtain ⟨L', F', hinv, hentries⟩ := h.list
    refine ⟨L', F', hinv, ?_⟩
    rw [hentries, hA, hB, hstate]
    by_cases hremoval : (callback.apply (p.list.node n).payload p.state).scheduleRemoval = true
    · simp [entries, hwanted, visits, hremoval]
    · simp [entries, hwanted, visits, hremoval]

theorem foreachLoop_spec {fuel : ℕ} (h : Inv (requests mpiRequestNull) p.list (A ++ B) F C)
    (hfuel : B.length ≤ fuel) : ∃ p', foreachLoop mpiRequestNull callback wanted fuel B.head? p = some p' ∧
      Ran callback wanted A B C p p' mpiRequestNull := by
  induction B generalizing A F fuel p with
  | nil =>
    refine ⟨p, by cases fuel <;> rfl, ?_⟩
    exact ⟨by simp [entries], by simp [entries, visits], A, F, by simpa using h, by simp [entries, visits]⟩
  | cons n B ih =>
    obtain ⟨fuel, rfl⟩ : ∃ k, fuel = k + 1 := ⟨fuel - 1, by simp at hfuel; omega⟩
    have hn : n ∈ A ++ n :: B := by simp
    have hmax : 0 < p.list.maxHeight := by
      have := h.ceiling
      omega
    by_cases hwanted : wanted (p.list.node n).payload = true
    · have hnodup : (A ++ n :: B).Nodup := (nodup_cons.1 h.levels.nodup).2
      have hne : ∀ z, z ∈ A ++ B → z ≠ n := by
        have hmiddle := (nodup_cons.1 ((perm_middle).nodup_iff.1 hnodup)).1
        exact fun z hz e => hmiddle (e ▸ hz)
      let list₁ := p.list.withPayload n (callback.apply (p.list.node n).payload p.state)
      have hinv₁ : Inv (requests mpiRequestNull) list₁ (A ++ n :: B) F C := touch_request h hn p.state
      have hnext : list₁.next n 0 = some B.head? := hinv₁.levels.following hmax
      have hpayload₁ : (list₁.node n).payload = callback.apply (p.list.node n).payload p.state := by
        simp [list₁, Handle.withPayload]
      have hother₁ : ∀ z ∈ A ++ B, (list₁.node z).payload = (p.list.node z).payload := by
        intro z hz
        exact congrArg Node.payload (withPayload_node (hne z hz))
      have hunfold : foreachLoop mpiRequestNull callback wanted (fuel + 1) (n :: B).head? p =
          (if (list₁.node n).payload.scheduleRemoval
            then list₁.removeNode (requests mpiRequestNull) n else some list₁).bind fun list₂ =>
              foreachLoop mpiRequestNull callback wanted fuel B.head?
                { list := list₂
                  state := callback.effect (p.list.node n).payload p.state
                  calls := p.calls ++ [n] } := by
        simp only [foreachLoop, head?_cons, hwanted, if_true]
        rw [show (p.list.withPayload n _).next n 0 = some B.head? from hnext]
        by_cases hremoval : (list₁.node n).payload.scheduleRemoval = true
        · simp only [if_pos hremoval]
          exact if_pos hremoval
        · simp only [if_neg hremoval]
          exact if_neg hremoval
      rw [hunfold]
      by_cases hremoval : (list₁.node n).payload.scheduleRemoval = true
      · obtain ⟨list₂, F₂, hremove, hinv₂, -, -, hpayload₂⟩ := removeNode_inv hinv₁
        have hother₂ : ∀ z ∈ A ++ B, (list₂.node z).payload = (p.list.node z).payload := by
          intro z hz
          rw [hpayload₂ z (hne z hz), hother₁ z hz]
        obtain ⟨p', hrun, hran⟩ := ih (p := ⟨list₂, _, _⟩) hinv₂ (by simpa using hfuel)
        refine ⟨p', by simpa [hremoval, hremove] using hrun, hran.cons hwanted rfl rfl ?_ ?_⟩
        · exact entries_congr fun z hz => hother₂ z (by simp [hz])
        · rw [hpayload₁] at hremoval
          rw [entries_congr (L := A) fun z hz => hother₂ z (by simp [hz])]
          simp [hremoval]
      · have hsplit : A ++ n :: B = A ++ [n] ++ B := by simp
        obtain ⟨p', hrun, hran⟩ := ih (p := ⟨list₁, _, _⟩) (hsplit ▸ hinv₁) (by simpa using hfuel)
        refine ⟨p', by simpa [hremoval] using hrun, hran.cons hwanted rfl rfl ?_ ?_⟩
        · exact entries_congr fun z hz => hother₁ z (by simp [hz])
        · rw [entries_append, entries_congr (L := A) fun z hz => hother₁ z (by simp [hz])]
          rw [hpayload₁] at hremoval
          simp [entries, hpayload₁, hremoval]
    · refine ⟨p, by simp [foreachLoop, hwanted], by simp [entries, hwanted],
        by simp [entries, hwanted, visits], A ++ n :: B, F, h, ?_⟩
      rw [entries_append]
      simp [entries, hwanted, visits]

/-! ## What a loop is for -/

/-- The callback is called once on each wanted request of the list and on nothing else; the list afterwards
holds the requests as the calls left them, less those that are scheduled for removal. -/
structure VisitsEach (mpiRequestNull : ℤ) (callback : Callback σ) (wanted : Request → Bool)
    (list : Handle Request ℕ) (L C : List ℕ) (s : σ) (p : Progress σ) : Prop where
  once : ∀ n, p.calls.count n = if n ∈ L ∧ wanted (list.node n).payload then 1 else 0
  state : p.state = (visits callback (entries list p.calls) s).2
  list : ∃ L' F', Inv (requests mpiRequestNull) p.list L' F' C ∧
    ∀ n request, (n, request) ∈ entries p.list L' ↔ (n, request) ∈ entries list L ∧ n ∉ p.calls ∨
        (n, request) ∈ (visits callback (entries list p.calls) s).1 ∧ request.scheduleRemoval = false

theorem entries_fst {l : List (ℕ × Request)} (h : ∀ e ∈ l, e ∈ entries list L) :
    entries list (l.map Prod.fst) = l := by
  rw [entries, map_map]
  refine (map_congr_left fun e he => ?_).trans (map_id l)
  obtain ⟨n, request⟩ := e
  have hrequest := (mem_entries.1 (h _ he)).2
  simp [hrequest]

theorem Ran.visitsEach_iff (h : Ran callback wanted A B C ⟨list, s, []⟩ p mpiRequestNull)
    (hnodup : (A ++ B).Nodup) : VisitsEach mpiRequestNull callback wanted list (A ++ B) C s p ↔
      ∀ n, p.calls.count n = if n ∈ A ++ B ∧ wanted (list.node n).payload then 1 else 0 := by
  refine ⟨VisitsEach.once, fun honce => ?_⟩
  obtain ⟨hcalls, hstate, L', F', hinv, hentries⟩ := h
  simp only [nil_append] at hcalls hstate hentries
  have hsplit := takeWhile_append_dropWhile (p := fun e => wanted e.2) (l := entries list B)
  generalize (entries list B).takeWhile (fun e => wanted e.2) = visited at *
  generalize (entries list B).dropWhile (fun e => wanted e.2) = left at *
  have hvisited : entries list p.calls = visited := by
    rw [hcalls]
    exact entries_fst (L := B) fun e he => hsplit ▸ mem_append_left left he
  have hB : p.calls ++ left.map Prod.fst = B := by
    rw [hcalls, ← map_append, hsplit]
    simp [entries, Function.comp_def]
  rw [← hB, ← append_assoc] at hnodup
  obtain ⟨hAcalls, -, hleft⟩ := nodup_append.1 hnodup
  obtain ⟨-, -, hdisjoint⟩ := nodup_append.1 hAcalls
  refine ⟨honce, by rw [hvisited, hstate], L', F', hinv, ?_⟩
  intro n request
  rw [hvisited, hentries, entries_append, ← hsplit]
  simp only [mem_append, mem_filter]
  constructor
  · rintro ((hnA | ⟨hnvisit, hkept⟩) | hnleft)
    · have hn := (mem_entries.1 hnA).1
      exact Or.inl ⟨Or.inl hnA, fun hcall => hdisjoint n hn n hcall rfl⟩
    · exact Or.inr ⟨hnvisit, by simpa using hkept⟩
    · have hn : n ∈ left.map Prod.fst := mem_map_of_mem (f := Prod.fst) hnleft
      exact Or.inl ⟨Or.inr (Or.inr hnleft), fun hcall => hleft n (mem_append_right A hcall) n hn rfl⟩
  · rintro (⟨hnA | hnvisited | hnleft, hcall⟩ | ⟨hnvisit, hkept⟩)
    · exact Or.inl (Or.inl hnA)
    · have hn : n ∈ visited.map Prod.fst := mem_map_of_mem (f := Prod.fst) hnvisited
      exact absurd (hcalls ▸ hn) hcall
    · exact Or.inr hnleft
    · exact Or.inl (Or.inr ⟨hnvisit, by simpa using hkept⟩)

theorem run_visitsEach_iff {β : Type} [LinearOrder β] {f : Request → β} {c : β}
    (hf : ∀ a b, cmp mpiRequestNull a b ≤ 0 → f a ≤ f b) (h : Inv (requests mpiRequestNull) list (A ++ B) F C)
    (hB : ∀ b ∈ B, c ≤ f (list.node b).payload) :
    (∃ p, foreachLoop mpiRequestNull callback (fun request => f request = c) (list.allocated + 1)
        B.head? ⟨list, s, []⟩ = some p ∧
      VisitsEach mpiRequestNull callback (fun request => f request = c) list (A ++ B) C s p) ↔
      ∀ a ∈ A, f (list.node a).payload ≠ c := by
  have hlength := h.levels.length_lt
  rw [length_append] at hlength
  obtain ⟨p, hrun, hran⟩ : ∃ p, foreachLoop mpiRequestNull callback (fun request => f request = c)
      (list.allocated + 1) B.head? ⟨list, s, []⟩ = some p ∧
        Ran callback (fun request => f request = c) A B C ⟨list, s, []⟩ p mpiRequestNull :=
    foreachLoop_spec h (show B.length ≤ list.allocated + 1 by omega)
  have hnodup : (A ++ B).Nodup := (nodup_cons.1 h.levels.nodup).2
  have hsorted : B.Pairwise fun x y => f (list.node x).payload ≤ f (list.node y).payload :=
    (pairwise_append.1 h.sorted.pairwise).2.1.imp fun {x y} hxy => hf _ _ hxy
  have hcalls : p.calls = B.filter fun n => f (list.node n).payload = c := by
    rw [hran.calls, ← takeWhile_eq_filter hsorted hB, entries, takeWhile_map]
    simp [Function.comp_def]
  have hall := rest_all_iff (fun n => decide (f (list.node n).payload = c)) hnodup
  rw [← hcalls] at hall
  simp only [decide_eq_true_eq] at hall
  constructor
  · rintro ⟨p', hrun', hvisits⟩
    obtain rfl : p = p' := Option.some.inj (hrun.symm.trans hrun')
    exact hall.1 (by simpa using (hran.visitsEach_iff hnodup).1 hvisits)
  · intro hA
    exact ⟨p, hrun, (hran.visitsEach_iff hnodup).2 (by simpa using hall.2 hA)⟩

theorem stop_visitsEach_iff {x : ℕ} (h : Inv (requests mpiRequestNull) list L F C)
    (hx : ¬wanted (list.node x).payload) :
    (∃ p, foreachLoop mpiRequestNull callback wanted (list.allocated + 1) (some x) ⟨list, s, []⟩ =
        some p ∧ VisitsEach mpiRequestNull callback wanted list L C s p) ↔
      ∀ n ∈ L, ¬wanted (list.node n).payload := by
  have hrun : foreachLoop mpiRequestNull callback wanted (list.allocated + 1) (some x) ⟨list, s, []⟩ =
      some ⟨list, s, []⟩ := by simp [foreachLoop, hx]
  rw [hrun]
  constructor
  · rintro ⟨p, hp, hvisits⟩ n hn hwanted
    obtain rfl := Option.some.inj hp
    have honce := hvisits.once n
    simp [hn, hwanted] at honce
  · intro hnone
    refine ⟨_, rfl, ?_, rfl, L, F, h, ?_⟩
    · intro n
      have hn : ¬(n ∈ L ∧ wanted (list.node n).payload = true) := fun hn => hnone n hn.1 hn.2
      simp [hn]
    · intro n request
      simp [entries, visits]

theorem foreachLoop_extends {fuel : ℕ} {start : Option ℕ} {p p' : Progress σ}
    (h : foreachLoop mpiRequestNull callback wanted fuel start p = some p') : p.calls <+: p'.calls := by
  induction fuel generalizing start p with
  | zero =>
    cases start with
    | none =>
      obtain rfl := Option.some.inj h
      exact prefix_rfl
    | some n => cases h
  | succ fuel ih =>
    cases start with
    | none =>
      obtain rfl := Option.some.inj h
      exact prefix_rfl
    | some n =>
      by_cases hwanted : wanted (p.list.node n).payload = true
      · simp only [foreachLoop, hwanted, if_true, Option.bind_eq_bind, Option.bind_eq_some_iff] at h
        obtain ⟨next, -, h⟩ := h
        have hcall := prefix_append p.calls [n]
        split at h
        · obtain ⟨list', -, h⟩ := Option.bind_eq_some_iff.1 h
          exact hcall.trans (ih h)
        · exact hcall.trans (ih h)
      · simp only [foreachLoop, hwanted] at h
        obtain rfl := Option.some.inj h
        exact prefix_rfl

theorem head_not_visitsEach (h : Inv (requests mpiRequestNull) list L F C)
    (hhead : wanted (list.node list.headnode).payload) :
    ¬∃ p, foreachLoop mpiRequestNull callback wanted (list.allocated + 1) (some list.headnode)
      ⟨list, s, []⟩ = some p ∧ VisitsEach mpiRequestNull callback wanted list L C s p := by
  rintro ⟨p, hrun, hvisits⟩
  have hnew : list.headnode ∉ L := (nodup_cons.1 h.levels.nodup).1
  have hcall : list.headnode ∈ p.calls := by
    simp only [foreachLoop, hhead, if_true, Option.bind_eq_bind, Option.bind_eq_some_iff] at hrun
    obtain ⟨next, -, hrun⟩ := hrun
    split at hrun
    · obtain ⟨list', -, hrun⟩ := Option.bind_eq_some_iff.1 hrun
      exact (foreachLoop_extends hrun).subset (by simp)
    · exact (foreachLoop_extends hrun).subset (by simp)
  have honce := hvisits.once list.headnode
  have hcount := count_pos_iff.2 hcall
  rw [if_neg fun hn => hnew hn.1] at honce
  omega

/-! ## Where a loop starts -/

/-- The loop on the requests that `f` maps to the same as `search` does what it is for. -/
def Meets {β : Type} [LinearOrder β] (mpiRequestNull : ℤ) (callback : Callback σ) (f : Request → β)
    (search : Request) (list : Handle Request ℕ) (L C : List ℕ) (s : σ) : Prop :=
  ∃ p, foreach mpiRequestNull callback search (fun request => f request = f search) list s = some p ∧
    VisitsEach mpiRequestNull callback (fun request => f request = f search) list L C s p

section Start

variable {β : Type} [LinearOrder β] {f : Request → β} {search : Request}

/-- The node at which `lower_bound` ends. -/
abbrev lowest (list : Handle Request ℕ) (A : List ℕ) : ℕ :=
  A.getLast?.getD list.headnode

theorem next_lowest (h : Inv (requests mpiRequestNull) list (A ++ B) F C) :
    list.next (lowest list A) 0 = some B.head? := by
  have hmax : 0 < list.maxHeight := by
    have := h.ceiling
    omega
  cases A using List.reverseRecOn with
  | nil => exact h.levels.first hmax
  | append_singleton A x =>
    have hlevels := h.levels
    rw [append_assoc] at hlevels
    simpa [lowest] using hlevels.following hmax

theorem foreach_here (hlower : list.lowerBound (requests mpiRequestNull) search = some (lowest list A))
    (hwindow : (list.node (lowest list A)).payload.window = search.window) :
    foreach mpiRequestNull callback search wanted list s =
      foreachLoop mpiRequestNull callback wanted (list.allocated + 1) (some (lowest list A)) ⟨list, s, []⟩ := by
  simp [foreach, hlower, hwindow]

theorem other_window (h : Inv (requests mpiRequestNull) list (A ++ B) F C)
    (hbound : Bound (requests mpiRequestNull) list A B search)
    (hwindow : (list.node (lowest list A)).payload.window ≠ search.window) :
    ∀ a ∈ A, (list.node a).payload.window ≠ search.window := by
  intro a ha hwanted
  cases A using List.reverseRecOn with
  | nil => cases ha
  | append_singleton A x =>
    have hlast : lowest list (A ++ [x]) = x := by simp [lowest]
    rw [hlast] at hwindow
    have hax : cmp mpiRequestNull (list.node a).payload (list.node x).payload ≤ 0 := by
      cases mem_append.1 ha with
      | inl haA =>
        have hpairwise := (pairwise_append.1 h.sorted.pairwise).1
        exact (pairwise_append.1 hpairwise).2.2 a haA x (by simp)
      | inr hax => rw [mem_singleton.1 hax, cmp_le_iff]
    have hxs := window_le (hbound.le x (by simp))
    have hax' := window_le hax
    rw [hwanted] at hax'
    exact hwindow (Nat.le_antisymm hxs hax')

variable (h : Inv (requests mpiRequestNull) list (A ++ B) F C)
  (hlower : list.lowerBound (requests mpiRequestNull) search = some (lowest list A))

include h hlower

theorem meets_behind (hf : ∀ a b, cmp mpiRequestNull a b ≤ 0 → f a ≤ f b)
    (hfw : ∀ request, f request = f search → request.window = search.window)
    (hbound : Bound (requests mpiRequestNull) list A B search)
    (hwindow : (list.node (lowest list A)).payload.window ≠ search.window) :
    Meets mpiRequestNull callback f search list (A ++ B) C s := by
  have hA : ∀ a ∈ A, f (list.node a).payload ≠ f search :=
    fun a ha hwanted => other_window h hbound hwindow a ha (hfw _ hwanted)
  have hB : ∀ b ∈ B, f search ≤ f (list.node b).payload := fun b hb => hf _ _ (hbound.ge b hb)
  have hnext := next_lowest h
  cases B with
  | nil =>
    have hrun : foreach mpiRequestNull callback search (fun request => f request = f search) list s =
        foreachLoop mpiRequestNull callback (fun request => f request = f search)
          (list.allocated + 1) (some (lowest list A)) ⟨list, s, []⟩ := by
      simp [foreach, hlower, hwindow, hnext]
    rw [Meets, hrun]
    refine (stop_visitsEach_iff h ?_).2 ?_
    · simpa using fun hwanted => hwindow (hfw _ hwanted)
    · simpa using hA
  | cons b B =>
    by_cases hb : (list.node b).payload.window = search.window
    · have hrun : foreach mpiRequestNull callback search (fun request => f request = f search) list s =
          foreachLoop mpiRequestNull callback (fun request => f request = f search)
            (list.allocated + 1) (b :: B).head? ⟨list, s, []⟩ := by
        simp [foreach, hlower, hwindow, hnext, hb]
      rw [Meets, hrun]
      exact (run_visitsEach_iff hf h hB).2 hA
    · have hrun : foreach mpiRequestNull callback search (fun request => f request = f search) list s =
          foreachLoop mpiRequestNull callback (fun request => f request = f search)
            (list.allocated + 1) (some (lowest list A)) ⟨list, s, []⟩ := by
        simp [foreach, hlower, hwindow, hnext, hb]
      rw [Meets, hrun]
      refine (stop_visitsEach_iff h ?_).2 ?_
      · simpa using fun hwanted => hwindow (hfw _ hwanted)
      · intro n hn hwanted
        rw [decide_eq_true_eq] at hwanted
        cases mem_append.1 hn with
        | inl hnA => exact hA n hnA hwanted
        | inr hnB =>
          have hbs := window_le (hbound.ge b mem_cons_self)
          have hbn : (list.node b).payload.window ≤ (list.node n).payload.window := by
            cases mem_cons.1 hnB with
            | inl hnb => rw [hnb]
            | inr hnB' =>
              have hpairwise := (pairwise_append.1 h.sorted.pairwise).2.1
              exact window_le ((pairwise_cons.1 hpairwise).1 n hnB')
          rw [hfw _ hwanted] at hbn
          exact hb (Nat.le_antisymm hbn hbs)

theorem meets_stop_iff (hwindow : (list.node (lowest list A)).payload.window = search.window)
    (hwanted : f (list.node (lowest list A)).payload ≠ f search) :
    Meets mpiRequestNull callback f search list (A ++ B) C s ↔
      ∀ n ∈ A ++ B, f (list.node n).payload ≠ f search := by
  rw [Meets, foreach_here hlower hwindow]
  exact (stop_visitsEach_iff h (by simpa using hwanted)).trans (by simp)

theorem meets_head (hA : A = []) (hfw : ∀ request, f request = f search → request.window = search.window)
    (hwanted : f (list.node list.headnode).payload = f search) :
    ¬Meets mpiRequestNull callback f search list (A ++ B) C s := by
  subst hA
  rw [Meets, foreach_here hlower (hfw _ hwanted)]
  exact head_not_visitsEach h (by simpa [lowest] using hwanted)

end Start

theorem meets_last_iff {β : Type} [LinearOrder β] {f : Request → β} {search : Request} {y : ℕ}
    (h : Inv (requests mpiRequestNull) list (A ++ y :: B) F C)
    (hlower : list.lowerBound (requests mpiRequestNull) search = some y)
    (hf : ∀ a b, cmp mpiRequestNull a b ≤ 0 → f a ≤ f b)
    (hfw : ∀ request, f request = f search → request.window = search.window)
    (hwanted : f (list.node y).payload = f search) :
    Meets mpiRequestNull callback f search list (A ++ y :: B) C s ↔
      ∀ a ∈ A, f (list.node a).payload ≠ f search := by
  have hstart : lowest list (A ++ [y]) = y := by simp [lowest]
  rw [Meets, foreach_here (A := A ++ [y]) (hstart.symm ▸ hlower) (hstart.symm ▸ hfw _ hwanted), hstart]
  refine run_visitsEach_iff hf h ?_
  intro b hb
  rw [← hwanted]
  cases mem_cons.1 hb with
  | inl hby => rw [hby]
  | inr hbB =>
    have hpairwise := (pairwise_append.1 h.sorted.pairwise).2.1
    exact hf _ _ ((pairwise_cons.1 hpairwise).1 b hbB)

end ScoreP.Mpi.Rma
