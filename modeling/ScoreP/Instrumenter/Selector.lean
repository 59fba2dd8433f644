import Mathlib.Data.List.Nodup

/-!
# The selection of paradigms

Source: `SCOREP_Instrumenter_Selector::select` in `src/tools/instrumenter/scorep_instrumenter_selector.cpp`. A call
that ends the program is answered with `none`.

Raising the priority clears the default selection only, so what was selected automatically stays when the
user selects (`Tidy`).
-/

namespace ScoreP.Instrumenter

open List

inductive SelectionMode
  | singleSelection
  | multiSelection
  deriving DecidableEq

inductive SelectionPriority
  | defaultSelection
  | autoSelection
  | userSelection
  deriving DecidableEq

def SelectionPriority.value : SelectionPriority → ℕ
  | defaultSelection => 0
  | autoSelection => 1
  | userSelection => 2

structure Selector (P : Type) where
  mode : SelectionMode
  currentSelection : List P
  currentPriority : SelectionPriority

variable {P : Type} [DecidableEq P]

/-- `selection` is selected by the user or automatically. -/
def select (isSupported : P → Bool) (s : Selector P) (selection : P) (isUserSelection : Bool) :
    Option (Selector P) :=
  if isSupported selection then
    let priority := if isUserSelection then SelectionPriority.userSelection else .autoSelection
    if s.currentPriority.value < priority.value then
      let kept := if s.currentPriority = .defaultSelection then [] else s.currentSelection
      some { s with currentSelection := kept ++ [selection], currentPriority := priority }
    else if selection ∈ s.currentSelection then some s
    else if s.currentPriority = priority then
      if priority = .userSelection ∧ s.mode = .singleSelection then none
      else if s.mode = .multiSelection ∨ s.currentSelection = [] then
        some { s with currentSelection := s.currentSelection ++ [selection] }
      else some s
    else some s
  else none

def run (isSupported : P → Bool) (s : Selector P) (calls : List (P × Bool)) : Option (Selector P) :=
  calls.foldlM (fun s call => select isSupported s call.1 call.2) s

def users (calls : List (P × Bool)) : List P :=
  (calls.filter fun call => call.2).map Prod.fst

def early (calls : List (P × Bool)) : List P :=
  (calls.takeWhile fun call => !call.2).map Prod.fst

def Meets (defaults : List P) (s : Selector P) (calls : List (P × Bool)) : Prop :=
  let wanted := if users calls = [] then calls.map Prod.fst else users calls
  if calls = [] then s.currentSelection = defaults
  else match s.mode with
    | .singleSelection => s.currentSelection = wanted.take 1
    | .multiSelection => s.currentSelection.Nodup ∧ ∀ p, p ∈ s.currentSelection ↔ p ∈ wanted

def Tidy (mode : SelectionMode) (calls : List (P × Bool)) : Prop :=
  ∀ first, (users calls).head? = some first → match mode with
    | .singleSelection => early calls = []
    | .multiSelection => first ∉ early calls ∧ ∀ p ∈ early calls, p ∈ users calls

/-! ## Equal and lower priorities -/

variable {isSupported : P → Bool} {s s' : Selector P} {calls : List (P × Bool)} {p first : P} {selected l : List P}

def pushAll (selected l : List P) : List P :=
  l.foldl (fun selected p => if p ∈ selected then selected else selected ++ [p]) selected

theorem mem_pushAll : p ∈ pushAll selected l ↔ p ∈ selected ∨ p ∈ l := by
  induction l generalizing selected with
  | nil => simp [pushAll]
  | cons q l ih =>
    rw [pushAll, foldl_cons, ← pushAll, ih, mem_cons]
    split
    · next hq =>
      constructor
      · exact fun h => h.imp_right .inr
      · rintro (h | rfl | h)
        · exact .inl h
        · exact .inl hq
        · exact .inr h
    · rw [mem_append, mem_singleton, or_assoc]

theorem nodup_pushAll : (pushAll selected l).Nodup ↔ selected.Nodup := by
  induction l generalizing selected with
  | nil => rfl
  | cons q l ih =>
    rw [pushAll, foldl_cons, ← pushAll, ih]
    split
    · rfl
    · next hq =>
      rw [nodup_append]
      exact and_iff_left ⟨nodup_singleton q, fun a ha b hb => by rw [eq_of_mem_singleton hb]; exact fun h => hq (h ▸ ha)⟩

theorem run_cons {call : P × Bool} (h : run isSupported s (call :: calls) = some s') :
    ∃ t, select isSupported s call.1 call.2 = some t ∧ run isSupported t calls = some s' := by
  rw [run, foldlM_cons] at h
  exact Option.bind_eq_some_iff.1 h

theorem select_first (hpriority : s.currentPriority = .defaultSelection) {isUser : Bool}
    (h : select isSupported s p isUser = some s') :
    s' = ⟨s.mode, [p], if isUser then .userSelection else .autoSelection⟩ := by
  unfold select at h
  cases isUser <;> simp_all [SelectionPriority.value]

theorem select_raised (hpriority : s.currentPriority = .autoSelection)
    (h : select isSupported s p true = some s') : s' = ⟨s.mode, s.currentSelection ++ [p], .userSelection⟩ := by
  unfold select at h
  simp_all [SelectionPriority.value]

theorem select_ignored (hpriority : s.currentPriority = .userSelection)
    (h : select isSupported s p false = some s') : s' = s := by
  unfold select at h
  simp_all [SelectionPriority.value]

theorem select_equal {isUser : Bool}
    (hpriority : s.currentPriority = if isUser then .userSelection else .autoSelection)
    (hne : s.currentSelection ≠ []) (h : select isSupported s p isUser = some s') :
    s' = { s with currentSelection :=
      if s.mode = .multiSelection then pushAll s.currentSelection [p] else s.currentSelection } := by
  obtain ⟨mode, selected, priority⟩ := s
  dsimp only at hpriority hne
  subst hpriority
  unfold select at h
  by_cases hp : p ∈ selected
  · cases isUser <;> cases mode <;> simp [SelectionPriority.value, hp] at h <;> simp [pushAll, hp, h.2]
  · cases isUser <;> cases mode <;> simp [SelectionPriority.value, hp, hne] at h <;> simp [pushAll, hp, h.2]

theorem pushAll_ne_nil (h : selected ≠ []) : pushAll selected l ≠ [] := by
  obtain ⟨p, rest, rfl⟩ := exists_cons_of_ne_nil h
  exact ne_nil_of_mem (mem_pushAll.2 (.inl mem_cons_self))

theorem run_user (hpriority : s.currentPriority = .userSelection) (hne : s.currentSelection ≠ [])
    (h : run isSupported s calls = some s') :
    s' = { s with currentSelection :=
      if s.mode = .multiSelection then pushAll s.currentSelection (users calls) else s.currentSelection } := by
  induction calls generalizing s with
  | nil =>
    cases h
    exact congrArg some (by simp [users, pushAll]) |> Option.some.inj
  | cons call calls ih =>
    obtain ⟨t, ht, hrun⟩ := run_cons h
    obtain ⟨p, isUser⟩ := call
    cases isUser with
    | false =>
      rw [select_ignored hpriority ht] at hrun
      exact ih hpriority hne hrun
    | true =>
      have heq := select_equal hpriority hne ht
      refine (ih (by rw [heq]; exact hpriority) ?_ hrun).trans ?_
      · rw [heq]
        dsimp only
        split
        · exact pushAll_ne_nil hne
        · exact hne
      · rw [heq]
        cases hmode : s.mode <;> simp [users, pushAll]

theorem run_auto (hpriority : s.currentPriority = .autoSelection) (hne : s.currentSelection ≠ [])
    (hauto : ∀ call ∈ calls, call.2 = false) (h : run isSupported s calls = some s') :
    s' = { s with currentSelection :=
      if s.mode = .multiSelection then pushAll s.currentSelection (calls.map Prod.fst) else s.currentSelection } := by
  induction calls generalizing s with
  | nil =>
    cases h
    exact congrArg some (by simp [pushAll]) |> Option.some.inj
  | cons call calls ih =>
    obtain ⟨t, ht, hrun⟩ := run_cons h
    obtain ⟨hcall, hrest⟩ := forall_mem_cons.1 hauto
    have heq := select_equal (by rw [hcall]; exact hpriority) hne ht
    refine (ih (by rw [heq]; exact hpriority) ?_ hrest hrun).trans ?_
    · rw [heq]
      dsimp only
      split
      · exact pushAll_ne_nil hne
      · exact hne
    · rw [heq]
      cases hmode : s.mode <;> simp [pushAll]

/-! ## Sequences of calls -/

theorem exists_parts (calls : List (P × Bool)) : ∃ pre post, calls = pre ++ post ∧
    (∀ call ∈ pre, call.2 = false) ∧ (post = [] ∨ ∃ first rest, post = (first, true) :: rest) := by
  induction calls with
  | nil => exact ⟨[], [], rfl, nofun, .inl rfl⟩
  | cons call calls ih =>
    obtain ⟨p, isUser⟩ := call
    cases isUser with
    | true => exact ⟨[], _, rfl, nofun, .inr ⟨p, calls, rfl⟩⟩
    | false =>
      obtain ⟨pre, post, rfl, hpre, hpost⟩ := ih
      exact ⟨(p, false) :: pre, post, rfl, forall_mem_cons.2 ⟨rfl, hpre⟩, hpost⟩

theorem users_append {pre post : List (P × Bool)} (hpre : ∀ call ∈ pre, call.2 = false) :
    users (pre ++ post) = users post := by
  rw [users, filter_append, filter_eq_nil_iff.2 fun call hcall => by simp [hpre call hcall]]
  rfl

theorem early_append {pre rest : List (P × Bool)} (hpre : ∀ call ∈ pre, call.2 = false) :
    early (pre ++ (first, true) :: rest) = pre.map Prod.fst := by
  rw [early, takeWhile_append_of_pos fun call hcall => by simp [hpre call hcall]]
  simp

theorem meets_iff_tidy (defaults : List P) (mode : SelectionMode)
    (h : run isSupported ⟨mode, defaults, .defaultSelection⟩ calls = some s) :
    Meets defaults s calls ↔ Tidy mode calls := by
  cases calls with
  | nil =>
    cases h
    exact iff_of_true rfl nofun
  | cons call calls =>
    obtain ⟨t, ht, hrun⟩ := run_cons h
    have hfirst := select_first rfl ht
    obtain ⟨p, isUser⟩ := call
    subst hfirst
    cases isUser with
    | true =>
      have hs := run_user rfl (cons_ne_nil _ _) hrun
      subst hs
      have husers : users ((p, true) :: calls) = p :: users calls := rfl
      have hearly : early ((p, true) :: calls) = [] := rfl
      cases mode with
      | singleSelection => exact iff_of_true (by simp [Meets, husers]) fun _ _ => hearly
      | multiSelection =>
        refine iff_of_true ?_ fun _ _ => by simp [hearly]
        simp [Meets, husers, nodup_pushAll, mem_pushAll]
    | false =>
      obtain ⟨pre, post, rfl, hpre, hpost⟩ := exists_parts calls
      have hpre' : ∀ call ∈ (p, false) :: pre, call.2 = false := forall_mem_cons.2 ⟨rfl, hpre⟩
      rw [run, foldlM_append] at hrun
      obtain ⟨t, ht, hrun⟩ := Option.bind_eq_some_iff.1 hrun
      have hauto := run_auto rfl (cons_ne_nil _ _) hpre ht
      subst hauto
      rw [← cons_append]
      rcases hpost with rfl | ⟨first, rest, rfl⟩
      · cases hrun
        have hnone : users ((p, false) :: pre ++ []) = [] := users_append hpre'
        refine iff_of_true ?_ fun q hq => by rw [hnone] at hq; cases hq
        unfold Meets
        rw [hnone]
        cases mode <;> simp [nodup_pushAll, mem_pushAll]
      · obtain ⟨t, ht, hrun⟩ := run_cons hrun
        have hraised := select_raised rfl ht
        subst hraised
        have hs := run_user rfl (by simp) hrun
        subst hs
        have husers : users ((p, false) :: pre ++ (first, true) :: rest) = first :: users rest := users_append hpre'
        have hearly : early ((p, false) :: pre ++ (first, true) :: rest) = ((p, false) :: pre).map Prod.fst :=
          early_append hpre'
        unfold Meets Tidy
        rw [husers, hearly]
        cases mode with
        | singleSelection => simp
        | multiSelection =>
          simp only [nodup_pushAll, mem_pushAll, nodup_append, map_cons, mem_cons, mem_append, if_pos]
          grind

theorem meets_iff_tidy_user : Meets [0] ⟨.multiSelection, [1, 2], .userSelection⟩ [(1, true), (2, true), (3, false)] ↔
    Tidy .multiSelection [(1, true), (2, true), (3, false)] :=
  @meets_iff_tidy ℕ _ (fun _ => true) _ _ [0] .multiSelection rfl

theorem not_meets_auto_user : run (fun _ => true) ⟨.singleSelection, [0], .defaultSelection⟩ [(1, false), (2, true)] =
    some ⟨.singleSelection, [1, 2], .userSelection⟩ ∧
      ¬Meets [0] ⟨.singleSelection, [1, 2], .userSelection⟩ [(1, false), (2, true)] :=
  ⟨rfl, by simp [Meets, users]⟩

end ScoreP.Instrumenter
