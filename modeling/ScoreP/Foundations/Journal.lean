import Mathlib.Data.List.Chain

/-!
# Journals of timed, bracketed entries

A journal is a list with its newest entry first. Three things are said of one:

* `Ascends`: the times never decrease from an entry to the next newer one. `ascends_cons` says
  what a new entry has to fulfil, in terms of the newest time before it;
* `openRegions`: the regions that are open after the journal, or `none` where a region is left
  that is not the innermost open one;
* `Alternates`: the entries are on and off in turn, an on being the oldest.

`foldl_iff` is the rule for a property that every step of a run can only spoil: it holds in the
end if and only if it holds at the start and no step spoils it.
-/

namespace Foundations.Journal

universe u v

def newest : List ℕ → ℕ
  | [] => 0
  | time :: _ => time

def Ascends (times : List ℕ) : Prop :=
  times.IsChain (· ≥ ·)

@[simp] theorem newest_cons (time : ℕ) (times : List ℕ) : newest (time :: times) = time := rfl

@[simp] theorem ascends_nil : Ascends [] := .nil

theorem ascends_cons {time : ℕ} {times : List ℕ} :
    Ascends (time :: times) ↔ newest times ≤ time ∧ Ascends times := by
  cases times with
  | nil => simp [Ascends, newest]
  | cons last times => simp [Ascends, newest]

/-! ## Brackets -/

/-- What an entry does to the regions that are open. -/
inductive Bracket (ρ : Type u) where
  | enter (region : ρ)
  | leave (region : ρ)
  | plain

variable {ρ : Type u} [DecidableEq ρ]

/-- The regions open after a journal, the innermost first; `none` where the entries do not nest. -/
def openRegions : List (Bracket ρ) → Option (List ρ)
  | [] => some []
  | .enter region :: entries => (openRegions entries).map (region :: ·)
  | .leave region :: entries =>
    match openRegions entries with
    | some (innermost :: outer) => if innermost = region then some outer else none
    | _ => none
  | .plain :: entries => openRegions entries

@[simp] theorem openRegions_nil : openRegions ([] : List (Bracket ρ)) = some [] := rfl

@[simp] theorem openRegions_plain (entries : List (Bracket ρ)) :
    openRegions (.plain :: entries) = openRegions entries := rfl

theorem openRegions_enter {entries : List (Bracket ρ)} {outer : List ρ} (region : ρ)
    (h : openRegions entries = some outer) :
    openRegions (.enter region :: entries) = some (region :: outer) := by
  simp [openRegions, h]

theorem openRegions_leave {entries : List (Bracket ρ)} {outer : List ρ} {region : ρ}
    (h : openRegions entries = some (region :: outer)) :
    openRegions (.leave region :: entries) = some outer := by
  simp [openRegions, h]

theorem openRegions_replicate_plain (n : ℕ) (entries : List (Bracket ρ)) :
    openRegions (List.replicate n .plain ++ entries) = openRegions entries := by
  induction n with
  | zero => rfl
  | succ n ih => rw [List.replicate_succ, List.cons_append, openRegions_plain, ih]

theorem openRegions_append_plain (newer older : List (Bracket ρ)) :
    openRegions (newer ++ .plain :: older) = openRegions (newer ++ older) := by
  induction newer with
  | nil => rfl
  | cons entry newer ih => cases entry <;> simp [openRegions, ih]

theorem openRegions_of_append {newer older : List (Bracket ρ)}
    (h : openRegions (newer ++ older) ≠ none) : openRegions older ≠ none := by
  induction newer with
  | nil => exact h
  | cons entry newer ih =>
    apply ih
    intro hnone
    apply h
    cases entry <;> simp [openRegions, hnone]

def Alternates : List Bool → Prop
  | [] => True
  | [oldest] => oldest = true
  | next :: last :: entries => next ≠ last ∧ Alternates (last :: entries)

theorem alternates_on {entries : List Bool} (h : Alternates (false :: entries)) :
    Alternates (true :: false :: entries) :=
  ⟨Bool.noConfusion, h⟩

theorem alternates_off {entries : List Bool} (h : Alternates (true :: entries)) :
    Alternates (false :: true :: entries) :=
  ⟨Bool.noConfusion, h⟩

/-! ## What every step can only spoil -/

variable {σ : Type u} {α : Type v}

/-- Every step of a run fulfils `Ok` in the state it is taken in. -/
def EachStep (step : σ → α → σ) (Ok : σ → α → Prop) : σ → List α → Prop
  | _, [] => True
  | s, a :: as => Ok s a ∧ EachStep step Ok (step s a) as

@[simp] theorem eachStep_nil (step : σ → α → σ) (Ok : σ → α → Prop) (s : σ) : EachStep step Ok s [] := trivial

theorem eachStep_cons {step : σ → α → σ} {Ok : σ → α → Prop} {s : σ} {a : α} {as : List α} :
    EachStep step Ok s (a :: as) ↔ Ok s a ∧ EachStep step Ok (step s a) as := Iff.rfl

theorem foldl_inv {step : σ → α → σ} (Inv : σ → List α → Prop)
    (hkeep : ∀ s a as, Inv s (a :: as) → Inv (step s a) as) {s : σ} (as rest : List α)
    (hs : Inv s (as ++ rest)) : Inv (as.foldl step s) rest := by
  induction as generalizing s with
  | nil => exact hs
  | cons a as ih => exact ih (hkeep s a (as ++ rest) hs)

theorem foldl_iff {step : σ → α → σ} {Good : σ → Prop} {Ok : σ → α → Prop}
    (Inv : σ → List α → Prop) (hkeep : ∀ s a as, Inv s (a :: as) → Inv (step s a) as)
    (hstep : ∀ s a as, Inv s (a :: as) → (Good (step s a) ↔ Good s ∧ Ok s a)) {s : σ}
    (as rest : List α) (hs : Inv s (as ++ rest)) : Good (as.foldl step s) ↔ Good s ∧ EachStep step Ok s as := by
  induction as generalizing s with
  | nil => simp
  | cons a as ih =>
    have hnext := hkeep s a (as ++ rest) hs
    rw [List.foldl_cons, ih hnext, hstep s a (as ++ rest) hs, eachStep_cons, and_assoc]

end Foundations.Journal
