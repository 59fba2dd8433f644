import Mathlib.Data.List.Basic

/-!
# Runs of labelled transition relations

A labelled step relation `step : σ → α → σ → Prop` says how one action leads from a state to a
state. `Steps step s as t` is the run that performs the actions `as` in order. The rule every
development about such a relation needs is `Steps.invariant`: what holds at the start and is preserved by
each step holds at the end.

`Steps.invariant_of_guard` is the invariant rule for runs whose steps all satisfy a guard.
-/

namespace Foundations

universe u v w

variable {σ : Type u} {α : Type v}

/-- `Steps step s as t`: performing the actions `as` one after another leads from `s` to `t`. -/
inductive Steps (step : σ → α → σ → Prop) : σ → List α → σ → Prop
  | nil (s : σ) : Steps step s [] s
  | cons {s t u : σ} {a : α} {as : List α} (h : step s a t) (hs : Steps step t as u) :
      Steps step s (a :: as) u

namespace Steps

variable {step : σ → α → σ → Prop} {s t u : σ} {a : α} {as bs : List α}

@[simp] theorem nil_iff : Steps step s [] t ↔ s = t := by
  constructor
  · intro h
    cases h
    rfl
  · rintro rfl
    exact .nil s

theorem cons_iff : Steps step s (a :: as) u ↔ ∃ t, step s a t ∧ Steps step t as u := by
  constructor
  · intro h
    cases h with
    | cons h hs => exact ⟨_, h, hs⟩
  · rintro ⟨t, h, hs⟩
    exact .cons h hs

theorem single (h : step s a t) : Steps step s [a] t :=
  .cons h (.nil t)

theorem mono {step' : σ → α → σ → Prop} (hstep : ∀ s a t, step s a t → step' s a t)
    (hrun : Steps step s as t) : Steps step' s as t := by
  induction hrun with
  | nil s => exact .nil s
  | cons h _ ih => exact .cons (hstep _ _ _ h) ih

theorem append (h₁ : Steps step s as t) (h₂ : Steps step t bs u) : Steps step s (as ++ bs) u := by
  induction h₁ with
  | nil s => exact h₂
  | cons h _ ih => exact .cons h (ih h₂)

theorem append_iff : Steps step s (as ++ bs) u ↔ ∃ t, Steps step s as t ∧ Steps step t bs u := by
  constructor
  · intro h
    induction as generalizing s with
    | nil => exact ⟨s, .nil s, h⟩
    | cons a as ih =>
      obtain ⟨s', hstep, hrest⟩ := cons_iff.mp h
      obtain ⟨t, h₁, h₂⟩ := ih hrest
      exact ⟨t, .cons hstep h₁, h₂⟩
  · rintro ⟨t, h₁, h₂⟩
    exact h₁.append h₂

theorem invariant {P : σ → Prop} (hstep : ∀ s a t, P s → step s a t → P t)
    (hrun : Steps step s as t) (hs : P s) : P t := by
  induction hrun with
  | nil s => exact hs
  | cons h _ ih => exact ih (hstep _ _ _ hs h)

theorem invariant_of_guard {P : σ → Prop} {guard : σ → α → Prop}
    (hstep : ∀ s a t, P s → guard s a → step s a t → P t)
    (hrun : Steps (fun s a t => guard s a ∧ step s a t) s as t) (hs : P s) : P t :=
  invariant (fun s a t hP h => hstep s a t hP h.1 h.2) hrun hs

/-- The run that a step function computes. -/
theorem of_foldlM {step : σ → α → Option σ} {s t : σ} {as : List α} (h : as.foldlM step s = some t) :
    Steps (fun s a t => step s a = some t) s as t := by
  induction as generalizing s with
  | nil =>
    cases h
    exact .nil _
  | cons a as ih =>
    rw [List.foldlM_cons] at h
    obtain ⟨s', hstep, hrest⟩ := Option.bind_eq_some_iff.mp h
    exact .cons hstep (ih hrest)

theorem exists_of_foldlM {β : Type w} {step : σ → α → Option σ} {f : σ → β} {s : σ} {b : β}
    {as : List α} (h : (as.foldlM step s).map f = some b) :
    ∃ t, Steps (fun s a t => step s a = some t) s as t ∧ f t = b := by
  obtain ⟨t, hrun, hf⟩ := Option.map_eq_some_iff.mp h
  exact ⟨t, of_foldlM hrun, hf⟩

end Steps

/-- `s` is reached by some run that starts in a state satisfying `init`. -/
def Reachable (init : σ → Prop) (step : σ → α → σ → Prop) (s : σ) : Prop :=
  ∃ s₀ as, init s₀ ∧ Steps step s₀ as s

theorem Reachable.invariant {init : σ → Prop} {step : σ → α → σ → Prop} {P : σ → Prop}
    (hinit : ∀ s, init s → P s) (hstep : ∀ s a t, P s → step s a t → P t) {s : σ}
    (h : Reachable init step s) : P s := by
  obtain ⟨s₀, as, h₀, hrun⟩ := h
  exact hrun.invariant hstep (hinit s₀ h₀)

end Foundations
