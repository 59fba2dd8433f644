import Mathlib.Order.WellFounded
import ScoreP.Foundations.Transition

/-!
# Runs to an end

`Completes step final s`: some run leads from `s` to a final state. Where all reachable states complete, a
system has no dead end: whatever it has done so far, it can still be brought to its end.

`completes_of_progress` is the rule for it: from every state that is not final a run leads on, and a measure
falls from its start to its end, though not necessarily in each of its steps.
-/

namespace Foundations

universe u v w

variable {σ : Type u} {α : Type v} {step : σ → α → σ → Prop} {final : σ → Prop} {s t : σ} {as : List α}

def Completes (step : σ → α → σ → Prop) (final : σ → Prop) (s : σ) : Prop :=
  ∃ as t, Steps step s as t ∧ final t

theorem Completes.of_steps (h : Steps step s as t) (ht : Completes step final t) : Completes step final s := by
  obtain ⟨bs, u, hrest, hu⟩ := ht
  exact ⟨as ++ bs, u, h.append hrest, hu⟩

theorem completes_of_progress {β : Type w} [LT β] [WellFoundedLT β] (measure : σ → β) {P : σ → Prop}
    (hprogress : ∀ s, P s → ¬ final s → ∃ as t, Steps step s as t ∧ P t ∧ measure t < measure s)
    (hs : P s) : Completes step final s := by
  induction hm : measure s using WellFoundedLT.induction generalizing s with
  | ind m ih =>
    by_cases hfinal : final s
    · exact ⟨[], s, .nil s, hfinal⟩
    · obtain ⟨as, t, hrun, ht, hless⟩ := hprogress s hs hfinal
      exact .of_steps hrun (ih (measure t) (hm ▸ hless) ht rfl)

end Foundations
