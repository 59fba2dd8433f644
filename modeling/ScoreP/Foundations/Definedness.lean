import Mathlib.Logic.Basic

/-!
# Where a partial computation is defined

A computation `Option α` that may be undefined is described by the condition under which it has a value and
by this value (`Computes x P v`). The description of a sequence of computations is put together from those of
its parts (`Computes.bind`), that of a loop from the one of a round (`Computes.foldlM`).
-/

namespace Foundations

universe u v

/-- `x` is defined exactly if `P`, and its value is `v` then. -/
def Computes {α : Type u} (x : Option α) (P : Prop) (v : α) : Prop :=
  ∀ w, x = some w ↔ P ∧ w = v

namespace Computes

variable {α : Type u} {β : Type u} {P Q : Prop} {x : Option α} {v v' : α}

theorem value (v : α) : Computes (some v) True v := by
  intro w
  simp [eq_comm]

theorem ite [Decidable P] (v : α) : Computes (if P then some v else none) P v := by
  intro w
  simp [eq_comm]

theorem bind {f : α → Option β} {w : β} (hx : Computes x P v) (hf : Computes (f v) Q w) :
    Computes (x.bind f) (P ∧ Q) w := by
  intro w'
  rw [Option.bind_eq_some_iff]
  constructor
  · rintro ⟨a, ha, hw⟩
    obtain ⟨hP, rfl⟩ := (hx a).1 ha
    exact ⟨⟨hP, ((hf w').1 hw).1⟩, ((hf w').1 hw).2⟩
  · rintro ⟨⟨hP, hQ⟩, hw⟩
    exact ⟨v, (hx v).2 ⟨hP, rfl⟩, (hf w').2 ⟨hQ, hw⟩⟩

theorem map (h : Computes x P v) (f : α → β) : Computes (x.bind fun a => some (f a)) P (f v) := by
  intro w
  rw [((h.bind (f := fun a => some (f a)) (value (f v))) w), and_iff_left trivial]

theorem map₂ {γ : Type u} {y : Option β} {w : β} (h : Computes x P v) (h' : Computes y Q w)
    (f : α → β → γ) : Computes (x.bind fun a => y.bind fun b => some (f a b)) (P ∧ Q) (f v w) :=
  h.bind (h'.map (f v))

theorem congr (h : Computes x P v) (hPQ : P ↔ Q) (hv : v = v') : Computes x Q v' := by
  subst hv
  intro w
  rw [h w, hPQ]

theorem agree_iff {y : Option α} (h : Computes x P v) (h' : Computes y Q v') :
    (∃ w, x = some w ∧ y = some w) ↔ (P ∧ Q) ∧ v = v' := by
  constructor
  · rintro ⟨w, hx, hy⟩
    have hP := (h w).1 hx
    have hQ := (h' w).1 hy
    exact ⟨⟨hP.1, hQ.1⟩, hP.2.symm.trans hQ.2⟩
  · rintro ⟨⟨hP, hQ⟩, rfl⟩
    exact ⟨v, (h v).2 ⟨hP, rfl⟩, (h' v).2 ⟨hQ, rfl⟩⟩

theorem foldlM {ι : Type v} {round : α → ι → Option α} {next : α → ι → α} {p : ι → Prop}
    (hround : ∀ total i, Computes (round total i) (p i) (next total i)) (l : List ι) (total : α) :
    Computes (l.foldlM round total) (∀ i ∈ l, p i) (l.foldl next total) := by
  induction l generalizing total with
  | nil => exact (value total).congr (by simp) rfl
  | cons i l ih =>
    rw [List.foldlM_cons, List.foldl_cons]
    exact ((hround total i).bind (ih (next total i))).congr (by simp) rfl

theorem foldl_bind {ι : Type v} {round : α → ι → Option α} {next : α → ι → α} {p : ι → Prop}
    (hround : ∀ total i, Computes (round total i) (p i) (next total i)) (l : List ι) (hx : Computes x P v) :
    Computes (l.foldl (fun x i => x.bind fun total => round total i) x) (P ∧ ∀ i ∈ l, p i)
      (l.foldl next v) := by
  induction l generalizing x P v with
  | nil => exact hx.congr (by simp) rfl
  | cons i l ih =>
    rw [List.foldl_cons, List.foldl_cons]
    exact (ih (hx.bind (hround v i))).congr (by simp [and_assoc]) rfl

end Computes

end Foundations
