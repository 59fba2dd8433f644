import Mathlib.Data.Int.Notation

/-!
# Code that raises and lowers a counter

Code with tests, early returns and one counter, the rest of its work arbitrary. `Shifts` says
by how much the code moves the counter from a state on; `shifts_of_gain` reads it off code
whose paths all move it alike.
-/

namespace Foundations

/-- A step of work answers `none` where it ends the program. -/
inductive Code (S : Type)
  | leave
  | raise (next : Code S)
  | lower (next : Code S)
  | work (step : S → Option S) (next : Code S)
  | test (condition : S → Bool) (yes no : Code S)

namespace Code

variable {S : Type} {s : S} {d : ℤ} {next yes no : Code S} {step : S → Option S} {condition : S → Bool}

def run : Code S → S → ℤ → Option (S × ℤ)
  | leave, s, n => some (s, n)
  | raise next, s, n => next.run s (n + 1)
  | lower next, s, n => next.run s (n - 1)
  | work step next, s, n => (step s).bind fun t => next.run t n
  | test condition yes no, s, n => if condition s then yes.run s n else no.run s n

def Shifts (code : Code S) (s : S) (d : ℤ) : Prop :=
  ∀ n t m, code.run s n = some (t, m) → m = n + d

theorem shifts_leave : (leave : Code S).Shifts s 0 := by
  intro n t m h
  cases h
  exact (Int.add_zero n).symm

theorem Shifts.raise (h : next.Shifts s (d - 1)) : (raise next).Shifts s d := by
  intro n t m hrun
  have := h (n + 1) t m hrun
  omega

theorem Shifts.lower (h : next.Shifts s (d + 1)) : (lower next).Shifts s d := by
  intro n t m hrun
  have := h (n - 1) t m hrun
  omega

theorem Shifts.work (h : ∀ t, step s = some t → next.Shifts t d) : (work step next).Shifts s d := by
  intro n u m hrun
  obtain ⟨t, ht, hrun⟩ := Option.bind_eq_some_iff.1 hrun
  exact h t ht n u m hrun

theorem Shifts.test (hyes : condition s → yes.Shifts s d) (hno : ¬condition s → no.Shifts s d) :
    (test condition yes no).Shifts s d := by
  intro n t m hrun
  rw [run] at hrun
  split at hrun
  next h => exact hyes h n t m hrun
  next h => exact hno h n t m hrun

def gain : Code S → Option ℤ
  | leave => some 0
  | raise next => next.gain.map (· + 1)
  | lower next => next.gain.map (· - 1)
  | work _ next => next.gain
  | test _ yes no => if yes.gain = no.gain then yes.gain else none

theorem shifts_of_gain {code : Code S} (h : code.gain = some d) : code.Shifts s d := by
  induction code generalizing s d with
  | leave =>
    cases h
    exact shifts_leave
  | raise next ih =>
    obtain ⟨e, he, rfl⟩ := Option.map_eq_some_iff.1 h
    exact .raise (by rw [Int.add_sub_cancel]; exact ih he)
  | lower next ih =>
    obtain ⟨e, he, rfl⟩ := Option.map_eq_some_iff.1 h
    exact .lower (by rw [Int.sub_add_cancel]; exact ih he)
  | work step next ih => exact .work fun t _ => ih h
  | test condition yes no ihyes ihno =>
    rw [gain] at h
    split at h
    next heq => exact .test (fun _ => ihyes h) fun _ => ihno (heq ▸ h)
    next => cases h

end Code

end Foundations
