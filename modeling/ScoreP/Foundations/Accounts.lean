import Mathlib.Algebra.BigOperators.Group.Finset.Basic

/-!
# Accounts that events are posted to

An event posts an amount to each account. When every step adds what its event posts, a run adds the sums
over its events (`account_foldl`), and what a set of accounts holds together is the sum of what the events
post to them (`sum_posted`).
-/

namespace Foundations.Accounts

open scoped BigOperators

variable {ε α σ M : Type} [AddCommMonoid M]

def posted (posting : ε → α → M) (events : List ε) (a : α) : M :=
  (events.map fun event => posting event a).sum

theorem account_foldl (step : σ → ε → σ) (account : σ → α → M) (posting : ε → α → M) {a : α}
    (h : ∀ s event, account (step s event) a = account s a + posting event a) (events : List ε) (s : σ) :
    account (events.foldl step s) a = account s a + posted posting events a := by
  induction events generalizing s with
  | nil => exact (add_zero _).symm
  | cons event events ih =>
    rw [List.foldl_cons, ih, h, posted, posted, List.map_cons, List.sum_cons, add_assoc]

theorem sum_posted (posting : ε → α → M) (events : List ε) (accounts : Finset α) :
    ∑ a ∈ accounts, posted posting events a =
      (events.map fun event => ∑ a ∈ accounts, posting event a).sum := by
  induction events with
  | nil => exact Finset.sum_const_zero
  | cons event events ih =>
    rw [List.map_cons, List.sum_cons, ← ih, ← Finset.sum_add_distrib]
    rfl

theorem posted_add (posting : ε → α → M) (events : List ε) (a b : α) :
    posted posting events a + posted posting events b =
      (events.map fun event => posting event a + posting event b).sum :=
  List.sum_map_add.symm

end Foundations.Accounts
