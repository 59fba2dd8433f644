import Mathlib.Algebra.BigOperators.Fin
import Mathlib.Tactic.Abel
import Mathlib.Tactic.Linarith
import Mathlib.Tactic.Ring

/-!
# Exchanges

What senders hand to receivers is a table of amounts; a sender counts its row and a receiver its column.
`Exchange.balanced` is the equality of the two totals. `Exchange.keepOwn` takes out what parties hand to
themselves, and `exchange_of_messages` reads the table off lists of messages.
-/

namespace Foundations

open Finset

section Tables

variable {σ ρ M : Type} [Fintype σ] [Fintype ρ] [AddCommMonoid M]

/-- The rows of the table are what is sent, its columns what is received. -/
structure Exchange (traffic : σ → ρ → M) (sent : σ → M) (received : ρ → M) : Prop where
  sent_eq : ∀ s, sent s = ∑ r, traffic s r
  received_eq : ∀ r, received r = ∑ s, traffic s r

variable {traffic : σ → ρ → M} {sent : σ → M} {received : ρ → M}

theorem Exchange.balanced (h : Exchange traffic sent received) : ∑ s, sent s = ∑ r, received r := by
  calc ∑ s, sent s = ∑ s, ∑ r, traffic s r := sum_congr rfl fun s _ => h.sent_eq s
    _ = ∑ r, ∑ s, traffic s r := sum_comm
    _ = ∑ r, received r := (sum_congr rfl fun r _ => h.received_eq r).symm

theorem Exchange.congr {sent' : σ → M} {received' : ρ → M} (h : Exchange traffic sent received)
    (hsent : ∀ s, sent' s = sent s) (hreceived : ∀ r, received' r = received r) :
    Exchange traffic sent' received' := by
  constructor
  · intro s
    rw [hsent s]
    exact h.sent_eq s
  · intro r
    rw [hreceived r]
    exact h.received_eq r

theorem exchange_rows (traffic : σ → ρ → M) :
    Exchange traffic (fun s => ∑ r, traffic s r) (fun r => ∑ s, traffic s r) :=
  ⟨fun _ => rfl, fun _ => rfl⟩

theorem exchange_toOne [DecidableEq ρ] (root : ρ) (amount : σ → M) :
    Exchange (fun s r => if r = root then amount s else 0) amount
      (fun r => if r = root then ∑ s, amount s else 0) := by
  constructor
  · intro s
    simp
  · intro r
    by_cases h : r = root
    · simp [h]
    · simp [h]

end Tables

theorem Exchange.keepOwn {σ M : Type} [Fintype σ] [DecidableEq σ] [AddCommGroup M]
    {traffic : σ → σ → M} {sent received : σ → M} (h : Exchange traffic sent received) (keeps : σ → Bool) :
    Exchange (fun s r => if s = r ∧ keeps s = true then 0 else traffic s r)
      (fun s => if keeps s then sent s - traffic s s else sent s)
      (fun r => if keeps r then received r - traffic r r else received r) := by
  have hentry : ∀ s r, (if s = r ∧ keeps s = true then 0 else traffic s r) =
      traffic s r - if s = r then (if keeps s then traffic s s else 0) else 0 := by
    intro s r
    by_cases hsr : s = r
    · subst hsr
      cases keeps s <;> simp
    · simp [hsr]
  constructor
  · intro s
    have hrow : ∑ r, (if s = r ∧ keeps s = true then 0 else traffic s r) =
        sent s - if keeps s then traffic s s else 0 := by
      rw [h.sent_eq s, sum_congr rfl fun r _ => hentry s r, sum_sub_distrib]
      simp
    rw [hrow]
    cases keeps s <;> simp
  · intro r
    have hcolumn : ∑ s, (if s = r ∧ keeps s = true then 0 else traffic s r) =
        received r - if keeps r then traffic r r else 0 := by
      rw [h.received_eq r, sum_congr rfl fun s _ => hentry s r, sum_sub_distrib]
      simp
    rw [hcolumn]
    cases keeps r <;> simp

/-! ## Messages -/

def amountsOf {κ M : Type} [DecidableEq κ] (messages : List (κ × M)) (party : κ) : List M :=
  (messages.filter fun message => message.1 = party).map Prod.snd

theorem sum_amountsOf {ρ κ M : Type} [Fintype ρ] [DecidableEq κ] [AddCommMonoid M] {key : ρ → κ}
    (hkey : Function.Injective key) (messages : List (κ × M))
    (hparties : ∀ message ∈ messages, ∃ r, key r = message.1) :
    ∑ r, (amountsOf messages (key r)).sum = (messages.map Prod.snd).sum := by
  induction messages with
  | nil => simp [amountsOf]
  | cons message messages ih =>
    obtain ⟨r₀, hr₀⟩ := hparties message (by simp)
    have hrest := ih fun m hm => hparties m (by simp [hm])
    classical
    have hcons : ∀ r, (amountsOf (message :: messages) (key r)).sum =
        (if r = r₀ then message.2 else 0) + (amountsOf messages (key r)).sum := by
      intro r
      by_cases hr : r = r₀
      · simp [amountsOf, hr, hr₀]
      · have hne : message.1 ≠ key r := by
          intro h
          exact hr (hkey (h.symm.trans hr₀.symm))
        rw [if_neg hr]
        simp [amountsOf, hne]
    rw [sum_congr rfl fun r _ => hcons r, sum_add_distrib, hrest]
    simp

theorem exchange_of_messages {σ ρ κ κ' M : Type} [Fintype σ] [Fintype ρ] [DecidableEq κ]
    [DecidableEq κ'] [AddCommMonoid M] {key : ρ → κ} {key' : σ → κ'}
    (hkey : Function.Injective key) (hkey' : Function.Injective key')
    (outbox : σ → List (κ × M)) (inbox : ρ → List (κ' × M))
    (hout : ∀ s, ∀ message ∈ outbox s, ∃ r, key r = message.1)
    (hin : ∀ r, ∀ message ∈ inbox r, ∃ s, key' s = message.1)
    (hmatch : ∀ s r, (amountsOf (outbox s) (key r)).Perm (amountsOf (inbox r) (key' s))) :
    Exchange (fun s r => (amountsOf (outbox s) (key r)).sum)
      (fun s => ((outbox s).map Prod.snd).sum) (fun r => ((inbox r).map Prod.snd).sum) := by
  constructor
  · intro s
    exact (sum_amountsOf hkey (outbox s) (hout s)).symm
  · intro r
    calc ((inbox r).map Prod.snd).sum = ∑ s, (amountsOf (inbox r) (key' s)).sum :=
          (sum_amountsOf hkey' (inbox r) (hin r)).symm
      _ = ∑ s, (amountsOf (outbox s) (key r)).sum :=
          sum_congr rfl fun s _ => ((hmatch s r).sum_eq).symm

end Foundations
