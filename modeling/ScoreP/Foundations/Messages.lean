import ScoreP.Foundations.Transition

/-!
# Parties that send each other messages

What a party does next may depend on what it received. A send either leaves the message in the channel to
the receiver or waits until the receiver takes it. `Agreed.not_mutualWait`: when all parties follow one list
of messages, no set of them waits for each other, in whatever order they go on.
-/

namespace Foundations.Messages

open Function List

variable {P M : Type}

inductive Process (P M : Type) where
  | done
  | send (target : P) (message : M) (next : Process P M)
  | recv (source : P) (next : M → Process P M)

structure State (P M : Type) where
  process : P → Process P M
  /-- What the first party sent to the second one, and that one did not take yet. -/
  channel : P → P → List M

def start (process : P → Process P M) : State P M :=
  { process := process, channel := fun _ _ => [] }

inductive Action (P : Type) where
  | send (sender : P)
  | recv (receiver : P)

/-- One party goes on. A send that waits for its receiver is a send with the receive right behind it. -/
def step [DecidableEq P] (s : State P M) : Action P → Option (State P M)
  | .send p =>
    match s.process p with
    | .send q message next =>
      some { process := update s.process p next
             channel := update s.channel p
               (update (s.channel p) q (s.channel p q ++ [message])) }
    | _ => none
  | .recv q =>
    match s.process q with
    | .recv p next =>
      match s.channel p q with
      | [] => none
      | message :: rest =>
        some { process := update s.process q (next message)
               channel := update s.channel p (update (s.channel p) q rest) }
    | _ => none

/-- The first party does not go on before the second one does: it receives from it, and nothing is there or
offered, or it sends to it, and that is not what the other one takes next. -/
inductive Waits (s : State P M) (p q : P) : Prop where
  | recv (next : M → Process P M) (hprocess : s.process p = .recv q next) (hchannel : s.channel q p = [])
      (hoffer : ∀ message rest, s.process q ≠ .send p message rest)
  | send (message : M) (next : Process P M) (hprocess : s.process p = .send q message next)
      (htake : ∀ rest, s.process q = .recv p rest → s.channel p q ≠ [])

/-- Some parties wait for each other. -/
def MutualWait (s : State P M) : Prop :=
  ∃ waiting : P → Prop, (∃ p, waiting p) ∧ ∀ p, waiting p → ∃ q, waiting q ∧ Waits s p q

/-! ## Lists of messages -/

inductive Event (P M : Type) where
  | send (target : P) (message : M)
  | recv (source : P) (message : M)

inductive Follows : Process P M → List (Event P M) → Prop where
  | done : Follows .done []
  | send {q : P} {message : M} {next : Process P M} {rest : List (Event P M)} (h : Follows next rest) :
      Follows (.send q message next) (.send q message :: rest)
  | recv {q : P} {message : M} {next : M → Process P M} {rest : List (Event P M)}
      (h : Follows (next message) rest) : Follows (.recv q next) (.recv q message :: rest)

structure Transfer (P M : Type) where
  sender : P
  receiver : P
  message : M

variable [DecidableEq P]

def view (p : P) (t : Transfer P M × Bool) : Option (Event P M) :=
  if t.1.sender = p then
    if t.2 then none else some (.send t.1.receiver t.1.message)
  else if t.1.receiver = p then some (.recv t.1.sender t.1.message)
  else none

def underWay (p q : P) (t : Transfer P M × Bool) : Option M :=
  if t.2 = true ∧ t.1.sender = p ∧ t.1.receiver = q then some t.1.message else none

/-- The parties follow one list of messages: those that remain to be received. -/
structure Agreed (remaining : List (Transfer P M × Bool)) (s : State P M) : Prop where
  follows : ∀ p, Follows (s.process p) (remaining.filterMap (view p))
  channel_eq : ∀ p q, s.channel p q = remaining.filterMap (underWay p q)
  /-- A party sends its messages in their order. -/
  in_order : remaining.Pairwise fun a b => b.2 = true → a.1.sender = b.1.sender → a.2 = true
  apart : ∀ t ∈ remaining, t.1.sender ≠ t.1.receiver

def event (p : P) (t : Transfer P M) : Option (Event P M) :=
  view p (t, false)

theorem agreed_start {transfers : List (Transfer P M)} {process : P → Process P M}
    (hfollows : ∀ p, Follows (process p) (transfers.filterMap (event p)))
    (hapart : ∀ t ∈ transfers, t.sender ≠ t.receiver) :
    Agreed (transfers.map fun t => (t, false)) (start process) := by
  constructor
  · intro p
    rw [filterMap_map]
    exact hfollows p
  · intro p q
    symm
    apply filterMap_eq_nil_iff.mpr
    intro t ht
    rcases mem_map.mp ht with ⟨t, -, rfl⟩
    simp [underWay]
  · apply pairwise_of_forall_mem_list
    intro a _ b hb hsent
    rcases mem_map.mp hb with ⟨b, -, rfl⟩
    cases hsent
  · intro t ht
    rcases mem_map.mp ht with ⟨t, hmem, rfl⟩
    exact hapart t hmem

/-! ## What a party does next -/

variable {message : M}

omit [DecidableEq P] in
theorem Follows.cases_send {q : P} {next : Process P M} {events : List (Event P M)}
    (h : Follows (.send q message next) events) :
    ∃ rest, events = .send q message :: rest ∧ Follows next rest := by
  cases h with
  | send h => exact ⟨_, rfl, h⟩

omit [DecidableEq P] in
theorem Follows.cases_recv {q : P} {next : M → Process P M} {events : List (Event P M)}
    (h : Follows (.recv q next) events) :
    ∃ message rest, events = .recv q message :: rest ∧ Follows (next message) rest := by
  cases h with
  | recv h => exact ⟨_, _, rfl, h⟩

variable {t : Transfer P M × Bool}

theorem view_eq_send {p q : P} (h : view p t = some (.send q message)) : t = (⟨p, q, message⟩, false) := by
  rcases t with ⟨⟨sender, receiver, content⟩, sent⟩
  simp only [view] at h
  split_ifs at h with hsender hsent
  · simp only [Option.some.injEq, Event.send.injEq] at h
    rcases h with ⟨rfl, rfl⟩
    simp only [Bool.not_eq_true] at hsent
    rw [hsender, hsent]
  · simp at h

theorem view_eq_recv {p q : P} (h : view q t = some (.recv p message)) : t.1 = ⟨p, q, message⟩ ∧ p ≠ q := by
  rcases t with ⟨⟨sender, receiver, content⟩, sent⟩
  simp only [view] at h
  split_ifs at h with hsender hsent hreceiver
  · simp at h
  · simp only [Option.some.injEq, Event.recv.injEq] at h
    rcases h with ⟨rfl, rfl⟩
    exact ⟨by rw [hreceiver], hsender⟩

theorem view_unsent {p q : P} (h : p ≠ q) :
    view q ((⟨p, q, message⟩, false) : Transfer P M × Bool) = some (.recv p message) := by
  simp [view, h]

theorem underWay_eq_none {p q : P} (happart : t.1.sender ≠ t.1.receiver) (h : view q t = none) :
    underWay p q t = none := by
  apply if_neg
  rintro ⟨-, -, rfl⟩
  simp [view, happart] at h

theorem underWay_eq_none_of_unsent {p q : P} {a b : Transfer P M × Bool} (hsender : a.1.sender = p)
    (hunsent : a.2 = false) (h : b.2 = true → a.1.sender = b.1.sender → a.2 = true) :
    underWay p q b = none := by
  apply if_neg
  rintro ⟨hsent, hb, -⟩
  rw [h hsent (hsender.trans hb.symm)] at hunsent
  cases hunsent

theorem filterMap_eq_nil_of_forall {α β : Type} {f : α → Option β} {l : List α}
    (h : ∀ x ∈ l, f x = none) : l.filterMap f = [] :=
  filterMap_eq_nil_iff.mpr h

section Steps

variable {remaining : List (Transfer P M × Bool)} {s s' : State P M}

/-- The step lemma for a send: its message is under way. -/
theorem Agreed.send (h : Agreed remaining s) {p : P} (hstep : step s (.send p) = some s') :
    ∃ remaining', Agreed remaining' s' := by
  rw [step] at hstep
  cases hprocess : s.process p with
  | done => simp [hprocess] at hstep
  | recv _ _ => simp [hprocess] at hstep
  | send q message next =>
    simp only [hprocess, Option.some.injEq] at hstep
    subst hstep
    have hfollows := h.follows p
    rw [hprocess] at hfollows
    rcases hfollows.cases_send with ⟨rest, hevents, hnext⟩
    rcases filterMap_eq_cons_iff.mp hevents with ⟨before, t, after, hremaining, hbefore, ht, hafter⟩
    have ht := view_eq_send ht
    subst ht hremaining
    have hapart : p ≠ q := h.apart (⟨p, q, message⟩, false) (by simp)
    have horder := pairwise_append.mp h.in_order
    have hbehind := (pairwise_cons.mp horder.2.1).1
    refine ⟨before ++ (⟨p, q, message⟩, true) :: after, ⟨?_, ?_, ?_, ?_⟩⟩
    · intro other
      by_cases hother : other = p
      · subst hother
        dsimp only
        rw [update_self, filterMap_append, filterMap_eq_nil_of_forall hbefore,
          filterMap_cons_none (by simp [view]), hafter]
        exact hnext
      · have hview : view other ((⟨p, q, message⟩, true) : Transfer P M × Bool) =
            view other (⟨p, q, message⟩, false) := by
          simp [view, Ne.symm hother]
        have hrest := h.follows other
        simp only [update_of_ne hother]
        rw [filterMap_append, filterMap_cons, hview] at *
        exact hrest
    · intro sender receiver
      have hold := h.channel_eq sender receiver
      rw [filterMap_append, filterMap_cons_none (by simp [underWay])] at hold
      by_cases hsame : sender = p ∧ receiver = q
      · rcases hsame with ⟨rfl, rfl⟩
        have hnone : after.filterMap (underWay sender receiver) = [] := by
          apply filterMap_eq_nil_of_forall
          intro b hb
          exact underWay_eq_none_of_unsent rfl rfl (hbehind b hb)
        rw [hnone, append_nil] at hold
        rw [filterMap_append, filterMap_cons_some (b := message) (by simp [underWay]), hnone, ← hold]
        simp
      · have hother : underWay sender receiver ((⟨p, q, message⟩, true) : Transfer P M × Bool) = none := by
          apply if_neg
          rintro ⟨-, rfl, rfl⟩
          exact hsame ⟨rfl, rfl⟩
        rw [filterMap_append, filterMap_cons_none hother, ← hold]
        by_cases hsender : sender = p
        · subst hsender
          have hreceiver : receiver ≠ q := fun hreceiver => hsame ⟨rfl, hreceiver⟩
          simp [hreceiver]
        · simp [hsender]
    · apply pairwise_append.mpr
      refine ⟨horder.1, ?_, ?_⟩
      · apply pairwise_cons.mpr
        exact ⟨fun b _ _ _ => rfl, (pairwise_cons.mp horder.2.1).2⟩
      · intro a ha b hb
        rcases mem_cons.mp hb with rfl | hb
        · intro _ hsender
          have hview := hbefore a ha
          by_contra hunsent
          simp only [Bool.not_eq_true] at hunsent
          simp [view, hsender, hunsent] at hview
        · exact horder.2.2 a ha b (mem_cons_of_mem _ hb)
    · intro t ht
      rcases mem_append.mp ht with hmem | hmem
      · exact h.apart t (mem_append_left _ hmem)
      · rcases mem_cons.mp hmem with rfl | hmem
        · exact hapart
        · exact h.apart t (mem_append_right _ (mem_cons_of_mem _ hmem))

/-- The step lemma for a receive: its message does not remain. -/
theorem Agreed.recv (h : Agreed remaining s) {q : P} (hstep : step s (.recv q) = some s') :
    ∃ remaining', Agreed remaining' s' := by
  rw [step] at hstep
  cases hprocess : s.process q with
  | done => simp [hprocess] at hstep
  | send _ _ _ => simp [hprocess] at hstep
  | recv p next =>
    simp only [hprocess] at hstep
    cases hchannel : s.channel p q with
    | nil => simp [hchannel] at hstep
    | cons message rest =>
      simp only [hchannel, Option.some.injEq] at hstep
      subst hstep
      have hfollows := h.follows q
      rw [hprocess] at hfollows
      rcases hfollows.cases_recv with ⟨expected, events, hevents, hnext⟩
      rcases filterMap_eq_cons_iff.mp hevents with
        ⟨before, t, after, hremaining, hbefore, ht, hafter⟩
      rcases t with ⟨t, sent⟩
      rcases view_eq_recv ht with ⟨rfl, hapart⟩
      subst hremaining
      have horder := pairwise_append.mp h.in_order
      have hbehind := (pairwise_cons.mp horder.2.1).1
      have hnone : before.filterMap (underWay p q) = [] := by
        apply filterMap_eq_nil_of_forall
        intro a ha
        exact underWay_eq_none (h.apart a (mem_append_left _ ha)) (hbefore a ha)
      have hold := h.channel_eq p q
      rw [hchannel, filterMap_append, hnone, nil_append] at hold
      -- what is there is the message that the receiver expects
      have hsent : sent = true := by
        by_contra hunsent
        simp only [Bool.not_eq_true] at hunsent
        subst hunsent
        rw [filterMap_cons_none (by simp [underWay]), filterMap_eq_nil_of_forall] at hold
        · cases hold
        · intro b hb
          exact underWay_eq_none_of_unsent rfl rfl (hbehind b hb)
      subst hsent
      rw [filterMap_cons_some (b := expected) (by simp [underWay])] at hold
      rcases List.cons.inj hold with ⟨rfl, hrest⟩
      have hsublist : (before ++ after).Sublist (before ++ (⟨p, q, message⟩, true) :: after) :=
        List.Sublist.append_left (sublist_cons_self _ _) _
      refine ⟨before ++ after, ⟨?_, ?_, h.in_order.sublist hsublist,
        fun t ht => h.apart t (hsublist.subset ht)⟩⟩
      · intro other
        rw [filterMap_append]
        by_cases hother : other = q
        · subst hother
          dsimp only
          rw [update_self, filterMap_eq_nil_of_forall hbefore, hafter]
          exact hnext
        · have hview : view other ((⟨p, q, message⟩, true) : Transfer P M × Bool) = none := by
            simp [view, Ne.symm hother]
          have hother' := h.follows other
          rw [filterMap_append, filterMap_cons_none hview] at hother'
          simp only [update_of_ne hother]
          exact hother'
      · intro sender receiver
        have hchannel' := h.channel_eq sender receiver
        rw [filterMap_append] at hchannel' ⊢
        by_cases hsame : sender = p ∧ receiver = q
        · rcases hsame with ⟨rfl, rfl⟩
          rw [hnone, nil_append]
          simpa using hrest
        · have hother : underWay sender receiver ((⟨p, q, message⟩, true) : Transfer P M × Bool) = none := by
            apply if_neg
            rintro ⟨-, rfl, rfl⟩
            exact hsame ⟨rfl, rfl⟩
          rw [filterMap_cons_none hother] at hchannel'
          rw [← hchannel']
          by_cases hsender : sender = p
          · subst hsender
            have hreceiver : receiver ≠ q := fun hreceiver => hsame ⟨rfl, hreceiver⟩
            simp [hreceiver]
          · simp [hsender]

theorem Agreed.run {actions : List (Action P)}
    (hrun : Steps (fun s a t => step s a = some t) s actions s') (h : Agreed remaining s) :
    ∃ remaining', Agreed remaining' s' := by
  apply hrun.invariant (P := fun s => ∃ remaining, Agreed remaining s) _ ⟨remaining, h⟩
  rintro s action t ⟨remaining, h⟩ hstep
  cases action with
  | send p => exact h.send hstep
  | recv q => exact h.recv hstep

end Steps

section Waiting

variable {remaining : List (Transfer P M × Bool)} {s : State P M}

theorem exists_first_of_mem {p : P} {before : List (Transfer P M × Bool)} (h : ∃ t ∈ before, view p t ≠ none) :
    ∃ first t rest e, before = first ++ t :: rest ∧ (∀ a ∈ first, view p a = none) ∧ view p t = some e := by
  cases hevents : before.filterMap (view p) with
  | nil =>
    rcases h with ⟨t, ht, hview⟩
    exact absurd (filterMap_eq_nil_iff.mp hevents t ht) hview
  | cons e events =>
    rcases filterMap_eq_cons_iff.mp hevents with ⟨first, t, rest, hbefore, hfirst, ht, -⟩
    exact ⟨first, t, rest, e, hbefore, hfirst, ht⟩

/-- The party that comes first in the list does not wait, by induction on its place. -/
theorem Agreed.not_first (h : Agreed remaining s) {waiting : P → Prop}
    (hwaits : ∀ p, waiting p → ∃ q, waiting q ∧ Waits s p q) (place : ℕ) :
    ∀ p before t after, waiting p → before.length = place → remaining = before ++ t :: after →
      (∀ a ∈ before, view p a = none) → view p t ≠ none → False := by
  induction place using Nat.strongRecOn with
  | _ place ih =>
    intro p before t after hp hplace hremaining hbefore hview
    rcases hwaits p hp with ⟨q, hq, hwait⟩
    have hscript := h.follows p
    rcases Option.ne_none_iff_exists'.mp hview with ⟨event, hevent⟩
    rw [hremaining, filterMap_append, filterMap_eq_nil_of_forall hbefore, nil_append,
      filterMap_cons_some hevent] at hscript
    -- the partner has nothing to do before the message
    have hpartner : ∀ a ∈ before, view q a = none := by
      by_contra hsome
      push Not at hsome
      rcases exists_first_of_mem hsome with ⟨first, t', rest, e, hsplit, hfirst, ht'⟩
      apply ih first.length _ q first t' (rest ++ t :: after) hq rfl _ hfirst
      · simp [ht']
      · rw [← hplace, hsplit]
        simp
      · rw [hremaining, hsplit]
        simp
    have hpartnerScript := h.follows q
    rw [hremaining, filterMap_append, filterMap_eq_nil_of_forall hpartner, nil_append]
      at hpartnerScript
    have hnothing : ∀ sender, before.filterMap (underWay sender q) = [] := by
      intro sender
      apply filterMap_eq_nil_of_forall
      intro a ha
      exact underWay_eq_none (h.apart a (hremaining ▸ mem_append_left _ ha)) (hpartner a ha)
    cases hwait with
    | send message next hprocess htake =>
      rw [hprocess] at hscript
      rcases hscript.cases_send with ⟨rest, hevents, -⟩
      rw [(List.cons.inj hevents).1] at hevent
      have ht := view_eq_send hevent
      subst ht
      have hapart : p ≠ q := h.apart (⟨p, q, message⟩, false) (by simp [hremaining])
      rw [filterMap_cons_some (view_unsent hapart)] at hpartnerScript
      cases hpartnerProcess : s.process q with
      | done =>
        rw [hpartnerProcess] at hpartnerScript
        cases hpartnerScript
      | send _ _ _ =>
        rw [hpartnerProcess] at hpartnerScript
        cases hpartnerScript
      | recv source take =>
        rw [hpartnerProcess] at hpartnerScript
        cases hpartnerScript with
        | recv _ =>
          apply htake take hpartnerProcess
          have horder := pairwise_append.mp (hremaining ▸ h.in_order)
          rw [h.channel_eq, hremaining, filterMap_append, hnothing, nil_append,
            filterMap_cons_none (by simp [underWay])]
          apply filterMap_eq_nil_of_forall
          intro b hb
          exact underWay_eq_none_of_unsent rfl rfl ((pairwise_cons.mp horder.2.1).1 b hb)
    | recv next hprocess hchannel hoffer =>
      rw [hprocess] at hscript
      rcases hscript.cases_recv with ⟨message, rest, hevents, -⟩
      rw [(List.cons.inj hevents).1] at hevent
      rcases t with ⟨t, sent⟩
      rcases view_eq_recv hevent with ⟨rfl, hapart⟩
      cases sent with
      | true =>
        rw [h.channel_eq] at hchannel
        have hnone := filterMap_eq_nil_iff.mp hchannel (⟨q, p, message⟩, true) (by simp [hremaining])
        simp [underWay] at hnone
      | false =>
        have hsend : view q ((⟨q, p, message⟩, false) : Transfer P M × Bool) = some (.send p message) := by
          simp [view]
        rw [filterMap_cons_some hsend] at hpartnerScript
        cases hpartnerProcess : s.process q with
        | done =>
          rw [hpartnerProcess] at hpartnerScript
          cases hpartnerScript
        | recv _ _ =>
          rw [hpartnerProcess] at hpartnerScript
          cases hpartnerScript
        | send target content rest =>
          rw [hpartnerProcess] at hpartnerScript
          cases hpartnerScript with
          | send _ => exact hoffer _ rest hpartnerProcess

theorem Agreed.not_mutualWait (h : Agreed remaining s) : ¬ MutualWait s := by
  rintro ⟨waiting, ⟨p, hp⟩, hwaits⟩
  have hbusy : ∃ t ∈ remaining, view p t ≠ none := by
    by_contra hnone
    push Not at hnone
    have hfollows := h.follows p
    rw [filterMap_eq_nil_of_forall hnone] at hfollows
    rcases hwaits p hp with ⟨q, -, hwait⟩
    cases hwait with
    | recv next hprocess _ _ =>
      rw [hprocess] at hfollows
      cases hfollows
    | send message next hprocess _ =>
      rw [hprocess] at hfollows
      cases hfollows
  rcases exists_first_of_mem hbusy with ⟨before, t, after, e, hremaining, hbefore, ht⟩
  apply h.not_first hwaits before.length p before t after hp rfl hremaining hbefore
  simp [ht]

end Waiting

end Foundations.Messages
