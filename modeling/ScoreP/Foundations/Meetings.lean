import Mathlib.Data.List.Nodup
import Mathlib.Data.Nat.Find

/-!
# Meetings in rounds

Every party has a queue of the meetings it takes part in. In a round a party leaves its first meeting if
that is the first one for all its members. `Ordered.meetings` shows that the queues empty, all in the same
round, when they are parts of one order.
-/

namespace Foundations.Meetings

open List

variable {P C : Type} (member : C → P → Prop) [∀ c p, Decidable (member c p)]

def Gathered (queue : P → List C) (c : C) : Prop :=
  ∀ p, member c p → (queue p).head? = some c

open Classical in
noncomputable def leave (queue : P → List C) (p : P) : List C :=
  match queue p with
  | [] => []
  | c :: rest => if Gathered member queue c then rest else c :: rest

/-- The queues hold what remains, in the order in which it remains. -/
structure Ordered (remaining : List C) (queue : P → List C) : Prop where
  nodup : remaining.Nodup
  queue_eq : ∀ p, queue p = remaining.filter fun c => decide (member c p)

open Classical in
noncomputable def remain (remaining : List C) (queue : P → List C) : List C :=
  remaining.filter fun c => decide (¬ Gathered member queue c)

variable {member} {remaining : List C} {queue : P → List C}

theorem Ordered.mem_queue (h : Ordered member remaining queue) {p : P} {c : C} :
    c ∈ queue p ↔ c ∈ remaining ∧ member c p := by
  rw [h.queue_eq, mem_filter, decide_eq_true_iff]

theorem mem_queue_of_head {p : P} {c : C} (h : (queue p).head? = some c) : c ∈ queue p :=
  mem_of_head? h

theorem Ordered.mem_of_gathered (h : Ordered member remaining queue) {c : C} (hmember : ∃ p, member c p)
    (hgathered : Gathered member queue c) : c ∈ remaining := by
  obtain ⟨p, hp⟩ := hmember
  have hhead := hgathered p hp
  exact (h.mem_queue.mp (mem_queue_of_head hhead)).1

theorem Ordered.nodup_queue (h : Ordered member remaining queue) (p : P) : (queue p).Nodup := by
  rw [h.queue_eq]
  exact h.nodup.filter _

theorem Ordered.gathered_head {c : C} {rest : List C} (h : Ordered member (c :: rest) queue) :
    Gathered member queue c := by
  intro p hp
  rw [h.queue_eq, filter_cons_of_pos (by simpa using hp)]
  rfl

theorem Ordered.not_gathered_tail (h : Ordered member remaining queue) {p : P} {c d : C} {rest : List C}
    (hqueue : queue p = c :: rest) (hd : d ∈ rest) : ¬ Gathered member queue d := by
  intro hgathered
  have hmem : d ∈ queue p := hqueue ▸ mem_cons_of_mem c hd
  have hhead := hgathered p (h.mem_queue.mp hmem).2
  rw [hqueue] at hhead
  cases hhead
  have hnodup := h.nodup_queue p
  rw [hqueue] at hnodup
  exact (nodup_cons.mp hnodup).1 hd

/-- The step lemma: a round keeps the queues parts of what remains. -/
theorem Ordered.leave (h : Ordered member remaining queue) :
    Ordered member (remain member remaining queue) (leave member queue) := by
  classical
  constructor
  · exact h.nodup.filter _
  · intro p
    have hfilter : (remain member remaining queue).filter (fun c => decide (member c p)) =
        (queue p).filter fun c => decide (¬ Gathered member queue c) := by
      rw [remain, h.queue_eq, filter_filter, filter_filter]
      apply filter_congr
      intro c _
      exact Bool.and_comm _ _
    rw [hfilter, Meetings.leave]
    cases hqueue : queue p with
    | nil => rfl
    | cons c rest =>
      have hrest : rest.filter (fun c => decide (¬ Gathered member queue c)) = rest := by
        apply filter_eq_self.mpr
        intro d hd
        exact decide_eq_true (h.not_gathered_tail hqueue hd)
      by_cases hgathered : Gathered member queue c
      · simp only [hgathered, if_true]
        rw [filter_cons_of_neg (by simpa using hgathered), hrest]
      · simp only [hgathered, if_false]
        rw [filter_cons_of_pos (by simpa using hgathered), hrest]

theorem Ordered.length_remain (h : Ordered member remaining queue) (hremaining : remaining ≠ []) :
    (remain member remaining queue).length < remaining.length := by
  classical
  cases remaining with
  | nil => exact absurd rfl hremaining
  | cons c rest =>
    have hhead := h.gathered_head
    rw [remain, filter_cons_of_neg (by simpa using hhead)]
    exact Nat.lt_succ_of_le (length_filter_le _ _)

variable (member) in
noncomputable def remainingAfter (order : List C) (queue : ℕ → P → List C) : ℕ → List C
  | 0 => order
  | round + 1 => remain member (remainingAfter order queue round) (queue round)

section Rounds

variable {order : List C} {queue : ℕ → P → List C} (h : Ordered member order (queue 0))
  (hround : ∀ round, queue (round + 1) = Meetings.leave member (queue round))

include h hround

theorem ordered_remainingAfter (round : ℕ) :
    Ordered member (remainingAfter member order queue round) (queue round) := by
  induction round with
  | zero => exact h
  | succ round ih =>
    rw [hround round]
    exact ih.leave

theorem length_remainingAfter (round : ℕ) :
    (remainingAfter member order queue round).length ≤ order.length - round := by
  induction round with
  | zero => exact le_rfl
  | succ round ih =>
    by_cases hnil : remainingAfter member order queue round = []
    · simp [remainingAfter, remain, hnil]
    · have hlt := (ordered_remainingAfter h hround round).length_remain hnil
      rw [remainingAfter]
      omega

omit [∀ c p, Decidable (member c p)] h hround in
theorem mem_remainingAfter_antitone {c : C} {earlier later : ℕ} (hle : earlier ≤ later)
    (hmem : c ∈ remainingAfter member order queue later) : c ∈ remainingAfter member order queue earlier := by
  induction later, hle using Nat.le_induction with
  | base => exact hmem
  | succ later _ ih => exact ih (mem_of_mem_filter hmem)

omit [∀ c p, Decidable (member c p)] h hround in
theorem mem_remainingAfter_succ {c : C} {round : ℕ} : c ∈ remainingAfter member order queue (round + 1) ↔
      c ∈ remainingAfter member order queue round ∧ ¬ Gathered member (queue round) c := by
  classical
  rw [remainingAfter, remain, mem_filter, decide_eq_true_iff]

/-- The run lemma: all queues are empty after the same number of rounds, and every meeting takes place in
exactly one of them. -/
theorem Ordered.meetings (hmember : ∀ c ∈ order, ∃ p, member c p) :
    ∃ last, (∀ p, queue last p = []) ∧ (∀ round < last, ∃ p, queue round p ≠ []) ∧
      ∃ roundOf : C → ℕ, ∀ c ∈ order, roundOf c < last ∧
        ∀ round, Gathered member (queue round) c ↔ round = roundOf c := by
  classical
  have hempty : ∃ round, remainingAfter member order queue round = [] := by
    refine ⟨order.length, length_eq_zero_iff.mp ?_⟩
    have hlength := length_remainingAfter h hround order.length
    omega
  have hlast := Nat.find_spec hempty
  have hfirst : ∀ round < Nat.find hempty, remainingAfter member order queue round ≠ [] :=
    fun round hlt => Nat.find_min hempty hlt
  have hqueue : ∀ round p c, c ∈ queue round p ↔ c ∈ remainingAfter member order queue round ∧ member c p :=
    fun round p c => (ordered_remainingAfter h hround round).mem_queue
  -- a meeting takes place in the last round in which it remains
  have hplace : ∀ c, ∃ round, c ∈ order → round < Nat.find hempty ∧
      ∀ other, Gathered member (queue other) c ↔ other = round := by
    intro c
    by_cases horder : c ∈ order
    · have hgone : ∃ round, c ∉ remainingAfter member order queue round :=
        ⟨Nat.find hempty, by rw [hlast]; exact not_mem_nil⟩
      have hnot := Nat.find_spec hgone
      obtain ⟨round, hsucc⟩ : ∃ round, Nat.find hgone = round + 1 := by
        apply Nat.exists_eq_succ_of_ne_zero
        intro hzero
        rw [hzero] at hnot
        exact hnot horder
      have hstill : c ∈ remainingAfter member order queue round :=
        not_not.mp (Nat.find_min hgone (by omega))
      rw [hsucc, mem_remainingAfter_succ] at hnot
      have htakes : Gathered member (queue round) c := by
        by_contra hnever
        exact hnot ⟨hstill, hnever⟩
      refine ⟨round, fun _ => ⟨?_, ?_⟩⟩
      · by_contra hle
        have hmem := mem_remainingAfter_antitone (Nat.le_of_not_lt hle) hstill
        rw [hlast] at hmem
        exact not_mem_nil hmem
      · intro other
        constructor
        · intro hother
          have hmem := (ordered_remainingAfter h hround other).mem_of_gathered (hmember c horder) hother
          rcases lt_trichotomy other round with hlt | heq | hgt
          · exact absurd hother (mem_remainingAfter_succ.mp (mem_remainingAfter_antitone hlt hstill)).2
          · exact heq
          · exact absurd htakes (mem_remainingAfter_succ.mp (mem_remainingAfter_antitone hgt hmem)).2
        · intro heq
          exact heq ▸ htakes
    · exact ⟨0, fun hmem => absurd hmem horder⟩
  refine ⟨Nat.find hempty, ?_, ?_, ?_⟩
  · intro p
    apply eq_nil_iff_forall_not_mem.mpr
    intro c hc
    have hmem := ((hqueue _ _ _).mp hc).1
    rw [hlast] at hmem
    exact not_mem_nil hmem
  · intro round hlt
    obtain ⟨c, hc⟩ := exists_mem_of_ne_nil _ (hfirst round hlt)
    have horder : c ∈ order := mem_remainingAfter_antitone (Nat.zero_le round) hc
    obtain ⟨p, hp⟩ := hmember c horder
    exact ⟨p, ne_nil_of_mem ((hqueue round p c).mpr ⟨hc, hp⟩)⟩
  · choose roundOf hroundOf using hplace
    exact ⟨roundOf, hroundOf⟩

end Rounds

end Foundations.Meetings
