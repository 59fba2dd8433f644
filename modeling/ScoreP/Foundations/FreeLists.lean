import ScoreP.Foundations.Chain
import ScoreP.Foundations.Holdings

/-!
# Free lists

Objects that are numbered in the order of their creation are in use or wait in one of several singly linked
lists for their next use. `FreeLists` says that each of them is in one place and that the lists are what the
links and the head pointers make of them.

The first object of a list is taken (`FreeLists.take`), a chain of objects in use is put in front of a list
(`FreeLists.give`), a whole list is put in front of another one (`FreeLists.pass`) or becomes an empty one
(`FreeLists.fill`), and the links of the objects in use do not matter (`FreeLists.write`).
-/

namespace Foundations

open Function List

universe u

variable {ι : Type u}

structure FreeLists (link : ℕ → Option ℕ) (head : ι → Option ℕ) (used : List ℕ) (created : ℕ)
    (lists : ι → List ℕ) : Prop where
  chain : ∀ i, Chain link (head i) (lists i)
  apart : Apart lists
  nodup : used.Nodup
  unheld : ∀ a ∈ used, Unheld lists a
  kept : ∀ a, (a ∈ used ∨ ∃ i, a ∈ lists i) ↔ a < created

variable {link link' : ℕ → Option ℕ} {head : ι → Option ℕ} {used as : List ℕ} {created a b : ℕ}
  {lists : ι → List ℕ} {i j : ι} {p : Option ℕ}

theorem freeLists_nil : FreeLists link (fun _ : ι => none) [] 0 fun _ => [] := by
  constructor
  · exact fun _ => rfl
  · exact apart_nil
  · exact nodup_nil
  · exact fun _ h => absurd h not_mem_nil
  · intro a
    constructor
    · intro h
      rcases h with h | ⟨_, h⟩
      · exact absurd h not_mem_nil
      · exact absurd h not_mem_nil
    · exact fun h => absurd h (Nat.not_lt_zero a)

namespace FreeLists

theorem write (h : FreeLists link head used created lists) (hlink : ∀ a, a ∉ used → link' a = link a) :
    FreeLists link' head used created lists :=
  { h with chain := fun i => (h.chain i).congr fun a ha => hlink a fun hused => h.unheld a hused i ha }

theorem create (h : FreeLists link head used created lists) (hlink : ∀ a, a ≠ created → link' a = link a) :
    FreeLists link' head (created :: used) (created + 1) lists := by
  have hnew : Unheld lists created := fun i hmem =>
    absurd ((h.kept created).1 (Or.inr ⟨i, hmem⟩)) (Nat.lt_irrefl _)
  have hunused : created ∉ used := fun hmem => absurd ((h.kept created).1 (Or.inl hmem)) (Nat.lt_irrefl _)
  constructor
  · intro i
    refine (h.chain i).congr fun a ha => hlink a fun heq => hnew i ?_
    rw [← heq]
    exact ha
  · exact h.apart
  · exact nodup_cons.2 ⟨hunused, h.nodup⟩
  · intro a ha
    rcases mem_cons.1 ha with rfl | ha
    · exact hnew
    · exact h.unheld a ha
  · intro a
    rw [mem_cons, or_assoc, h.kept, Nat.lt_succ_iff_lt_or_eq, or_comm]

variable [DecidableEq ι]

theorem take (h : FreeLists link head used created lists) (hi : head i = some a) : ∃ as, lists i = a :: as ∧
      FreeLists link (update head i (link a)) (a :: used) created (update lists i as) := by
  have hchain := h.chain i
  rw [hi] at hchain
  cases hlist : lists i with
  | nil =>
    rw [hlist] at hchain
    exact absurd hchain (Option.some_ne_none a)
  | cons b as =>
    rw [hlist] at hchain
    obtain ⟨heq, hrest⟩ := chain_cons.1 hchain
    obtain rfl := Option.some.inj heq
    obtain ⟨hapart, hunheld⟩ := h.apart.pop hlist
    have hmem : a ∈ lists i := hlist ▸ mem_cons_self
    have hother : ∀ k c, c ∈ update lists i as k → c ∈ lists k := by
      intro k c hc
      by_cases hk : k = i
      · subst hk
        rw [update_self] at hc
        rw [hlist]
        exact mem_cons_of_mem a hc
      · rwa [update_of_ne hk] at hc
    refine ⟨as, rfl, ?_, hapart, ?_, ?_, ?_⟩
    · intro k
      by_cases hk : k = i
      · subst hk
        rw [update_self, update_self]
        exact hrest
      · rw [update_of_ne hk, update_of_ne hk]
        exact h.chain k
    · exact nodup_cons.2 ⟨fun hused => h.unheld a hused i hmem, h.nodup⟩
    · intro c hc
      rcases mem_cons.1 hc with rfl | hc
      · exact hunheld
      · exact fun k hk => h.unheld c hc k (hother k c hk)
    · intro c
      rw [← h.kept c, mem_cons]
      constructor
      · intro hc
        rcases hc with (rfl | hused) | ⟨k, hk⟩
        · exact Or.inr ⟨i, hmem⟩
        · exact Or.inl hused
        · exact Or.inr ⟨k, hother k c hk⟩
      · intro hc
        rcases hc with hused | ⟨k, hk⟩
        · exact Or.inl (Or.inr hused)
        · by_cases hki : k = i
          · subst hki
            rw [hlist] at hk
            rcases mem_cons.1 hk with rfl | hrest
            · exact Or.inl (Or.inl rfl)
            · exact Or.inr ⟨k, by rw [update_self]; exact hrest⟩
          · exact Or.inr ⟨k, by rw [update_of_ne hki]; exact hk⟩

theorem give (h : FreeLists link head used created lists) (as : List ℕ) (b : ℕ) (hsegment : Segment link p as (some b))
    (hnodup : (as ++ [b]).Nodup) (hused : ∀ a ∈ as ++ [b], a ∈ used) :
    FreeLists (update link b (head i)) (update head i p)
      (used.filter fun a => decide (a ∉ as ++ [b])) created (update lists i (as ++ [b] ++ lists i)) := by
  have hb : ∀ k, b ∉ lists k := h.unheld b (hused b (mem_append_right _ mem_cons_self))
  have hlink : ∀ k, ∀ c ∈ lists k, update link b (head i) c = link c := by
    intro k c hc
    refine update_of_ne (fun heq => hb k ?_) _ _
    rw [← heq]
    exact hc
  have hmem : ∀ k c, c ∈ update lists i (as ++ [b] ++ lists i) k ↔
      c ∈ lists k ∨ k = i ∧ c ∈ as ++ [b] := by
    intro k c
    by_cases hk : k = i
    · subst hk
      rw [update_self, mem_append, or_comm]
      exact ⟨fun hc => hc.imp_right fun hc => ⟨rfl, hc⟩, fun hc => hc.imp_right fun hc => hc.2⟩
    · rw [update_of_ne hk]
      exact ⟨Or.inl, fun hc => hc.elim id fun hc => absurd hc.1 hk⟩
  constructor
  · intro k
    by_cases hk : k = i
    · subst hk
      rw [update_self, update_self]
      refine segment_append.2 ⟨head k, segment_snoc.2 ⟨?_, update_self _ _ _⟩, ?_⟩
      · refine hsegment.congr fun c hc => update_of_ne (fun heq => ?_) _ _
        rw [heq] at hc
        exact (nodup_append.1 hnodup).2.2 b hc b mem_cons_self rfl
      · exact (h.chain k).congr (hlink k)
    · rw [update_of_ne hk, update_of_ne hk]
      exact (h.chain k).congr (hlink k)
  · constructor
    · intro k
      by_cases hk : k = i
      · subst hk
        rw [update_self]
        refine nodup_append.2 ⟨hnodup, h.apart.nodup k, fun c hc d hd heq => ?_⟩
        exact h.unheld c (hused c hc) k (heq ▸ hd)
      · rw [update_of_ne hk]
        exact h.apart.nodup k
    · intro k l c hk hl
      rcases (hmem k c).1 hk with hk | ⟨hk, hc⟩
      · rcases (hmem l c).1 hl with hl | ⟨hl, hc⟩
        · exact h.apart.unique hk hl
        · exact absurd hk (h.unheld c (hused c hc) k)
      · rcases (hmem l c).1 hl with hl | ⟨hl, -⟩
        · exact absurd hl (h.unheld c (hused c hc) l)
        · exact hk.trans hl.symm
  · exact h.nodup.filter _
  · intro c hc k hk
    obtain ⟨hc, hnot⟩ := mem_filter.1 hc
    rcases (hmem k c).1 hk with hk | ⟨-, hchain⟩
    · exact h.unheld c hc k hk
    · exact of_decide_eq_true hnot hchain
  · intro c
    rw [← h.kept c, mem_filter, decide_eq_true_iff]
    constructor
    · intro hc
      rcases hc with hc | ⟨k, hk⟩
      · exact Or.inl hc.1
      · rcases (hmem k c).1 hk with hk | ⟨-, hc⟩
        · exact Or.inr ⟨k, hk⟩
        · exact Or.inl (hused c hc)
    · intro hc
      rcases hc with hc | ⟨k, hk⟩
      · by_cases hchain : c ∈ as ++ [b]
        · exact Or.inr ⟨i, (hmem i c).2 (Or.inr ⟨rfl, hchain⟩)⟩
        · exact Or.inl ⟨hc, hchain⟩
      · exact Or.inr ⟨k, (hmem k c).2 (Or.inl hk)⟩

theorem pass (h : FreeLists link head used created lists) (hij : i ≠ j) (hi : lists i = as ++ [b]) :
    FreeLists (update link b (head j)) (update (update head j (head i)) i none)
      used created (update (update lists j (lists i ++ lists j)) i []) := by
  have hb : b ∈ lists i := by
    rw [hi]
    exact mem_append_right _ mem_cons_self
  have hlink : ∀ k, k ≠ i → ∀ c ∈ lists k, update link b (head j) c = link c := by
    intro k hk c hc
    refine update_of_ne (fun heq => hk ?_) _ _
    rw [heq] at hc
    exact h.apart.unique hc hb
  have hmem : ∀ k c, c ∈ update (update lists j (lists i ++ lists j)) i [] k ↔
      k ≠ i ∧ (c ∈ lists k ∨ k = j ∧ c ∈ lists i) := by
    intro k c
    by_cases hk : k = i
    · subst hk
      rw [update_self]
      exact ⟨fun hc => absurd hc not_mem_nil, fun hc => absurd rfl hc.1⟩
    · rw [update_of_ne hk]
      by_cases hkj : k = j
      · subst hkj
        rw [update_self, mem_append, or_comm]
        exact ⟨fun hc => ⟨hk, hc.imp_right fun hc => ⟨rfl, hc⟩⟩, fun hc => hc.2.imp_right fun hc => hc.2⟩
      · rw [update_of_ne hkj]
        exact ⟨fun hc => ⟨hk, Or.inl hc⟩, fun hc => hc.2.elim id fun hc => absurd hc.1 hkj⟩
  constructor
  · intro k
    by_cases hk : k = i
    · subst hk
      rw [update_self, update_self]
      rfl
    · rw [update_of_ne hk, update_of_ne hk]
      by_cases hkj : k = j
      · subst hkj
        have hchain := h.chain i
        have hnodup := h.apart.nodup i
        rw [hi] at hchain hnodup
        rw [update_self, update_self, hi]
        refine segment_append.2 ⟨head k, segment_snoc.2 ⟨?_, update_self _ _ _⟩, ?_⟩
        · refine (segment_snoc.1 hchain).1.congr fun c hc => update_of_ne (fun heq => ?_) _ _
          rw [heq] at hc
          exact (nodup_append.1 hnodup).2.2 b hc b mem_cons_self rfl
        · exact (h.chain k).congr (hlink k hk)
      · rw [update_of_ne hkj, update_of_ne hkj]
        exact (h.chain k).congr (hlink k hk)
  · constructor
    · intro k
      by_cases hk : k = i
      · subst hk
        rw [update_self]
        exact nodup_nil
      · rw [update_of_ne hk]
        by_cases hkj : k = j
        · subst hkj
          rw [update_self]
          refine nodup_append.2 ⟨h.apart.nodup i, h.apart.nodup k, fun c hc d hd heq => hij ?_⟩
          exact h.apart.unique hc (heq ▸ hd)
        · rw [update_of_ne hkj]
          exact h.apart.nodup k
    · intro k l c hk hl
      obtain ⟨hki, hk⟩ := (hmem k c).1 hk
      obtain ⟨hli, hl⟩ := (hmem l c).1 hl
      rcases hk with hk | ⟨hkj, hk⟩
      · rcases hl with hl | ⟨-, hl⟩
        · exact h.apart.unique hk hl
        · exact absurd (h.apart.unique hk hl) hki
      · rcases hl with hl | ⟨hlj, -⟩
        · exact absurd (h.apart.unique hl hk) hli
        · exact hkj.trans hlj.symm
  · exact h.nodup
  · intro c hc k hk
    rcases ((hmem k c).1 hk).2 with hk | ⟨-, hk⟩
    · exact h.unheld c hc k hk
    · exact h.unheld c hc i hk
  · intro c
    rw [← h.kept c]
    refine or_congr_right ⟨fun hc => ?_, fun hc => ?_⟩
    · obtain ⟨k, hk⟩ := hc
      rcases ((hmem k c).1 hk).2 with hk | ⟨-, hk⟩
      · exact ⟨k, hk⟩
      · exact ⟨i, hk⟩
    · obtain ⟨k, hk⟩ := hc
      by_cases hki : k = i
      · rw [hki] at hk
        exact ⟨j, (hmem j c).2 ⟨hij.symm, Or.inr ⟨rfl, hk⟩⟩⟩
      · exact ⟨k, (hmem k c).2 ⟨hki, Or.inl hk⟩⟩

theorem fill (h : FreeLists link head used created lists) (hij : i ≠ j) (hj : head j = none) :
    FreeLists link (update (update head j (head i)) i none) used created
      (update (update lists j (lists i)) i []) := by
  have hempty : lists j = [] := (h.chain j).eq_nil_iff.2 hj
  rcases eq_nil_or_concat (lists i) with hnil | ⟨as, b, hlist⟩
  · have hi : head i = none := (h.chain i).eq_nil_iff.1 hnil
    rw [hnil, hi, ← hj, update_eq_self, hj, ← hi, update_eq_self, ← hempty,
      update_eq_self, hempty, ← hnil, update_eq_self]
    exact h
  · rw [concat_eq_append] at hlist
    have hpass := h.pass hij hlist
    have hchain := h.chain i
    rw [hlist] at hchain
    have hsame : update link b (head j) = link := by
      rw [hj, ← (segment_snoc.1 hchain).2, update_eq_self]
    rw [hsame, hempty, append_nil] at hpass
    exact hpass

end FreeLists

end Foundations
