import Mathlib.Data.List.Induction
import ScoreP.Foundations.Linked
import ScoreP.Skiplist.Nodes

/-!
# Searching the skiplist

`Levels` says that the nodes `L`, in this order behind the headnode, are what the links of the
skiplist hold: every level is the doubly linked list of the nodes that are high enough. On such a
list `walkBack_spec` finds the predecessor one level up, and `lowerBound_spec` tells where in `L`
`lower_bound` stops; which one of several equal nodes this is, `lowerBound_highest`.
-/

namespace ScoreP.Skiplist

open Foundations List

variable {P G : Type}

/-- `cmp` is a total preorder. -/
structure Template.Lawful (T : Template P G) : Prop where
  trans : ∀ a b c, T.cmp a b ≤ 0 → T.cmp b c ≤ 0 → T.cmp a c ≤ 0
  lt_iff : ∀ a b, T.cmp a b < 0 ↔ 0 < T.cmp b a

namespace Template.Lawful

variable {T : Template P G} (hT : T.Lawful) {a b c : P}

include hT

theorem le_iff : T.cmp a b ≤ 0 ↔ 0 ≤ T.cmp b a := by
  have h := hT.lt_iff b a
  omega

theorem lt_of_le_of_lt (hab : T.cmp a b ≤ 0) (hbc : T.cmp b c < 0) : T.cmp a c < 0 := by
  by_contra hac
  have hca : T.cmp c a ≤ 0 := hT.le_iff.2 (by omega)
  have hcb := hT.trans c a b hca hab
  have hbc' := hT.le_iff.1 hcb
  omega

theorem lt_of_lt_of_le (hab : T.cmp a b < 0) (hbc : T.cmp b c ≤ 0) : T.cmp a c < 0 := by
  by_contra hac
  have hca : T.cmp c a ≤ 0 := hT.le_iff.2 (by omega)
  have hba := hT.trans b c a hbc hca
  have hab' := hT.le_iff.1 hba
  omega

end Template.Lawful

/-! ## Levels -/

def Handle.onLevel (list : Handle P G) (level : ℕ) (L : List ℕ) : List ℕ :=
  L.filter fun n => level < (list.node n).height

def Handle.LinkedOn (list : Handle P G) (level : ℕ) (xs : List ℕ) : Prop :=
  Linked (fun n => (list.node n).next level) (fun n => (list.node n).prev level) none xs none

structure Levels (list : Handle P G) (L : List ℕ) : Prop where
  head_height : (list.node list.headnode).height = list.maxHeight
  linked : ∀ level < list.maxHeight, list.LinkedOn level (list.headnode :: list.onLevel level L)
  height_pos : ∀ n ∈ L, 0 < (list.node n).height
  nodup : (list.headnode :: L).Nodup
  bounded : ∀ n ∈ list.headnode :: L, n < list.allocated

structure Sorted (T : Template P G) (list : Handle P G) (L : List ℕ) : Prop where
  pairwise : L.Pairwise fun x y => T.cmp (list.node x).payload (list.node y).payload ≤ 0
  head_lt : ∀ n ∈ L, T.cmp (list.node list.headnode).payload (list.node n).payload < 0

variable {T : Template P G} {list : Handle P G} {L : List ℕ} {s : P}

theorem mem_onLevel {level n : ℕ} : n ∈ list.onLevel level L ↔ n ∈ L ∧ level < (list.node n).height := by
  simp [Handle.onLevel]

theorem Levels.onLevel_zero (h : Levels list L) : list.onLevel 0 L = L :=
  filter_eq_self.2 fun n hn => by simpa using h.height_pos n hn

theorem Levels.length_lt (h : Levels list L) : L.length < list.allocated := by
  have hlength := length_le_of_bounded h.nodup h.bounded
  rw [length_cons] at hlength
  omega

theorem Levels.onLevel_length_lt (h : Levels list L) (level : ℕ) :
    (list.onLevel level L).length < list.allocated :=
  Nat.lt_of_le_of_lt (length_filter_le _ L) h.length_lt

/-! ## Walking back -/

theorem walkBack_spec {level : ℕ} {xs rest : List ℕ}
    (hlinked : list.LinkedOn level (list.headnode :: xs ++ rest))
    (hheight : ∀ n ∈ xs, level < (list.node n).height)
    (hhead : level + 1 < (list.node list.headnode).height) {fuel : ℕ} (hfuel : xs.length < fuel) :
    list.walkBack level fuel (xs.getLast?.getD list.headnode) =
      some ((list.onLevel (level + 1) xs).getLast?.getD list.headnode) := by
  induction xs using List.reverseRecOn generalizing rest fuel with
  | nil =>
    obtain ⟨fuel, rfl⟩ := Nat.exists_eq_add_of_lt hfuel
    have hlow : ¬(list.node list.headnode).height ≤ level + 1 := by omega
    simp [Handle.walkBack, Handle.onLevel, hlow]
  | append_singleton xs x ih =>
    obtain ⟨fuel, rfl⟩ : ∃ k, fuel = k + 1 := ⟨fuel - 1, by omega⟩
    simp only [length_append, length_singleton] at hfuel
    have hx := hheight x (by simp)
    by_cases hlow : (list.node x).height ≤ level + 1
    · have hprev : (list.node x).prev level = some (xs.getLast?.getD list.headnode) := by
        have hcons : list.headnode :: (xs ++ [x]) ++ rest = (list.headnode :: xs) ++ x :: rest := by
          simp
        rw [hcons] at hlinked
        rw [Linked.prev_eq hlinked, getLast?_cons]
        rfl
      have hskip : list.onLevel (level + 1) (xs ++ [x]) = list.onLevel (level + 1) xs := by
        simp [Handle.onLevel, Nat.not_lt.2 hlow]
      have hlinked' : list.LinkedOn level (list.headnode :: xs ++ x :: rest) := by
        simpa using hlinked
      rw [hskip, ← ih hlinked' (fun n hn => hheight n (by simp [hn])) (show xs.length < fuel by omega)]
      simp [Handle.walkBack, Handle.prev, hlow, hx, hprev]
    · have hkeep : list.onLevel (level + 1) (xs ++ [x]) = list.onLevel (level + 1) xs ++ [x] := by
        simp [Handle.onLevel, Nat.not_le.1 hlow]
      simp [Handle.walkBack, hkeep, hlow]

/-! ## lower_bound -/

theorem advance_spec {level fuel x : ℕ} {as bs : List ℕ} (hlinked : list.LinkedOn level (as ++ x :: bs))
    (hheight : ∀ n ∈ x :: bs, level < (list.node n).height) (hfuel : bs.length < fuel) :
    ∃ cs ds, bs = cs ++ ds ∧ list.advance T s level fuel x = some (cs.getLast?.getD x) ∧
      (∀ c ∈ cs, T.cmp (list.node c).payload s ≤ 0) ∧
      ∀ d, ds.head? = some d → 0 < T.cmp (list.node d).payload s := by
  induction bs generalizing as x fuel with
  | nil =>
    obtain ⟨fuel, rfl⟩ : ∃ k, fuel = k + 1 := ⟨fuel - 1, by omega⟩
    have hx := hheight x mem_cons_self
    have hnext : (list.node x).next level = none := Linked.next_eq hlinked
    refine ⟨[], [], rfl, ?_, by simp, by simp⟩
    simp [Handle.advance, Handle.next, hx, hnext]
  | cons b bs ih =>
    obtain ⟨fuel, rfl⟩ : ∃ k, fuel = k + 1 := ⟨fuel - 1, by omega⟩
    have hx := hheight x mem_cons_self
    have hnext : (list.node x).next level = some b := Linked.next_eq hlinked
    by_cases hle : T.cmp (list.node b).payload s ≤ 0
    · rw [append_cons] at hlinked
      obtain ⟨cs, ds, rfl, hadvance, hcs, hds⟩ := ih hlinked
        (fun n hn => hheight n (mem_cons_of_mem x hn))
        (show bs.length < fuel by simpa using hfuel)
      refine ⟨b :: cs, ds, rfl, ?_, ?_, hds⟩
      · simp [Handle.advance, Handle.next, hx, hnext, hle, hadvance, getLast?_cons]
      · intro c hc
        cases mem_cons.1 hc with
        | inl hcb => exact hcb ▸ hle
        | inr hcs' => exact hcs c hcs'
    · refine ⟨[], b :: bs, rfl, ?_, by simp, ?_⟩
      · simp [Handle.advance, Handle.next, hx, hnext, hle]
      · intro d hd
        cases hd
        omega

def Stop (T : Template P G) (list : Handle P G) (L : List ℕ) (s : P) (y : ℕ) : Prop :=
  T.cmp (list.node y).payload s = 0 ∨
    T.cmp (list.node y).payload s ≠ 0 ∧ ∃ as ds, list.headnode :: L = as ++ y :: ds ∧
      ∀ d, ds.head? = some d → 0 < T.cmp (list.node d).payload s

def Below (T : Template P G) (list : Handle P G) (L : List ℕ) (s : P) (x : ℕ) : Prop :=
  x = list.headnode ∨ x ∈ L ∧ T.cmp (list.node x).payload s ≤ 0

theorem advance_below (h : Levels list L) {level x : ℕ} (hlevel : level < list.maxHeight)
    (hx : Below T list L s x) (hheight : level < (list.node x).height) :
    ∃ y, list.advance T s level list.allocated x = some y ∧ Below T list L s y ∧ level < (list.node y).height ∧
      ∃ as ds, list.headnode :: list.onLevel level L = as ++ y :: ds ∧
        ∀ d, ds.head? = some d → 0 < T.cmp (list.node d).payload s := by
  have hmem : x ∈ list.headnode :: list.onLevel level L := by
    cases hx with
    | inl hhead => simp [hhead]
    | inr hxL => exact mem_cons_of_mem _ (mem_onLevel.2 ⟨hxL.1, hheight⟩)
  obtain ⟨as, bs, hsplit⟩ := append_of_mem hmem
  have hlinked := h.linked level hlevel
  have hlength := h.onLevel_length_lt level
  rw [hsplit] at hlinked
  have hbs : ∀ n ∈ bs, n ∈ list.onLevel level L := by
    intro n hn
    cases as with
    | nil =>
      obtain ⟨-, hL⟩ := List.cons.inj hsplit
      exact hL ▸ hn
    | cons a as =>
      obtain ⟨-, hL⟩ := List.cons.inj hsplit
      rw [hL]
      simp [hn]
  have hshort : bs.length < list.allocated := by
    have hle := congrArg List.length hsplit
    simp only [length_cons, length_append] at hle
    omega
  obtain ⟨cs, ds, rfl, hadvance, hcs, hds⟩ := advance_spec (T := T) (s := s) hlinked
    (fun n hn => (mem_cons.1 hn).elim (fun e => e ▸ hheight)
      fun hn' => (mem_onLevel.1 (hbs n hn')).2) hshort
  cases cs using List.reverseRecOn with
  | nil => exact ⟨x, hadvance, hx, hheight, as, ds, hsplit, hds⟩
  | append_singleton cs c =>
    have hc := mem_onLevel.1 (hbs c (by simp))
    refine ⟨c, by simpa using hadvance, Or.inr ⟨hc.1, hcs c (by simp)⟩, hc.2, as ++ x :: cs, ds, ?_, hds⟩
    simpa using hsplit

theorem descend_spec (h : Levels list L) {level x : ℕ} (hlevel : level < list.maxHeight)
    (hx : Below T list L s x) (hheight : level < (list.node x).height) :
    ∃ y, list.descend T s (level + 1) x = some y ∧ Below T list L s y ∧ Stop T list L s y := by
  induction level generalizing x with
  | zero =>
    obtain ⟨y, hadvance, hbelow, -, as, ds, hsplit, hds⟩ := advance_below h hlevel hx hheight
    refine ⟨y, by simp [Handle.descend, hadvance], hbelow, ?_⟩
    by_cases heq : T.cmp (list.node y).payload s = 0
    · exact Or.inl heq
    · rw [h.onLevel_zero] at hsplit
      exact Or.inr ⟨heq, as, ds, hsplit, hds⟩
  | succ level ih =>
    obtain ⟨y, hadvance, hbelow, hy, -⟩ := advance_below h hlevel hx hheight
    by_cases heq : T.cmp (list.node y).payload s = 0
    · exact ⟨y, by simp [Handle.descend, hadvance, heq], hbelow, Or.inl heq⟩
    · obtain ⟨z, hdescend, hz⟩ := ih (by omega) hbelow (by omega)
      refine ⟨z, ?_, hz⟩
      rw [Handle.descend, hadvance]
      simpa [heq] using hdescend

/-- `L` is split where `lower_bound` stops. -/
structure Bound (T : Template P G) (list : Handle P G) (A B : List ℕ) (s : P) : Prop where
  le : ∀ a ∈ A, T.cmp (list.node a).payload s ≤ 0
  ge : ∀ b ∈ B, T.cmp s (list.node b).payload ≤ 0
  exact : (∃ a, A.getLast? = some a ∧ T.cmp (list.node a).payload s = 0) ∨
    (∀ a ∈ A, T.cmp (list.node a).payload s < 0) ∧ ∀ b ∈ B, 0 < T.cmp (list.node b).payload s

theorem behind_eq {y : ℕ} {A B as ds : List ℕ} (hnodup : (A ++ y :: B).Nodup)
    (hsplit : A ++ y :: B = as ++ y :: ds) : ds = B := by
  have hmem : y ∉ A ∧ y ∉ B := by
    simp only [nodup_append, nodup_cons] at hnodup
    exact ⟨fun hA => hnodup.2.2 y hA y mem_cons_self rfl, hnodup.2.1.1⟩
  exact ((append_cons_inj_of_notMem hmem.1 hmem.2).1 hsplit).2.2.symm

theorem above (hT : T.Lawful) {B : List ℕ}
    (hpairwise : B.Pairwise fun x y => T.cmp (list.node x).payload (list.node y).payload ≤ 0)
    (hhead : ∀ d, B.head? = some d → 0 < T.cmp (list.node d).payload s) :
    ∀ b ∈ B, 0 < T.cmp (list.node b).payload s := by
  intro b hb
  cases B with
  | nil => cases hb
  | cons d B =>
    have hd := hhead d rfl
    cases mem_cons.1 hb with
    | inl hbd => exact hbd ▸ hd
    | inr hbB =>
      have hdb := (pairwise_cons.1 hpairwise).1 b hbB
      exact (hT.lt_iff _ _).1 (hT.lt_of_lt_of_le ((hT.lt_iff _ _).2 hd) hdb)

theorem Sorted.bound (hT : T.Lawful) (h : Levels list L) (hsorted : Sorted T list L) {y : ℕ}
    (hbelow : Below T list L s y) (hstop : Stop T list L s y) :
    ∃ A B, L = A ++ B ∧ y = A.getLast?.getD list.headnode ∧ Bound T list A B s := by
  cases hbelow with
  | inl hhead =>
    subst hhead
    have habove : ∀ b ∈ L, 0 < T.cmp (list.node b).payload s := by
      cases hstop with
      | inl heq =>
        intro b hb
        have hle := hT.le_iff.2 (Int.le_of_eq heq.symm)
        exact (hT.lt_iff _ _).1 (hT.lt_of_le_of_lt hle (hsorted.head_lt b hb))
      | inr hlast =>
        obtain ⟨-, as, ds, hsplit, hds⟩ := hlast
        have hdsL : ds = L := behind_eq (A := []) h.nodup hsplit
        exact above hT hsorted.pairwise (hdsL ▸ hds)
    refine ⟨[], L, rfl, rfl, by simp, ?_, Or.inr ⟨by simp, habove⟩⟩
    intro b hb
    exact hT.le_iff.2 (Int.le_of_lt (habove b hb))
  | inr hy =>
    obtain ⟨hyL, hys⟩ := hy
    obtain ⟨A, B, rfl⟩ := append_of_mem hyL
    obtain ⟨-, hyB, hAyB⟩ := pairwise_append.1 hsorted.pairwise
    obtain ⟨hyB, hB⟩ := pairwise_cons.1 hyB
    have hAy : ∀ a ∈ A ++ [y], T.cmp (list.node a).payload (list.node y).payload ≤ 0 := by
      intro a ha
      cases mem_append.1 ha with
      | inl haA => exact hAyB a haA y mem_cons_self
      | inr hay =>
        have hirrefl := hT.lt_iff (list.node y).payload (list.node y).payload
        rw [mem_singleton.1 hay]
        omega
    refine ⟨A ++ [y], B, by simp, by simp, fun a ha => hT.trans _ _ _ (hAy a ha) hys, ?_, ?_⟩
    · intro b hb
      cases hstop with
      | inl heq => exact hT.trans _ _ _ (hT.le_iff.2 (Int.le_of_eq heq.symm)) (hyB b hb)
      | inr hlast =>
        obtain ⟨-, as, ds, hsplit, hds⟩ := hlast
        have hdsB : ds = B := behind_eq (A := list.headnode :: A) h.nodup hsplit
        exact hT.le_iff.2 (Int.le_of_lt (above hT hB (hdsB ▸ hds) b hb))
    · cases hstop with
      | inl heq => exact Or.inl ⟨y, by simp, heq⟩
      | inr hlast =>
        obtain ⟨hne, as, ds, hsplit, hds⟩ := hlast
        have hdsB : ds = B := behind_eq (A := list.headnode :: A) h.nodup hsplit
        refine Or.inr ⟨fun a ha => ?_, above hT hB (hdsB ▸ hds)⟩
        exact hT.lt_of_le_of_lt (hAy a ha) (Int.lt_iff_le_and_ne.2 ⟨hys, hne⟩)

theorem lowerBound_spec (hT : T.Lawful) (h : Levels list L) (hsorted : Sorted T list L)
    (hceiling : 1 ≤ list.ceiling ∧ list.ceiling ≤ list.maxHeight) (s : P) :
    ∃ A B, L = A ++ B ∧ list.lowerBound T s = some (A.getLast?.getD list.headnode) ∧ Bound T list A B s := by
  obtain ⟨level, hlevel⟩ : ∃ level, list.ceiling = level + 1 := ⟨list.ceiling - 1, by omega⟩
  have hhead := h.head_height
  obtain ⟨y, hdescend, hbelow, hstop⟩ := descend_spec (T := T) (s := s) h
    (show level < list.maxHeight by omega) (Or.inl rfl) (by omega)
  obtain ⟨A, B, hAB, hy, hbound⟩ := hsorted.bound hT h hbelow hstop
  exact ⟨A, B, hAB, by rw [Handle.lowerBound, hlevel, hdescend, hy], hbound⟩

/-! ## Several equal nodes -/

def Highest (T : Template P G) (list : Handle P G) (L : List ℕ) (s : P) (y : ℕ) : Prop :=
  (∀ b ∈ L, T.cmp (list.node b).payload s = 0 → (list.node b).height ≤ (list.node y).height) ∧
    ∀ as bs, L = as ++ y :: bs → ∀ b ∈ bs, T.cmp (list.node b).payload s = 0 →
      (list.node b).height < (list.node y).height

theorem Sorted.with_head (hsorted : Sorted T list L) : (list.headnode :: L).Pairwise fun x y =>
    T.cmp (list.node x).payload (list.node y).payload ≤ 0 :=
  pairwise_cons.2 ⟨fun n hn => Int.le_of_lt (hsorted.head_lt n hn), hsorted.pairwise⟩

theorem descend_highest (hT : T.Lawful) (h : Levels list L) (hsorted : Sorted T list L)
    {level x y : ℕ} (hlevel : level < list.maxHeight) (hx : Below T list L s x)
    (hheight : level < (list.node x).height)
    (hlow : ∀ b ∈ L, T.cmp (list.node b).payload s = 0 → (list.node b).height ≤ level + 1)
    (hdescend : list.descend T s (level + 1) x = some y)
    (heq : T.cmp (list.node y).payload s = 0) : Highest T list L s y := by
  induction level generalizing x with
  | zero =>
    obtain ⟨z, hadvance, -, hz, as, ds, hsplit, hds⟩ := advance_below h hlevel hx hheight
    have hzy : z = y := by simpa [Handle.descend, hadvance] using hdescend
    subst hzy
    refine ⟨fun b hb hbs => Nat.le_trans (hlow b hb hbs) hz, ?_⟩
    rintro as' bs rfl b hb hbs
    rw [h.onLevel_zero] at hsplit
    have hdsB : ds = bs := behind_eq (A := list.headnode :: as') h.nodup hsplit
    have hpairwise := (pairwise_append.1 hsorted.pairwise).2.1
    have habove := above hT (pairwise_cons.1 hpairwise).2 (hdsB ▸ hds) b hb
    omega
  | succ level ih =>
    obtain ⟨z, hadvance, hbelow, hz, as, ds, hsplit, hds⟩ := advance_below h hlevel hx hheight
    have hsub : (list.headnode :: list.onLevel (level + 1) L).Sublist (list.headnode :: L) :=
      filter_sublist.cons_cons _
    have hpairwise := hsorted.with_head.sublist hsub
    rw [hsplit] at hpairwise
    obtain ⟨-, hzds, hbefore⟩ := pairwise_append.1 hpairwise
    have habove : ∀ b ∈ ds, 0 < T.cmp (list.node b).payload s :=
      above hT (pairwise_cons.1 hzds).2 hds
    by_cases hzs : T.cmp (list.node z).payload s = 0
    · have hzy : z = y := by simpa [Handle.descend, hadvance, hzs] using hdescend
      subst hzy
      refine ⟨fun b hb hbs => Nat.le_trans (hlow b hb hbs) hz, ?_⟩
      rintro as' bs rfl b hb hbs
      by_contra htall
      have hon : list.onLevel (level + 1) (as' ++ z :: bs) =
          list.onLevel (level + 1) as' ++ z :: list.onLevel (level + 1) bs := by
        simp [Handle.onLevel, hz]
      have hnodup : (list.headnode :: list.onLevel (level + 1) (as' ++ z :: bs)).Nodup :=
        hsub.nodup h.nodup
      rw [hon] at hsplit hnodup
      have hdsB : ds = list.onLevel (level + 1) bs :=
        behind_eq (A := list.headnode :: list.onLevel (level + 1) as') hnodup hsplit
      have hb' := habove b (hdsB ▸ mem_onLevel.2 ⟨hb, by omega⟩)
      omega
    · have hnext : list.descend T s (level + 1) z = some y := by
        rw [Handle.descend, hadvance] at hdescend
        simpa [hzs] using hdescend
      refine ih (by omega) hbelow (by omega) ?_ hnext
      intro b hb hbs
      by_contra htall
      have hmem : b ∈ as ++ z :: ds := by
        rw [← hsplit]
        exact mem_cons_of_mem _ (mem_onLevel.2 ⟨hb, by omega⟩)
      cases mem_append.1 hmem with
      | inl has =>
        have hbz := hbefore b has z mem_cons_self
        have hsz : T.cmp s (list.node z).payload ≤ 0 :=
          hT.trans _ _ _ (hT.le_iff.2 (Int.le_of_eq hbs.symm)) hbz
        cases hbelow with
        | inl hhead =>
          have hb_head := hT.lt_of_lt_of_le (hsorted.head_lt b hb) (Int.le_of_eq hbs)
          have hz_s := hT.le_iff.1 hsz
          rw [hhead] at hz_s
          omega
        | inr hzL =>
          have hz_s := hT.le_iff.1 hsz
          omega
      | inr hzds' =>
        cases mem_cons.1 hzds' with
        | inl hbz => exact hzs (hbz ▸ hbs)
        | inr hds' =>
          have hb' := habove b hds'
          omega

theorem lowerBound_highest (hT : T.Lawful) (h : Levels list L) (hsorted : Sorted T list L)
    (hceiling : 1 ≤ list.ceiling ∧ list.ceiling ≤ list.maxHeight)
    (hheight : ∀ n ∈ L, (list.node n).height ≤ list.ceiling) {y : ℕ}
    (hlower : list.lowerBound T s = some y) (heq : T.cmp (list.node y).payload s = 0) :
    Highest T list L s y := by
  obtain ⟨level, hlevel⟩ : ∃ level, list.ceiling = level + 1 := ⟨list.ceiling - 1, by omega⟩
  have hhead := h.head_height
  rw [Handle.lowerBound, hlevel] at hlower
  exact descend_highest hT h hsorted (show level < list.maxHeight by omega) (Or.inl rfl)
    (by omega) (fun b hb _ => hlevel ▸ hheight b hb) hlower heq

end ScoreP.Skiplist
