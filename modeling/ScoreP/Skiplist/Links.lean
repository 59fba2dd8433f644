import ScoreP.Skiplist.Search

/-!
# Linking and unlinking nodes

What `insert_node` and `remove_node` do to the links. A round of their loops changes the links of one
level as `Linked.insertAfter` and `Linked.unlink` ask (`linkOnLevel_spec`, `unlinkOnLevel_spec`); the
loops over the levels carry `Levels` from the nodes without to the nodes with the one concerned
(`linkOnLevels_spec`), and back (`unlinkOnLevels_spec`).
-/

namespace ScoreP.Skiplist

open Foundations List

variable {P G : Type} {T : Template P G} {list list' list'' : Handle P G} {L : List ℕ}

namespace Handle

variable (list) (n level z k : ℕ) (p : Option ℕ) (payload : P)

@[simp] theorem withNext_next : ((list.withNext n level p).node z).next k =
    if z = n ∧ k = level then p else (list.node z).next k := by
  unfold withNext
  by_cases hz : z = n
  · subst hz
    simp [Function.update_apply]
  · simp [hz]

@[simp] theorem withNext_prev : ((list.withNext n level p).node z).prev k = (list.node z).prev k := by
  unfold withNext
  by_cases hz : z = n
  · subst hz
    simp
  · simp [hz]

@[simp] theorem withNext_height : ((list.withNext n level p).node z).height = (list.node z).height := by
  unfold withNext
  by_cases hz : z = n
  · subst hz
    simp
  · simp [hz]

@[simp] theorem withNext_payload : ((list.withNext n level p).node z).payload = (list.node z).payload := by
  unfold withNext
  by_cases hz : z = n
  · subst hz
    simp
  · simp [hz]

@[simp] theorem withPrev_prev : ((list.withPrev n level p).node z).prev k =
    if z = n ∧ k = level then p else (list.node z).prev k := by
  unfold withPrev
  by_cases hz : z = n
  · subst hz
    simp [Function.update_apply]
  · simp [hz]

@[simp] theorem withPrev_next : ((list.withPrev n level p).node z).next k = (list.node z).next k := by
  unfold withPrev
  by_cases hz : z = n
  · subst hz
    simp
  · simp [hz]

@[simp] theorem withPrev_height : ((list.withPrev n level p).node z).height = (list.node z).height := by
  unfold withPrev
  by_cases hz : z = n
  · subst hz
    simp
  · simp [hz]

@[simp] theorem withPrev_payload : ((list.withPrev n level p).node z).payload = (list.node z).payload := by
  unfold withPrev
  by_cases hz : z = n
  · subst hz
    simp
  · simp [hz]

end Handle

/-! ## Links only -/

structure LinksOnly (X : List ℕ) (list list' : Handle P G) : Prop where
  headnode : list'.headnode = list.headnode
  freelist : list'.freelist = list.freelist
  ceiling : list'.ceiling = list.ceiling
  maxHeight : list'.maxHeight = list.maxHeight
  allocated : list'.allocated = list.allocated
  height : ∀ z, (list'.node z).height = (list.node z).height
  payload : ∀ z, (list'.node z).payload = (list.node z).payload
  frame : ∀ z, z ∉ X → list'.node z = list.node z

theorem LinksOnly.refl (X : List ℕ) (list : Handle P G) : LinksOnly X list list :=
  ⟨rfl, rfl, rfl, rfl, rfl, fun _ => rfl, fun _ => rfl, fun _ _ => rfl⟩

variable {X : List ℕ}

theorem LinksOnly.trans (h : LinksOnly X list list') (h' : LinksOnly X list' list'') :
    LinksOnly X list list'' where
  headnode := h'.headnode.trans h.headnode
  freelist := h'.freelist.trans h.freelist
  ceiling := h'.ceiling.trans h.ceiling
  maxHeight := h'.maxHeight.trans h.maxHeight
  allocated := h'.allocated.trans h.allocated
  height := fun z => (h'.height z).trans (h.height z)
  payload := fun z => (h'.payload z).trans (h.payload z)
  frame := fun z hz => (h'.frame z hz).trans (h.frame z hz)

theorem withNext_linksOnly {n level : ℕ} {p : Option ℕ} (hn : n ∈ X) :
    LinksOnly X list (list.withNext n level p) where
  headnode := rfl
  freelist := rfl
  ceiling := rfl
  maxHeight := rfl
  allocated := rfl
  height := by simp
  payload := by simp
  frame := by
    intro z hz
    have hzn : z ≠ n := fun e => hz (e ▸ hn)
    simp [Handle.withNext, hzn]

theorem withPrev_linksOnly {n level : ℕ} {p : Option ℕ} (hn : n ∈ X) :
    LinksOnly X list (list.withPrev n level p) where
  headnode := rfl
  freelist := rfl
  ceiling := rfl
  maxHeight := rfl
  allocated := rfl
  height := by simp
  payload := by simp
  frame := by
    intro z hz
    have hzn : z ≠ n := fun e => hz (e ▸ hn)
    simp [Handle.withPrev, hzn]

def SameLevel (level : ℕ) (list list' : Handle P G) : Prop :=
  ∀ z, (list'.node z).next level = (list.node z).next level ∧
    (list'.node z).prev level = (list.node z).prev level

variable {level : ℕ}

theorem Handle.LinkedOn.congr {xs : List ℕ} (h : list.LinkedOn level xs)
    (hsame : SameLevel level list list') : list'.LinkedOn level xs :=
  Linked.congr h (fun z _ => (hsame z).1) fun z _ => (hsame z).2

/-! ## One level -/

theorem linkOnLevel_spec {X as bs : List ℕ} {level x n : ℕ}
    (hlinked : list.LinkedOn level (as ++ x :: bs)) (hnodup : (as ++ x :: bs).Nodup)
    (hn : n ∉ as ++ x :: bs) (hheight : ∀ z ∈ as ++ x :: bs, level < (list.node z).height)
    (hnlevel : level < (list.node n).height) (hX : n ∈ X ∧ ∀ z ∈ as ++ x :: bs, z ∈ X) :
    ∃ list', list.linkOnLevel n x level = some list' ∧ LinksOnly X list list' ∧
      list'.LinkedOn level (as ++ x :: n :: bs) ∧ ∀ k, k ≠ level → SameLevel k list list' := by
  have hx : level < (list.node x).height := hheight x (by simp)
  have hnext : (list.node x).next level = bs.head? := by
    rw [Linked.next_eq hlinked, Option.or_none]
  have hxn : x ≠ n := fun e => hn (by simp [e])
  cases bs with
  | nil =>
    refine ⟨((list.withPrev n level (some x)).withNext n level none).withNext x level (some n),
      ?_, ?_, ?_, ?_⟩
    · simp [Handle.linkOnLevel, Handle.setPrev, Handle.setNext, Handle.next, Handle.linkBack, hx,
        hnlevel, hnext, hxn]
    · exact (withPrev_linksOnly hX.1).trans ((withNext_linksOnly hX.1).trans
        (withNext_linksOnly (hX.2 x (by simp))))
    · refine Linked.insertAfter hlinked hnodup hn ?_ ?_
      · intro z
        simp [hnext]
      · intro z
        simp [hnext]
    · intro k hk z
      simp [hk]
  | cons y bs =>
    have hy : level < (list.node y).height := hheight y (by simp)
    have hyn : y ≠ n := fun e => hn (by simp [e])
    refine ⟨(((list.withPrev n level (some x)).withNext n level (some y)).withPrev y level
      (some n)).withNext x level (some n), ?_, ?_, ?_, ?_⟩
    · simp [Handle.linkOnLevel, Handle.setPrev, Handle.setNext, Handle.next, Handle.linkBack, hx,
        hnlevel, hnext, hxn, hy]
    · exact (withPrev_linksOnly hX.1).trans ((withNext_linksOnly hX.1).trans
        ((withPrev_linksOnly (hX.2 y (by simp))).trans (withNext_linksOnly (hX.2 x (by simp)))))
    · refine Linked.insertAfter hlinked hnodup hn ?_ ?_
      · intro z
        simp [hnext]
      · intro z
        by_cases hzy : z = y
        · subst hzy
          simp [hnext, hyn]
        · simp [hnext, hzy, Ne.symm hzy]
    · intro k hk z
      simp [hk]

theorem unlinkOnLevel_spec {X as bs : List ℕ} {level x n : ℕ}
    (hlinked : list.LinkedOn level (as ++ x :: n :: bs)) (hnodup : (as ++ x :: n :: bs).Nodup)
    (hheight : ∀ z ∈ as ++ x :: n :: bs, level < (list.node z).height) (hX : ∀ z ∈ as ++ x :: n :: bs, z ∈ X) :
    ∃ list', list.unlinkOnLevel n level = some list' ∧ LinksOnly X list list' ∧
      list'.LinkedOn level (as ++ x :: bs) ∧ ∀ k, k ≠ level → SameLevel k list list' := by
  have hx : level < (list.node x).height := hheight x (by simp)
  have hn : level < (list.node n).height := hheight n (by simp)
  have hlinked' := hlinked
  rw [append_cons] at hlinked'
  have hprev : (list.node n).prev level = some x := by
    rw [Linked.prev_eq hlinked']
    simp
  have hnext : (list.node n).next level = bs.head? := by
    rw [Linked.next_eq hlinked', Option.or_none]
  have hxn : n ≠ x := by
    obtain ⟨hxbs, -⟩ := nodup_cons.1 (nodup_append.1 hnodup).2.1
    exact fun e => hxbs (by simp [e])
  cases bs with
  | nil =>
    refine ⟨list.withNext x level none, ?_, ?_, ?_, ?_⟩
    · simp [Handle.unlinkOnLevel, Handle.prev, Handle.next, Handle.setNext, hx, hn, hprev, hnext, hxn]
    · exact withNext_linksOnly (hX x (by simp))
    · refine Linked.unlink hlinked hnodup ?_ ?_
      · intro z _
        simp [hnext, hprev, eq_comm]
      · intro z _
        simp [hnext]
    · intro k hk z
      simp [hk]
  | cons y bs =>
    have hy : level < (list.node y).height := hheight y (by simp)
    refine ⟨(list.withNext x level (some y)).withPrev y level (some x), ?_, ?_, ?_, ?_⟩
    · simp [Handle.unlinkOnLevel, Handle.prev, Handle.next, Handle.setNext, Handle.setPrev, hx, hn,
        hy, hprev, hnext, hxn]
    · exact (withNext_linksOnly (hX x (by simp))).trans (withPrev_linksOnly (hX y (by simp)))
    · refine Linked.unlink hlinked hnodup ?_ ?_
      · intro z _
        simp [hnext, hprev, eq_comm]
      · intro z _
        simp [hnext, hprev, eq_comm]
    · intro k hk z
      simp [hk]

/-! ## All levels -/

structure Partly (list : Handle P G) (A B : List ℕ) (n : ℕ) (S : ℕ → Prop) : Prop where
  head_height : (list.node list.headnode).height = list.maxHeight
  nodup : (list.headnode :: (A ++ n :: B)).Nodup
  bounded : ∀ z ∈ list.headnode :: (A ++ n :: B), z < list.allocated
  height_pos : ∀ z ∈ A ++ n :: B, 0 < (list.node z).height
  height_lt : (list.node n).height < list.maxHeight
  linked : ∀ k < list.maxHeight, S k → list.LinkedOn k (list.headnode :: list.onLevel k (A ++ n :: B))
  unlinked : ∀ k < list.maxHeight, ¬S k → list.LinkedOn k (list.headnode :: list.onLevel k (A ++ B))

variable {A B : List ℕ} {n : ℕ} {S S' : ℕ → Prop}

theorem LinksOnly.onLevel (h : LinksOnly X list list') (level : ℕ) (L : List ℕ) :
    list'.onLevel level L = list.onLevel level L := by
  simp [Handle.onLevel, h.height]

theorem onLevel_append (level : ℕ) :
    list.onLevel level (A ++ B) = list.onLevel level A ++ list.onLevel level B :=
  filter_append _ _

theorem onLevel_between (hn : level < (list.node n).height) :
    list.onLevel level (A ++ n :: B) = list.onLevel level A ++ n :: list.onLevel level B := by
  simp [Handle.onLevel, hn]

theorem onLevel_without (hn : (list.node n).height ≤ level) :
    list.onLevel level (A ++ n :: B) = list.onLevel level (A ++ B) := by
  simp [Handle.onLevel, Nat.not_lt.2 hn]

theorem onLevel_onLevel (level : ℕ) :
    list.onLevel (level + 1) (list.onLevel level L) = list.onLevel (level + 1) L := by
  unfold Handle.onLevel
  rw [filter_filter]
  refine filter_congr fun z _ => ?_
  by_cases hz : level + 1 < (list.node z).height
  · simp [hz, Nat.lt_of_succ_lt hz]
  · simp [hz]

theorem cons_eq_snoc (a : ℕ) (l : List ℕ) : ∃ as, a :: l = as ++ [l.getLast?.getD a] := by
  refine ⟨(a :: l).dropLast, ?_⟩
  have hsome := getLast?_cons (a := a) (l := l)
  rw [getLast?_eq_some_iff] at hsome
  obtain ⟨as, has⟩ := hsome
  rw [has, dropLast_concat]

theorem Partly.congr (h : Partly list A B n S) (hiff : ∀ k, S' k ↔ S k) : Partly list A B n S' := { h with
  linked := fun k hk hS => h.linked k hk ((hiff k).1 hS)
  unlinked := fun k hk hS => h.unlinked k hk fun hS' => hS ((hiff k).2 hS') }

theorem Partly.change (h : Partly list A B n S) (honly : LinksOnly X list list')
    (hsame : ∀ k, k ≠ level → SameLevel k list list') (hS : ∀ k, k ≠ level → (S' k ↔ S k))
    (hlinked : S' level → list'.LinkedOn level (list.headnode :: list.onLevel level (A ++ n :: B)))
    (hunlinked : ¬S' level → list'.LinkedOn level (list.headnode :: list.onLevel level (A ++ B))) :
    Partly list' A B n S' where
  head_height := by rw [honly.headnode, honly.height, honly.maxHeight, h.head_height]
  nodup := by
    rw [honly.headnode]
    exact h.nodup
  bounded := by
    rw [honly.headnode, honly.allocated]
    exact h.bounded
  height_pos := by
    intro z hz
    rw [honly.height]
    exact h.height_pos z hz
  height_lt := by
    rw [honly.height, honly.maxHeight]
    exact h.height_lt
  linked := by
    intro k hk hSk
    rw [honly.headnode, honly.onLevel]
    by_cases hkl : k = level
    · subst hkl
      exact hlinked hSk
    · exact (h.linked k (honly.maxHeight ▸ hk) ((hS k hkl).1 hSk)).congr (hsame k hkl)
  unlinked := by
    intro k hk hSk
    rw [honly.headnode, honly.onLevel]
    by_cases hkl : k = level
    · subst hkl
      exact hunlinked hSk
    · exact (h.unlinked k (honly.maxHeight ▸ hk) (fun hSk' => hSk ((hS k hkl).2 hSk'))).congr (hsame k hkl)

theorem Partly.onLevel_nodup (h : Partly list A B n S) (level : ℕ) :
    (list.headnode :: list.onLevel level (A ++ n :: B)).Nodup := by
  obtain ⟨hhead, hnodup⟩ := nodup_cons.1 h.nodup
  exact nodup_cons.2 ⟨fun hmem => hhead (mem_onLevel.1 hmem).1, hnodup.filter _⟩

theorem Partly.of_mem_onLevel (h : Partly list A B n S) (hlevel : level < list.maxHeight) (z : ℕ)
    (hz : z ∈ list.headnode :: list.onLevel level (A ++ n :: B)) :
    level < (list.node z).height ∧ z ∈ list.headnode :: (A ++ n :: B) := by
  cases mem_cons.1 hz with
  | inl hhead =>
    rw [hhead, h.head_height]
    exact ⟨hlevel, mem_cons_self⟩
  | inr hL => exact ⟨(mem_onLevel.1 hL).2, mem_cons_of_mem _ (mem_onLevel.1 hL).1⟩

theorem Partly.link (h : Partly list A B n S) (hn : level < (list.node n).height) (hS : ¬S level) :
    ∃ list', list.linkOnLevel n ((list.onLevel level A).getLast?.getD list.headnode) level = some list' ∧
      LinksOnly (list.headnode :: (A ++ n :: B)) list list' ∧ Partly list' A B n fun k => k = level ∨ S k := by
  have hlevel := Nat.lt_trans hn h.height_lt
  have hlinked := h.unlinked level hlevel hS
  have hnodup := h.onLevel_nodup level
  have hL := h.of_mem_onLevel hlevel
  obtain ⟨as, has⟩ := cons_eq_snoc list.headnode (list.onLevel level A)
  rw [onLevel_between hn, ← cons_append, has, append_assoc, singleton_append]
    at hnodup hL
  rw [onLevel_append, ← cons_append, has, append_assoc, singleton_append] at hlinked
  have hperm : ∀ (x : ℕ) (bs : List ℕ), (as ++ x :: n :: bs).Perm (n :: (as ++ x :: bs)) := by
    intro x bs
    rw [append_cons]
    exact perm_middle.trans (by simp)
  obtain ⟨hnfresh, hnodup'⟩ := nodup_cons.1 ((hperm _ _).nodup_iff.1 hnodup)
  have hmem : ∀ z, z ∈ n :: (as ++ (list.onLevel level A).getLast?.getD list.headnode ::
      list.onLevel level B) → z ∈ as ++ (list.onLevel level A).getLast?.getD list.headnode :: n ::
      list.onLevel level B := fun z hz => (hperm _ _).mem_iff.2 hz
  obtain ⟨list', hlink, honly, hlinked', hsame⟩ := linkOnLevel_spec hlinked hnodup' hnfresh
    (fun z hz => (hL z (hmem z (mem_cons_of_mem n hz))).1) hn
    ⟨(hL n (hmem n mem_cons_self)).2, fun z hz => (hL z (hmem z (mem_cons_of_mem n hz))).2⟩
  refine ⟨list', hlink, honly, h.change honly hsame (fun k hk => by simp [hk]) ?_ ?_⟩
  · intro _
    rw [onLevel_between hn, ← cons_append, has, append_assoc]
    exact hlinked'
  · intro hS'
    exact absurd (Or.inl rfl) hS'

theorem Partly.unlink (h : Partly list A B n S) (hn : level < (list.node n).height) (hS : S level) :
    ∃ list', list.unlinkOnLevel n level = some list' ∧ LinksOnly (list.headnode :: (A ++ n :: B)) list list' ∧
      Partly list' A B n fun k => k ≠ level ∧ S k := by
  have hlevel := Nat.lt_trans hn h.height_lt
  have hlinked := h.linked level hlevel hS
  have hnodup := h.onLevel_nodup level
  have hL := h.of_mem_onLevel hlevel
  obtain ⟨as, has⟩ := cons_eq_snoc list.headnode (list.onLevel level A)
  rw [onLevel_between hn, ← cons_append, has, append_assoc, singleton_append]
    at hlinked hnodup hL
  obtain ⟨list', hunlink, honly, hlinked', hsame⟩ :=
    unlinkOnLevel_spec hlinked hnodup (fun z hz => (hL z hz).1) fun z hz => (hL z hz).2
  refine ⟨list', hunlink, honly, h.change honly hsame (fun k hk => by simp [hk]) ?_ ?_⟩
  · intro hS'
    exact absurd rfl hS'.1
  · intro _
    rw [onLevel_append, ← cons_append, has, append_assoc]
    exact hlinked'

theorem Partly.walkBack (h : Partly list A B n S) (hn : level < (list.node n).height) (hS : S level) :
    list.walkBack level list.allocated ((list.onLevel level A).getLast?.getD list.headnode) =
      some ((list.onLevel (level + 1) A).getLast?.getD list.headnode) := by
  have hlevel := Nat.lt_trans hn h.height_lt
  have hlinked := h.linked level hlevel hS
  rw [onLevel_between hn, ← cons_append] at hlinked
  have hhead : level + 1 < (list.node list.headnode).height := by
    have hlt := h.height_lt
    rw [h.head_height]
    omega
  have hlength : (list.onLevel level A).length < list.allocated := by
    have hall := length_le_of_bounded h.nodup h.bounded
    have hA : (list.onLevel level A).length ≤ A.length := length_filter_le _ A
    simp only [length_cons, length_append] at hall
    omega
  rw [walkBack_spec hlinked (fun z hz => (mem_onLevel.1 hz).2) hhead hlength, onLevel_onLevel]

theorem linkOnLevels_spec {levels level : ℕ} (h : Partly list A B n (· < level))
    (hn : level + levels = (list.node n).height) : ∃ list', Handle.linkOnLevels n levels level
        ((list.onLevel level A).getLast?.getD list.headnode) list = some list' ∧
      LinksOnly (list.headnode :: (A ++ n :: B)) list list' ∧ Partly list' A B n (· < level + levels) := by
  induction levels generalizing level list with
  | zero => exact ⟨list, rfl, LinksOnly.refl _ list, h⟩
  | succ levels ih =>
    obtain ⟨list₁, hlink, honly, hpartly⟩ :=
      h.link (show level < (list.node n).height by omega) (Nat.lt_irrefl level)
    have hn₁ := honly.height n
    have hnext : Partly list₁ A B n (· < level + 1) := hpartly.congr fun k => by omega
    have hwalk := hnext.walkBack (show level < (list₁.node n).height by omega) (Nat.lt_succ_self level)
    obtain ⟨list₂, hlinks, honly₂, hpartly₂⟩ := ih hnext (by omega)
    refine ⟨list₂, ?_, honly.trans (honly.headnode ▸ honly₂), hpartly₂.congr fun k => by omega⟩
    rw [honly.onLevel, honly.headnode] at hwalk
    simp [Handle.linkOnLevels, hlink, hwalk, ← hlinks, honly.onLevel, honly.headnode]

theorem unlinkOnLevels_spec {levels level : ℕ} (h : Partly list A B n (level ≤ ·))
    (hn : level + levels = (list.node n).height) :
    ∃ list', Handle.unlinkOnLevels n levels level list = some list' ∧
      LinksOnly (list.headnode :: (A ++ n :: B)) list list' ∧ Partly list' A B n (level + levels ≤ ·) := by
  induction levels generalizing level list with
  | zero => exact ⟨list, rfl, LinksOnly.refl _ list, h⟩
  | succ levels ih =>
    obtain ⟨list₁, hunlink, honly, hpartly⟩ :=
      h.unlink (show level < (list.node n).height by omega) (Nat.le_refl level)
    have hn₁ := honly.height n
    have hnext : Partly list₁ A B n (level + 1 ≤ ·) := hpartly.congr fun k => by omega
    obtain ⟨list₂, hunlinks, honly₂, hpartly₂⟩ := ih hnext (by omega)
    refine ⟨list₂, ?_, honly.trans (honly.headnode ▸ honly₂), hpartly₂.congr fun k => by omega⟩
    simp [Handle.unlinkOnLevels, hunlink, hunlinks]

/-! ## From and to whole levels -/

theorem Levels.partly (h : Levels list (A ++ B)) (hn : n ∉ list.headnode :: (A ++ B))
    (hbounded : n < list.allocated) (hpos : 0 < (list.node n).height)
    (hlt : (list.node n).height < list.maxHeight) : Partly list A B n (· < 0) where
  head_height := h.head_height
  nodup := by
    have hperm : (list.headnode :: (A ++ n :: B)).Perm (n :: list.headnode :: (A ++ B)) :=
      (perm_middle.cons _).trans (List.Perm.swap _ _ _)
    exact hperm.nodup_iff.2 (nodup_cons.2 ⟨hn, h.nodup⟩)
  bounded := by
    intro z hz
    by_cases hzn : z = n
    · exact hzn ▸ hbounded
    · exact h.bounded z (by simpa [hzn] using hz)
  height_pos := by
    intro z hz
    by_cases hzn : z = n
    · exact hzn ▸ hpos
    · exact h.height_pos z (by simpa [hzn] using hz)
  height_lt := hlt
  linked := fun k _ hk => absurd hk (Nat.not_lt_zero k)
  unlinked := fun k hk _ => h.linked k hk

theorem Partly.levels (h : Partly list A B n (· < (list.node n).height)) : Levels list (A ++ n :: B) := { h with
  linked := by
    intro k hk
    by_cases hn : k < (list.node n).height
    · exact h.linked k hk hn
    · rw [onLevel_without (Nat.not_lt.1 hn)]
      exact h.unlinked k hk hn }

theorem Levels.partly_linked (h : Levels list (A ++ n :: B))
    (hlt : (list.node n).height < list.maxHeight) : Partly list A B n (0 ≤ ·) := { h with
  height_lt := hlt
  linked := fun k hk _ => h.linked k hk
  unlinked := fun k _ hk => absurd (Nat.zero_le k) hk }

theorem Partly.levels_without (h : Partly list A B n ((list.node n).height ≤ ·)) : Levels list (A ++ B) where
  head_height := h.head_height
  linked := by
    intro k hk
    by_cases hn : (list.node n).height ≤ k
    · rw [← onLevel_without hn]
      exact h.linked k hk hn
    · exact h.unlinked k hk hn
  height_pos := fun z hz => h.height_pos z (by
    simp only [mem_append, mem_cons] at hz ⊢
    tauto)
  nodup := by
    have hsub : (list.headnode :: (A ++ B)).Sublist (list.headnode :: (A ++ n :: B)) :=
      List.Sublist.cons_cons _ ((sublist_cons_self n B).append_left A)
    exact h.nodup.sublist hsub
  bounded := fun z hz => h.bounded z (by
    simp only [mem_append, mem_cons] at hz ⊢
    tauto)

end ScoreP.Skiplist
