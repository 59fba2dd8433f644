import ScoreP.Skiplist.Links

/-!
# The skiplist keeps a sorted list

`Inv` relates a skiplist to the nodes `L` it holds in order, the nodes `F h` on the freelist of each
height and the nodes `C` that were created and are not inserted yet. Each operation has its lemma:
`createNode_inv`, `insertNode_inv`, `removeNode_inv`, `destroyList_inv`. `calls_represent` puts them
together for every sequence of operations, every random number generator and every seed.
-/

namespace ScoreP.Skiplist

open Foundations Function List

variable {P G : Type} {T : Template P G} {list list' : Handle P G} {L C : List ℕ} {F : ℕ → List ℕ}

structure Inv (T : Template P G) (list : Handle P G) (L : List ℕ) (F : ℕ → List ℕ) (C : List ℕ) :
    Prop where
  levels : Levels list L
  sorted : Sorted T list L
  head_payload : (list.node list.headnode).payload = T.resetPayload T.zeroed
  ceiling : 1 ≤ list.ceiling ∧ list.ceiling < list.maxHeight
  height_le : ∀ n ∈ L, (list.node n).height ≤ list.ceiling
  created : ∀ n ∈ C, n < list.allocated ∧ 0 < (list.node n).height ∧ (list.node n).height < list.maxHeight
  nodup : (C ++ list.headnode :: L).Nodup
  free : ∀ h < list.maxHeight, Chain (fun n => (list.node n).next 0) (list.freelist h) (F h)
  free_nodup : ∀ h < list.maxHeight, (F h).Nodup
  free_node : ∀ h < list.maxHeight, ∀ n ∈ F h, n < list.allocated ∧ (list.node n).height = h ∧
    n ∉ C ++ list.headnode :: L

/-! ## What the parts of the invariant depend on -/

theorem Levels.congr (h : Levels list L) (hhead : list'.headnode = list.headnode)
    (hmax : list'.maxHeight = list.maxHeight) (halloc : list.allocated ≤ list'.allocated)
    (hnode : ∀ z ∈ list.headnode :: L, list'.node z = list.node z) : Levels list' L where
  head_height := by rw [hhead, hmax, hnode _ mem_cons_self, h.head_height]
  linked := by
    intro k hk
    have hon : list'.onLevel k L = list.onLevel k L :=
      filter_congr fun z hz => by rw [hnode z (mem_cons_of_mem _ hz)]
    have hsub : ∀ z ∈ list.headnode :: list.onLevel k L, list'.node z = list.node z := by
      intro z hz
      cases mem_cons.1 hz with
      | inl hz0 => exact hnode z (by simp [hz0])
      | inr hzL => exact hnode z (mem_cons_of_mem _ (mem_onLevel.1 hzL).1)
    rw [hhead, hon]
    exact Linked.congr (h.linked k (hmax ▸ hk)) (fun z hz => by rw [hsub z hz])
      fun z hz => by rw [hsub z hz]
  height_pos := by
    intro z hz
    rw [hnode z (mem_cons_of_mem _ hz)]
    exact h.height_pos z hz
  nodup := by
    rw [hhead]
    exact h.nodup
  bounded := by
    rw [hhead]
    exact fun z hz => Nat.lt_of_lt_of_le (h.bounded z hz) halloc

theorem Sorted.congr (h : Sorted T list L) (hhead : list'.headnode = list.headnode)
    (hpayload : ∀ z ∈ list.headnode :: L, (list'.node z).payload = (list.node z).payload) :
    Sorted T list' L where
  pairwise := by
    refine h.pairwise.imp_of_mem ?_
    intro x y hx hy hxy
    rw [hpayload x (mem_cons_of_mem _ hx), hpayload y (mem_cons_of_mem _ hy)]
    exact hxy
  head_lt := by
    intro z hz
    rw [hhead, hpayload _ mem_cons_self, hpayload z (mem_cons_of_mem _ hz)]
    exact h.head_lt z hz

/-! ## create_node -/

def SameList (list list' : Handle P G) : Prop :=
  ∃ seed bits available, list' =
    { list with randomSeed := seed, randomBits := bits, bitsAvailable := available }

theorem SameList.trans {list'' : Handle P G} (h : SameList list list')
    (h' : SameList list' list'') : SameList list list'' := by
  obtain ⟨_, _, _, rfl⟩ := h
  obtain ⟨seed, bits, available, rfl⟩ := h'
  exact ⟨seed, bits, available, rfl⟩

theorem flipCoin_sameList : SameList list (list.flipCoin T).2 := by
  unfold Handle.flipCoin
  by_cases hbits : list.bitsAvailable = 0
  · rw [if_pos hbits]
    exact ⟨_, _, _, rfl⟩
  · rw [if_neg hbits]
    exact ⟨_, _, _, rfl⟩

theorem flipCoins_spec {fuel height : ℕ} (hpos : 0 < height) (hlt : height < list.maxHeight)
    (hfuel : list.maxHeight ≤ fuel + height) :
    ∃ height' list', Handle.flipCoins T fuel height list = some (height', list') ∧
      0 < height' ∧ height' < list.maxHeight ∧ SameList list list' := by
  induction fuel generalizing height list with
  | zero => omega
  | succ fuel ih =>
    unfold Handle.flipCoins
    by_cases hroom : height < list.maxHeight - 1
    · have hflip : SameList list (list.flipCoin T).2 := flipCoin_sameList
      rw [if_pos hroom]
      generalize list.flipCoin T = flip at hflip
      obtain ⟨coinFlipResult, list₁⟩ := flip
      have hsame : SameList list list₁ := hflip
      have hmax : list₁.maxHeight = list.maxHeight := by
        obtain ⟨_, _, _, hlist₁⟩ := hsame
        rw [hlist₁]
      by_cases hcoin : coinFlipResult = 1
      · obtain ⟨height', list', hflips, hpos', hlt', hsame'⟩ :=
          ih (Nat.succ_pos height) (show height + 1 < list₁.maxHeight by omega) (by omega)
        exact ⟨height', list', by simp [hcoin, hflips], hpos', hmax ▸ hlt', hsame.trans hsame'⟩
      · exact ⟨height, list₁, by simp [hcoin], hpos, hlt, hsame⟩
    · rw [if_neg hroom]
      exact ⟨height, list, rfl, hpos, hlt, _, _, _, rfl⟩

theorem Inv.sameList (h : Inv T list L F C) (hsame : SameList list list') : Inv T list' L F C := by
  obtain ⟨_, _, _, rfl⟩ := hsame
  exact
    { levels := h.levels.congr rfl rfl (Nat.le_refl _) fun _ _ => rfl
      sorted := h.sorted.congr rfl fun _ _ => rfl
      head_payload := h.head_payload
      ceiling := h.ceiling
      height_le := h.height_le
      created := h.created
      nodup := h.nodup
      free := h.free
      free_nodup := h.free_nodup
      free_node := h.free_node }

theorem allocateNode_inv (h : Inv T list L F C) {height : ℕ} (hpos : 0 < height)
    (hlt : height < list.maxHeight) : Inv T (list.allocateNodeOfHeight T height).2 L F (list.allocated :: C) ∧
      ∀ z ∈ list.headnode :: L, ((list.allocateNodeOfHeight T height).2.node z) = list.node z := by
  have hold : ∀ z, z < list.allocated → (list.allocateNodeOfHeight T height).2.node z = list.node z := by
    intro z hz
    have hne : z ≠ list.allocated := Nat.ne_of_lt hz
    simp [Handle.allocateNodeOfHeight, hne]
  have hlinked : ∀ z ∈ list.headnode :: L, (list.allocateNodeOfHeight T height).2.node z = list.node z :=
    fun z hz => hold z (h.levels.bounded z hz)
  refine ⟨?_, hlinked⟩
  exact
    { levels := h.levels.congr rfl rfl (Nat.le_succ _) hlinked
      sorted := h.sorted.congr rfl fun z hz => by rw [hlinked z hz]
      head_payload := by
        rw [← h.head_payload, ← hlinked list.headnode mem_cons_self]
        rfl
      ceiling := h.ceiling
      height_le := by
        intro n hn
        rw [hlinked n (mem_cons_of_mem _ hn)]
        exact h.height_le n hn
      created := by
        intro n hn
        cases mem_cons.1 hn with
        | inl hnew => simp [hnew, Handle.allocateNodeOfHeight, hpos, hlt]
        | inr hnC =>
          obtain ⟨hn_lt, hheight⟩ := h.created n hnC
          rw [hold n hn_lt]
          exact ⟨Nat.lt_succ_of_lt hn_lt, hheight⟩
      nodup := by
        refine nodup_cons.2 ⟨fun hmem => ?_, h.nodup⟩
        cases mem_append.1 hmem with
        | inl hC => exact Nat.lt_irrefl _ (h.created _ hC).1
        | inr hL => exact Nat.lt_irrefl _ (h.levels.bounded _ hL)
      free := by
        intro k hk
        exact (h.free k hk).congr fun z hz => by rw [hold z (h.free_node k hk z hz).1]
      free_nodup := h.free_nodup
      free_node := by
        intro k hk n hn
        obtain ⟨hn_lt, hheight, hmem⟩ := h.free_node k hk n hn
        rw [hold n hn_lt]
        refine ⟨Nat.lt_succ_of_lt hn_lt, hheight, ?_⟩
        rw [cons_append, mem_cons, not_or]
        exact ⟨Nat.ne_of_lt hn_lt, hmem⟩ }

theorem takeFree_inv (h : Inv T list L F C) {height n : ℕ} (hpos : 0 < height)
    (hlt : height < list.maxHeight) (hfree : list.freelist height = some n) :
    ∃ list' F', list.getNodeOfHeight T height = some (n, list') ∧ Inv T list' L F' (n :: C) ∧
      ∀ z ∈ list.headnode :: L, list'.node z = list.node z := by
  have hchain := h.free height hlt
  obtain ⟨rest, hF⟩ : ∃ rest, F height = n :: rest := by
    cases hFh : F height with
    | nil =>
      rw [hFh, hfree] at hchain
      cases hchain
    | cons m rest =>
      rw [hFh, hfree] at hchain
      exact ⟨rest, by rw [Option.some.inj (chain_cons.1 hchain).1]⟩
  rw [hF] at hchain
  obtain ⟨-, hrest⟩ := chain_cons.1 hchain
  obtain ⟨hn_lt, hnheight, hnC⟩ := h.free_node height hlt n (by simp [hF])
  have hnrest := h.free_nodup height hlt
  rw [hF] at hnrest
  obtain ⟨hnrest, hrest_nodup⟩ := nodup_cons.1 hnrest
  have hlevel : 0 < (list.node n).height := by omega
  have hlinked : ∀ z ∈ list.headnode :: L, (list.withNext n 0 none).node z = list.node z := by
    intro z hz
    have hzn : z ≠ n := fun e => hnC (mem_append_right C (e ▸ hz))
    simp [Handle.withNext, hzn]
  refine ⟨{ list.withNext n 0 none with
      freelist := update list.freelist height ((list.node n).next 0) },
    update F height rest, ?_, ?_, hlinked⟩
  · simp [Handle.getNodeOfHeight, hlt, hfree, Handle.next, hlevel, Handle.setNext, Handle.withNext]
  · exact
      { levels := h.levels.congr rfl rfl (Nat.le_refl _) hlinked
        sorted := h.sorted.congr rfl fun z hz => by rw [hlinked z hz]
        head_payload := by
          rw [← h.head_payload]
          exact congrArg Node.payload (hlinked list.headnode mem_cons_self)
        ceiling := h.ceiling
        height_le := by
          intro z hz
          rw [hlinked z (mem_cons_of_mem _ hz)]
          exact h.height_le z hz
        created := by
          intro z hz
          simp only [Handle.withNext_height]
          cases mem_cons.1 hz with
          | inl hzn =>
            rw [hzn, hnheight]
            exact ⟨hn_lt, hpos, hlt⟩
          | inr hzC => exact h.created z hzC
        nodup := nodup_cons.2 ⟨hnC, h.nodup⟩
        free := by
          intro k hk
          by_cases hkh : k = height
          · subst hkh
            simp only [update_self]
            refine Chain.congr hrest fun z hz => ?_
            have hzn : z ≠ n := fun e => hnrest (e ▸ hz)
            simp [hzn]
          · simp only [update_of_ne hkh]
            refine (h.free k hk).congr fun z hz => ?_
            have hzn : z ≠ n := by
              intro e
              have hzheight := (h.free_node k hk z hz).2.1
              rw [e, hnheight] at hzheight
              exact hkh hzheight.symm
            simp [hzn]
        free_nodup := by
          intro k hk
          by_cases hkh : k = height
          · subst hkh
            simpa using hrest_nodup
          · simpa [hkh] using h.free_nodup k hk
        free_node := by
          intro k hk z hz
          simp only [Handle.withNext_height]
          have hzF : z ∈ F k ∧ z ≠ n := by
            by_cases hkh : k = height
            · subst hkh
              rw [update_self] at hz
              exact ⟨by simp [hF, hz], fun e => hnrest (e ▸ hz)⟩
            · rw [update_of_ne hkh] at hz
              refine ⟨hz, fun e => hkh ?_⟩
              rw [← (h.free_node k hk z hz).2.1, e, hnheight]
          obtain ⟨hz_lt, hzheight, hzC⟩ := h.free_node k hk z hzF.1
          refine ⟨hz_lt, hzheight, ?_⟩
          rw [cons_append, mem_cons, not_or]
          exact ⟨hzF.2, hzC⟩ }

theorem createNode_inv (h : Inv T list L F C) :
    ∃ n list' F', list.createNode T = some (n, list') ∧ Inv T list' L F' (n :: C) ∧
      ∀ z ∈ list.headnode :: L, list'.node z = list.node z := by
  have hmax := h.ceiling
  obtain ⟨height, list₁, hflips, hpos, hlt, hsame⟩ := flipCoins_spec (T := T) Nat.one_pos
    (show 1 < list.maxHeight by omega) (show list.maxHeight ≤ list.maxHeight + 1 by omega)
  have hinv := h.sameList hsame
  have hfields : list₁.maxHeight = list.maxHeight ∧ list₁.node = list.node ∧
      list₁.headnode = list.headnode := by
    obtain ⟨_, _, _, rfl⟩ := hsame
    exact ⟨rfl, rfl, rfl⟩
  obtain ⟨hmax₁, hnode, hhead⟩ := hfields
  rw [← hnode, ← hhead]
  simp only [Handle.createNode, Handle.computeRandomHeight, hflips]
  cases hfree : list₁.freelist height with
  | none =>
    obtain ⟨hinv', hlinked⟩ := allocateNode_inv hinv hpos (hmax₁ ▸ hlt)
    refine ⟨_, _, F, ?_, hinv', hlinked⟩
    simp [Handle.getNodeOfHeight, hfree, hmax₁, hlt, Handle.allocateNodeOfHeight]
  | some n =>
    obtain ⟨list', F', hget, hinv', hlinked⟩ := takeFree_inv hinv hpos (hmax₁ ▸ hlt) hfree
    exact ⟨n, list', F', hget, hinv', hlinked⟩

/-! ## insert_node -/

theorem withPayload_node {n z : ℕ} {payload : P} (hz : z ≠ n) :
    (list.withPayload n payload).node z = list.node z := by
  simp [Handle.withPayload, hz]

theorem withPayload_height (n z : ℕ) (payload : P) :
    ((list.withPayload n payload).node z).height = (list.node z).height := by
  unfold Handle.withPayload
  by_cases hz : z = n
  · subst hz
    simp
  · simp [hz]

theorem withPayload_next (n z : ℕ) (payload : P) :
    ((list.withPayload n payload).node z).next = (list.node z).next := by
  unfold Handle.withPayload
  by_cases hz : z = n
  · subst hz
    simp
  · simp [hz]

variable {n : ℕ}

theorem Inv.withPayload (h : Inv T list L F C) {payload : P} (hhead : list.headnode ≠ n)
    (hlevels : Levels (list.withPayload n payload) L) (hsorted : Sorted T (list.withPayload n payload) L) :
    Inv T (list.withPayload n payload) L F C where
  levels := hlevels
  sorted := hsorted
  head_payload := by
    rw [← h.head_payload]
    exact congrArg Node.payload (withPayload_node hhead)
  ceiling := h.ceiling
  height_le := by
    intro z hz
    rw [withPayload_height]
    exact h.height_le z hz
  created := by
    intro z hz
    rw [withPayload_height]
    exact h.created z hz
  nodup := h.nodup
  free := by
    intro k hk
    exact (h.free k hk).congr fun z _ => by rw [withPayload_next]
  free_nodup := h.free_nodup
  free_node := by
    intro k hk z hz
    rw [withPayload_height]
    exact h.free_node k hk z hz

theorem assign_inv (h : Inv T list L F C) (hn : n ∈ C) (payload : P) :
    Inv T (list.withPayload n payload) L F C := by
  have hfresh : ∀ z ∈ list.headnode :: L, z ≠ n := by
    intro z hz e
    exact (nodup_append.1 h.nodup).2.2 n hn z hz e.symm
  have hlinked : ∀ z ∈ list.headnode :: L, (list.withPayload n payload).node z = list.node z :=
    fun z hz => withPayload_node (hfresh z hz)
  exact h.withPayload (hfresh _ mem_cons_self) (h.levels.congr rfl rfl (Nat.le_refl _) hlinked)
    (h.sorted.congr rfl fun z hz => by rw [hlinked z hz])

theorem withPayload_prev (n z : ℕ) (payload : P) :
    ((list.withPayload n payload).node z).prev = (list.node z).prev := by
  unfold Handle.withPayload
  by_cases hz : z = n
  · subst hz
    simp
  · simp [hz]

theorem Inv.touch (h : Inv T list L F C) (hn : n ∈ L) {payload : P}
    (hleft : ∀ q, T.cmp payload q = T.cmp (list.node n).payload q)
    (hright : ∀ q, T.cmp q payload = T.cmp q (list.node n).payload) :
    Inv T (list.withPayload n payload) L F C := by
  have hcmp : ∀ x y, T.cmp ((list.withPayload n payload).node x).payload
      ((list.withPayload n payload).node y).payload =
        T.cmp (list.node x).payload (list.node y).payload := by
    intro x y
    by_cases hx : x = n <;> by_cases hy : y = n <;> simp [Handle.withPayload, hx, hy, hleft, hright]
  apply h.withPayload fun e => (nodup_cons.1 h.levels.nodup).1 (e ▸ hn)
  · exact
      { head_height := by
          rw [withPayload_height]
          exact h.levels.head_height
        linked := by
          intro k hk
          have hon : (list.withPayload n payload).onLevel k L = list.onLevel k L :=
            filter_congr fun z _ => by rw [withPayload_height]
          rw [hon]
          exact Linked.congr (h.levels.linked k hk) (fun z _ => by rw [withPayload_next])
            fun z _ => by rw [withPayload_prev]
        height_pos := by
          intro z hz
          rw [withPayload_height]
          exact h.levels.height_pos z hz
        nodup := h.levels.nodup
        bounded := h.levels.bounded }
  · exact
      { pairwise := h.sorted.pairwise.imp fun {x y} hxy => (hcmp x y).symm ▸ hxy
        head_lt := fun z hz => (hcmp _ z).symm ▸ h.sorted.head_lt z hz }

variable {A B : List ℕ}

theorem Sorted.insert (h : Sorted T list (A ++ B)) (hbound : Bound T list A B (list.node n).payload)
    (hhead : T.cmp (list.node list.headnode).payload (list.node n).payload < 0) :
    Sorted T list (A ++ n :: B) where
  pairwise := by
    obtain ⟨hA, hB, hAB⟩ := pairwise_append.1 h.pairwise
    refine pairwise_append.2 ⟨hA, pairwise_cons.2 ⟨hbound.ge, hB⟩, ?_⟩
    intro a ha b hb
    cases mem_cons.1 hb with
    | inl hbn => exact hbn ▸ hbound.le a ha
    | inr hbB => exact hAB a ha b hbB
  head_lt := by
    intro z hz
    by_cases hzn : z = n
    · exact hzn ▸ hhead
    · exact h.head_lt z (by simpa [hzn] using hz)

theorem perm_insert {n head : ℕ} (hn : n ∈ C) :
    (C.erase n ++ head :: (A ++ n :: B)).Perm (C ++ head :: (A ++ B)) := by
  have hmiddle : (head :: (A ++ n :: B)).Perm (n :: head :: (A ++ B)) :=
    (perm_middle.cons head).trans (List.Perm.swap n head _)
  refine (hmiddle.append_left (C.erase n)).trans (perm_middle.trans ?_)
  exact (perm_cons_erase hn).symm.append_right _

theorem insertNode_inv (hT : T.Lawful) (h : Inv T list L F C) (hn : n ∈ C)
    (hlt : T.cmp (T.resetPayload T.zeroed) (list.node n).payload < 0) :
    ∃ list' A B, list.insertNode T n = some list' ∧ L = A ++ B ∧ Inv T list' (A ++ n :: B) F (C.erase n) ∧
      ∀ z, (list'.node z).payload = (list.node z).payload := by
  obtain ⟨hnlt, hnpos, hnheight⟩ := h.created n hn
  obtain ⟨A, B, rfl, hlower, hbound⟩ := lowerBound_spec hT h.levels h.sorted
    ⟨h.ceiling.1, Nat.le_of_lt h.ceiling.2⟩ (list.node n).payload
  obtain ⟨hCnodup, hLnodup, hdisj⟩ := nodup_append.1 h.nodup
  have hfresh : n ∉ list.headnode :: (A ++ B) := fun hmem => hdisj n hn n hmem rfl
  have hpartly := h.levels.partly hfresh hnlt hnpos hnheight
  obtain ⟨list₁, hlinks, honly, hpartly₁⟩ :=
    linkOnLevels_spec hpartly (Nat.zero_add (list.node n).height)
  have hA : list.onLevel 0 A = A :=
    filter_eq_self.2 fun z hz => by
      simpa using h.levels.height_pos z (mem_append_left B hz)
  rw [hA] at hlinks
  have hlevels₁ : Levels list₁ (A ++ n :: B) :=
    Partly.levels (hpartly₁.congr fun k => by rw [Nat.zero_add, honly.height])
  have hsorted₁ : Sorted T list₁ (A ++ n :: B) :=
    (h.sorted.insert hbound (h.head_payload ▸ hlt)).congr honly.headnode fun z _ => honly.payload z
  refine ⟨{ list₁ with ceiling := max list₁.ceiling (list₁.node n).height }, A, B, ?_, rfl, ?_, honly.payload⟩
  · simp [Handle.insertNode, hlower, hlinks]
  · have hceiling := h.ceiling
    have hframe : ∀ k < list.maxHeight, ∀ z ∈ F k, list₁.node z = list.node z := by
      intro k hk z hz
      refine honly.frame z fun hmem => ?_
      have hzC := (h.free_node k hk z hz).2.2
      by_cases hzn : z = n
      · exact hzC (mem_append_left _ (hzn ▸ hn))
      · exact hzC (mem_append_right C (by simpa [hzn] using hmem))
    exact
      { levels := hlevels₁.congr rfl rfl (Nat.le_refl _) fun _ _ => rfl
        sorted := hsorted₁.congr rfl fun _ _ => rfl
        head_payload := by
          rw [← h.head_payload, ← honly.payload, ← honly.headnode]
        ceiling := by
          simp only [honly.ceiling, honly.height, honly.maxHeight]
          omega
        height_le := by
          intro z hz
          simp only [honly.ceiling, honly.height]
          by_cases hzn : z = n
          · subst hzn
            exact Nat.le_max_right _ _
          · exact Nat.le_trans (h.height_le z (by simpa [hzn] using hz)) (Nat.le_max_left _ _)
        created := by
          intro z hz
          simp only [honly.allocated, honly.height, honly.maxHeight]
          exact h.created z (mem_of_mem_erase hz)
        nodup := by
          simp only [honly.headnode]
          exact (perm_insert hn).nodup_iff.2 h.nodup
        free := by
          intro k hk
          simp only [honly.freelist, honly.maxHeight] at hk ⊢
          exact (h.free k hk).congr fun z hz => by rw [hframe k hk z hz]
        free_nodup := by
          simp only [honly.maxHeight]
          exact h.free_nodup
        free_node := by
          intro k hk z hz
          simp only [honly.maxHeight] at hk
          obtain ⟨hzlt, hzheight, hzC⟩ := h.free_node k hk z hz
          simp only [honly.allocated, honly.height, honly.headnode]
          exact ⟨hzlt, hzheight, fun hmem => hzC ((perm_insert hn).mem_iff.1 hmem)⟩ }

/-! ## remove_node -/

theorem resetNodeLinks_node {n z : ℕ} (hz : z ≠ n) : (list.resetNodeLinks n).node z = list.node z := by
  simp [Handle.resetNodeLinks, hz]

theorem resetNodeLinks_height (n z : ℕ) : ((list.resetNodeLinks n).node z).height = (list.node z).height := by
  unfold Handle.resetNodeLinks
  by_cases hz : z = n
  · subst hz
    simp
  · simp [hz]

theorem Sorted.without (h : Sorted T list (A ++ n :: B)) : Sorted T list (A ++ B) where
  pairwise := h.pairwise.sublist ((sublist_cons_self n B).append_left A)
  head_lt := fun z hz => h.head_lt z (by
    simp only [mem_append, mem_cons] at hz ⊢
    tauto)

theorem unlink_inv (h : Inv T list (A ++ n :: B) F C) :
    ∃ list', Handle.unlinkOnLevels n (list.node n).height 0 list = some list' ∧
      Inv T list' (A ++ B) F C ∧ LinksOnly (list.headnode :: (A ++ n :: B)) list list' := by
  have hmax := Nat.lt_of_le_of_lt (h.height_le n (by simp)) h.ceiling.2
  obtain ⟨list', hunlinks, honly, hpartly⟩ := unlinkOnLevels_spec
    (h.levels.partly_linked hmax) (Nat.zero_add (list.node n).height)
  have hlevels : Levels list' (A ++ B) :=
    Partly.levels_without (hpartly.congr fun k => by rw [Nat.zero_add, honly.height])
  have hsub : (A ++ B).Sublist (A ++ n :: B) := (sublist_cons_self n B).append_left A
  have hsub' := (hsub.cons_cons list.headnode).append_left C
  refine ⟨list', hunlinks, ?_, honly⟩
  exact
    { levels := hlevels
      sorted := h.sorted.without.congr honly.headnode fun z _ => honly.payload z
      head_payload := by rw [← h.head_payload, ← honly.payload, ← honly.headnode]
      ceiling := by
        rw [honly.ceiling, honly.maxHeight]
        exact h.ceiling
      height_le := by
        intro z hz
        rw [honly.ceiling, honly.height]
        exact h.height_le z (hsub.subset hz)
      created := by
        intro z hz
        rw [honly.allocated, honly.height, honly.maxHeight]
        exact h.created z hz
      nodup := by
        rw [honly.headnode]
        exact h.nodup.sublist hsub'
      free := by
        intro k hk
        rw [honly.maxHeight] at hk
        rw [honly.freelist]
        refine (h.free k hk).congr fun z hz => ?_
        rw [honly.frame z fun hmem => (h.free_node k hk z hz).2.2 (mem_append_right C hmem)]
      free_nodup := by
        rw [honly.maxHeight]
        exact h.free_nodup
      free_node := by
        intro k hk z hz
        rw [honly.maxHeight] at hk
        obtain ⟨hzlt, hzheight, hzC⟩ := h.free_node k hk z hz
        rw [honly.allocated, honly.height, honly.headnode]
        exact ⟨hzlt, hzheight, fun hmem => hzC (hsub'.subset hmem)⟩ }

theorem release_inv (h : Inv T list L F C) (hn : n ∉ C ++ list.headnode :: L)
    (hnF : ∀ k < list.maxHeight, n ∉ F k) (hnlt : n < list.allocated)
    (hpos : 0 < (list.node n).height) (hmax : (list.node n).height < list.maxHeight) (payload : P) :
    ∃ list' F', ((list.withPayload n payload).resetNodeLinks n).pushFree n = some list' ∧
      Inv T list' L F' C ∧ list'.headnode = list.headnode ∧ list'.allocated = list.allocated ∧
      ∀ z, z ≠ n → (list'.node z).payload = (list.node z).payload := by
  obtain ⟨list₁, hlist₁⟩ : ∃ list₁, list₁ = (list.withPayload n payload).resetNodeLinks n := ⟨_, rfl⟩
  have hfields : list₁.headnode = list.headnode ∧ list₁.ceiling = list.ceiling ∧
      list₁.maxHeight = list.maxHeight ∧ list₁.allocated = list.allocated ∧
      list₁.freelist = list.freelist := by
    rw [hlist₁]
    exact ⟨rfl, rfl, rfl, rfl, rfl⟩
  obtain ⟨hhead₁, hceiling₁, hmax₁, halloc₁, hfree₁⟩ := hfields
  have hheight : ∀ z, (list₁.node z).height = (list.node z).height := by
    intro z
    rw [hlist₁, resetNodeLinks_height, withPayload_height]
  have hnode : ∀ z, z ≠ n →
      (list₁.withNext n 0 (list.freelist (list.node n).height)).node z = list.node z := by
    intro z hz
    have hz₁ : list₁.node z = list.node z := by
      rw [hlist₁, resetNodeLinks_node hz, withPayload_node hz]
    simpa [Handle.withNext, hz] using hz₁
  have hlinked : ∀ z ∈ list.headnode :: L,
      (list₁.withNext n 0 (list.freelist (list.node n).height)).node z = list.node z :=
    fun z hz => hnode z fun e => hn (mem_append_right C (e ▸ hz))
  refine ⟨{ list₁.withNext n 0 (list.freelist (list.node n).height) with
      freelist := update list.freelist (list.node n).height (some n) },
    update F (list.node n).height (n :: F (list.node n).height), ?_, ?_, hhead₁, halloc₁,
    fun z hz => congrArg Node.payload (hnode z hz)⟩
  · rw [← hlist₁]
    simp [Handle.pushFree, Handle.setNext, hheight, hpos, hmax, hmax₁, hfree₁, Handle.withNext]
  · exact
      { levels := h.levels.congr hhead₁ hmax₁ (Nat.le_of_eq halloc₁.symm) hlinked
        sorted := h.sorted.congr hhead₁ fun z hz => congrArg Node.payload (hlinked z hz)
        head_payload := by
          rw [← h.head_payload, ← hlinked _ mem_cons_self]
          exact congrArg (fun z => (((list₁.withNext n 0
            (list.freelist (list.node n).height)).node z).payload)) hhead₁
        ceiling := by
          have hceiling := h.ceiling
          rw [← hceiling₁, ← hmax₁] at hceiling
          exact hceiling
        height_le := by
          intro z hz
          simp only [Handle.withNext_height, hheight]
          exact hceiling₁ ▸ h.height_le z hz
        created := by
          intro z hz
          simp only [Handle.withNext_height, hheight]
          exact hmax₁ ▸ halloc₁ ▸ h.created z hz
        nodup := hhead₁ ▸ h.nodup
        free := by
          intro k hk
          have hk' : k < list.maxHeight := hmax₁ ▸ hk
          by_cases hkn : k = (list.node n).height
          · subst hkn
            simp only [update_self]
            refine chain_cons.2 ⟨rfl, ?_⟩
            rw [Handle.withNext_next list₁ n 0 n 0, if_pos ⟨rfl, rfl⟩]
            refine (h.free _ hk').congr fun z hz => ?_
            have hzn : z ≠ n := fun e => hnF _ hk' (e ▸ hz)
            exact congrFun (congrArg Node.next (hnode z hzn)) 0
          · simp only [update_of_ne hkn]
            refine (h.free k hk').congr fun z hz => ?_
            have hzn : z ≠ n := fun e => hnF k hk' (e ▸ hz)
            exact congrFun (congrArg Node.next (hnode z hzn)) 0
        free_nodup := by
          intro k hk
          have hk' : k < list.maxHeight := hmax₁ ▸ hk
          by_cases hkn : k = (list.node n).height
          · subst hkn
            rw [update_self]
            exact nodup_cons.2 ⟨hnF _ hk', h.free_nodup _ hk'⟩
          · rw [update_of_ne hkn]
            exact h.free_nodup k hk'
        free_node := by
          intro k hk z hz
          have hk' : k < list.maxHeight := hmax₁ ▸ hk
          simp only [Handle.withNext_height, hheight]
          by_cases hzn : z = n ∧ k = (list.node n).height
          · obtain ⟨rfl, rfl⟩ := hzn
            exact ⟨halloc₁ ▸ hnlt, rfl, hhead₁ ▸ hn⟩
          · have hzF : z ∈ F k := by
              by_cases hkn : k = (list.node n).height
              · subst hkn
                rw [update_self] at hz
                exact (mem_cons.1 hz).resolve_left fun e => hzn ⟨e, rfl⟩
              · rwa [update_of_ne hkn] at hz
            exact halloc₁ ▸ hhead₁ ▸ h.free_node k hk' z hzF }

theorem removeNode_inv (h : Inv T list (A ++ n :: B) F C) :
    ∃ list' F', list.removeNode T n = some list' ∧ Inv T list' (A ++ B) F' C ∧
      list'.headnode = list.headnode ∧ list'.allocated = list.allocated ∧
      ∀ z, z ≠ n → (list'.node z).payload = (list.node z).payload := by
  have hnL : n ∈ A ++ n :: B := by simp
  have hmax := Nat.lt_of_le_of_lt (h.height_le n hnL) h.ceiling.2
  obtain ⟨list₁, hunlinks, hinv, honly⟩ := unlink_inv h
  have hfresh : n ∉ C ++ list₁.headnode :: (A ++ B) := by
    have hperm : (C ++ list.headnode :: (A ++ n :: B)).Perm (n :: (C ++ list.headnode :: (A ++ B))) := by
      have hmiddle : (list.headnode :: (A ++ n :: B)).Perm (n :: list.headnode :: (A ++ B)) :=
        (perm_middle.cons list.headnode).trans (List.Perm.swap n list.headnode _)
      exact (hmiddle.append_left C).trans perm_middle
    rw [honly.headnode]
    exact (nodup_cons.1 (hperm.nodup_iff.1 h.nodup)).1
  obtain ⟨list', F', hpush, hinv', hhead, halloc, hpayload⟩ := release_inv hinv hfresh
    (fun k hk hmem => (h.free_node k (honly.maxHeight ▸ hk) n hmem).2.2
      (mem_append_right C (mem_cons_of_mem _ hnL)))
    (honly.allocated ▸ h.levels.bounded n (mem_cons_of_mem _ hnL))
    (honly.height n ▸ h.levels.height_pos n hnL)
    (honly.height n ▸ honly.maxHeight ▸ hmax) (T.resetPayload (list₁.node n).payload)
  refine ⟨list', F', ?_, hinv', hhead.trans honly.headnode, halloc.trans honly.allocated, ?_⟩
  · simpa [Handle.removeNode, hunlinks] using hpush
  · intro z hz
    rw [hpayload z hz, honly.payload]

/-! ## destroy_list -/

theorem Levels.first (h : Levels list L) (hmax : 0 < list.maxHeight) :
    list.next list.headnode 0 = some L.head? := by
  have hhead : 0 < (list.node list.headnode).height := by
    rw [h.head_height]
    exact hmax
  have hlinked := h.linked 0 hmax
  rw [h.onLevel_zero] at hlinked
  have hnext : (list.node list.headnode).next 0 = L.head? := by
    rw [Linked.next_eq (show list.LinkedOn 0 ([] ++ list.headnode :: L) from hlinked), Option.or_none]
  simp [Handle.next, hhead, hnext]

theorem Levels.following (h : Levels list (A ++ n :: B)) (hmax : 0 < list.maxHeight) :
    list.next n 0 = some B.head? := by
  have hheight := h.height_pos n (by simp)
  have hlinked := h.linked 0 hmax
  rw [h.onLevel_zero] at hlinked
  have hnext : (list.node n).next 0 = B.head? := by
    rw [Linked.next_eq (show list.LinkedOn 0 ((list.headnode :: A) ++ n :: B) from hlinked), Option.or_none]
  simp [Handle.next, hheight, hnext]

theorem removeNodes_inv {fuel : ℕ} (h : Inv T list L F C) (hfuel : L.length < fuel) :
    ∃ list' F', Handle.removeNodes T fuel list = some list' ∧ Inv T list' [] F' C := by
  induction L generalizing fuel list F with
  | nil =>
    obtain ⟨fuel, rfl⟩ : ∃ k, fuel = k + 1 := ⟨fuel - 1, by omega⟩
    refine ⟨list, F, ?_, h⟩
    simp [Handle.removeNodes, h.levels.first (by have := h.ceiling; omega)]
  | cons n L ih =>
    obtain ⟨fuel, rfl⟩ : ∃ k, fuel = k + 1 := ⟨fuel - 1, by omega⟩
    obtain ⟨list₁, F₁, hremove, hinv₁, -⟩ := removeNode_inv (A := []) h
    obtain ⟨list', F', hremoves, hinv'⟩ :=
      ih hinv₁ (show L.length < fuel by simpa using hfuel)
    refine ⟨list', F', ?_, hinv'⟩
    simp [Handle.removeNodes, h.levels.first (by have := h.ceiling; omega), hremove, hremoves]

theorem destroyList_inv (h : Inv T list L F C) :
    ∃ list' F', list.destroyList T = some list' ∧ Inv T list' [] F' C :=
  removeNodes_inv h h.levels.length_lt

/-! ## create_list -/

theorem createList_inv (T : Template P G) {maxHeight : ℕ} (hmax : 2 ≤ maxHeight) (seed : G) :
    Inv T (Handle.createList T maxHeight seed) [] (fun _ => []) [] where
  levels :=
    { head_height := by simp [Handle.createList, Handle.allocateNodeOfHeight]
      linked := by
        intro k _
        simp [Handle.LinkedOn, Handle.onLevel, Linked, Handle.createList, Handle.allocateNodeOfHeight]
      height_pos := by simp
      nodup := by simp
      bounded := by simp [Handle.createList, Handle.allocateNodeOfHeight] }
  sorted := ⟨List.Pairwise.nil, by simp⟩
  head_payload := by simp [Handle.createList, Handle.allocateNodeOfHeight]
  ceiling := by
    simp only [Handle.createList, Handle.allocateNodeOfHeight]
    omega
  height_le := by simp
  created := by simp
  nodup := by simp
  free := fun _ _ => rfl
  free_nodup := by simp
  free_node := by simp

/-! ## Sequences of operations -/

inductive Op (P : Type)
  | create
  | insert (node : ℕ) (payload : P)
  | lowerBound (searchElement : P)
  | remove (node : ℕ)
  | destroy

structure Ledger (P : Type) where
  stored : List (ℕ × P)
  created : List ℕ

/-- The payload belongs behind the headnode, a node is inserted once, and a removed node is
linked. -/
def Op.Legal (T : Template P G) (ledger : Ledger P) : Op P → Prop
  | .insert node payload =>
    node ∈ ledger.created ∧ T.cmp (T.resetPayload T.zeroed) payload < 0
  | .remove node => node ∈ ledger.stored.map Prod.fst
  | _ => True

instance (T : Template P G) (ledger : Ledger P) (op : Op P) : Decidable (op.Legal T ledger) :=
  match op with
  | .create => isTrue trivial
  | .insert node payload => inferInstanceAs
      (Decidable (node ∈ ledger.created ∧ T.cmp (T.resetPayload T.zeroed) payload < 0))
  | .lowerBound _ => isTrue trivial
  | .remove node => inferInstanceAs (Decidable (node ∈ ledger.stored.map Prod.fst))
  | .destroy => isTrue trivial

def step (T : Template P G) (list : Handle P G) (ledger : Ledger P) : Op P → Option (Handle P G × Ledger P)
  | .create => do
    let (node, list) ← list.createNode T
    return (list, { ledger with created := node :: ledger.created })
  | .insert node payload => do
    let list ← (list.withPayload node payload).insertNode T node
    return (list, { stored := (node, payload) :: ledger.stored, created := ledger.created.erase node })
  | .lowerBound searchElement => do
    let _ ← list.lowerBound T searchElement
    return (list, ledger)
  | .remove node => do
    let list ← list.removeNode T node
    return (list, { ledger with stored := ledger.stored.filter fun entry => entry.1 ≠ node })
  | .destroy => do
    let list ← list.destroyList T
    return (list, { ledger with stored := [] })

def run (T : Template P G) (list : Handle P G) (ledger : Ledger P) :
    List (Op P) → Option (Handle P G × Ledger P)
  | [] => some (list, ledger)
  | op :: ops => do
    let (list, ledger) ← step T list ledger op
    run T list ledger ops

def LegalRun (T : Template P G) (list : Handle P G) (ledger : Ledger P) : List (Op P) → Prop
  | [] => True
  | op :: ops => op.Legal T ledger ∧
    match step T list ledger op with
    | some (list, ledger) => LegalRun T list ledger ops
    | none => True

/-- What `lower_bound` answers on the nodes `L`. -/
structure Answers (T : Template P G) (list : Handle P G) (L : List ℕ) (searchElement : P) (node : ℕ) :
    Prop where
  equal : (∃ n ∈ L, T.cmp (list.node n).payload searchElement = 0) →
    node ∈ L ∧ T.cmp (list.node node).payload searchElement = 0
  smaller : (¬∃ n ∈ L, T.cmp (list.node n).payload searchElement = 0) →
    ∃ A B, L = A ++ B ∧ node = A.getLast?.getD list.headnode ∧
      (∀ a ∈ A, T.cmp (list.node a).payload searchElement < 0) ∧
      ∀ b ∈ B, 0 < T.cmp (list.node b).payload searchElement

structure Represents (T : Template P G) (list : Handle P G) (stored : List (ℕ × P)) (L : List ℕ) :
    Prop where
  stored : (L.map fun n => (n, (list.node n).payload)).Perm stored
  sorted : L.Pairwise fun x y => T.cmp (list.node x).payload (list.node y).payload ≤ 0
  level_zero : Chain (fun n => (list.node n).next 0) ((list.node list.headnode).next 0) L
  level : ∀ l < list.maxHeight, Chain (fun n => (list.node n).next l) ((list.node list.headnode).next l)
      (L.filter fun n => l < (list.node n).height)
  inverse : ∀ l < list.maxHeight, ∀ x ∈ list.headnode :: L, ∀ y ∈ list.headnode :: L,
      l < (list.node x).height → l < (list.node y).height →
        ((list.node x).next l = some y ↔ (list.node y).prev l = some x)
  height : ∀ n ∈ L, (list.node n).height ≤ list.ceiling ∧ (list.node n).height < list.maxHeight
  lowerBound : ∀ searchElement, ∃ node, list.lowerBound T searchElement = some node ∧
    Answers T list L searchElement node
  free : ∀ h < list.maxHeight, ∃ nodes, Chain (fun n => (list.node n).next 0) (list.freelist h) nodes ∧
      ∀ n ∈ nodes, n ∉ list.headnode :: L

theorem Bound.answers {s : P} (h : Bound T list A B s) :
    Answers T list (A ++ B) s (A.getLast?.getD list.headnode) where
  equal := by
    intro hequal
    cases h.exact with
    | inl hlast =>
      obtain ⟨a, ha, heq⟩ := hlast
      rw [ha]
      exact ⟨mem_append_left B (mem_of_getLast? ha), heq⟩
    | inr hnone =>
      obtain ⟨n, hn, heq⟩ := hequal
      cases mem_append.1 hn with
      | inl hA =>
        have hlt := hnone.1 n hA
        omega
      | inr hB =>
        have hgt := hnone.2 n hB
        omega
  smaller := by
    intro hequal
    cases h.exact with
    | inl hlast =>
      obtain ⟨a, ha, heq⟩ := hlast
      exact absurd ⟨a, mem_append_left B (mem_of_getLast? ha), heq⟩ hequal
    | inr hnone => exact ⟨A, B, rfl, rfl, hnone.1, hnone.2⟩

theorem Inv.represents (hT : T.Lawful) (h : Inv T list L F C) {stored : List (ℕ × P)}
    (hstored : (L.map fun n => (n, (list.node n).payload)).Perm stored) : Represents T list stored L where
  stored := hstored
  sorted := h.sorted.pairwise
  level_zero := by
    have hchain := Linked.chain (h.levels.linked 0 (by have := h.ceiling; omega))
    rwa [h.levels.onLevel_zero] at hchain
  level := fun l hl => Linked.chain (h.levels.linked l hl)
  inverse := by
    intro l hl x hx y hy hxl hyl
    have hmem : ∀ z ∈ list.headnode :: L, l < (list.node z).height →
        z ∈ list.headnode :: list.onLevel l L := by
      intro z hz hzl
      cases mem_cons.1 hz with
      | inl hhead => simp [hhead]
      | inr hL => exact mem_cons_of_mem _ (mem_onLevel.2 ⟨hL, hzl⟩)
    exact Linked.next_iff_prev (h.levels.linked l hl) (hmem x hx hxl) (hmem y hy hyl)
  height := fun n hn =>
    ⟨h.height_le n hn, Nat.lt_of_le_of_lt (h.height_le n hn) h.ceiling.2⟩
  lowerBound := by
    intro s
    obtain ⟨A, B, rfl, hlower, hbound⟩ := lowerBound_spec hT h.levels h.sorted
      ⟨h.ceiling.1, Nat.le_of_lt h.ceiling.2⟩ s
    exact ⟨_, hlower, hbound.answers⟩
  free := fun k hk =>
    ⟨F k, h.free k hk, fun n hn hmem =>
      (h.free_node k hk n hn).2.2 (mem_append_right C hmem)⟩

def Holds (T : Template P G) (list : Handle P G) (ledger : Ledger P) : Prop :=
  ∃ L F, Inv T list L F ledger.created ∧ (L.map fun n => (n, (list.node n).payload)).Perm ledger.stored

theorem map_payload (hpayload : ∀ z ∈ L, (list'.node z).payload = (list.node z).payload) :
    (L.map fun n => (n, (list'.node n).payload)) = L.map fun n => (n, (list.node n).payload) :=
  map_congr_left fun z hz => by rw [hpayload z hz]

variable {ledger : Ledger P}

theorem insert_holds (hT : T.Lawful) (h : Holds T list ledger) {payload : P}
    (hlegal : (Op.insert n payload).Legal T ledger) :
    ∃ list', (list.withPayload n payload).insertNode T n = some list' ∧
      Holds T list' ⟨(n, payload) :: ledger.stored, ledger.created.erase n⟩ := by
  obtain ⟨L, F, hinv, hstored⟩ := h
  obtain ⟨hn, hlt⟩ := hlegal
  have hassign := assign_inv hinv hn payload
  have hnpayload : ((list.withPayload n payload).node n).payload = payload := by
    simp [Handle.withPayload]
  obtain ⟨list', A, B, hinsert, rfl, hinv', hpayload⟩ :=
    insertNode_inv hT hassign hn (hnpayload.symm ▸ hlt)
  refine ⟨list', hinsert, A ++ n :: B, F, hinv', ?_⟩
  have hold : ∀ z ∈ A ++ B, (list'.node z).payload = (list.node z).payload := by
    intro z hz
    have hzn : z ≠ n := fun e =>
      (nodup_append.1 hinv.nodup).2.2 n hn z (mem_cons_of_mem _ hz) e.symm
    rw [hpayload z, withPayload_node hzn]
  have hsplit : ((A ++ n :: B).map fun z => (z, (list'.node z).payload)).Perm
      ((n, payload) :: (A ++ B).map fun z => (z, (list'.node z).payload)) := by
    have hmiddle := (show (A ++ n :: B).Perm (n :: (A ++ B)) from perm_middle).map
      fun z => (z, (list'.node z).payload)
    rwa [map_cons, hpayload n, hnpayload] at hmiddle
  rw [map_payload hold] at hsplit
  exact hsplit.trans (hstored.cons _)

theorem remove_holds (h : Holds T list ledger) (hlegal : (Op.remove n : Op P).Legal T ledger) :
    ∃ list', list.removeNode T n = some list' ∧
      Holds T list' ⟨ledger.stored.filter fun entry => entry.1 ≠ n, ledger.created⟩ := by
  obtain ⟨L, F, hinv, hstored⟩ := h
  have hn : n ∈ L := by
    have hmem := (hstored.map Prod.fst).mem_iff.2 hlegal
    simpa using hmem
  obtain ⟨A, B, rfl⟩ := append_of_mem hn
  obtain ⟨list', F', hremove, hinv', -, -, hpayload⟩ := removeNode_inv hinv
  refine ⟨list', hremove, A ++ B, F', hinv', ?_⟩
  have hperm : (A ++ n :: B).Perm (n :: (A ++ B)) := perm_middle
  have hnodup : (A ++ n :: B).Nodup :=
    (nodup_cons.1 (nodup_append.1 hinv.nodup).2.1).2
  have hnAB : n ∉ A ++ B := (nodup_cons.1 (hperm.nodup_iff.1 hnodup)).1
  have hne : ∀ z ∈ A ++ B, z ≠ n := fun z hz e => hnAB (e ▸ hz)
  rw [map_payload fun z hz => hpayload z (hne z hz)]
  have hrest := (((hperm.symm.map fun z => (z, (list.node z).payload)).trans hstored).filter
    fun entry => entry.1 ≠ n)
  rw [map_cons, filter_cons_of_neg (by simp), filter_eq_self.2] at hrest
  · exact hrest
  · intro entry hentry
    obtain ⟨z, hz, rfl⟩ := mem_map.1 hentry
    simpa using hne z hz

theorem step_holds (hT : T.Lawful) (h : Holds T list ledger) {op : Op P} (hlegal : op.Legal T ledger) :
    ∃ list' ledger', step T list ledger op = some (list', ledger') ∧ Holds T list' ledger' := by
  cases op with
  | create =>
    obtain ⟨L, F, hinv, hstored⟩ := h
    obtain ⟨n, list', F', hcreate, hinv', hlinked⟩ := createNode_inv hinv
    refine ⟨list', ⟨ledger.stored, n :: ledger.created⟩, by simp [step, hcreate], L, F', hinv', ?_⟩
    have hpayload : ∀ z ∈ L, (list'.node z).payload = (list.node z).payload :=
      fun z hz => by rw [hlinked z (mem_cons_of_mem _ hz)]
    rw [map_payload hpayload]
    exact hstored
  | insert n payload =>
    obtain ⟨list', hinsert, hholds⟩ := insert_holds hT h hlegal
    exact ⟨list', _, by simp [step, hinsert], hholds⟩
  | lowerBound s =>
    obtain ⟨L, F, hinv, hstored⟩ := h
    obtain ⟨node, hlower, -⟩ := (hinv.represents hT hstored).lowerBound s
    exact ⟨list, ledger, by simp [step, hlower], L, F, hinv, hstored⟩
  | remove n =>
    obtain ⟨list', hremove, hholds⟩ := remove_holds h hlegal
    exact ⟨list', _, by simp [step, hremove], hholds⟩
  | destroy =>
    obtain ⟨L, F, hinv, -⟩ := h
    obtain ⟨list', F', hdestroy, hinv'⟩ := destroyList_inv hinv
    exact ⟨list', ⟨[], ledger.created⟩, by simp [step, hdestroy], [], F', hinv', List.Perm.nil⟩

theorem run_holds (hT : T.Lawful) (h : Holds T list ledger) {ops : List (Op P)}
    (hlegal : LegalRun T list ledger ops) :
    ∃ list' ledger', run T list ledger ops = some (list', ledger') ∧ Holds T list' ledger' := by
  induction ops generalizing list ledger with
  | nil => exact ⟨list, ledger, rfl, h⟩
  | cons op ops ih =>
    obtain ⟨hop, hops⟩ := hlegal
    obtain ⟨list₁, ledger₁, hstep, hholds⟩ := step_holds hT h hop
    rw [hstep] at hops
    obtain ⟨list', ledger', hrun, hholds'⟩ := ih hholds hops
    exact ⟨list', ledger', by simp [run, hstep, hrun], hholds'⟩

/-- After every legal sequence of operations on a new skiplist, it represents the stored nodes. -/
theorem calls_represent (hT : T.Lawful) {maxHeight : ℕ} (hmax : 2 ≤ maxHeight) (seed : G) {ops : List (Op P)}
    (hlegal : LegalRun T (Handle.createList T maxHeight seed) ⟨[], []⟩ ops) :
    ∃ list ledger, run T (Handle.createList T maxHeight seed) ⟨[], []⟩ ops = some (list, ledger) ∧
      ∃ L, Represents T list ledger.stored L := by
  have hnew : Holds T (Handle.createList T maxHeight seed) ⟨[], []⟩ :=
    ⟨[], _, createList_inv T hmax seed, List.Perm.nil⟩
  obtain ⟨list, ledger, hrun, L, F, hinv, hstored⟩ := run_holds hT hnew hlegal
  exact ⟨list, ledger, hrun, L, hinv.represents hT hstored⟩

def numbers : Template ℕ ℕ where
  zeroed := 0
  resetPayload := fun _ => 0
  cmp := fun a b => (a : ℤ) - b
  getRandomNumber := linearCongruential

theorem numbers_lawful : numbers.Lawful where
  trans := by
    intro a b c hab hbc
    simp only [numbers] at hab hbc ⊢
    omega
  lt_iff := by
    intro a b
    simp only [numbers]
    omega

def numberOps : List (Op ℕ) :=
  [.create, .insert 1 5, .destroy, .create, .create, .insert 2 5, .create, .insert 3 2,
    .lowerBound 5, .remove 2, .create, .insert 1 5]

theorem calls_represent_numbers : ∃ list ledger,
    run numbers (Handle.createList numbers 4 1) ⟨[], []⟩ numberOps = some (list, ledger) ∧
      ∃ L, Represents numbers list ledger.stored L :=
  calls_represent numbers_lawful (by decide) 1
    ⟨trivial, by decide, trivial, trivial, trivial, by decide, trivial, by decide, trivial,
      by decide, trivial, by decide, trivial⟩

end ScoreP.Skiplist
