import Mathlib.Data.Fintype.Card
import ScoreP.Foundations.Siblings
import ScoreP.Profile.NodeSort

/-!
# Sorting the tree of profile nodes

Source: `scorep_profile_sort_subtree` and `scorep_profile_get_number_of_children` in
`src/measurement/profiling/scorep_profile_node.c`. All nodes lie in the memory of Score-P, which
`SCOREP_Memory_Initialize` keeps below 2^32 bytes, so a node is named by its place there (`NodeId`).

`sortSubtree_spec` says that the links are those of the tree that is sorted at every level; `Sorted` says
what that means for the list of children of each node.
-/

namespace ScoreP.Profile

open Foundations Function
open List hiding chain_cons

abbrev NodeId := Fin (2 ^ 32)

/-- The profile nodes; `data` is all that is not a link. -/
structure NodeMemory (D : Type) where
  parent : NodeId → Option NodeId
  firstChild : NodeId → Option NodeId
  nextSibling : NodeId → Option NodeId
  data : NodeId → D

variable {D : Type}

/-- The loop of `scorep_profile_get_number_of_children`, which counts in `uint64_t`. -/
def countSiblings (next : NodeId → Option NodeId) : ℕ → Option NodeId → ℕ → Option ℕ
  | _, none, count => some count
  | 0, some _, _ => none
  | fuel + 1, some child, count => countSiblings next fuel (next child) (count + 1)

def sortSiblings (sort : NodeMemory D → NodeId → Option (NodeMemory D)) :
    ℕ → NodeMemory D → Option NodeId → Option (NodeMemory D)
  | _, m, none => some m
  | 0, _, some _ => none
  | fuel + 1, m, some curr => do
    let m ← sort m curr
    sortSiblings sort fuel m (m.nextSibling curr)

/-- `scorep_profile_sort_subtree`; the number of children becomes a `uint32_t`. -/
def sortSubtree (func : NodeId → NodeId → Bool) : ℕ → NodeMemory D → NodeId → Option (NodeMemory D)
  | 0, _, _ => none
  | fuel + 1, m, root => do
    -- sort children
    let number ← countSiblings m.nextSibling (fuel + 1) (m.firstChild root) 0
    let (list, _) ← sortNodeList func (fuel + 1) ⟨m.nextSibling, m.firstChild root⟩ (number % 2 ^ 32)
    let m := { m with
      nextSibling := list.next
      firstChild := update m.firstChild root list.head }
    -- sort the subtrees of the children
    sortSiblings (sortSubtree func fuel) (fuel + 1) m (m.firstChild root)

/-! ## Trees in memory -/

variable {first first' next next' : NodeId → Option NodeId} {p p' : Option NodeId}
  {t t' children : Siblings NodeId} {func : NodeId → NodeId → Bool} {m m' m'' : NodeMemory D} {fuel : ℕ}

def keys (t : Siblings NodeId) : List NodeId :=
  t.toList.map Prod.fst

theorem stored_iff : Siblings.Stored first next p t ↔
    Chain next p (keys t) ∧ ∀ x ∈ t.toList, Siblings.Stored first next (first x.1) x.2 := by
  induction t generalizing p with
  | nil =>
    constructor
    · intro h
      exact ⟨h, fun x hx => absurd hx not_mem_nil⟩
    · intro h
      exact h.1
  | node a children siblings _ ih =>
    unfold keys at ih ⊢
    rw [Siblings.toList, map_cons, chain_cons, forall_mem_cons]
    constructor
    · rintro ⟨hp, hchildren, hsiblings⟩
      obtain ⟨hchain, hall⟩ := ih.1 hsiblings
      exact ⟨⟨hp, hchain⟩, hchildren, hall⟩
    · rintro ⟨⟨hp, hchain⟩, hchildren, hall⟩
      exact ⟨hp, hchildren, ih.2 ⟨hchain, hall⟩⟩

theorem stored_pairs (h : Siblings.Stored first next p t) :
    ∀ x ∈ t.pairs, Siblings.Stored first next (first x.1) x.2 := by
  induction t generalizing p with
  | nil => exact fun x hx => absurd hx not_mem_nil
  | node a children siblings ihc ihs =>
    obtain ⟨-, hchildren, hsiblings⟩ := h
    intro x hx
    rw [Siblings.pairs, mem_cons, mem_append] at hx
    rcases hx with rfl | hx | hx
    · exact hchildren
    · exact ihc hchildren x hx
    · exact ihs hsiblings x hx

theorem mem_elements_of_mem_keys {a : NodeId} (h : a ∈ keys t) : a ∈ t.elements := by
  obtain ⟨x, hx, rfl⟩ := mem_map.1 h
  exact Siblings.mem_elements hx

theorem keys_sublist (t : Siblings NodeId) : (keys t).Sublist t.elements := by
  unfold keys
  induction t with
  | nil => exact .refl _
  | node a children siblings _ ih =>
    rw [Siblings.toList, Siblings.elements, map_cons]
    exact (ih.trans (sublist_append_right _ _)).cons_cons a

theorem stored_reorder (h : Siblings.Stored first next p t) (hperm : t'.toList.Perm t.toList)
    (hnodup : t.elements.Nodup) (hchain : Chain next' p' (keys t')) (hframe : Frame (keys t) next next')
    (hfirst : ∀ a ∈ t.elements, first' a = first a) : Siblings.Stored first' next' p' t' := by
  refine stored_iff.2 ⟨hchain, fun x hx => ?_⟩
  have hmem : x ∈ t.toList := hperm.mem_iff.1 hx
  rw [hfirst x.1 (Siblings.mem_elements hmem)]
  have hstored := (stored_iff.1 h).2 x hmem
  -- the nodes below the siblings are none of the siblings
  have hbelow : ∀ b ∈ x.2.elements, b ∈ t.elements ∧ b ∉ keys t := by
    clear hx hstored hfirst hframe hchain hperm h
    unfold keys
    induction t with
    | nil => cases hmem
    | node a children siblings _ ih =>
      rw [Siblings.elements, nodup_cons, nodup_append] at hnodup
      obtain ⟨ha, -, hsiblings, hdisjoint⟩ := hnodup
      rw [mem_append, not_or] at ha
      rw [Siblings.toList, mem_cons] at hmem
      intro b hb
      rw [Siblings.toList, map_cons, mem_cons, Siblings.elements, mem_cons,
        mem_append, not_or]
      rcases hmem with rfl | hmem
      · refine ⟨.inr (.inl hb), fun heq => ha.1 (by rwa [← show b = a from heq]), fun hkey => ?_⟩
        exact hdisjoint b hb b (mem_elements_of_mem_keys hkey) rfl
      · obtain ⟨hin, hkey⟩ := ih hsiblings hmem b hb
        exact ⟨.inr (.inr hin), fun heq => ha.2 (by rwa [← show b = a from heq]), hkey⟩
  refine hstored.congr (fun b hb => ?_) fun b hb => ?_
  · exact hfirst b (hbelow b (Siblings.mem_postorder.1 hb)).1
  · exact hframe b (hbelow b (Siblings.mem_postorder.1 hb)).2

theorem countSiblings_spec {nodes : List NodeId} (h : Chain next p nodes) (hfuel : nodes.length ≤ fuel)
    (count : ℕ) : countSiblings next fuel p count = some (count + nodes.length) := by
  induction nodes generalizing p fuel count with
  | nil =>
    have hp : p = none := h
    subst hp
    cases fuel <;> rfl
  | cons a nodes ih =>
    obtain ⟨rfl, hrest⟩ := chain_cons.1 h
    cases fuel with
    | zero => simp at hfuel
    | succ fuel =>
      rw [length_cons] at hfuel ⊢
      rw [countSiblings, ih hrest (by omega)]
      congr 1
      omega

/-! ## Sorting every level -/

structure TreeFrame (roots nodes : List NodeId) (m m' : NodeMemory D) : Prop where
  parent : m'.parent = m.parent
  data : m'.data = m.data
  firstChild : Frame roots m.firstChild m'.firstChild
  nextSibling : Frame nodes m.nextSibling m'.nextSibling

theorem TreeFrame.trans {roots nodes : List NodeId} (h : TreeFrame roots nodes m m')
    (h' : TreeFrame roots nodes m' m'') : TreeFrame roots nodes m m'' :=
  ⟨h'.parent.trans h.parent, h'.data.trans h.data, h.firstChild.trans h'.firstChild,
    h.nextSibling.trans h'.nextSibling⟩

theorem TreeFrame.mono {roots roots' nodes nodes' : List NodeId} (h : TreeFrame roots nodes m m')
    (hroots : ∀ x ∈ roots, x ∈ roots') (hnodes : ∀ x ∈ nodes, x ∈ nodes') : TreeFrame roots' nodes' m m' :=
  ⟨h.parent, h.data, h.firstChild.mono hroots, h.nextSibling.mono hnodes⟩

def sorted (func : NodeId → NodeId → Bool) (t : Siblings NodeId) : Siblings NodeId :=
  (t.sortBelow (notGreater func)).sortFirst (notGreater func)

def Sorts (func : NodeId → NodeId → Bool) (root : NodeId) (children : Siblings NodeId)
    (m : NodeMemory D) (result : Option (NodeMemory D)) : Prop :=
  ∃ m', result = some m' ∧
    Siblings.Stored m'.firstChild m'.nextSibling (m'.firstChild root) (sorted func children) ∧
    TreeFrame (root :: children.elements) children.elements m m'

theorem sortSiblings_spec (sort : NodeMemory D → NodeId → Option (NodeMemory D))
    (hsort : ∀ root children (m : NodeMemory D),
      Siblings.Stored m.firstChild m.nextSibling (m.firstChild root) children →
      (root :: children.elements).Nodup → children.elements.length < fuel →
      Sorts func root children m (sort m root))
    (h : Siblings.Stored m.firstChild m.nextSibling p t) (hnodup : t.elements.Nodup)
    (hlength : t.elements.length ≤ fuel) (rounds : ℕ) (hrounds : t.elements.length ≤ rounds) :
    ∃ m', sortSiblings sort rounds m p = some m' ∧
      Siblings.Stored m'.firstChild m'.nextSibling p (t.sortBelow (notGreater func)) ∧
      TreeFrame t.elements t.elements m m' := by
  induction t generalizing m p rounds with
  | nil =>
    have hp : p = none := h
    subst hp
    refine ⟨m, ?_, rfl, ⟨rfl, rfl, fun _ _ => rfl, fun _ _ => rfl⟩⟩
    cases rounds <;> rfl
  | node a children siblings _ ih =>
    obtain ⟨rfl, hchildren, hsiblings⟩ := h
    rw [Siblings.elements] at hnodup hlength hrounds ⊢
    obtain ⟨ha, hboth⟩ := nodup_cons.1 hnodup
    obtain ⟨hnodupChildren, hnodupSiblings, hdisjoint⟩ := nodup_append.1 hboth
    rw [mem_append, not_or] at ha
    rw [length_cons, length_append] at hlength hrounds
    obtain ⟨rounds, rfl⟩ : ∃ k, rounds = k + 1 := ⟨rounds - 1, by omega⟩
    obtain ⟨m₁, hcall, hstored, hframe⟩ := hsort a children m hchildren
      (nodup_cons.2 ⟨ha.1, hnodupChildren⟩) (by omega)
    have hnext : m₁.nextSibling a = m.nextSibling a := hframe.nextSibling a ha.1
    have hrest : Siblings.Stored m₁.firstChild m₁.nextSibling (m.nextSibling a) siblings := by
      refine hsiblings.congr (fun b hb => hframe.firstChild b fun hmem => ?_) fun b hb =>
        hframe.nextSibling b fun hmem => ?_
      · have hb' := Siblings.mem_postorder.1 hb
        cases mem_cons.1 hmem with
        | inl heq => exact ha.2 (heq ▸ hb')
        | inr hin => exact hdisjoint b hin b hb' rfl
      · exact hdisjoint b hmem b (Siblings.mem_postorder.1 hb) rfl
    obtain ⟨m₂, hloop, hstored', hframe'⟩ := ih hrest hnodupSiblings (by omega) rounds (by omega)
    have hsorted : ∀ b ∈ (sorted func children).postorder, b ∉ siblings.elements := by
      intro b hb hmem
      have hin := Siblings.mem_postorder.1 hb
      rw [sorted, ((Siblings.elements_perm (Siblings.sortFirst_perm _ _)).trans
        (Siblings.elements_sortBelow _ _)).mem_iff] at hin
      exact hdisjoint b hin b hmem rfl
    refine ⟨m₂, ?_, ⟨rfl, ?_, ?_⟩, ?_⟩
    · rw [sortSiblings, hcall, Option.bind_eq_bind, Option.bind_some, hnext, hloop]
    · rw [hframe'.firstChild a ha.2]
      exact hstored.congr (fun b hb => hframe'.firstChild b (hsorted b hb)) fun b hb =>
        hframe'.nextSibling b (hsorted b hb)
    · rw [hframe'.nextSibling a ha.2, hnext]
      exact hstored'
    · refine (hframe.mono (fun x hx => ?_) fun x hx => ?_).trans
        (hframe'.mono (fun x hx => ?_) fun x hx => ?_)
      · rw [mem_cons] at hx ⊢
        exact hx.imp_right (mem_append_left _)
      · exact mem_cons_of_mem _ (mem_append_left _ hx)
      · exact mem_cons_of_mem _ (mem_append_right _ hx)
      · exact mem_cons_of_mem _ (mem_append_right _ hx)

theorem length_keys_lt {root : NodeId} (hnodup : (root :: t.elements).Nodup) : (keys t).length < 2 ^ 32 := by
  have hall : (root :: keys t).Nodup := hnodup.sublist ((keys_sublist t).cons_cons root)
  have hcard := hall.length_le_card
  rw [Fintype.card_fin, length_cons] at hcard
  omega

theorem sortSubtree_spec (hle : TotalPreorder (notGreater func)) {root : NodeId}
    (h : Siblings.Stored m.firstChild m.nextSibling (m.firstChild root) t)
    (hnodup : (root :: t.elements).Nodup) (hfuel : t.elements.length < fuel) :
    Sorts func root t m (sortSubtree func fuel m root) := by
  induction fuel generalizing root t m with
  | zero => omega
  | succ fuel ih =>
    obtain ⟨hroot, hnodupElements⟩ := nodup_cons.1 hnodup
    have hchain := (stored_iff.1 h).1
    have hlength : (keys t).length ≤ t.elements.length := (keys_sublist t).length_le
    have hcount : countSiblings m.nextSibling (fuel + 1) (m.firstChild root) 0 = some (0 + _) :=
      countSiblings_spec hchain (by omega) 0
    rw [Nat.zero_add] at hcount
    obtain ⟨list, hlist, hsorted, hframe⟩ := sortNodeList_spec hle
      (s := ⟨m.nextSibling, m.firstChild root⟩) hchain (hnodupElements.sublist (keys_sublist t))
      (show (keys t).length < fuel + 1 by omega)
    obtain ⟨m₁, hm₁⟩ : ∃ m₁ : NodeMemory D, m₁ = { m with
        nextSibling := list.next
        firstChild := update m.firstChild root list.head } := ⟨_, rfl⟩
    have hhead : m₁.firstChild root = list.head := by
      rw [hm₁]
      exact update_self root _ _
    have hfirst : ∀ a, a ≠ root → m₁.firstChild a = m.firstChild a := by
      intro a ha
      rw [hm₁]
      exact update_of_ne ha _ _
    have hnext : m₁.nextSibling = list.next := by rw [hm₁]
    have hstored : Siblings.Stored m₁.firstChild m₁.nextSibling (m₁.firstChild root)
        (t.sortFirst (notGreater func)) := by
      refine stored_reorder h (Siblings.sortFirst_perm _ _) hnodupElements ?_ ?_ fun a ha =>
        hfirst a fun heq => hroot (heq ▸ ha)
      · rw [hhead, hnext, keys, Siblings.keys_sortFirst]
        exact hsorted
      · rw [hnext]
        exact hframe
    have hperm : (t.sortFirst (notGreater func)).elements.Perm t.elements :=
      Siblings.elements_perm (Siblings.sortFirst_perm _ _)
    obtain ⟨m₂, hloop, hstored', hframe'⟩ := sortSiblings_spec (sortSubtree func fuel)
      (fun root' children' m' h' hnodup' hfuel' => ih h' hnodup' hfuel') hstored
      (hperm.nodup_iff.2 hnodupElements) (by rw [hperm.length_eq]; omega) (fuel + 1)
      (by rw [hperm.length_eq]; omega)
    have hroot' : root ∉ (t.sortFirst (notGreater func)).elements := fun hmem =>
      hroot (hperm.mem_iff.1 hmem)
    have hcommute : (t.sortFirst (notGreater func)).sortBelow (notGreater func) = sorted func t :=
      Siblings.toList_injective (Siblings.sortBelow_sortFirst _ _)
    rw [hcommute] at hstored'
    refine ⟨m₂, ?_, ?_, ?_⟩
    · have hmod := Nat.mod_eq_of_lt (length_keys_lt hnodup)
      have hupdate : update m.firstChild root list.head root = m₁.firstChild root := by rw [hm₁]
      simp only [sortSubtree, hcount, Option.bind_eq_bind, Option.bind_some, hmod, hlist]
      rw [← hm₁, hupdate, hloop]
    · rw [hframe'.firstChild root hroot']
      exact hstored'
    · have hfirstFrame : TreeFrame (root :: t.elements) t.elements m m₁ := by
        refine ⟨by rw [hm₁], by rw [hm₁], fun a ha => hfirst a fun heq => ?_, ?_⟩
        · exact ha (heq ▸ mem_cons_self)
        · rw [hnext]
          exact hframe.mono fun x hx => mem_elements_of_mem_keys hx
      refine hfirstFrame.trans (hframe'.mono (fun x hx => ?_) fun x hx => hperm.mem_iff.1 hx)
      exact mem_cons_of_mem _ (hperm.mem_iff.1 hx)

/-! ## Every list of children -/

theorem chain_of_mem_pairs (h : Siblings.Stored first next p t) {a : NodeId}
    (hmem : (a, children) ∈ t.pairs) : Chain next (first a) (keys children) :=
  (stored_iff.1 (stored_pairs h (a, children) hmem)).1

structure SortedBelow (func : NodeId → NodeId → Bool) (root : NodeId) (t : Siblings NodeId)
    (m m' : NodeMemory D) : Prop where
  tree : Siblings.Stored m'.firstChild m'.nextSibling (m'.firstChild root) (sorted func t)
  children : ∀ a ∈ root :: t.elements, ∀ nodes, Chain m.nextSibling (m.firstChild a) nodes →
    ∃ nodes', Chain m'.nextSibling (m'.firstChild a) nodes' ∧ StableSorted (notGreater func) nodes nodes'
  frame : TreeFrame (root :: t.elements) t.elements m m'

def TailIsLast (func : NodeId → NodeId → Bool) : Prop :=
  ∀ (s : NodeList NodeId) nodes fuel, Chain s.next s.head nodes → nodes.Nodup → nodes.length < fuel →
    ∃ s' nodes', sortNodeList func fuel s nodes.length = some (s', nodes'.getLast?) ∧
      Chain s'.next s'.head nodes' ∧ StableSorted (notGreater func) nodes nodes'

theorem stableSorted_keys (hle : TotalPreorder (notGreater func)) (t : Siblings NodeId) :
    StableSorted (notGreater func) (keys t) (keys (sorted func t)) := by
  unfold sorted keys
  rw [Siblings.keys_sortFirst, Siblings.keys_sortBelow]
  exact stableSorted_mergeSort hle _

theorem sortedBelow_of_stored (hle : TotalPreorder (notGreater func)) {root : NodeId}
    (h : Siblings.Stored m.firstChild m.nextSibling (m.firstChild root) t)
    (h' : Siblings.Stored m'.firstChild m'.nextSibling (m'.firstChild root) (sorted func t))
    (hframe : TreeFrame (root :: t.elements) t.elements m m') : SortedBelow func root t m m' := by
  refine ⟨h', fun a ha nodes hnodes => ?_, hframe⟩
  rcases mem_cons.1 ha with rfl | ha
  · have hkeys := (stored_iff.1 h).1.unique hnodes
    refine ⟨keys (sorted func t), (stored_iff.1 h').1, ?_⟩
    rw [← hkeys]
    exact stableSorted_keys hle t
  · rw [Siblings.elements_eq_map_pairs, mem_map] at ha
    obtain ⟨⟨b, inner⟩, hpair, rfl⟩ := ha
    have hkeys := (chain_of_mem_pairs h hpair).unique hnodes
    have hpair' : (b, sorted func inner) ∈ (sorted func t).pairs := by
      have hmem := Siblings.mem_pairs_sortBelow (notGreater func) hpair
      rw [Siblings.pairs_eq_flatMap] at hmem
      rw [sorted, Siblings.pairs_eq_flatMap]
      exact ((Siblings.sortFirst_perm _ _).flatMap_right _).mem_iff.2 hmem
    refine ⟨keys (sorted func inner), chain_of_mem_pairs h' hpair', ?_⟩
    rw [← hkeys]
    exact stableSorted_keys hle inner

theorem sortSubtree_sorts (hle : TotalPreorder (notGreater func)) {root : NodeId}
    (h : Siblings.Stored m.firstChild m.nextSibling (m.firstChild root) t)
    (hnodup : (root :: t.elements).Nodup) (hfuel : t.elements.length < fuel) :
    (∃ m', sortSubtree func fuel m root = some m' ∧ SortedBelow func root t m m') ∧ TailIsLast func := by
  constructor
  · obtain ⟨m', hsort, hstored, hframe⟩ := sortSubtree_spec hle h hnodup hfuel
    exact ⟨m', hsort, sortedBelow_of_stored hle h hstored hframe⟩
  · intro s nodes fuel' hchain hnodes hlength
    obtain ⟨s', hsort, hchain', -⟩ := sortNodeList_spec hle hchain hnodes hlength
    exact ⟨s', _, hsort, hchain', stableSorted_mergeSort hle nodes⟩

def twoChildren : NodeMemory ℕ where
  parent := fun node => if node = 0 then none else some 0
  firstChild := fun node => if node = 0 then some 1 else none
  nextSibling := fun node => if node = 1 then some 2 else none
  data := fun node => 10 - node

/-- `compare_first_enter_time` for these nodes. -/
def laterEnter (x y : NodeId) : Bool :=
  decide (twoChildren.data x > twoChildren.data y)

theorem laterEnter_totalPreorder : TotalPreorder (notGreater laterEnter) where
  total := by
    intro x y
    simp only [notGreater, laterEnter, Bool.not_eq_true', decide_eq_false_iff_not]
    omega
  trans := by
    intro x y z
    simp only [notGreater, laterEnter, Bool.not_eq_true', decide_eq_false_iff_not]
    omega

theorem sortSubtree_sorts_two : (∃ m', sortSubtree laterEnter 3 twoChildren 0 = some m' ∧
      SortedBelow laterEnter 0 (.node 1 .nil (.node 2 .nil .nil)) twoChildren m') ∧ TailIsLast laterEnter :=
  sortSubtree_sorts laterEnter_totalPreorder ⟨rfl, rfl, rfl, rfl, rfl⟩ (by decide) (by decide)

end ScoreP.Profile
