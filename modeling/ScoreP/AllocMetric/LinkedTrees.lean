import ScoreP.AllocMetric.Links

/-!
# Splaying and removing in memory

A search tree in memory (`IsSearchTree`) is splayed to a search tree with the same cells in the same
order whose root is the cell with the key or a neighbour of the key (`splay_searchTree`,
`splay_nearest`), and a cell that was found is taken out of it (`remove_searchTree`).
-/

namespace ScoreP.AllocMetric.Links

open BinaryTree Foundations.SearchTree Splaying Function
open List hiding nil after

variable {cells cells' : ℕ → AllocationItem} {t l r : BinaryTree ℕ} {p : Option ℕ} {key fuel i : ℕ}

theorem inorder_map {α β : Type} (f : α → β) (t : BinaryTree α) : inorder (t.map f) = (inorder t).map f := by
  induction t with
  | nil => rfl
  | node a l r ihl ihr => simp [BinaryTree.map, ihl, ihr]

theorem map_plugRight (item : ℕ → Item) (pieces : List (ℕ × BinaryTree ℕ)) (t : BinaryTree ℕ) :
    (plugRight pieces t).map item = plugRight (pieceItems item pieces) (t.map item) := by
  induction pieces generalizing t with
  | nil => rfl
  | cons piece pieces ih => exact ih _

theorem map_plugLeft (item : ℕ → Item) (pieces : List (ℕ × BinaryTree ℕ)) (t : BinaryTree ℕ) :
    (plugLeft pieces t).map item = plugLeft (pieceItems item pieces) (t.map item) := by
  induction pieces generalizing t with
  | nil => rfl
  | cons piece pieces ih => exact ih _

/-- A search tree with the addresses as keys, which are distinct. -/
structure IsSearchTree (cells : ℕ → AllocationItem) (t : BinaryTree ℕ) (p : Option ℕ) : Prop where
  stored : Stored cells t p
  ordered : Ordered (fun i => (cells i).item.address) t

theorem IsSearchTree.nodup (h : IsSearchTree cells t p) : (inorder t).Nodup :=
  h.ordered.imp fun hlt heq => absurd (congrArg (fun i => (cells i).item.address) heq) hlt.ne

theorem IsSearchTree.map_ordered (h : IsSearchTree cells t p) :
    Ordered Item.address (t.map fun i => (cells i).item) := by
  rw [Ordered, inorder_map]
  exact pairwise_map.2 h.ordered

theorem ordered_congr (h : Ordered (fun i => (cells i).item.address) t)
    (hitem : ∀ i, (cells' i).item = (cells i).item) {t' : BinaryTree ℕ}
    (hsame : inorder t' = inorder t) : Ordered (fun i => (cells' i).item.address) t' := by
  have hkey : (fun i => (cells' i).item.address) = fun i => (cells i).item.address := by
    funext i
    rw [hitem]
  rw [hkey]
  exact h.of_inorder_eq hsame

/-! ## Splaying -/

theorem splay_searchTree (h : IsSearchTree cells t p) (ht : t ≠ nil) (key : ℕ)
    (hfuel : (inorder t).length ≤ fuel) : ∃ cells' t' root, splay fuel cells p key = some (some root, cells') ∧
      IsSearchTree cells' t' (some root) ∧ inorder t' = inorder t ∧ Relinks (inorder t) cells cells' ∧
      (t'.map fun i => (cells i).item) = AllocMetric.splay (t.map fun i => (cells i).item) key := by
  cases t with
  | nil => exact absurd rfl ht
  | node i l r =>
    have hp := h.stored.1
    subst hp
    have hrep : Rep ⟨cells, none, none, .sentinel, .sentinel, i⟩ [] [] (node i l r) :=
      ⟨h.stored, trivial, trivial, rfl, rfl⟩
    have hmembers : members [] [] (node i l r) = inorder (node i l r) := by simp [members, before, after]
    have hends : Ends (fun i => (cells i).item) key (splayLoop key fuel _) _ [] [] (node i l r) :=
      splayLoop_refines hrep ht (hmembers ▸ h.nodup) hfuel fun _ => rfl
    obtain ⟨s, left, right, j, jl, jr, hloop, hrep', hsame, hrelinks, heq⟩ := hends
    obtain ⟨hstored, hrelinks'⟩ := hrep'.assemble (hsame ▸ hmembers ▸ h.nodup)
    rw [hsame] at hrelinks'
    rw [hmembers] at hrelinks hrelinks'
    have hinorder : inorder (node j (plugRight left jl) (plugLeft right jr)) = inorder (node i l r) := by
      rw [← hmembers, ← hsame]
      simp [members, inorder_plugRight, inorder_plugLeft]
    have hboth := hrelinks.trans hrelinks'
    refine ⟨s.assemble.cells, node j (plugRight left jl) (plugLeft right jr), s.assemble.root, ?_,
      ⟨hstored, ordered_congr h.ordered hboth.item hinorder⟩, hinorder, hboth, ?_⟩
    · rw [splay, hloop]
      rfl
    · rw [AllocMetric.splay]
      refine Eq.trans ?_ heq.symm
      rw [AllocMetric.assemble, BinaryTree.map, map_plugRight, map_plugLeft]

theorem splay_split (h : IsSearchTree cells t p) (ht : t ≠ nil) (key : ℕ) (hfuel : (inorder t).length ≤ fuel) :
    ∃ cells' root l r, splay fuel cells p key = some (some root, cells') ∧
      IsSearchTree cells' (node root l r) (some root) ∧ inorder (node root l r) = inorder t ∧
      Relinks (inorder t) cells cells' ∧ (∀ i ∈ inorder l, (cells i).item.address < key) ∧
      ∀ i ∈ inorder r, key < (cells i).item.address := by
  obtain ⟨cells', t', root, hsplay, htree, hsame, hrelinks, hmap⟩ := splay_searchTree h ht key hfuel
  have hne : (t.map fun i => (cells i).item) ≠ nil := by
    cases t with
    | nil => exact absurd rfl ht
    | node i l r => exact fun hnil => nomatch hnil
  obtain ⟨item, ml, mr, heq, -, hbelow, habove⟩ :=
    splay_splitAt key (t.map fun i => (cells i).item) hne h.map_ordered
  rw [heq] at hmap
  cases t' with
  | nil => cases hmap
  | node i l r =>
    rw [BinaryTree.map, node.injEq] at hmap
    have hroot : root = i := Option.some.inj htree.stored.1
    subst hroot
    refine ⟨cells', root, l, r, hsplay, htree, hsame, hrelinks, fun i hi => ?_, fun i hi => ?_⟩
    · refine hbelow (cells i).item ?_
      rw [← hmap.2.1, inorder_map]
      exact mem_map_of_mem hi
    · refine habove (cells i).item ?_
      rw [← hmap.2.2, inorder_map]
      exact mem_map_of_mem hi

def Nearest (cells : ℕ → AllocationItem) (ids : List ℕ) (key root : ℕ) : Prop :=
  root ∈ ids ∧ ((∃ i ∈ ids, (cells i).item.address = key) → (cells root).item.address = key) ∧
    ((∀ i ∈ ids, (cells i).item.address ≠ key) →
      ((cells root).item.address < key ∧ ∀ i ∈ ids, (cells i).item.address < key →
          (cells i).item.address ≤ (cells root).item.address) ∨
        (key < (cells root).item.address ∧ ∀ i ∈ ids, key < (cells i).item.address →
          (cells root).item.address ≤ (cells i).item.address))

theorem nearest_of_split {root : ℕ} (hordered : Ordered (fun i => (cells i).item.address) (node root l r))
    (hbelow : ∀ i ∈ inorder l, (cells i).item.address < key)
    (habove : ∀ i ∈ inorder r, key < (cells i).item.address) :
    Nearest cells (inorder (node root l r)) key root := by
  obtain ⟨-, -, hl, hr⟩ := ordered_node.1 hordered
  have hmem : ∀ i ∈ inorder (node root l r), i ∈ inorder l ∨ i = root ∨ i ∈ inorder r := by
    intro i hi
    rwa [inorder_node, mem_append, mem_cons] at hi
  have hroot : root ∈ inorder (node root l r) := by simp
  refine ⟨hroot, ?_, ?_⟩
  · rintro ⟨i, hi, heq⟩
    rcases hmem i hi with hil | rfl | hir
    · exact absurd heq (hbelow i hil).ne
    · exact heq
    · exact absurd heq (habove i hir).ne'
  · intro habsent
    rcases Nat.lt_or_gt_of_ne (habsent root hroot) with hlt | hgt
    · refine .inl ⟨hlt, fun i hi hlti => ?_⟩
      rcases hmem i hi with hil | rfl | hir
      · exact (hl i hil).le
      · exact le_rfl
      · exact absurd hlti (habove i hir).not_gt
    · refine .inr ⟨hgt, fun i hi hgti => ?_⟩
      rcases hmem i hi with hil | rfl | hir
      · exact absurd hgti (hbelow i hil).not_gt
      · exact le_rfl
      · exact (hr i hir).le

/-! ## Removing -/

theorem unlinked_of_ne {i allocation : ℕ} (h : i ≠ allocation) : unlinked cells allocation i = cells i :=
  update_of_ne h _ _

theorem unlinked_relinks {ids : List ℕ} {allocation : ℕ} (h : allocation ∈ ids) :
    Relinks ids cells (unlinked cells allocation) := by
  intro i
  by_cases hi : i = allocation
  · subst hi
    rw [unlinked, update_self]
    exact ⟨rfl, rfl, fun hnot => absurd h hnot⟩
  · rw [unlinked_of_ne hi]
    exact ⟨rfl, rfl, fun _ => rfl⟩

def Removed (cells : ℕ → AllocationItem) (t : BinaryTree ℕ) (allocation : ℕ) (m : LinkedMetric) : Prop :=
  ∃ t', IsSearchTree m.cells t' m.allocations ∧ inorder t' = (inorder t).erase allocation ∧
    Relinks (inorder t) cells m.cells ∧ (m.cells allocation).left = none ∧
    (m.cells allocation).right = none

theorem remove_searchTree {allocation : ℕ} (h : IsSearchTree cells (node allocation l r) (some allocation))
    (hfuel : (inorder (node allocation l r)).length ≤ fuel) :
    ∃ m, removeMemoryAllocation fuel ⟨some allocation, cells⟩ allocation = some m ∧
      Removed cells (node allocation l r) allocation m := by
  obtain ⟨-, hl, hr⟩ := h.stored
  obtain ⟨hordl, hordr, hlt, hgt⟩ := ordered_node.1 h.ordered
  have hnodup := h.nodup
  rw [inorder_node, nodup_append, nodup_cons] at hnodup
  obtain ⟨hnodupl, ⟨hnotr, hnodupr⟩, hdisjoint⟩ := hnodup
  have hnotl : allocation ∉ inorder l := fun hmem =>
    hdisjoint allocation hmem allocation mem_cons_self rfl
  have herase : (inorder (node allocation l r)).erase allocation = inorder l ++ inorder r := by
    rw [inorder_node, erase_append_right _ hnotl, erase_cons_head]
  have hself : allocation ∈ inorder (node allocation l r) := by simp
  have hsublist : (inorder l ++ inorder r).Sublist (inorder (node allocation l r)) := by
    rw [inorder_node]
    exact (sublist_cons_self allocation (inorder r)).append_left _
  unfold removeMemoryAllocation
  rw [if_neg (fun hne => hne rfl)]
  cases l with
  | nil =>
    have hnone : (cells allocation).left = none := hl
    dsimp only
    rw [hnone]
    refine ⟨_, rfl, r, ⟨?_, ?_⟩, ?_, unlinked_relinks hself, ?_, ?_⟩
    · refine hr.congr fun i hi => unlinked_of_ne fun heq => ?_
      exact hnotr (heq ▸ hi)
    · exact ordered_congr hordr (unlinked_relinks hself).item rfl
    · rw [herase]
      rfl
    · dsimp only
      rw [unlinked, update_self]
    · dsimp only
      rw [unlinked, update_self]
  | node a al ar =>
    have hleft : (cells allocation).left = some a := hl.1
    have hfuel' : (inorder (node a al ar)).length ≤ fuel := by
      rw [inorder_node, length_append] at hfuel
      omega
    rw [hleft] at hl
    obtain ⟨cells', b, bl, br, hsplay, htree, hsame, hrelinks, -, habove⟩ :=
      splay_split ⟨hl, hordl⟩ (fun hnil => nomatch hnil) (cells allocation).item.address hfuel'
    -- nothing on the left is above the cell, so the new root has no right child
    have hbr : br = nil := by
      cases br with
      | nil => rfl
      | node c cl cr =>
        have hmem : c ∈ inorder (node a al ar) := by
          rw [← hsame]
          simp
        exact absurd (hlt c hmem) (habove c (by simp)).not_gt
    subst hbr
    have hcell : cells' allocation = cells allocation := (hrelinks allocation).2.2 hnotl
    have hb : b ∈ inorder (node a al ar) := by
      rw [← hsame]
      simp
    have hball : b ≠ allocation := fun heq => hnotl (heq ▸ hb)
    have hbr : ∀ i ∈ inorder r, i ≠ b := by
      intro i hi heq
      exact hdisjoint b hb b (mem_cons_of_mem _ (heq ▸ hi)) rfl
    have hbl : ∀ i ∈ inorder bl, i ≠ b ∧ i ≠ allocation := by
      intro i hi
      have hnodup' := htree.nodup
      rw [inorder_node, nodup_append] at hnodup'
      refine ⟨hnodup'.2.2 i hi b mem_cons_self, fun heq => hnotl ?_⟩
      rw [← hsame, ← heq]
      simp [hi]
    obtain ⟨linked, hlinked⟩ : ∃ linked, linked =
      update cells' b { cells' b with right := (cells' allocation).right } := ⟨_, rfl⟩
    have hlinks : Relinks (inorder (node allocation (node a al ar) r)) cells' linked := by
      intro i
      by_cases hi : i = b
      · rw [hlinked, hi, update_self]
        refine ⟨rfl, rfl, fun hnot => absurd ?_ hnot⟩
        rw [inorder_node]
        exact mem_append_left _ hb
      · rw [hlinked, update_of_ne hi]
        exact ⟨rfl, rfl, fun _ => rfl⟩
    have hall : Relinks (inorder (node allocation (node a al ar) r)) cells
        (unlinked linked allocation) := by
      refine ((hrelinks.mono fun i hi => ?_).trans hlinks).trans (unlinked_relinks hself)
      rw [inorder_node]
      exact mem_append_left _ hi
    have hinorder : inorder (node b bl r) = inorder (node a al ar) ++ inorder r := by
      rw [← hsame]
      simp
    have hresult : unlinked linked allocation b = { cells' b with right := (cells allocation).right } := by
      rw [unlinked_of_ne hball, hlinked, update_self, hcell]
    refine ⟨⟨some b, unlinked linked allocation⟩, ?_, node b bl r, ⟨⟨rfl, ?_, ?_⟩, ?_⟩, ?_, hall, ?_, ?_⟩
    · dsimp only
      rw [hleft]
      dsimp only
      rw [hsplay, hlinked]
      rfl
    · dsimp only
      rw [hresult]
      refine htree.stored.2.1.congr fun i hi => ?_
      rw [unlinked_of_ne (hbl i hi).2, hlinked, update_of_ne (hbl i hi).1]
    · dsimp only
      rw [hresult]
      refine hr.congr fun i hi => ?_
      have hne : i ≠ allocation := fun heq => hnotr (heq ▸ hi)
      have hnotin : i ∉ inorder (node a al ar) := fun hmem =>
        hdisjoint i hmem i (mem_cons_of_mem _ hi) rfl
      rw [unlinked_of_ne hne, hlinked, update_of_ne (hbr i hi), (hrelinks i).2.2 hnotin]
    · have hkey : (fun i => ((unlinked linked allocation) i).item.address) =
          fun i => (cells i).item.address := by
        funext i
        rw [hall.item]
      dsimp only
      rw [hkey, Ordered, hinorder]
      exact h.ordered.sublist hsublist
    · rw [hinorder, herase]
    · dsimp only
      rw [unlinked, update_self]
    · dsimp only
      rw [unlinked, update_self]

/-- What `splay` promises for a tree and a key: it ends, keeps the cells and their order, and brings the
nearest one to the root. -/
def SplayContract (cells : ℕ → AllocationItem) (t : BinaryTree ℕ) (key : ℕ)
    (result : Option (Option ℕ × (ℕ → AllocationItem))) : Prop :=
  ∃ root cells' t', result = some (root, cells') ∧ IsSearchTree cells' t' root ∧
    inorder t' = inorder t ∧ Relinks (inorder t) cells cells' ∧
    (t ≠ nil → ∃ i, root = some i ∧ Nearest cells (inorder t) key i)

theorem splay_contract (h : IsSearchTree cells t p) (key : ℕ) (hfuel : (inorder t).length ≤ fuel) :
    SplayContract cells t key (splay fuel cells p key) := by
  by_cases ht : t = nil
  · subst ht
    have hp : p = none := h.stored
    subst hp
    exact ⟨none, cells, nil, rfl, h, rfl, Relinks.refl, fun hne => absurd rfl hne⟩
  · obtain ⟨cells', root, l, r, hsplay, htree, hsame, hrelinks, hbelow, habove⟩ :=
      splay_split h ht key hfuel
    refine ⟨some root, cells', node root l r, hsplay, htree, hsame, hrelinks, fun _ => ?_⟩
    have hordered : Ordered (fun i => (cells i).item.address) (node root l r) :=
      h.ordered.of_inorder_eq hsame
    exact ⟨root, rfl, hsame ▸ nearest_of_split hordered hbelow habove⟩

def RemoveContract (fuel : ℕ) (cells : ℕ → AllocationItem) (t : BinaryTree ℕ) (p : Option ℕ) (key : ℕ) : Prop :=
  ∃ m found, findMemoryAllocation fuel ⟨p, cells⟩ key = some (m, found) ∧
    (found = none ↔ ∀ i ∈ inorder t, (cells i).item.address ≠ key) ∧
    ∀ allocation, found = some allocation → allocation ∈ inorder t ∧ (cells allocation).item.address = key ∧
        ∃ m', removeMemoryAllocation fuel m allocation = some m' ∧ Removed cells t allocation m'

theorem remove_contract (h : IsSearchTree cells t p) (key : ℕ) (hfuel : (inorder t).length ≤ fuel) :
    RemoveContract fuel cells t p key := by
  by_cases ht : t = nil
  · subst ht
    have hp : p = none := h.stored
    subst hp
    refine ⟨⟨none, cells⟩, none, rfl, iff_of_true rfl ?_, fun allocation hnone => nomatch hnone⟩
    intro i hi
    cases hi
  · obtain ⟨cells', root, l, r, hsplay, htree, hsame, hrelinks, hbelow, habove⟩ :=
      splay_split h ht key hfuel
    have hordered : Ordered (fun i => (cells i).item.address) (node root l r) :=
      h.ordered.of_inorder_eq hsame
    have hnearest := nearest_of_split hordered hbelow habove
    rw [hsame] at hnearest
    obtain ⟨j, hp⟩ : ∃ j, p = some j := by
      cases t with
      | nil => exact absurd rfl ht
      | node j tl tr => exact ⟨j, h.stored.1⟩
    have hfind : findMemoryAllocation fuel ⟨p, cells⟩ key =
        if key = (cells' root).item.address then some (⟨some root, cells'⟩, some root)
        else some (⟨some root, cells'⟩, none) := by
      rw [hp] at hsplay ⊢
      simp only [findMemoryAllocation, hsplay, Option.bind_eq_bind, Option.bind_some]
      rfl
    rw [hrelinks.item] at hfind
    by_cases hkey : key = (cells root).item.address
    · rw [if_pos hkey] at hfind
      refine ⟨_, some root, hfind, iff_of_false (fun hnone => nomatch hnone) ?_, ?_⟩
      · exact fun habsent => habsent root hnearest.1 hkey.symm
      · intro allocation hallocation
        cases hallocation
        obtain ⟨m', hremove, t', htree', herase, hrelinks', hleft, hright⟩ :=
          remove_searchTree htree (hsame.symm ▸ hfuel)
        rw [hsame] at herase hrelinks'
        exact ⟨hnearest.1, hkey.symm, m', hremove, t', htree', herase, hrelinks.trans hrelinks',
          hleft, hright⟩
    · rw [if_neg hkey] at hfind
      refine ⟨_, none, hfind, iff_of_true rfl ?_, fun allocation hnone => nomatch hnone⟩
      intro i hi heq
      exact hkey (hnearest.2.1 ⟨i, hi, heq⟩).symm

theorem splay_and_remove (h : IsSearchTree cells t p) (key : ℕ) (hfuel : (inorder t).length ≤ fuel) :
    SplayContract cells t key (splay fuel cells p key) ∧ RemoveContract fuel cells t p key :=
  ⟨splay_contract h key hfuel, remove_contract h key hfuel⟩

def twoCells : ℕ → AllocationItem
  | 0 => ⟨some 1, none, ⟨8, 1⟩, []⟩
  | _ => ⟨none, none, ⟨4, 1⟩, []⟩

theorem twoCells_searchTree : IsSearchTree twoCells (node 0 (node 1 nil nil) nil) (some 0) where
  stored := ⟨rfl, ⟨rfl, rfl, rfl⟩, rfl⟩
  ordered := by simp [Ordered, twoCells]

theorem splay_and_remove_two :
    SplayContract twoCells (node 0 (node 1 nil nil) nil) 4 (splay 2 twoCells (some 0) 4) ∧
      RemoveContract 2 twoCells (node 0 (node 1 nil nil) nil) (some 0) 4 :=
  splay_and_remove twoCells_searchTree 4 (by simp)

end ScoreP.AllocMetric.Links
