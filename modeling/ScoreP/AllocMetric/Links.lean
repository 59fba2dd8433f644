import ScoreP.AllocMetric.Splay
import Mathlib.Data.BitVec

/-!
# The splay tree in memory

Source: `splay`, `find_memory_allocation` and `remove_memory_allocation` in
`src/utils/alloc_metric/SCOREP_AllocMetric.c`. The items are cells with links; following a link that
is NULL where the source does so is answered with `none`, and so is a loop that needs more rounds than
`fuel`.

`Rep` describes a round of the loop: the tree that is left and the two parts that hang at the sentinel,
each with its hole. `splayLoop_refines` says that the links follow the loop of `Splay.lean` piece by
piece, so the loop ends and the items keep their symmetric order and all they hold (`Relinks`).
-/

namespace ScoreP.AllocMetric.Links

open BinaryTree Foundations.SearchTree Function
open List hiding nil after

structure AllocationItem where
  left : Option ℕ
  right : Option ℕ
  item : Item
  substrateData : List (Option ℕ)
deriving DecidableEq

/-- What `left` and `right` of `splay` point to. -/
inductive Place where
  | sentinel
  | cell (i : ℕ)
deriving DecidableEq

/-- The memory and the local variables of `splay`. -/
structure Splaying where
  cells : ℕ → AllocationItem
  sentinelLeft : Option ℕ
  sentinelRight : Option ℕ
  left : Place
  right : Place
  root : ℕ

namespace Splaying

variable (s : Splaying)

def setLeft (place : Place) (value : Option ℕ) : Splaying :=
  match place with
  | .sentinel => { s with sentinelLeft := value }
  | .cell i => { s with cells := update s.cells i { s.cells i with left := value } }

def setRight (place : Place) (value : Option ℕ) : Splaying :=
  match place with
  | .sentinel => { s with sentinelRight := value }
  | .cell i => { s with cells := update s.cells i { s.cells i with right := value } }

/-- `rotate right` -/
def rotateRight (node : ℕ) : Splaying :=
  let s := s.setLeft (.cell s.root) (s.cells node).right
  let s := s.setRight (.cell node) (some s.root)
  { s with root := node }

/-- `rotate left` -/
def rotateLeft (node : ℕ) : Splaying :=
  let s := s.setRight (.cell s.root) (s.cells node).left
  let s := s.setLeft (.cell node) (some s.root)
  { s with root := node }

/-- `link right` -/
def linkRight : Option Splaying := do
  let s := s.setLeft s.right (some s.root)
  let s := { s with right := .cell s.root }
  let root ← (s.cells s.root).left
  return { s with root := root }

/-- `link left` -/
def linkLeft : Option Splaying := do
  let s := s.setRight s.left (some s.root)
  let s := { s with left := .cell s.root }
  let root ← (s.cells s.root).right
  return { s with root := root }

def assemble : Splaying :=
  let s := s.setRight s.left (s.cells s.root).left
  let s := s.setLeft s.right (s.cells s.root).right
  let s := s.setLeft (.cell s.root) s.sentinelRight
  s.setRight (.cell s.root) s.sentinelLeft

end Splaying

/-- The loop of `splay`. -/
def splayLoop (key : ℕ) : ℕ → Splaying → Option Splaying
  | 0, _ => none
  | fuel + 1, s =>
    if key < (s.cells s.root).item.address then
      match (s.cells s.root).left with
      | none => some s
      | some child =>
        if key < (s.cells child).item.address then
          let s := s.rotateRight child
          if (s.cells s.root).left = none then some s
          else s.linkRight.bind (splayLoop key fuel)
        else s.linkRight.bind (splayLoop key fuel)
    else if key > (s.cells s.root).item.address then
      match (s.cells s.root).right with
      | none => some s
      | some child =>
        if key > (s.cells child).item.address then
          let s := s.rotateLeft child
          if (s.cells s.root).right = none then some s
          else s.linkLeft.bind (splayLoop key fuel)
        else s.linkLeft.bind (splayLoop key fuel)
    else some s

/-- `splay`, with the new root and the memory behind it. -/
def splay (fuel : ℕ) (cells : ℕ → AllocationItem) (root : Option ℕ) (key : ℕ) :
    Option (Option ℕ × (ℕ → AllocationItem)) :=
  match root with
  | none => some (none, cells)
  | some root => do
    let s ← splayLoop key fuel ⟨cells, none, none, .sentinel, .sentinel, root⟩
    let s := s.assemble
    return (some s.root, s.cells)

/-- `SCOREP_AllocMetric` -/
structure LinkedMetric where
  allocations : Option ℕ
  cells : ℕ → AllocationItem

def findMemoryAllocation (fuel : ℕ) (m : LinkedMetric) (addr : ℕ) : Option (LinkedMetric × Option ℕ) :=
  match m.allocations with
  | none => some (m, none)
  | some _ => do
    let (allocations, cells) ← splay fuel m.cells m.allocations addr
    let root ← allocations
    let m : LinkedMetric := ⟨allocations, cells⟩
    if addr = (cells root).item.address then return (m, some root) else return (m, none)

/-- `allocation->right = NULL; allocation->left = NULL;` -/
def unlinked (cells : ℕ → AllocationItem) (allocation : ℕ) : ℕ → AllocationItem :=
  update cells allocation { cells allocation with right := none, left := none }

def removeMemoryAllocation (fuel : ℕ) (m : LinkedMetric) (allocation : ℕ) : Option LinkedMetric :=
  if m.allocations ≠ some allocation then some m
  else
    match (m.cells allocation).left with
    | none => some ⟨(m.cells allocation).right, unlinked m.cells allocation⟩
    | some left => do
      let (allocations, cells) ← splay fuel m.cells left (m.cells allocation).item.address
      let root ← allocations
      let cells := update cells root { cells root with right := (cells allocation).right }
      return ⟨some root, unlinked cells allocation⟩

/-! ## Trees in memory -/

/-- The links from `p` on are the tree. -/
def Stored (cells : ℕ → AllocationItem) : BinaryTree ℕ → Option ℕ → Prop
  | nil, p => p = none
  | node i l r, p => p = some i ∧ Stored cells l (cells i).left ∧ Stored cells r (cells i).right

def Relinks (ids : List ℕ) (cells cells' : ℕ → AllocationItem) : Prop :=
  ∀ i, (cells' i).item = (cells i).item ∧ (cells' i).substrateData = (cells i).substrateData ∧
    (i ∉ ids → cells' i = cells i)

variable {cells cells' cells'' : ℕ → AllocationItem} {ids : List ℕ}

theorem Relinks.refl : Relinks ids cells cells :=
  fun _ => ⟨rfl, rfl, fun _ => rfl⟩

theorem Relinks.trans (h : Relinks ids cells cells') (h' : Relinks ids cells' cells'') :
    Relinks ids cells cells'' := by
  intro i
  obtain ⟨hitem, hdata, hcell⟩ := h i
  obtain ⟨hitem', hdata', hcell'⟩ := h' i
  exact ⟨hitem'.trans hitem, hdata'.trans hdata, fun hi => (hcell' hi).trans (hcell hi)⟩

theorem Relinks.mono {ids' : List ℕ} (h : Relinks ids cells cells') (hids : ∀ i ∈ ids, i ∈ ids') :
    Relinks ids' cells cells' := by
  intro i
  obtain ⟨hitem, hdata, hcell⟩ := h i
  exact ⟨hitem, hdata, fun hi => hcell fun hmem => hi (hids i hmem)⟩

theorem Relinks.item (h : Relinks ids cells cells') (i : ℕ) : (cells' i).item = (cells i).item :=
  (h i).1

theorem Stored.congr {t : BinaryTree ℕ} {p : Option ℕ} (h : Stored cells t p)
    (hcells : ∀ i ∈ inorder t, cells' i = cells i) : Stored cells' t p := by
  induction t generalizing p with
  | nil => exact h
  | node i l r ihl ihr =>
    obtain ⟨hp, hl, hr⟩ := h
    obtain ⟨hcl, hci, hcr⟩ := forall_inorder_node.1 hcells
    refine ⟨hp, ?_, ?_⟩
    · rw [hci]
      exact ihl hl hcl
    · rw [hci]
      exact ihr hr hcr

def holder : List (ℕ × BinaryTree ℕ) → Place
  | [] => .sentinel
  | (i, _) :: _ => .cell i

namespace Splaying

def leftOf (s : Splaying) : Place → Option ℕ
  | .sentinel => s.sentinelLeft
  | .cell i => (s.cells i).left

def rightOf (s : Splaying) : Place → Option ℕ
  | .sentinel => s.sentinelRight
  | .cell i => (s.cells i).right

def LeftPart (s : Splaying) : List (ℕ × BinaryTree ℕ) → Prop
  | [] => True
  | (i, l) :: pieces =>
    Stored s.cells l (s.cells i).left ∧ s.rightOf (holder pieces) = some i ∧ s.LeftPart pieces

def RightPart (s : Splaying) : List (ℕ × BinaryTree ℕ) → Prop
  | [] => True
  | (i, r) :: pieces =>
    Stored s.cells r (s.cells i).right ∧ s.leftOf (holder pieces) = some i ∧ s.RightPart pieces

structure Rep (s : Splaying) (left right : List (ℕ × BinaryTree ℕ)) (t : BinaryTree ℕ) : Prop where
  tree : Stored s.cells t (some s.root)
  leftPart : s.LeftPart left
  rightPart : s.RightPart right
  left_eq : s.left = holder left
  right_eq : s.right = holder right

variable {s s' : Splaying} {pieces : List (ℕ × BinaryTree ℕ)} {p : Option ℕ} {place : Place}

/-! ### What a write leaves alone -/

theorem setLeft_cells_of_ne {i : ℕ} (h : place ≠ .cell i) : (s.setLeft place p).cells i = s.cells i := by
  cases place with
  | sentinel => rfl
  | cell j => exact update_of_ne (fun hij => h (congrArg Place.cell hij.symm)) _ _

theorem setRight_cells_of_ne {i : ℕ} (h : place ≠ .cell i) : (s.setRight place p).cells i = s.cells i := by
  cases place with
  | sentinel => rfl
  | cell j => exact update_of_ne (fun hij => h (congrArg Place.cell hij.symm)) _ _

@[simp] theorem setLeft_leftOf : (s.setLeft place p).leftOf place = p := by
  cases place with
  | sentinel => rfl
  | cell i => simp [setLeft, leftOf]

@[simp] theorem setRight_rightOf : (s.setRight place p).rightOf place = p := by
  cases place with
  | sentinel => rfl
  | cell i => simp [setRight, rightOf]

@[simp] theorem setLeft_rightOf (place' : Place) : (s.setLeft place p).rightOf place' = s.rightOf place' := by
  cases place <;> cases place' <;> simp only [setLeft, rightOf, update_apply]
  split <;> simp_all

@[simp] theorem setRight_leftOf (place' : Place) : (s.setRight place p).leftOf place' = s.leftOf place' := by
  cases place <;> cases place' <;> simp only [setRight, leftOf, update_apply]
  split <;> simp_all

@[simp] theorem setLeft_root : (s.setLeft place p).root = s.root := by
  cases place <;> rfl

@[simp] theorem setLeft_left : (s.setLeft place p).left = s.left := by
  cases place <;> rfl

@[simp] theorem setRight_root : (s.setRight place p).root = s.root := by
  cases place <;> rfl

@[simp] theorem setRight_right : (s.setRight place p).right = s.right := by
  cases place <;> rfl

theorem setLeft_relinks (h : ∀ i, place = .cell i → i ∈ ids) :
    Relinks ids s.cells (s.setLeft place p).cells := by
  intro i
  by_cases hplace : place = .cell i
  · subst hplace
    rw [setLeft]
    dsimp only
    rw [update_self]
    exact ⟨rfl, rfl, fun hi => absurd (h i rfl) hi⟩
  · rw [setLeft_cells_of_ne hplace]
    exact ⟨rfl, rfl, fun _ => rfl⟩

theorem setRight_relinks (h : ∀ i, place = .cell i → i ∈ ids) :
    Relinks ids s.cells (s.setRight place p).cells := by
  intro i
  by_cases hplace : place = .cell i
  · subst hplace
    rw [setRight]
    dsimp only
    rw [update_self]
    exact ⟨rfl, rfl, fun hi => absurd (h i rfl) hi⟩
  · rw [setRight_cells_of_ne hplace]
    exact ⟨rfl, rfl, fun _ => rfl⟩

/-! ### The parts -/

theorem mem_before_of_holder {i : ℕ} (h : holder pieces = .cell i) : i ∈ before pieces := by
  cases pieces with
  | nil => cases h
  | cons piece pieces =>
    cases h
    exact mem_append_right _ (mem_singleton_self _)

theorem mem_after_of_holder {i : ℕ} (h : holder pieces = .cell i) : i ∈ after pieces := by
  cases pieces with
  | nil => cases h
  | cons piece pieces =>
    cases h
    exact mem_append_left _ mem_cons_self

theorem LeftPart.congr (h : s.LeftPart pieces) (hcells : ∀ i ∈ before pieces, s'.cells i = s.cells i)
    (hsentinel : s'.sentinelRight = s.sentinelRight) : s'.LeftPart pieces := by
  induction pieces with
  | nil => trivial
  | cons piece pieces ih =>
    obtain ⟨hstored, hholder, hpart⟩ := h
    obtain ⟨hpieces, hl, hi⟩ := forall_before_cons.1 hcells
    refine ⟨?_, ?_, ih hpart hpieces⟩
    · rw [hi]
      exact hstored.congr hl
    · rw [← hholder]
      cases hplace : holder pieces with
      | sentinel => exact hsentinel
      | cell j => exact congrArg AllocationItem.right (hpieces j (mem_before_of_holder hplace))

theorem RightPart.congr (h : s.RightPart pieces) (hcells : ∀ i ∈ after pieces, s'.cells i = s.cells i)
    (hsentinel : s'.sentinelLeft = s.sentinelLeft) : s'.RightPart pieces := by
  induction pieces with
  | nil => trivial
  | cons piece pieces ih =>
    obtain ⟨hstored, hholder, hpart⟩ := h
    obtain ⟨hi, hr, hpieces⟩ := forall_after_cons.1 hcells
    refine ⟨?_, ?_, ih hpart hpieces⟩
    · rw [hi]
      exact hstored.congr hr
    · rw [← hholder]
      cases hplace : holder pieces with
      | sentinel => exact hsentinel
      | cell j => exact congrArg AllocationItem.left (hpieces j (mem_after_of_holder hplace))

theorem LeftPart.setLeft (h : s.LeftPart pieces) (hplace : ∀ i ∈ before pieces, place ≠ .cell i) :
    (s.setLeft place p).LeftPart pieces := by
  refine h.congr (fun i hi => setLeft_cells_of_ne (hplace i hi)) ?_
  cases place <;> rfl

theorem RightPart.setRight (h : s.RightPart pieces) (hplace : ∀ i ∈ after pieces, place ≠ .cell i) :
    (s.setRight place p).RightPart pieces := by
  refine h.congr (fun i hi => setRight_cells_of_ne (hplace i hi)) ?_
  cases place <;> rfl

theorem LeftPart.setRight_holder (h : s.LeftPart pieces) (hnodup : (before pieces).Nodup) :
    (s.setRight (holder pieces) p).LeftPart pieces := by
  cases pieces with
  | nil => trivial
  | cons piece pieces =>
    obtain ⟨i, l⟩ := piece
    obtain ⟨hstored, hholder, hpart⟩ := h
    rw [before, append_assoc] at hnodup
    obtain ⟨-, hlast, hbefore⟩ := nodup_append.1 hnodup
    obtain ⟨-, -, htree⟩ := nodup_append.1 hlast
    have hplace : ∀ j ∈ before pieces, Place.cell i ≠ .cell j := by
      intro j hj heq
      cases heq
      exact hbefore i hj i (mem_append_right _ (mem_singleton_self i)) rfl
    refine ⟨?_, ?_, ?_⟩
    · have hleft : (s.setRight (holder ((i, l) :: pieces)) p).leftOf (.cell i) = s.leftOf (.cell i) :=
        setRight_leftOf _
      dsimp only [leftOf] at hleft
      rw [hleft]
      refine hstored.congr fun j hj => setRight_cells_of_ne fun heq => ?_
      cases heq
      exact htree i hj i (mem_singleton_self i) rfl
    · rw [← hholder]
      cases hpieces : holder pieces with
      | sentinel => rfl
      | cell j =>
        have hj := setRight_cells_of_ne (s := s) (p := p) (hplace j (mem_before_of_holder hpieces))
        exact congrArg AllocationItem.right hj
    · exact hpart.congr (fun j hj => setRight_cells_of_ne (hplace j hj)) rfl

theorem RightPart.setLeft_holder (h : s.RightPart pieces) (hnodup : (after pieces).Nodup) :
    (s.setLeft (holder pieces) p).RightPart pieces := by
  cases pieces with
  | nil => trivial
  | cons piece pieces =>
    obtain ⟨i, r⟩ := piece
    obtain ⟨hstored, hholder, hpart⟩ := h
    rw [after, cons_append] at hnodup
    obtain ⟨hi, hrest⟩ := nodup_cons.1 hnodup
    have hplace : ∀ j ∈ after pieces, Place.cell i ≠ .cell j := by
      intro j hj heq
      cases heq
      exact hi (mem_append_right _ hj)
    refine ⟨?_, ?_, ?_⟩
    · have hright : (s.setLeft (holder ((i, r) :: pieces)) p).rightOf (.cell i) =
          s.rightOf (.cell i) := setLeft_rightOf _
      dsimp only [rightOf] at hright
      rw [hright]
      refine hstored.congr fun j hj => setLeft_cells_of_ne fun heq => ?_
      cases heq
      exact hi (mem_append_left _ hj)
    · rw [← hholder]
      cases hpieces : holder pieces with
      | sentinel => rfl
      | cell j =>
        have hj := setLeft_cells_of_ne (s := s) (p := p) (hplace j (mem_after_of_holder hpieces))
        exact congrArg AllocationItem.left hj
    · exact hpart.congr (fun j hj => setLeft_cells_of_ne (hplace j hj)) rfl

theorem LeftPart.stored {t : BinaryTree ℕ} (h : s.LeftPart pieces)
    (ht : Stored s.cells t (s.rightOf (holder pieces))) :
    Stored s.cells (plugRight pieces t) s.sentinelRight := by
  induction pieces generalizing t with
  | nil => exact ht
  | cons piece pieces ih =>
    obtain ⟨hstored, hholder, hpart⟩ := h
    exact ih hpart ⟨hholder, hstored, ht⟩

theorem RightPart.stored {t : BinaryTree ℕ} (h : s.RightPart pieces)
    (ht : Stored s.cells t (s.leftOf (holder pieces))) : Stored s.cells (plugLeft pieces t) s.sentinelLeft := by
  induction pieces generalizing t with
  | nil => exact ht
  | cons piece pieces ih =>
    obtain ⟨hstored, hholder, hpart⟩ := h
    exact ih hpart ⟨hholder, ht, hstored⟩

/-! ### Rotations and links -/

def members (left right : List (ℕ × BinaryTree ℕ)) (t : BinaryTree ℕ) : List ℕ :=
  before left ++ inorder t ++ after right

variable {left right : List (ℕ × BinaryTree ℕ)} {i a : ℕ} {l r al ar : BinaryTree ℕ}

theorem Rep.root_eq (h : s.Rep left right (node i l r)) : s.root = i :=
  Option.some.inj h.tree.1

theorem rotateRight_cells_of_ne {j : ℕ} (hroot : j ≠ s.root) (hchild : j ≠ a) :
    (s.rotateRight a).cells j = s.cells j := by
  simp [Splaying.rotateRight, Splaying.setLeft, Splaying.setRight, hroot, hchild]

theorem Rep.rotateRight (h : s.Rep left right (node i (node a al ar) r))
    (hnodup : (members left right (node i (node a al ar) r)).Nodup) :
    (s.rotateRight a).Rep left right (node a al (node i ar r)) ∧
      Relinks (members left right (node i (node a al ar) r)) s.cells (s.rotateRight a).cells := by
  have hroot := h.root_eq
  obtain ⟨-, ⟨hchild, hal, har⟩, hr⟩ := h.tree
  simp only [members, inorder_node, nodup_append, nodup_cons, mem_append,
    mem_cons] at hnodup
  have hcells : ∀ j, j ≠ i → j ≠ a → (s.rotateRight a).cells j = s.cells j := by
    intro j hi ha
    exact rotateRight_cells_of_ne (by rwa [hroot]) ha
  have hia : i ≠ a := by grind
  have hi : (s.rotateRight a).cells i = { s.cells i with left := (s.cells a).right } := by
    simp [Splaying.rotateRight, Splaying.setLeft, Splaying.setRight, hroot, hia]
  have ha : (s.rotateRight a).cells a = { s.cells a with right := some i } := by
    simp [Splaying.rotateRight, Splaying.setLeft, Splaying.setRight, hroot, hia.symm]
  refine ⟨⟨⟨rfl, ?_, ?_⟩, ?_, ?_, h.left_eq, h.right_eq⟩, ?_⟩
  · rw [ha]
    exact hal.congr fun j hj => hcells j (by grind) (by grind)
  · rw [ha]
    refine ⟨rfl, ?_, ?_⟩
    · rw [hi]
      exact har.congr fun j hj => hcells j (by grind) (by grind)
    · rw [hi]
      exact hr.congr fun j hj => hcells j (by grind) (by grind)
  · exact h.leftPart.congr (fun j hj => hcells j (by grind) (by grind)) rfl
  · exact h.rightPart.congr (fun j hj => hcells j (by grind) (by grind)) rfl
  · intro j
    by_cases hji : j = i
    · rw [hji, hi]
      exact ⟨rfl, rfl, fun hmem => absurd hmem (by simp [members])⟩
    · by_cases hja : j = a
      · rw [hja, ha]
        exact ⟨rfl, rfl, fun hmem => absurd hmem (by simp [members])⟩
      · rw [hcells j hji hja]
        exact ⟨rfl, rfl, fun _ => rfl⟩

theorem rotateLeft_cells_of_ne {j : ℕ} (hroot : j ≠ s.root) (hchild : j ≠ a) :
    (s.rotateLeft a).cells j = s.cells j := by
  simp [Splaying.rotateLeft, Splaying.setLeft, Splaying.setRight, hroot, hchild]

theorem Rep.rotateLeft (h : s.Rep left right (node i l (node a al ar)))
    (hnodup : (members left right (node i l (node a al ar))).Nodup) :
    (s.rotateLeft a).Rep left right (node a (node i l al) ar) ∧
      Relinks (members left right (node i l (node a al ar))) s.cells (s.rotateLeft a).cells := by
  have hroot := h.root_eq
  obtain ⟨-, hl, hchild, hal, har⟩ := h.tree
  simp only [members, inorder_node, nodup_append, nodup_cons, mem_append,
    mem_cons] at hnodup
  have hcells : ∀ j, j ≠ i → j ≠ a → (s.rotateLeft a).cells j = s.cells j := by
    intro j hi ha
    exact rotateLeft_cells_of_ne (by rwa [hroot]) ha
  have hia : i ≠ a := by grind
  have hi : (s.rotateLeft a).cells i = { s.cells i with right := (s.cells a).left } := by
    simp [Splaying.rotateLeft, Splaying.setLeft, Splaying.setRight, hroot, hia]
  have ha : (s.rotateLeft a).cells a = { s.cells a with left := some i } := by
    simp [Splaying.rotateLeft, Splaying.setLeft, Splaying.setRight, hroot, hia.symm]
  refine ⟨⟨⟨rfl, ?_, ?_⟩, ?_, ?_, h.left_eq, h.right_eq⟩, ?_⟩
  · rw [ha]
    refine ⟨rfl, ?_, ?_⟩
    · rw [hi]
      exact hl.congr fun j hj => hcells j (by grind) (by grind)
    · rw [hi]
      exact hal.congr fun j hj => hcells j (by grind) (by grind)
  · rw [ha]
    exact har.congr fun j hj => hcells j (by grind) (by grind)
  · exact h.leftPart.congr (fun j hj => hcells j (by grind) (by grind)) rfl
  · exact h.rightPart.congr (fun j hj => hcells j (by grind) (by grind)) rfl
  · intro j
    by_cases hji : j = i
    · rw [hji, hi]
      exact ⟨rfl, rfl, fun hmem => absurd hmem (by simp [members])⟩
    · by_cases hja : j = a
      · rw [hja, ha]
        exact ⟨rfl, rfl, fun hmem => absurd hmem (by simp [members])⟩
      · rw [hcells j hji hja]
        exact ⟨rfl, rfl, fun _ => rfl⟩

theorem Rep.linkRight (h : s.Rep left right (node i (node a al ar) r))
    (hnodup : (members left right (node i (node a al ar) r)).Nodup) :
    ∃ s', s.linkRight = some s' ∧ s'.Rep left ((i, r) :: right) (node a al ar) ∧
      Relinks (members left right (node i (node a al ar) r)) s.cells s'.cells := by
  have hroot := h.root_eq
  obtain ⟨-, htree, hr⟩ := h.tree
  have hleft := htree.1
  simp only [members, inorder_node, nodup_append, nodup_cons, mem_append,
    mem_cons] at hnodup
  have hplace : ∀ j, j ∉ after right → s.right ≠ .cell j := by
    intro j hj heq
    rw [h.right_eq] at heq
    exact hj (mem_after_of_holder heq)
  have hcells : ∀ j, j ∉ after right → (s.setLeft s.right (some i)).cells j = s.cells j :=
    fun j hj => setLeft_cells_of_ne (hplace j hj)
  have hi : (s.setLeft s.right (some i)).cells i = s.cells i := hcells i (by grind)
  refine ⟨{ s.setLeft s.right (some i) with right := .cell i, root := a }, ?_, ?_, ?_⟩
  · rw [Splaying.linkRight, hroot]
    simp [hroot, hi, hleft]
  · refine ⟨?_, ?_, ⟨?_, ?_, ?_⟩, ?_, rfl⟩
    · have hstored : Stored s.cells (node a al ar) (some a) := ⟨rfl, htree.2⟩
      refine hstored.congr fun j hj => hcells j ?_
      rw [inorder_node, mem_append, mem_cons] at hj
      grind
    · have hpart : (s.setLeft s.right (some i)).LeftPart left :=
        h.leftPart.setLeft fun j hj => hplace j (by grind)
      exact hpart.congr (fun _ _ => rfl) rfl
    · dsimp only
      rw [hi]
      exact hr.congr fun j hj => hcells j (by grind)
    · rw [← h.right_eq]
      exact setLeft_leftOf
    · have hpart : (s.setLeft (holder right) (some i)).RightPart right :=
        h.rightPart.setLeft_holder (by grind)
      rw [h.right_eq]
      exact hpart.congr (fun _ _ => rfl) rfl
    · dsimp only
      rw [setLeft_left]
      exact h.left_eq
  · refine setLeft_relinks fun j hj => ?_
    rw [h.right_eq] at hj
    exact mem_append_right _ (mem_after_of_holder hj)

theorem Rep.linkLeft (h : s.Rep left right (node i l (node a al ar)))
    (hnodup : (members left right (node i l (node a al ar))).Nodup) :
    ∃ s', s.linkLeft = some s' ∧ s'.Rep ((i, l) :: left) right (node a al ar) ∧
      Relinks (members left right (node i l (node a al ar))) s.cells s'.cells := by
  have hroot := h.root_eq
  obtain ⟨-, hl, htree⟩ := h.tree
  have hright := htree.1
  simp only [members, inorder_node, nodup_append, nodup_cons, mem_append,
    mem_cons] at hnodup
  have hplace : ∀ j, j ∉ before left → s.left ≠ .cell j := by
    intro j hj heq
    rw [h.left_eq] at heq
    exact hj (mem_before_of_holder heq)
  have hcells : ∀ j, j ∉ before left → (s.setRight s.left (some i)).cells j = s.cells j :=
    fun j hj => setRight_cells_of_ne (hplace j hj)
  have hi : (s.setRight s.left (some i)).cells i = s.cells i := hcells i (by grind)
  refine ⟨{ s.setRight s.left (some i) with left := .cell i, root := a }, ?_, ?_, ?_⟩
  · rw [Splaying.linkLeft, hroot]
    simp [hroot, hi, hright]
  · refine ⟨?_, ⟨?_, ?_, ?_⟩, ?_, rfl, ?_⟩
    · have hstored : Stored s.cells (node a al ar) (some a) := ⟨rfl, htree.2⟩
      refine hstored.congr fun j hj => hcells j ?_
      rw [inorder_node, mem_append, mem_cons] at hj
      grind
    · dsimp only
      rw [hi]
      exact hl.congr fun j hj => hcells j (by grind)
    · rw [← h.left_eq]
      exact setRight_rightOf
    · have hpart : (s.setRight (holder left) (some i)).LeftPart left :=
        h.leftPart.setRight_holder (by grind)
      rw [h.left_eq]
      exact hpart.congr (fun _ _ => rfl) rfl
    · have hpart : (s.setRight s.left (some i)).RightPart right :=
        h.rightPart.setRight fun j hj => hplace j (by grind)
      exact hpart.congr (fun _ _ => rfl) rfl
    · dsimp only
      rw [setRight_right]
      exact h.right_eq
  · refine setRight_relinks fun j hj => ?_
    rw [h.left_eq] at hj
    exact mem_append_left _ (mem_append_left _ (mem_before_of_holder hj))

theorem Rep.assemble (h : s.Rep left right (node i l r)) (hnodup : (members left right (node i l r)).Nodup) :
    Stored s.assemble.cells (node i (plugRight left l) (plugLeft right r)) (some s.assemble.root) ∧
      Relinks (members left right (node i l r)) s.cells s.assemble.cells := by
  have hroot := h.root_eq
  obtain ⟨-, hl, hr⟩ := h.tree
  simp only [members, inorder_node, nodup_append, nodup_cons, mem_append,
    mem_cons] at hnodup
  have hleft : ∀ j, j ∉ before left → s.left ≠ .cell j := by
    intro j hj heq
    rw [h.left_eq] at heq
    exact hj (mem_before_of_holder heq)
  have hright : ∀ j, j ∉ after right → s.right ≠ .cell j := by
    intro j hj heq
    rw [h.right_eq] at heq
    exact hj (mem_after_of_holder heq)
  -- both holes are filled
  obtain ⟨s₁, hs₁⟩ : ∃ s₁, s₁ = s.setRight s.left (s.cells i).left := ⟨_, rfl⟩
  obtain ⟨s₂, hs₂⟩ : ∃ s₂, s₂ = s₁.setLeft s.right (s₁.cells i).right := ⟨_, rfl⟩
  have hcells₁ : ∀ j, j ∉ before left → s₁.cells j = s.cells j := by
    intro j hj
    rw [hs₁]
    exact setRight_cells_of_ne (hleft j hj)
  have hcells₂ : ∀ j, j ∉ before left → j ∉ after right → s₂.cells j = s.cells j := by
    intro j hj hj'
    rw [hs₂, setLeft_cells_of_ne (hright j hj'), hcells₁ j hj]
  have hi : s₁.cells i = s.cells i := hcells₁ i (by grind)
  have hleftPart : s₂.LeftPart left := by
    have hpart : s₁.LeftPart left := by
      rw [hs₁, h.left_eq]
      exact h.leftPart.setRight_holder (by grind)
    rw [hs₂]
    exact hpart.setLeft fun j hj => hright j (by grind)
  have hrightPart : s₂.RightPart right := by
    have hpart : s₁.RightPart right := by
      rw [hs₁]
      exact h.rightPart.setRight fun j hj => hleft j (by grind)
    rw [hs₂, h.right_eq]
    exact hpart.setLeft_holder (by grind)
  have hplugRight : Stored s₂.cells (plugRight left l) s₂.sentinelRight := by
    refine hleftPart.stored ?_
    rw [hs₂, setLeft_rightOf, hs₁, ← h.left_eq, setRight_rightOf, ← hs₁, ← hs₂]
    exact hl.congr fun j hj => hcells₂ j (by grind) (by grind)
  have hplugLeft : Stored s₂.cells (plugLeft right r) s₂.sentinelLeft := by
    refine hrightPart.stored ?_
    rw [hs₂, ← h.right_eq, setLeft_leftOf, ← hs₂, hi]
    exact hr.congr fun j hj => hcells₂ j (by grind) (by grind)
  -- and both parts hang below the root
  have hassemble : s.assemble =
      (s₂.setLeft (.cell i) s₂.sentinelRight).setRight (.cell i) s₂.sentinelLeft := by
    rw [hs₂, hs₁, Splaying.assemble]
    simp only [hroot, setLeft_root, setRight_root, setRight_right]
    rfl
  have hcells : ∀ j, j ≠ i → s.assemble.cells j = s₂.cells j := by
    intro j hj
    rw [hassemble, setRight_cells_of_ne fun heq => hj (Place.cell.inj heq).symm,
      setLeft_cells_of_ne fun heq => hj (Place.cell.inj heq).symm]
  have hnew : s.assemble.cells i =
      { s₂.cells i with left := s₂.sentinelRight, right := s₂.sentinelLeft } := by
    rw [hassemble]
    simp [Splaying.setLeft, Splaying.setRight]
  have hassembleRoot : s.assemble.root = i := by
    rw [hassemble, hs₂, hs₁]
    simp [hroot]
  refine ⟨⟨congrArg some hassembleRoot, ?_, ?_⟩, ?_⟩
  · rw [hnew]
    refine hplugRight.congr fun j hj => hcells j ?_
    rw [inorder_plugRight, mem_append] at hj
    grind
  · rw [hnew]
    refine hplugLeft.congr fun j hj => hcells j ?_
    rw [inorder_plugLeft, mem_append] at hj
    grind
  · have hrelinks₁ : Relinks (members left right (node i l r)) s.cells s₁.cells := by
      rw [hs₁]
      refine setRight_relinks fun j hj => ?_
      rw [h.left_eq] at hj
      exact mem_append_left _ (mem_append_left _ (mem_before_of_holder hj))
    have hrelinks₂ : Relinks (members left right (node i l r)) s₁.cells s₂.cells := by
      rw [hs₂]
      refine setLeft_relinks fun j hj => ?_
      rw [h.right_eq] at hj
      exact mem_append_right _ (mem_after_of_holder hj)
    have hmem : ∀ j, Place.cell i = .cell j → j ∈ members left right (node i l r) := by
      intro j hj
      rw [← Place.cell.inj hj]
      simp [members]
    rw [hassemble]
    exact (hrelinks₁.trans hrelinks₂).trans ((setLeft_relinks hmem).trans (setRight_relinks hmem))

end Splaying

/-! ## The loop -/

/-- The pieces as `Splay.lean` has them. -/
def pieceItems (item : ℕ → Item) (pieces : List (ℕ × BinaryTree ℕ)) : List (Item × BinaryTree Item) :=
  pieces.map fun piece => (item piece.1, piece.2.map item)

variable {item : ℕ → Item} {key fuel : ℕ} {s s' : Splaying} {result : Option Splaying}
  {left right left' right' : List (ℕ × BinaryTree ℕ)} {t t' : BinaryTree ℕ}

open Splaying in
def Ends (item : ℕ → Item) (key : ℕ) (result : Option Splaying) (s : Splaying)
    (left right : List (ℕ × BinaryTree ℕ)) (t : BinaryTree ℕ) : Prop :=
  ∃ s' left' right' i l r, result = some s' ∧ s'.Rep left' right' (node i l r) ∧
    members left' right' (node i l r) = members left right t ∧
    Relinks (members left right t) s.cells s'.cells ∧
    AllocMetric.splayLoop key (pieceItems item left) (pieceItems item right) (t.map item) =
      AllocMetric.assemble (pieceItems item left') (pieceItems item right') (item i) (l.map item)
        (r.map item)

open Splaying in
theorem Ends.after (h : Ends item key result s' left' right' t')
    (hmembers : members left' right' t' = members left right t)
    (hrelinks : Relinks (members left right t) s.cells s'.cells)
    (hloop : AllocMetric.splayLoop key (pieceItems item left) (pieceItems item right) (t.map item) =
      AllocMetric.splayLoop key (pieceItems item left') (pieceItems item right') (t'.map item)) :
    Ends item key result s left right t := by
  obtain ⟨s'', left'', right'', i, l, r, hresult, hrep, hsame, hrelinks', heq⟩ := h
  rw [hmembers] at hsame hrelinks'
  exact ⟨s'', left'', right'', i, l, r, hresult, hrep, hsame, hrelinks.trans hrelinks', hloop.trans heq⟩

open Splaying in
theorem splayLoop_refines (h : s.Rep left right t) (ht : t ≠ nil)
    (hnodup : (members left right t).Nodup) (hfuel : (inorder t).length ≤ fuel)
    (hitem : ∀ i, (s.cells i).item = item i) : Ends item key (splayLoop key fuel s) s left right t := by
  induction fuel generalizing s left right t with
  | zero =>
    have hnil := eq_nil_of_length_eq_zero (Nat.le_zero.1 hfuel)
    exact absurd (inorder_eq_nil.1 hnil) ht
  | succ fuel ih =>
    cases t with
    | nil => exact absurd rfl ht
    | node i l r =>
      have hroot := h.root_eq
      have hnext : ∀ {s' : Splaying} {left' right' : List (ℕ × BinaryTree ℕ)} {t' : BinaryTree ℕ},
          s'.Rep left' right' t' → members left' right' t' = members left right (node i l r) →
          Relinks (members left right (node i l r)) s.cells s'.cells → t' ≠ nil →
          (inorder t').length < (inorder (node i l r)).length →
          AllocMetric.splayLoop key (pieceItems item left) (pieceItems item right) ((node i l r).map item) =
            AllocMetric.splayLoop key (pieceItems item left') (pieceItems item right') (t'.map item) →
          Ends item key (splayLoop key fuel s') s left right (node i l r) := by
        intro s' left' right' t' hrep hmembers hrelinks ht' hlength
        refine (ih hrep ht' (hmembers ▸ hnodup) (by omega) fun j => ?_).after hmembers hrelinks
        rw [hrelinks.item, hitem]
      rw [splayLoop, hroot, hitem]
      by_cases hlt : key < (item i).address
      · rw [if_pos hlt]
        cases l with
        | nil =>
          have hleft : (s.cells i).left = none := h.tree.2.1
          rw [hleft]
          refine ⟨s, left, right, i, nil, r, rfl, h, rfl, Relinks.refl, ?_⟩
          rw [AllocMetric.splayLoop.eq_def]
          simp [BinaryTree.map, hlt]
        | node a al ar =>
          have hleft : (s.cells i).left = some a := h.tree.2.1.1
          rw [hleft]
          dsimp only
          rw [hitem]
          by_cases hlta : key < (item a).address
          · rw [if_pos hlta]
            obtain ⟨hrotate, hrelinks⟩ := h.rotateRight hnodup
            have hmembers : members left right (node a al (node i ar r)) =
                members left right (node i (node a al ar) r) := by
              simp [members]
            cases al with
            | nil =>
              have hnone : ((s.rotateRight a).cells (s.rotateRight a).root).left = none :=
                hrotate.tree.2.1
              rw [if_pos hnone]
              refine ⟨_, left, right, a, nil, node i ar r, rfl, hrotate, hmembers, hrelinks, ?_⟩
              rw [AllocMetric.splayLoop.eq_def]
              simp [BinaryTree.map, hlt, hlta]
            | node b bl br =>
              have hsome : ((s.rotateRight a).cells (s.rotateRight a).root).left = some b :=
                hrotate.tree.2.1.1
              rw [hsome, if_neg (Option.some_ne_none b)]
              obtain ⟨s', hlink, hrep, hrelinks'⟩ := hrotate.linkRight (hmembers ▸ hnodup)
              have hmembers' : members left ((a, node i ar r) :: right) (node b bl br) =
                  members left right (node i (node a (node b bl br) ar) r) := by
                simp [members, after]
              rw [hmembers] at hrelinks'
              have hboth := hrelinks.trans hrelinks'
              rw [hlink, Option.bind_some]
              refine hnext hrep hmembers' hboth (by simp) ?_ ?_
              · simp
              · rw [AllocMetric.splayLoop.eq_def]
                simp [BinaryTree.map, hlt, hlta, pieceItems]
          · rw [if_neg hlta]
            obtain ⟨s', hlink, hrep, hrelinks⟩ := h.linkRight hnodup
            have hmembers : members left ((i, r) :: right) (node a al ar) =
                members left right (node i (node a al ar) r) := by
              simp [members, after]
            rw [hlink, Option.bind_some]
            refine hnext hrep hmembers hrelinks (by simp) ?_ ?_
            · simp
            · rw [AllocMetric.splayLoop.eq_def]
              simp [BinaryTree.map, hlt, hlta, pieceItems]
      · rw [if_neg hlt]
        by_cases hgt : key > (item i).address
        · rw [if_pos hgt]
          cases r with
          | nil =>
            have hright : (s.cells i).right = none := h.tree.2.2
            rw [hright]
            refine ⟨s, left, right, i, l, nil, rfl, h, rfl, Relinks.refl, ?_⟩
            rw [AllocMetric.splayLoop.eq_def]
            simp [BinaryTree.map, hlt, hgt]
          | node a al ar =>
            have hright : (s.cells i).right = some a := h.tree.2.2.1
            rw [hright]
            dsimp only
            rw [hitem]
            by_cases hgta : key > (item a).address
            · rw [if_pos hgta]
              obtain ⟨hrotate, hrelinks⟩ := h.rotateLeft hnodup
              have hmembers : members left right (node a (node i l al) ar) =
                  members left right (node i l (node a al ar)) := by
                simp [members]
              cases ar with
              | nil =>
                have hnone : ((s.rotateLeft a).cells (s.rotateLeft a).root).right = none :=
                  hrotate.tree.2.2
                rw [if_pos hnone]
                refine ⟨_, left, right, a, node i l al, nil, rfl, hrotate, hmembers, hrelinks, ?_⟩
                rw [AllocMetric.splayLoop.eq_def]
                simp [BinaryTree.map, hlt, hgt, hgta]
              | node b bl br =>
                have hsome : ((s.rotateLeft a).cells (s.rotateLeft a).root).right = some b :=
                  hrotate.tree.2.2.1
                rw [hsome, if_neg (Option.some_ne_none b)]
                obtain ⟨s', hlink, hrep, hrelinks'⟩ := hrotate.linkLeft (hmembers ▸ hnodup)
                have hmembers' : members ((a, node i l al) :: left) right (node b bl br) =
                    members left right (node i l (node a al (node b bl br))) := by
                  simp [members, before]
                rw [hmembers] at hrelinks'
                have hboth := hrelinks.trans hrelinks'
                rw [hlink, Option.bind_some]
                refine hnext hrep hmembers' hboth (by simp) ?_ ?_
                · simp
                  omega
                · rw [AllocMetric.splayLoop.eq_def]
                  simp [BinaryTree.map, hlt, hgt, hgta, pieceItems]
            · rw [if_neg hgta]
              obtain ⟨s', hlink, hrep, hrelinks⟩ := h.linkLeft hnodup
              have hmembers : members ((i, l) :: left) right (node a al ar) =
                  members left right (node i l (node a al ar)) := by
                simp [members, before]
              rw [hlink, Option.bind_some]
              refine hnext hrep hmembers hrelinks (by simp) ?_ ?_
              · simp
                omega
              · rw [AllocMetric.splayLoop.eq_def]
                simp [BinaryTree.map, hlt, hgt, hgta, pieceItems]
        · rw [if_neg hgt]
          refine ⟨s, left, right, i, l, r, rfl, h, rfl, Relinks.refl, ?_⟩
          rw [AllocMetric.splayLoop.eq_def]
          simp [BinaryTree.map, hlt, hgt]

end ScoreP.AllocMetric.Links
