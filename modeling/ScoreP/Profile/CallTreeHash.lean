import ScoreP.Profile.Node

/-!
# Hashing and comparing call trees

Source: `consider_visit_count`, `compare_call_trees` and `calculate_hash` in
`src/measurement/profiling/scorep_profile_cluster.c`. A `CallTree` is a node with its children and, for
each location in the order of the root nodes, the thread start that `get_thread_start_for_fork` finds.

`subtreeHash_eq` is the agreement of the two recursions: trees that compare as equal have equal hashes
up to the node of the root, when the visits that only the hash counts agree.
-/

namespace ScoreP.Profile

open List

inductive ClusterMode where
  | none
  | subtree
  | subtreeVisits
  | mpi
  | mpiVisits
  | mpiVisitsAll
deriving DecidableEq

/-- `SCOREP_PROFILE_CLUSTER_MPI <= clustering_mode` -/
def ClusterMode.onlyMpi : ClusterMode → Bool
  | .none | .subtree | .subtreeVisits => false
  | .mpi | .mpiVisits | .mpiVisitsAll => true

structure Regions where
  isMpi : ℕ → Bool
  name : ℕ → String

/-- The number of the type in `scorep_profile_node_type_enum`. -/
def NodeType.number : NodeType → UInt64
  | .regularRegion => 0
  | .parameterString => 1
  | .parameterInteger => 2
  | .threadRoot => 3
  | .threadStart => 4
  | .collapse => 5
  | .taskRoot => 6

def hashForTypeData (data : TypeData) : NodeType → UInt64
  | .regularRegion | .threadStart | .taskRoot => UInt64.ofNat data.handle
  | .threadRoot | .collapse => UInt64.ofNat data.value
  | .parameterString | .parameterInteger =>
    let val := UInt64.ofNat data.handle
    ((val >>> 1) ||| (val <<< 31)) + UInt64.ofNat data.value

def lessThanForTypeData (data1 data2 : TypeData) : NodeType → Bool
  | .regularRegion | .threadStart | .taskRoot => data1.handle < data2.handle
  | .threadRoot | .collapse => data1.value < data2.value
  | .parameterString | .parameterInteger =>
    if data1.handle = data2.handle then data1.value < data2.value else data1.handle < data2.handle

variable {n : ℕ} {D : Type}

def nodeHash (node : NodeData n D) : UInt64 :=
  let val := node.nodeType.number
  ((val >>> 1) ||| (val <<< 31)) + hashForTypeData node.typeSpecificData node.nodeType

def nodeLessThan (a b : NodeData n D) : Bool :=
  if a.nodeType.number < b.nodeType.number then true
  else if a.nodeType.number > b.nodeType.number then false
  else lessThanForTypeData a.typeSpecificData b.typeSpecificData a.nodeType

section Modes

variable (regions : Regions) (mode : ClusterMode)

def isMpiNode (node : NodeData n D) : Bool :=
  node.nodeType == .regularRegion && regions.isMpi node.typeSpecificData.handle

def considerVisitCount (node : NodeData n D) : Bool :=
  if mode = .subtreeVisits ∨ mode = .mpiVisitsAll ∨ (mode = .mpiVisits ∧ isMpiNode regions node) then
    if node.nodeType = .regularRegion then
      let name := (regions.name node.typeSpecificData.handle).toList
      !("MPI_Probe".toList.isPrefixOf name || "MPI_Iprobe".toList.isPrefixOf name ||
        "MPI_Test".toList.isPrefixOf name)
    else true
  else false

end Modes

inductive CallTree (n : ℕ) (D : Type) where
  | node (data : NodeData n D) (children : List (CallTree n D))
      (threadStarts : List (Option (CallTree n D)))

namespace CallTree

def data : CallTree n D → NodeData n D
  | node data _ _ => data

def isMpiInSubtree (t : CallTree n D) : Bool :=
  t.data.mpiInSubtree

/-! ## The hash -/

/-- `( val >> 1 ) | ( val << 31 )` -/
def rotate (val : UInt32) : UInt32 :=
  (val >>> 1) ||| (val <<< 31)

/-- The variables `val`, `used_ch` or `thread_count`, and the flag of the node. -/
structure Hashing where
  val : UInt32
  number : UInt32
  mpiInSubtree : Bool

def Hashing.child (mode : ClusterMode) (s : Hashing) (childVal : UInt32) (mpi : Bool) : Hashing :=
  if mode.onlyMpi && !mpi then s
  else
    { val := rotate (s.val + (s.number + 1)) + childVal
      number := s.number + 1
      mpiInSubtree := s.mpiInSubtree || mpi }

def Hashing.threadStart (mode : ClusterMode) (s : Hashing) (childVal : UInt32) (mpi : Bool) : Hashing :=
  let s := { s with number := s.number + 1 }
  if mode.onlyMpi && !mpi then s
  else
    { s with
      val := rotate (s.val + (s.number + 1)) + childVal
      mpiInSubtree := s.mpiInSubtree || mpi }

section Hash

variable (regions : Regions) (mode : ClusterMode)

mutual

/-- `calculate_hash`; also gives the tree with its flags. -/
def calculateHash : CallTree n D → UInt32 × CallTree n D
  | node data children threadStarts =>
    if mode = .none then ((nodeHash data).toUInt32, node data children threadStarts)
    else
      let (s, children) := hashChildren ⟨0, 0, isMpiNode regions data⟩ children
      let (s, threadStarts) :=
        if data.isForkNode then hashThreadStarts { s with number := 1 } threadStarts
        else (s, threadStarts)
      let val :=
        if considerVisitCount regions mode data then rotate (s.val + data.count.toUInt32) else s.val
      (val + (nodeHash data).toUInt32,
        node { data with mpiInSubtree := s.mpiInSubtree } children threadStarts)

def hashChildren (s : Hashing) : List (CallTree n D) → Hashing × List (CallTree n D)
  | [] => (s, [])
  | curr :: siblings =>
    let (childVal, curr) := calculateHash curr
    let (s, siblings) := hashChildren (s.child mode childVal curr.isMpiInSubtree) siblings
    (s, curr :: siblings)

def hashThreadStarts (s : Hashing) : List (Option (CallTree n D)) → Hashing × List (Option (CallTree n D))
  | [] => (s, [])
  | none :: roots =>
    let (s, roots) := hashThreadStarts s roots
    (s, none :: roots)
  | some curr :: roots =>
    let (val, curr) := calculateHash curr
    let childVal := val - (nodeHash curr.data).toUInt32
    let (s, roots) := hashThreadStarts (s.threadStart mode childVal curr.isMpiInSubtree) roots
    (s, some curr :: roots)

end

end Hash

/-! ## The comparison -/

def skip (mode : ClusterMode) (children : List (CallTree n D)) : List (CallTree n D) :=
  children.dropWhile fun child => mode.onlyMpi && !child.isMpiInSubtree

section Compare

variable (regions : Regions) (mode : ClusterMode) (itCntA itCntB : UInt32)

mutual

def compareCallTrees : CallTree n D → CallTree n D → ℤ
  | node a childrenA threadStartsA, node b childrenB threadStartsB =>
    if mode = .none then 0
    else
      let res := compareChildren childrenA childrenB
      if res ≠ 0 then res
      else if a.isForkNode || b.isForkNode then
        if !a.isForkNode then -1
        else if !b.isForkNode then 1
        else compareThreadStarts threadStartsA threadStartsB
      else 0

def compareChildren : List (CallTree n D) → List (CallTree n D) → ℤ
  | [], tailB => if (skip mode tailB).isEmpty then 0 else -1
  | a :: tailA, tailB =>
    if mode.onlyMpi && !a.isMpiInSubtree then compareChildren tailA tailB
    else
      match skip mode tailB with
      | [] => 1
      | b :: tailB =>
        let visitsA := a.data.count / itCntA.toUInt64
        let visitsB := b.data.count / itCntB.toUInt64
        if compareNodes a.data.nodeType b.data.nodeType a.data.typeSpecificData
              b.data.typeSpecificData &&
            (!considerVisitCount regions mode a.data || visitsA == visitsB) then
          let res := compareCallTrees a b
          if res ≠ 0 then res else compareChildren tailA tailB
        else if nodeLessThan a.data b.data then -1
        else if nodeLessThan b.data a.data then 1
        else if visitsA < visitsB then -1
        else 1

def compareThreadStarts : List (Option (CallTree n D)) → List (Option (CallTree n D)) → ℤ
  | [], rootsB => if rootsB.all Option.isNone then 0 else -1
  | none :: rootsA, [] => compareThreadStarts rootsA []
  | some _ :: _, [] => 1
  | none :: rootsA, none :: rootsB => compareThreadStarts rootsA rootsB
  | none :: _, some _ :: _ => -1
  | some _ :: _, none :: _ => 1
  | some a :: rootsA, some b :: rootsB =>
    if mode.onlyMpi && !a.isMpiInSubtree && !b.isMpiInSubtree then compareThreadStarts rootsA rootsB
    else
      let res := compareCallTrees a b
      if res ≠ 0 then res else compareThreadStarts rootsA rootsB

end

end Compare

/-! ## The thread starts of a tree -/

mutual

def starts : CallTree n D → List (NodeData n D)
  | node _ children threadStarts => startsOfChildren children ++ startsOfRoots threadStarts

def startsOfChildren : List (CallTree n D) → List (NodeData n D)
  | [] => []
  | child :: siblings => child.starts ++ startsOfChildren siblings

def startsOfRoots : List (Option (CallTree n D)) → List (NodeData n D)
  | [] => []
  | none :: roots => startsOfRoots roots
  | some start :: roots => start.data :: (start.starts ++ startsOfRoots roots)

end

def Unvisited (starts : List (NodeData n D)) : Prop :=
  ∀ x ∈ starts, x.nodeType = .threadStart ∧ x.count = 0

theorem Unvisited.append {as bs : List (NodeData n D)} (h : Unvisited (as ++ bs)) :
    Unvisited as ∧ Unvisited bs :=
  ⟨fun x hx => h x (mem_append_left bs hx), fun x hx => h x (mem_append_right as hx)⟩

section Agreement

variable (regions : Regions) (mode : ClusterMode)

/-- The tree with the flags that `calculateHash` sets. -/
def hashed (t : CallTree n D) : CallTree n D :=
  (calculateHash regions mode t).2

/-- The hash without the node of the root, which `init_cluster` stores. -/
def subtreeHash (t : CallTree n D) : UInt32 :=
  (calculateHash regions mode t).1 - (nodeHash t.data).toUInt32

def foldChildren (s : Hashing) (children : List (CallTree n D)) : Hashing :=
  children.foldl (fun s child => s.child mode (calculateHash regions mode child).1
    (hashed regions mode child).isMpiInSubtree) s

def foldThreadStarts (s : Hashing) (roots : List (Option (CallTree n D))) : Hashing :=
  (roots.filterMap id).foldl (fun s start => s.threadStart mode (subtreeHash regions mode start)
    (hashed regions mode start).isMpiInSubtree) s

theorem hashed_data (t : CallTree n D) : (hashed regions mode t).data =
    { t.data with mpiInSubtree := (hashed regions mode t).isMpiInSubtree } := by
  cases t with
  | node data children threadStarts =>
    unfold hashed isMpiInSubtree
    rw [calculateHash]
    split <;> rfl

theorem nodeHash_hashed (t : CallTree n D) : nodeHash (hashed regions mode t).data = nodeHash t.data := by
  rw [hashed_data]
  rfl

theorem hash_eq (t : CallTree n D) : (calculateHash regions mode t).1 =
    subtreeHash regions mode t + (nodeHash t.data).toUInt32 :=
  (sub_add_cancel _ _).symm

theorem hashChildren_eq (s : Hashing) (children : List (CallTree n D)) : hashChildren regions mode s children =
      (foldChildren regions mode s children, children.map (hashed regions mode)) := by
  induction children generalizing s with
  | nil => rfl
  | cons child siblings ih =>
    rw [hashChildren]
    dsimp only
    rw [ih]
    rfl

theorem hashThreadStarts_eq (s : Hashing) (roots : List (Option (CallTree n D))) :
    hashThreadStarts regions mode s roots =
      (foldThreadStarts regions mode s roots, roots.map (Option.map (hashed regions mode))) := by
  induction roots generalizing s with
  | nil => rfl
  | cons start roots ih =>
    cases start with
    | none =>
      rw [hashThreadStarts]
      dsimp only
      rw [ih]
      rfl
    | some start =>
      rw [hashThreadStarts]
      dsimp only
      rw [ih, show (calculateHash regions mode start).2 = hashed regions mode start from rfl, nodeHash_hashed]
      rfl

def traversed : CallTree n D → Hashing
  | node data children threadStarts =>
    let s := foldChildren regions mode ⟨0, 0, isMpiNode regions data⟩ children
    if data.isForkNode then foldThreadStarts regions mode { s with number := 1 } threadStarts else s

variable {regions mode} (hmode : mode ≠ .none)
include hmode

theorem calculateHash_eq (data : NodeData n D) (children : List (CallTree n D))
    (threadStarts : List (Option (CallTree n D))) :
    let t := node data children threadStarts
    let s := traversed regions mode t
    calculateHash regions mode t =
      ((if considerVisitCount regions mode data then rotate (s.val + data.count.toUInt32) else s.val) +
          (nodeHash data).toUInt32,
        node { data with mpiInSubtree := s.mpiInSubtree } (children.map (hashed regions mode))
          (if data.isForkNode then threadStarts.map (Option.map (hashed regions mode))
            else threadStarts)) := by
  dsimp only
  rw [calculateHash, if_neg hmode, hashChildren_eq]
  dsimp only
  rw [hashThreadStarts_eq, traversed]
  cases data.isForkNode <;> rfl

theorem subtreeHash_eq_traversed (t : CallTree n D) : subtreeHash regions mode t =
    let val := (traversed regions mode t).val
    if considerVisitCount regions mode t.data then rotate (val + t.data.count.toUInt32) else val := by
  cases t with
  | node data children threadStarts =>
    unfold subtreeHash
    rw [calculateHash_eq hmode]
    exact add_sub_cancel_right _ _

theorem isMpiInSubtree_hashed (t : CallTree n D) :
    (hashed regions mode t).isMpiInSubtree = (traversed regions mode t).mpiInSubtree := by
  cases t with
  | node data children threadStarts =>
    unfold hashed
    rw [calculateHash_eq hmode]
    rfl

omit hmode

theorem skip_cases (children : List (CallTree n D)) : (skip mode (children.map (hashed regions mode)) = [] ∧
      ∀ s, foldChildren regions mode s children = s) ∨
    ∃ b rest, skip mode (children.map (hashed regions mode)) =
        hashed regions mode b :: rest.map (hashed regions mode) ∧
      (∀ s, foldChildren regions mode s children = foldChildren regions mode s (b :: rest)) ∧
      ∀ x ∈ b.starts ++ startsOfChildren rest, x ∈ startsOfChildren children := by
  induction children with
  | nil => exact .inl ⟨rfl, fun s => rfl⟩
  | cons child siblings ih =>
    by_cases hskip : (mode.onlyMpi && !(hashed regions mode child).isMpiInSubtree) = true
    · have heq : skip mode ((child :: siblings).map (hashed regions mode)) =
          skip mode (siblings.map (hashed regions mode)) := by
        unfold skip
        rw [map_cons]
        exact dropWhile_cons_of_pos hskip
      have hfold : ∀ s, foldChildren regions mode s (child :: siblings) =
          foldChildren regions mode s siblings := by
        intro s
        unfold foldChildren
        rw [foldl_cons, Hashing.child, if_pos hskip]
      rw [heq]
      rcases ih with ⟨hnil, hs⟩ | ⟨b, rest, hb, hs, hstarts⟩
      · exact .inl ⟨hnil, fun s => (hfold s).trans (hs s)⟩
      · refine .inr ⟨b, rest, hb, fun s => (hfold s).trans (hs s), fun x hx => ?_⟩
        exact mem_append_right _ (hstarts x hx)
    · refine .inr ⟨child, siblings, ?_, fun s => rfl, fun x hx => hx⟩
      unfold skip
      rw [map_cons]
      exact dropWhile_cons_of_neg hskip

/-! ## The agreement -/

theorem nodes_agree {a b : NodeData n D}
    (h : compareNodes a.nodeType b.nodeType a.typeSpecificData b.typeSpecificData = true) :
    nodeHash a = nodeHash b ∧ isMpiNode regions a = isMpiNode regions b ∧
      considerVisitCount regions mode a = considerVisitCount regions mode b := by
  unfold compareNodes at h
  by_cases htype : a.nodeType = b.nodeType
  · rw [if_neg (not_not_intro htype)] at h
    unfold nodeHash considerVisitCount isMpiNode
    rw [← htype]
    cases hcase : a.nodeType <;> rw [hcase] at h <;>
      simp only [compareTypeData, Bool.and_eq_true, beq_iff_eq] at h <;>
      simp [hashForTypeData, h] <;> rfl
  · rw [if_pos htype] at h
    cases h

theorem compareChildren_eq_zero {a b : CallTree n D} {tailA tailB rest : List (CallTree n D)}
    (hcounts : ¬(mode.onlyMpi && !a.isMpiInSubtree) = true) (hskip : skip mode tailB = b :: rest)
    (h : compareChildren regions mode 1 1 (a :: tailA) tailB = 0) :
    compareNodes a.data.nodeType b.data.nodeType a.data.typeSpecificData b.data.typeSpecificData = true ∧
      (considerVisitCount regions mode a.data = true → a.data.count = b.data.count) ∧
      compareCallTrees regions mode 1 1 a b = 0 ∧ compareChildren regions mode 1 1 tailA rest = 0 := by
  rw [compareChildren, if_neg hcounts, hskip] at h
  dsimp only at h
  rw [show (1 : UInt32).toUInt64 = 1 from rfl, UInt64.div_one, UInt64.div_one] at h
  split_ifs at h with hnode hcompare
  · exact absurd h hcompare
  · rw [Bool.and_eq_true, Bool.or_eq_true, beq_iff_eq] at hnode
    refine ⟨hnode.1, fun hconsider => ?_, not_not.1 hcompare, h⟩
    rcases hnode.2 with hvisits | hvisits
    · rw [hconsider] at hvisits
      exact nomatch hvisits
    · exact hvisits
  · exact absurd h one_ne_zero
  · exact absurd h one_ne_zero

theorem starts_agree {a b : NodeData n D} (ha : a.nodeType = .threadStart)
    (hb : b.nodeType = .threadStart) : isMpiNode regions a = isMpiNode regions b ∧
      considerVisitCount regions mode a = considerVisitCount regions mode b := by
  have hmpi : ∀ x : NodeData n D, x.nodeType = .threadStart → isMpiNode regions x = false := by
    intro x hx
    unfold isMpiNode
    rw [hx]
    rfl
  unfold considerVisitCount
  rw [hmpi a ha, hmpi b hb, ha, hb]
  exact ⟨rfl, rfl⟩

theorem foldThreadStarts_none {roots : List (Option (CallTree n D))}
    (h : roots.all Option.isNone = true) (s : Hashing) : foldThreadStarts regions mode s roots = s := by
  have hnil : roots.filterMap id = [] :=
    filterMap_eq_nil_iff.2 fun x hx => Option.isNone_iff_eq_none.1 (all_eq_true.1 h x hx)
  unfold foldThreadStarts
  rw [hnil]
  rfl

theorem foldThreadStarts_some (start : CallTree n D) (roots : List (Option (CallTree n D))) (s : Hashing) :
    foldThreadStarts regions mode s (some start :: roots) =
      foldThreadStarts regions mode (s.threadStart mode (subtreeHash regions mode start)
        (hashed regions mode start).isMpiInSubtree) roots :=
  rfl

variable (hmode : mode ≠ .none)
include hmode

theorem node_agree {a b : CallTree n D} (hval : (traversed regions mode a).val = (traversed regions mode b).val)
    (hconsider : considerVisitCount regions mode a.data = considerVisitCount regions mode b.data)
    (hcount : considerVisitCount regions mode a.data = true → a.data.count = b.data.count) :
    subtreeHash regions mode a = subtreeHash regions mode b := by
  rw [subtreeHash_eq_traversed hmode, subtreeHash_eq_traversed hmode, ← hconsider, hval]
  cases hcase : considerVisitCount regions mode a.data with
  | false => rfl
  | true => rw [hcount hcase]

mutual

theorem compareCallTrees_agree : ∀ a b : CallTree n D,
    compareCallTrees regions mode 1 1 (hashed regions mode a) (hashed regions mode b) = 0 →
    Unvisited a.starts → Unvisited b.starts → isMpiNode regions a.data = isMpiNode regions b.data →
    (traversed regions mode a).val = (traversed regions mode b).val ∧
      (hashed regions mode a).isMpiInSubtree = (hashed regions mode b).isMpiInSubtree
  | node dataA childrenA rootsA, node dataB childrenB rootsB, h, ha, hb, hmpi => by
    obtain ⟨hstartsA, hrootsA⟩ := ha.append
    obtain ⟨hstartsB, hrootsB⟩ := hb.append
    rw [isMpiInSubtree_hashed hmode, isMpiInSubtree_hashed hmode]
    unfold hashed at h
    rw [calculateHash_eq hmode, calculateHash_eq hmode] at h
    rw [compareCallTrees, if_neg hmode] at h
    have hchildren : compareChildren regions mode 1 1 (childrenA.map (hashed regions mode))
        (childrenB.map (hashed regions mode)) = 0 := by
      by_contra hne
      rw [if_pos hne] at h
      exact hne h
    have hfold := compareChildren_agree childrenA childrenB hchildren hstartsA hstartsB
      ⟨0, 0, isMpiNode regions dataA⟩
    rw [if_neg (not_not_intro hchildren)] at h
    have hmpi : isMpiNode regions dataA = isMpiNode regions dataB := hmpi
    rw [traversed, traversed, ← hmpi, ← hfold]
    cases hforkA : dataA.isForkNode <;> cases hforkB : dataB.isForkNode <;>
      simp only [hforkA, hforkB, Bool.or_false, Bool.or_true, Bool.not_true, Bool.not_false,
        Bool.false_eq_true, ↓reduceIte] at h ⊢
    · exact ⟨trivial, trivial⟩
    · exact nomatch h
    · exact nomatch h
    · rw [compareThreadStarts_agree rootsA rootsB h hrootsA hrootsB]
      exact ⟨rfl, rfl⟩

theorem compareChildren_agree : ∀ as bs : List (CallTree n D),
    compareChildren regions mode 1 1 (as.map (hashed regions mode)) (bs.map (hashed regions mode)) = 0 →
    Unvisited (startsOfChildren as) → Unvisited (startsOfChildren bs) →
    ∀ s, foldChildren regions mode s as = foldChildren regions mode s bs
  | [], bs, h, _, _, s => by
    rw [map_nil, compareChildren] at h
    rcases @skip_cases _ _ regions mode bs with ⟨-, hs⟩ | ⟨b, rest, hb, -, -⟩
    · rw [hs]
      rfl
    · rw [hb] at h
      exact nomatch h
  | a :: as, bs, h, ha, hb, s => by
    obtain ⟨hstartsA, hrestA⟩ := ha.append
    by_cases hskip : (mode.onlyMpi && !(hashed regions mode a).isMpiInSubtree) = true
    · rw [map_cons, compareChildren, if_pos hskip] at h
      have hrest := compareChildren_agree as bs h hrestA hb s
      rw [← hrest]
      unfold foldChildren
      rw [foldl_cons, Hashing.child, if_pos hskip]
    · rcases @skip_cases _ _ regions mode bs with ⟨hnil, -⟩ | ⟨b, rest, hcons, hs, hstarts⟩
      · rw [map_cons, compareChildren, if_neg hskip, hnil] at h
        exact nomatch h
      · obtain ⟨hstartsB, hrestB⟩ := Unvisited.append fun x hx => hb x (hstarts x hx)
        obtain ⟨hnode, hcount, hcompare, hrest⟩ := compareChildren_eq_zero hskip hcons h
        rw [hashed_data, hashed_data] at hnode hcount
        obtain ⟨hhash, hmpi, hconsider⟩ := @nodes_agree _ _ regions mode _ _ hnode
        obtain ⟨hval, hflag⟩ := compareCallTrees_agree a b hcompare hstartsA hstartsB hmpi
        have hsubtree := node_agree hmode hval hconsider hcount
        have hhash : nodeHash a.data = nodeHash b.data := hhash
        rw [hs]
        unfold foldChildren
        rw [foldl_cons, foldl_cons, hash_eq, hash_eq, hsubtree, hhash, hflag]
        exact compareChildren_agree as rest hrest hrestA hrestB _

theorem compareThreadStarts_agree : ∀ as bs : List (Option (CallTree n D)),
    compareThreadStarts regions mode 1 1 (as.map (Option.map (hashed regions mode)))
      (bs.map (Option.map (hashed regions mode))) = 0 →
    Unvisited (startsOfRoots as) → Unvisited (startsOfRoots bs) →
    ∀ s, foldThreadStarts regions mode s as = foldThreadStarts regions mode s bs
  | [], bs, h, _, _, s => by
    rw [map_nil, compareThreadStarts] at h
    by_cases hall : bs.all Option.isNone = true
    · rw [foldThreadStarts_none hall]
      rfl
    · rw [all_map, show Option.isNone ∘ Option.map (hashed regions mode) =
        (Option.isNone : Option (CallTree n D) → Bool) from funext fun x => Option.isNone_map,
        if_neg hall] at h
      exact nomatch h
  | none :: as, [], h, ha, hb, s =>
    compareThreadStarts_agree as [] h ha hb s
  | some a :: as, [], h, _, _, _ => nomatch h
  | none :: as, none :: bs, h, ha, hb, s =>
    compareThreadStarts_agree as bs h ha hb s
  | none :: as, some b :: bs, h, _, _, _ => nomatch h
  | some a :: as, none :: bs, h, _, _, _ => nomatch h
  | some a :: as, some b :: bs, h, ha, hb, s => by
    obtain ⟨hstartsA, hrestA⟩ := Unvisited.append fun x hx => ha x (mem_cons_of_mem _ hx)
    obtain ⟨hstartsB, hrestB⟩ := Unvisited.append fun x hx => hb x (mem_cons_of_mem _ hx)
    obtain ⟨htypeA, hcountA⟩ := ha a.data mem_cons_self
    obtain ⟨htypeB, hcountB⟩ := hb b.data mem_cons_self
    rw [foldThreadStarts_some, foldThreadStarts_some]
    rw [map_cons, map_cons, Option.map_some, Option.map_some, compareThreadStarts] at h
    by_cases hskip : (mode.onlyMpi && !(hashed regions mode a).isMpiInSubtree &&
        !(hashed regions mode b).isMpiInSubtree) = true
    · rw [if_pos hskip] at h
      simp only [Bool.and_eq_true, Bool.not_eq_true'] at hskip
      obtain ⟨⟨honly, hflagA⟩, hflagB⟩ := hskip
      unfold Hashing.threadStart
      rw [honly, hflagA, hflagB]
      exact compareThreadStarts_agree as bs h hrestA hrestB _
    · rw [if_neg hskip] at h
      obtain ⟨hmpi, hconsider⟩ := @starts_agree _ _ regions mode _ _ htypeA htypeB
      have hcompare : compareCallTrees regions mode 1 1 (hashed regions mode a)
          (hashed regions mode b) = 0 := by
        by_contra hne
        rw [if_pos hne] at h
        exact hne h
      rw [if_neg (not_not_intro hcompare)] at h
      obtain ⟨hval, hflag⟩ := compareCallTrees_agree a b hcompare hstartsA hstartsB hmpi
      have hcount : a.data.count = b.data.count := hcountA.trans hcountB.symm
      rw [node_agree hmode hval hconsider fun _ => hcount, hflag]
      exact compareThreadStarts_agree as bs h hrestA hrestB _

end

end Agreement

end CallTree

/-! ## Iterations -/

/-- The call tree of an iteration. `parameter_uint64` creates its root anew for every instance of the
dynamic region, and `setup_start_from_parent` counts it once. `on_location_activation` creates the thread
starts below it with a count of 0, and no event enters one. -/
structure Iteration (n : ℕ) (D : Type) where
  tree : CallTree n D
  instanceNode : tree.data.nodeType = .parameterInteger
  count : tree.data.count = 1
  unvisited : CallTree.Unvisited tree.starts

open CallTree in
theorem Iteration.subtreeHash_eq {regions : Regions} {mode : ClusterMode} {a b : Iteration n D}
    (h : compareCallTrees regions mode 1 1 (a.tree.hashed regions mode) (b.tree.hashed regions mode) = 0) :
    a.tree.subtreeHash regions mode = b.tree.subtreeHash regions mode := by
  by_cases hmode : mode = .none
  · have hzero : ∀ t : CallTree n D, t.subtreeHash regions mode = 0 := by
      rintro ⟨data, children, threadStarts⟩
      unfold subtreeHash
      rw [calculateHash, if_pos hmode]
      exact sub_self _
    rw [hzero, hzero]
  · obtain ⟨hmpi, hconsider⟩ : isMpiNode regions a.tree.data = isMpiNode regions b.tree.data ∧
        considerVisitCount regions mode a.tree.data = considerVisitCount regions mode b.tree.data := by
      unfold considerVisitCount isMpiNode
      rw [a.instanceNode, b.instanceNode]
      exact ⟨rfl, rfl⟩
    obtain ⟨hval, -⟩ := compareCallTrees_agree hmode a.tree b.tree h a.unvisited b.unvisited hmpi
    exact node_agree hmode hval hconsider fun _ => a.count.trans b.count.symm

end ScoreP.Profile
