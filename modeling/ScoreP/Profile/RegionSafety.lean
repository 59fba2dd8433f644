import ScoreP.Profile.RegionEvents

/-!
# The start values meet their ends

`Store.Extends` says what the events do to the call trees apart from the metrics: nodes are added, the
others keep their place. `OnPath` follows the open regions from the current node outwards, `Tracked.Inv`
adds the values.
-/

namespace ScoreP.Profile

open Foundations Function List Option

section Entries

variable {metric : ℕ} {value first : UInt64} {list : List (SparseMetric UInt64)}
  {entry : SparseMetric UInt64}

theorem openValue_cons_of_ne (h : entry.metric ≠ metric) :
    openValue metric (entry :: list) = openValue metric list := by
  unfold openValue
  rw [find?_cons_of_neg (by rw [beq_iff_eq]; exact h)]

theorem openValue_cons_self (h : entry.metric = metric) :
    openValue metric (entry :: list) = if entry.startValueSet then some entry.startValue else none := by
  unfold openValue
  rw [find?_cons_of_pos (by rw [beq_iff_eq]; exact h)]
  rfl

theorem sumOf_cons_of_ne (h : entry.metric ≠ metric) : sumOf metric (entry :: list) = sumOf metric list := by
  unfold sumOf
  rw [find?_cons_of_neg (by rw [beq_iff_eq]; exact h)]

theorem sumOf_cons_self (h : entry.metric = metric) : sumOf metric (entry :: list) = entry.sum := by
  unfold sumOf
  rw [find?_cons_of_pos (by rw [beq_iff_eq]; exact h)]
  rfl

theorem triggerSparse_begin (h : openValue metric list = none) : ∃ list',
    triggerSparse metric value .beginValue list = some list' ∧ openValue metric list' = some value ∧
      sumOf metric list' = sumOf metric list := by
  induction list with
  | nil => exact ⟨_, rfl, openValue_cons_self rfl, sumOf_cons_self rfl⟩
  | cons entry list ih =>
    by_cases hmetric : entry.metric = metric
    · rw [openValue_cons_self hmetric] at h
      have hset : entry.startValueSet = false := by
        by_contra hset
        rw [if_pos (Bool.eq_true_of_not_eq_false hset)] at h
        exact nomatch h
      refine ⟨{ entry with startValueSet := true, startValue := value } :: list, ?_, ?_, ?_⟩
      · rw [triggerSparse, if_pos hmetric, SparseMetric.update, hset]
        rfl
      · exact openValue_cons_self hmetric
      · rw [sumOf_cons_self hmetric]
        exact sumOf_cons_self hmetric
    · rw [openValue_cons_of_ne hmetric] at h
      obtain ⟨list', htrigger, hopen, hsum⟩ := ih h
      refine ⟨entry :: list', ?_, ?_, ?_⟩
      · rw [triggerSparse, if_neg hmetric, htrigger]
        rfl
      · rw [openValue_cons_of_ne hmetric, hopen]
      · rw [sumOf_cons_of_ne hmetric, sumOf_cons_of_ne hmetric, hsum]

theorem triggerSparse_end (h : openValue metric list = some first) (hle : first ≤ value) : ∃ list',
    triggerSparse metric value .endValue list = some list' ∧ openValue metric list' = none ∧
      sumOf metric list' = sumOf metric list + (value - first) := by
  induction list with
  | nil => exact nomatch h
  | cons entry list ih =>
    by_cases hmetric : entry.metric = metric
    · rw [openValue_cons_self hmetric] at h
      have hset : entry.startValueSet = true := by
        by_contra hset
        rw [if_neg hset] at h
        exact nomatch h
      rw [if_pos hset] at h
      have hfirst : entry.startValue = first := some.inj h
      have hless : ¬(entry.startValueSet = false ∨ SparseValue.less value entry.startValue = true) := by
        rw [hset, hfirst, not_or]
        refine ⟨by decide, fun hlt => ?_⟩
        exact UInt64.not_lt.2 hle (of_decide_eq_true hlt)
      refine ⟨({ entry with startValueSet := false }.add (value - first)) :: list, ?_, ?_, ?_⟩
      · rw [triggerSparse, if_pos hmetric, SparseMetric.update, if_neg hless, hfirst]
        rfl
      · exact openValue_cons_self hmetric
      · rw [sumOf_cons_self hmetric]
        exact sumOf_cons_self hmetric
    · rw [openValue_cons_of_ne hmetric] at h
      obtain ⟨list', htrigger, hopen, hsum⟩ := ih h
      refine ⟨entry :: list', ?_, ?_, ?_⟩
      · rw [triggerSparse, if_neg hmetric, htrigger]
        rfl
      · rw [openValue_cons_of_ne hmetric, hopen]
      · rw [sumOf_cons_of_ne hmetric, sumOf_cons_of_ne hmetric, hsum]

end Entries

/-! ## The order of the values -/

theorem toInt_toInt64 (a : UInt64) :
    a.toInt64.toInt = if a.toNat < 2 ^ 63 then (a.toNat : ℤ) else (a.toNat : ℤ) - 2 ^ 64 := by
  show a.toBitVec.toInt = _
  rw [BitVec.toInt_eq_toNat_cond]
  have hnat : a.toBitVec.toNat = a.toNat := rfl
  rw [hnat]
  split_ifs <;> omega

theorem ValueType.le_trans {type : ValueType} {a b c : UInt64} (hab : type.le a b) (hbc : type.le b c) :
    type.le a c := by
  cases type with
  | int64 => exact Int64.le_trans hab hbc
  | uint64 => exact UInt64.le_trans hab hbc

theorem ValueType.le_refl {type : ValueType} (a : UInt64) : type.le a a := by
  cases type with
  | int64 => exact Int64.le_refl _
  | uint64 => exact UInt64.le_refl _

theorem ValueType.le_unsigned {type : ValueType} {a b : UInt64} (h : type.le a b)
    (hsign : type = .int64 → ¬(a.toInt64 < 0 ∧ 0 ≤ b.toInt64)) : a ≤ b := by
  cases type with
  | uint64 => exact h
  | int64 =>
    have hsign := hsign rfl
    rw [ValueType.le, Int64.le_iff_toInt_le] at h
    rw [Int64.lt_iff_toInt_lt, Int64.le_iff_toInt_le] at hsign
    rw [toInt_toInt64, toInt_toInt64] at h hsign
    rw [UInt64.le_iff_toNat_le]
    have hlt := a.toNat_lt
    have hlt' := b.toNat_lt
    split_ifs at h hsign <;> simp at hsign <;> omega

theorem orFault_some {α : Type} (fault : Fault) (a : α) : orFault fault (some a) = .ok a :=
  rfl

theorem ok_bind {α β : Type} (a : α) (f : α → Except Fault β) : ((.ok a : Except Fault α) >>= f) = f a :=
  rfl

section Trees

variable {n : ℕ} {D : Type}

def Node.identity (node : Node n D) : Option ℕ × NodeType × TypeData :=
  (node.parent, node.nodeType, node.typeSpecificData)

namespace Store

variable {σ σ' σ'' : Store n D} {l outer i : ℕ} {type : NodeType} {td : TypeData} {timestamp : UInt64}

structure Grown (σ : Store n D) : Prop where
  free : ∀ place, σ.free place = []
  child : ∀ i < σ.allocated, ∀ c ∈ (σ.node i).children, i < c ∧ c < σ.allocated ∧ (σ.node c).parent = some i
  fresh : ∀ i, σ.allocated ≤ i → (σ.node i).firstIntSparse = []

structure Keeps (σ σ' : Store n D) : Prop where
  grown : σ'.Grown
  allocated : σ.allocated ≤ σ'.allocated
  identity : ∀ i < σ.allocated, (σ'.node i).identity = (σ.node i).identity

structure Extends (σ σ' : Store n D) : Prop extends Keeps σ σ' where
  sparse : ∀ i, (σ'.node i).firstIntSparse = (σ.node i).firstIntSparse

theorem Extends.trans (h : Extends σ σ') (h' : Extends σ' σ'') : Extends σ σ'' where
  grown := h'.grown
  allocated := Nat.le_trans h.allocated h'.allocated
  identity := fun i hi => (h'.identity i (Nat.lt_of_lt_of_le hi h.allocated)).trans (h.identity i hi)
  sparse := fun i => (h'.sparse i).trans (h.sparse i)

theorem Keeps.parent (h : Keeps σ σ') (hi : i < σ.allocated) : (σ'.node i).parent = (σ.node i).parent :=
  congrArg Prod.fst (h.identity i hi)

theorem Keeps.nodeType (h : Keeps σ σ') (hi : i < σ.allocated) : (σ'.node i).nodeType = (σ.node i).nodeType :=
  congrArg (fun identity => identity.2.1) (h.identity i hi)

theorem Keeps.data (h : Keeps σ σ') (hi : i < σ.allocated) :
    (σ'.node i).typeSpecificData = (σ.node i).typeSpecificData :=
  congrArg (fun identity => identity.2.2) (h.identity i hi)

theorem node_setNode (node : Node n D) (k : ℕ) : (σ.setNode i node).node k = if k = i then node else σ.node k :=
  update_apply σ.node i node k

theorem Keeps.setNode (h : σ.Grown) {node : Node n D} (hidentity : node.identity = (σ.node i).identity)
    (hfresh : σ.allocated ≤ i → node.firstIntSparse = [])
    (hchildren : ∀ c ∈ node.children, c ∈ (σ.node i).children) : Keeps σ (σ.setNode i node) := by
  have hidentities : ∀ k, ((σ.setNode i node).node k).identity = (σ.node k).identity := by
    intro k
    rw [node_setNode]
    split_ifs with hk
    · rw [hk, hidentity]
    · rfl
  refine ⟨⟨h.free, fun k hk c hc => ?_, fun k hk => ?_⟩, Nat.le_refl _, fun k _ => hidentities k⟩
  · have hmem : c ∈ (σ.node k).children := by
      rw [node_setNode] at hc
      split_ifs at hc with hik
      · rw [hik]
        exact hchildren c hc
      · exact hc
    obtain ⟨hlt, hbound, hparent⟩ := h.child k hk c hmem
    exact ⟨hlt, hbound, (congrArg Prod.fst (hidentities c)).trans hparent⟩
  · rw [node_setNode]
    split_ifs with hik
    · exact hfresh (by rw [← hik]; exact hk)
    · exact h.fresh k hk

theorem Extends.setNode (h : σ.Grown) {node : Node n D} (hidentity : node.identity = (σ.node i).identity)
    (hsparse : node.firstIntSparse = (σ.node i).firstIntSparse)
    (hchildren : ∀ c ∈ node.children, c ∈ (σ.node i).children) : Extends σ (σ.setNode i node) where
  toKeeps := Keeps.setNode h hidentity (fun hi => hsparse.trans (h.fresh i hi)) hchildren
  sparse := by
    intro k
    rw [node_setNode]
    split_ifs with hk
    · rw [hk, hsparse]
    · rfl

theorem Extends.setData (h : σ.Grown) {data : NodeData n D} (htype : data.nodeType = (σ.node i).nodeType)
    (hdata : data.typeSpecificData = (σ.node i).typeSpecificData)
    (hsparse : data.firstIntSparse = (σ.node i).firstIntSparse) : Extends σ (σ.setData i data) := by
  refine Extends.setNode h ?_ hsparse fun c hc => hc
  unfold Node.identity
  dsimp only
  rw [htype, hdata]

theorem allocNode_eq (h : σ.Grown) (untied : Bool) : σ.allocNode l type untied = σ.allocNew := by
  have hstub : σ.recycleStub l = none := by
    unfold recycleStub
    rw [h.free, h.free, h.free]
  have hempty : (if untied then [] else σ.free (.nodes l)) = [] := by
    rw [h.free, ite_self]
  unfold allocNode
  rw [hempty, hstub]
  exact ite_self _

structure ChildOf (σ σ' : Store n D) (outer child : ℕ) (type : NodeType) (td : TypeData) : Prop where
  extend : Extends σ σ'
  older : outer < child
  bound : child < σ'.allocated
  parent : (σ'.node child).parent = some outer
  nodeType : (σ'.node child).nodeType = type
  same : compareTypeData td (σ'.node child).typeSpecificData type = true

theorem compareTypeData_refl (td : TypeData) (type : NodeType) : compareTypeData td td type = true :=
  compareTypeData_iff.2 rfl

/-- A new node that is the first child of `outer`. -/
def withChild (σ : Store n D) (outer : ℕ) (data : NodeData n D) : Store n D :=
  { σ with
    allocated := σ.allocated + 1
    node := fun k =>
      if k = outer then { σ.node outer with children := σ.allocated :: (σ.node outer).children }
      else if k = σ.allocated then { toNodeData := data, parent := some outer, children := [] }
      else σ.node k }

theorem createNode_eq (h : σ.Grown) (houter : outer < σ.allocated) (untied : Bool) :
    ∃ σ', σ.createNode l (some outer) type td timestamp untied = (σ.allocated, σ') ∧
      σ'.setChildren outer (σ.allocated :: (σ'.node outer).children) =
        σ.withChild outer (.create type td timestamp) := by
  unfold createNode
  rw [allocNode_eq h]
  refine ⟨_, rfl, ?_⟩
  have hne : outer ≠ σ.allocated := Nat.ne_of_lt houter
  unfold setChildren setNode withChild
  dsimp only
  rw [update_of_ne hne]
  congr 1
  funext k
  rw [update_apply, update_apply]

theorem withChild_spec (h : σ.Grown) (houter : outer < σ.allocated) :
    ChildOf σ (σ.withChild outer (.create type td timestamp)) outer σ.allocated type td := by
  have hold : ∀ k < σ.allocated, (σ.withChild outer (.create type td timestamp)).node k =
      if k = outer then { σ.node outer with children := σ.allocated :: (σ.node outer).children }
      else σ.node k := by
    intro k hk
    unfold withChild
    dsimp only
    rw [if_neg (Nat.ne_of_lt hk)]
  have hnew : (σ.withChild outer (.create type td timestamp)).node σ.allocated =
      { toNodeData := .create type td timestamp, parent := some outer, children := [] } := by
    unfold withChild
    dsimp only
    rw [if_neg (Nat.ne_of_gt houter), if_pos rfl]
  have hidentity : ∀ k < σ.allocated,
      ((σ.withChild outer (.create type td timestamp)).node k).identity = (σ.node k).identity := by
    intro k hk
    rw [hold k hk]
    split_ifs with houter'
    · rw [houter']
      rfl
    · rfl
  have hsparse : ∀ k, ((σ.withChild outer (.create type td timestamp)).node k).firstIntSparse =
      (σ.node k).firstIntSparse := by
    intro k
    unfold withChild
    dsimp only
    split_ifs with houter' hk
    · rw [houter']
    · rw [hk, h.fresh σ.allocated (Nat.le_refl _)]
      rfl
    · rfl
  refine ⟨⟨⟨⟨h.free, fun i hi c hc => ?_, fun i hi => ?_⟩, Nat.le_succ _, hidentity⟩, hsparse⟩, houter,
    Nat.lt_succ_self _, by rw [hnew], by rw [hnew]; rfl, by rw [hnew]; exact compareTypeData_refl td type⟩
  · rcases Nat.lt_succ_iff_lt_or_eq.1 hi with hi | rfl
    · rw [hold i hi] at hc
      have hcases : c = σ.allocated ∧ i = outer ∨ c ∈ (σ.node i).children := by
        split_ifs at hc with houter'
        · rcases mem_cons.1 hc with hc | hc
          · exact .inl ⟨hc, houter'⟩
          · rw [houter']
            exact .inr hc
        · exact .inr hc
      rcases hcases with ⟨rfl, rfl⟩ | hc
      · exact ⟨houter, Nat.lt_succ_self _, by rw [hnew]⟩
      · obtain ⟨hlt, hbound, hparent⟩ := h.child i hi c hc
        exact ⟨hlt, Nat.lt_succ_of_lt hbound, (congrArg Prod.fst (hidentity c hbound)).trans hparent⟩
    · rw [hnew] at hc
      exact (not_mem_nil hc).elim
  · rw [hsparse]
    exact h.fresh i (Nat.le_of_succ_le hi)

theorem findCreateChild_childOf (h : σ.Grown) (houter : outer < σ.allocated) : ∃ child σ',
    σ.findCreateChild l outer type td timestamp = (child, σ') ∧ ChildOf σ σ' outer child type td := by
  unfold findCreateChild
  dsimp only
  cases hfound : (σ.node outer).children.find? fun child =>
    (σ.node child).nodeType == type && compareTypeData td (σ.node child).typeSpecificData type with
  | none =>
    obtain ⟨σ', hcreate, hlink⟩ := @createNode_eq n D σ l outer type td timestamp h houter
      (σ.node outer).inUntiedTask
    dsimp only
    rw [hcreate]
    dsimp only
    rw [hlink]
    exact ⟨_, _, rfl, withChild_spec h houter⟩
  | some child =>
    have hmem := mem_of_find?_eq_some hfound
    have hkey := find?_some hfound
    rw [Bool.and_eq_true, beq_iff_eq] at hkey
    obtain ⟨holder, hbound, hparent⟩ := h.child outer houter child hmem
    have hextend : Extends σ (σ.setChildren outer (child :: (σ.node outer).children.erase child)) := by
      refine Extends.setNode h rfl rfl fun c hc => ?_
      rcases mem_cons.1 hc with rfl | hc
      · exact hmem
      · exact mem_of_mem_erase hc
    refine ⟨_, _, rfl, ⟨hextend, holder, hbound, ?_, ?_, ?_⟩⟩
    · rw [hextend.parent hbound, hparent]
    · rw [hextend.nodeType hbound, hkey.1]
    · rw [hextend.data hbound]
      exact hkey.2

theorem ChildOf.mono {child : ℕ} (h : ChildOf σ σ' outer child type td) (h' : Extends σ' σ'') :
    ChildOf σ σ'' outer child type td where
  extend := h.extend.trans h'
  older := h.older
  bound := Nat.lt_of_lt_of_le h.bound h'.allocated
  parent := (h'.parent h.bound).trans h.parent
  nodeType := (h'.nodeType h.bound).trans h.nodeType
  same := by
    rw [h'.data h.bound]
    exact h.same

end Store

namespace State

variable {s : State n D} {cfg : Config} {l cur region param string : ℕ} {timestamp value : UInt64}
  {metrics : Metrics n}

theorem enter_spec (h : s.store.Grown) (hcur : cur < s.store.allocated)
    (hcollapse : (s.store.node cur).nodeType ≠ .collapse) : ∃ node s' type td,
    s.enter cfg l (some cur) region timestamp metrics = some (node, s') ∧ s'.location = s.location ∧
      Store.ChildOf s.store s'.store cur node type td ∧ (type = .regularRegion ∧ td = ⟨region, 0⟩ ∨
        type = .collapse ∧ td = ⟨0, (s.location l).currentDepth.toNat⟩ ∧
          cfg.maxCallpathDepth < (s.location l).currentDepth.toUInt64) := by
  unfold enter
  dsimp only
  rw [if_neg hcollapse]
  by_cases hdeep : (s.location l).currentDepth.toUInt64 > cfg.maxCallpathDepth
  · simp only [if_pos hdeep]
    obtain ⟨child, σ', hfind, hchild⟩ := @Store.findCreateChild_childOf n D s.store l cur .collapse
      ⟨0, (s.location l).currentDepth.toNat⟩ timestamp h hcur
    rw [show (s.reachDepth (s.location l).currentDepth).store = s.store from rfl, hfind]
    refine ⟨child, _, .collapse, _, rfl, rfl, ?_, .inr ⟨rfl, rfl, hdeep⟩⟩
    exact hchild.mono (Store.Extends.setData hchild.extend.grown rfl rfl rfl)
  · simp only [if_neg hdeep]
    obtain ⟨child, σ', hfind, hchild⟩ := @Store.findCreateChild_childOf n D s.store l cur .regularRegion
      ⟨region, 0⟩ timestamp h hcur
    rw [hfind]
    refine ⟨child, _, .regularRegion, _, rfl, rfl, ?_, .inl ⟨rfl, rfl⟩⟩
    exact hchild.mono (Store.Extends.setData hchild.extend.grown rfl rfl rfl)

theorem setupStartFromParent_spec {σ σ' : Store n D} {node : ℕ} {type : NodeType} {td : TypeData}
    (h : Store.ChildOf σ σ' cur node type td) : ∃ σ'',
    setupStartFromParent σ' node = some σ'' ∧ Store.ChildOf σ σ'' cur node type td := by
  unfold setupStartFromParent
  dsimp only
  rw [h.parent]
  exact ⟨_, rfl, h.mono (Store.Extends.setData h.extend.grown rfl rfl rfl)⟩

theorem parameterUint64_spec (h : s.store.Grown) (hcur : cur < s.store.allocated)
    (hcurrent : (s.location l).currentTaskNode = some cur) : ∃ s',
    s.parameterUint64 cfg l param value = some s' ∧
      (cfg.maxCallpathDepth ≤ (s.location l).currentDepth.toUInt64 ∧ s' = s ∨
        ¬cfg.maxCallpathDepth ≤ (s.location l).currentDepth.toUInt64 ∧
        ∃ node td, Store.ChildOf s.store s'.store cur node .parameterInteger td ∧
          s'.location l = { s.location l with
            currentTaskNode := some node
            currentDepth := (s.location l).currentDepth + 1 }) := by
  unfold parameterUint64
  dsimp only
  by_cases hdeep : (s.location l).currentDepth.toUInt64 ≥ cfg.maxCallpathDepth
  · rw [if_pos hdeep]
    exact ⟨s, rfl, .inl ⟨hdeep, rfl⟩⟩
  · rw [if_neg hdeep]
    have hlocation : ((s.setCurrentDepth l ((s.location l).currentDepth + 1)).location l) =
        { s.location l with currentDepth := (s.location l).currentDepth + 1 } :=
      update_self _ _ _
    have hstore : (s.setCurrentDepth l ((s.location l).currentDepth + 1)).store = s.store := rfl
    -- an instance parameter gets a new node
    have hnode : ∃ child σ', (if param = cfg.paramInstance then
          ((s.store.createNode l (some cur) .parameterInteger ⟨param, value.toNat⟩ 0xFFFFFFFFFFFFFFFF
            (s.store.node cur).inUntiedTask).1,
          (s.store.createNode l (some cur) .parameterInteger ⟨param, value.toNat⟩ 0xFFFFFFFFFFFFFFFF
            (s.store.node cur).inUntiedTask).2.setChildren cur
            ((s.store.createNode l (some cur) .parameterInteger ⟨param, value.toNat⟩ 0xFFFFFFFFFFFFFFFF
              (s.store.node cur).inUntiedTask).1 ::
              ((s.store.createNode l (some cur) .parameterInteger ⟨param, value.toNat⟩ 0xFFFFFFFFFFFFFFFF
                (s.store.node cur).inUntiedTask).2.node cur).children))
        else s.store.findCreateChild l cur .parameterInteger ⟨param, value.toNat⟩ 0xFFFFFFFFFFFFFFFF) =
          (child, σ') ∧ Store.ChildOf s.store σ' cur child .parameterInteger ⟨param, value.toNat⟩ := by
      by_cases hinstance : param = cfg.paramInstance
      · obtain ⟨σ', hcreate, hlink⟩ := @Store.createNode_eq n D s.store l cur .parameterInteger
          ⟨param, value.toNat⟩ 0xFFFFFFFFFFFFFFFF h hcur (s.store.node cur).inUntiedTask
        rw [if_pos hinstance, hcreate]
        dsimp only
        rw [hlink]
        exact ⟨_, _, rfl, Store.withChild_spec h hcur⟩
      · rw [if_neg hinstance]
        exact Store.findCreateChild_childOf h hcur
    obtain ⟨child, σ', hfind, hchild⟩ := hnode
    obtain ⟨σ'', hsetup, hchild'⟩ := setupStartFromParent_spec hchild
    simp only [hlocation, hcurrent, hstore, bind_eq_bind, bind_some]
    rw [hfind]
    simp only [hsetup, bind_some]
    refine ⟨_, rfl, .inr ⟨hdeep, child, _, hchild', ?_⟩⟩
    unfold setCurrentNode setLocation setStore
    dsimp only
    rw [update_self, hlocation]

theorem parameterString_spec (h : s.store.Grown) (hcur : cur < s.store.allocated)
    (hcurrent : (s.location l).currentTaskNode = some cur) : ∃ s',
    s.parameterString cfg l param string = some s' ∧
      (cfg.maxCallpathDepth ≤ (s.location l).currentDepth.toUInt64 ∧ s' = s ∨
        ¬cfg.maxCallpathDepth ≤ (s.location l).currentDepth.toUInt64 ∧
        ∃ node td, Store.ChildOf s.store s'.store cur node .parameterString td ∧
          s'.location l = { s.location l with
            currentTaskNode := some node
            currentDepth := (s.location l).currentDepth + 1 }) := by
  unfold parameterString
  dsimp only
  by_cases hdeep : (s.location l).currentDepth.toUInt64 ≥ cfg.maxCallpathDepth
  · rw [if_pos hdeep]
    exact ⟨s, rfl, .inl ⟨hdeep, rfl⟩⟩
  · rw [if_neg hdeep]
    have hlocation : ((s.setCurrentDepth l ((s.location l).currentDepth + 1)).location l) =
        { s.location l with currentDepth := (s.location l).currentDepth + 1 } :=
      update_self _ _ _
    have hstore : (s.setCurrentDepth l ((s.location l).currentDepth + 1)).store = s.store := rfl
    obtain ⟨child, σ', hfind, hchild⟩ := @Store.findCreateChild_childOf n D s.store l cur .parameterString
      ⟨param, string⟩ 0xFFFFFFFFFFFFFFFF h hcur
    obtain ⟨σ'', hsetup, hchild'⟩ := setupStartFromParent_spec hchild
    simp only [hlocation, hcurrent, hstore, hfind, hsetup, bind_eq_bind, bind_some]
    refine ⟨_, rfl, .inr ⟨hdeep, child, _, hchild', ?_⟩⟩
    unfold setCurrentNode setLocation setStore
    dsimp only
    rw [update_self, hlocation]

end State

/-! ## Entering and leaving a region -/

structure IsRegion (σ : Store n D) (outer region r : ℕ) : Prop where
  older : outer < r
  parent : (σ.node r).parent = some outer
  kind : (σ.node r).nodeType = .regularRegion ∧ (σ.node r).typeSpecificData.handle = region ∨
    (σ.node r).nodeType = .collapse

inductive Entered (σ : Store n D) (outer region : ℕ) : ℕ → Prop
  | region {r : ℕ} (h : IsRegion σ outer region r) : Entered σ outer region r
  | parameter {r node : ℕ} (h : IsRegion σ outer region r) (hlt : r < node)
    (htype : (σ.node node).nodeType = .parameterInteger) (hparent : (σ.node node).parent = some r) :
    Entered σ outer region node

variable {σ σ' : Store n D} {outer region r node : ℕ}

theorem IsRegion.mono (h : IsRegion σ outer region r) (hr : r < σ.allocated) (hext : Store.Keeps σ σ') :
    IsRegion σ' outer region r where
  older := h.older
  parent := (hext.parent hr).trans h.parent
  kind := by
    rw [hext.nodeType hr, hext.data hr]
    exact h.kind

theorem Entered.mono (h : Entered σ outer region node) (hnode : node < σ.allocated)
    (hext : Store.Keeps σ σ') : Entered σ' outer region node := by
  cases h with
  | region h => exact .region (h.mono hnode hext)
  | parameter h hlt htype hparent =>
    exact .parameter (h.mono (Nat.lt_trans hlt hnode) hext) hlt ((hext.nodeType hnode).trans htype)
      ((hext.parent hnode).trans hparent)

theorem Entered.older (h : Entered σ outer region node) : outer < node := by
  cases h with
  | region h => exact h.older
  | parameter h hlt _ _ => exact Nat.lt_trans h.older hlt

namespace State

variable {s : State n D} {cfg : Config} {l cur : ℕ} {timestamp : UInt64} {metrics : Metrics n}

theorem profileEnter_spec (h : s.store.Grown) (hcur : cur < s.store.allocated)
    (hcurrent : (s.location l).currentTaskNode = some cur)
    (hcollapse : (s.store.node cur).nodeType ≠ .collapse) : ∃ s' node depth,
    s.profileEnter cfg l timestamp region metrics = some s' ∧ Store.Extends s.store s'.store ∧
      node < s'.store.allocated ∧ Entered s'.store cur region node ∧
      s'.location l = { s.location l with currentTaskNode := some node, currentDepth := depth } ∧
      ((s'.store.node node).nodeType = .collapse →
        (s'.store.node node).typeSpecificData.value = depth.toNat) := by
  have hlocation : (s.setCurrentDepth l ((s.location l).currentDepth + 1)).location l =
      { s.location l with currentDepth := (s.location l).currentDepth + 1 } :=
    update_self _ _ _
  obtain ⟨child, s₁, type, td, henter, hsame, hchild, hkind⟩ :=
    @enter_spec n D (s.setCurrentDepth l ((s.location l).currentDepth + 1)) cfg l cur region timestamp metrics
      h hcur hcollapse
  rw [hlocation] at hkind
  dsimp only at hkind
  have hregion : IsRegion s₁.store cur region child := by
    refine ⟨hchild.older, hchild.parent, ?_⟩
    have hsame := hchild.same
    rw [hchild.nodeType]
    rcases hkind with ⟨rfl, rfl⟩ | ⟨rfl, -⟩
    · refine .inl ⟨rfl, ?_⟩
      rw [compareTypeData, Bool.and_eq_true, beq_iff_eq] at hsame
      exact hsame.1.symm
    · exact .inr rfl
  have hdepth : (s₁.store.node child).nodeType = .collapse →
      (s₁.store.node child).typeSpecificData.value = ((s.location l).currentDepth + 1).toNat ∧
        cfg.maxCallpathDepth < ((s.location l).currentDepth + 1).toUInt64 := by
    intro htype
    have hsame := hchild.same
    rw [hchild.nodeType] at htype
    rcases hkind with ⟨rfl, -⟩ | ⟨rfl, rfl, hdeep⟩
    · cases htype
    · rw [compareTypeData, beq_iff_eq] at hsame
      exact ⟨hsame.symm, hdeep⟩
  have hmoved : (s₁.setCurrentNode l (some child)).location l =
      { s.location l with
        currentTaskNode := some child
        currentDepth := (s.location l).currentDepth + 1 } := by
    unfold setCurrentNode setLocation
    dsimp only
    rw [update_self, hsame, hlocation]
  have hcurrent' : ((s.setCurrentDepth l ((s.location l).currentDepth + 1)).location l).currentTaskNode =
      some cur := by
    rw [hlocation]
    exact hcurrent
  unfold profileEnter
  simp only [hcurrent', henter, bind_eq_bind, bind_some]
  by_cases hdynamic : (cfg.regionType region).isDynamic = true
  · rw [if_pos hdynamic]
    obtain ⟨s₂, hparameter, hcases⟩ := @parameterUint64_spec n D (s₁.setCurrentNode l (some child)) cfg l child
      cfg.paramInstance ((s₁.setCurrentNode l (some child)).store.node child).count hchild.extend.grown
      hchild.bound (by rw [hmoved])
    rw [hmoved] at hcases
    rcases hcases with ⟨-, rfl⟩ | ⟨hdeep, node, td', hnode, hlast⟩
    · refine ⟨_, child, _, hparameter, hchild.extend, hchild.bound, .region hregion, hmoved, fun htype => ?_⟩
      exact (hdepth htype).1
    · have hregular : (s₁.store.node child).nodeType ≠ .collapse := fun htype =>
        hdeep (UInt64.le_of_lt (hdepth htype).2)
      refine ⟨s₂, node, _, hparameter, hchild.extend.trans hnode.extend, hnode.bound, ?_, hlast, fun htype => ?_⟩
      · exact .parameter (hregion.mono hchild.bound hnode.extend.toKeeps) hnode.older hnode.nodeType hnode.parent
      · rw [hnode.nodeType] at htype
        cases htype
  · rw [if_neg hdynamic]
    exact ⟨_, child, _, rfl, hchild.extend, hchild.bound, .region hregion, hmoved, fun htype => (hdepth htype).1⟩

theorem exitNodes_region {bound : ℕ} {depth : UInt32} (h : σ.Grown)
    (hregion : IsRegion σ outer region r) : ∃ σ' depth',
    exitNodes timestamp metrics (bound + 1) r depth σ = some (r, depth', σ') ∧ Store.Extends σ σ' := by
  have hext : ∀ data : NodeData n D, data.nodeType = (σ.node r).nodeType →
      data.typeSpecificData = (σ.node r).typeSpecificData →
      data.firstIntSparse = (σ.node r).firstIntSparse → Store.Extends σ (σ.setData r data) :=
    fun data => Store.Extends.setData h
  unfold exitNodes
  dsimp only
  have hparent : ∀ data : NodeData n D, ((σ.setData r data).node r).parent = some outer := by
    intro data
    unfold Store.setData
    rw [Store.node_setNode, if_pos rfl]
    exact hregion.parent
  rw [hparent]
  have hkind : (σ.node r).nodeType = .regularRegion ∨ (σ.node r).nodeType = .collapse :=
    hregion.kind.imp And.left id
  dsimp only
  rw [if_pos hkind]
  exact ⟨_, _, rfl, hext _ rfl rfl rfl⟩

theorem exitNodes_entered {bound : ℕ} {depth : UInt32} (h : σ.Grown) (hnode : node < σ.allocated)
    (hentered : Entered σ outer region node) : ∃ r σ' depth',
    exitNodes timestamp metrics (bound + 2) node depth σ = some (r, depth', σ') ∧ Store.Extends σ σ' ∧
      r < σ'.allocated ∧ IsRegion σ' outer region r := by
  cases hentered with
  | region hregion =>
    obtain ⟨σ', depth', hexit, hext⟩ := @exitNodes_region n D σ outer region node timestamp metrics (bound + 1)
      depth h hregion
    exact ⟨node, σ', depth', hexit, hext, Nat.lt_of_lt_of_le hnode hext.allocated, hregion.mono hnode hext.toKeeps⟩
  | parameter hregion hlt htype hparent =>
    rename_i r
    have hr : r < σ.allocated := Nat.lt_trans hlt hnode
    rw [exitNodes]
    dsimp only
    have hparent' : ∀ data : NodeData n D, ((σ.setData node data).node node).parent = some r := by
      intro data
      unfold Store.setData
      rw [Store.node_setNode, if_pos rfl]
      exact hparent
    rw [hparent']
    have hkind : ¬((σ.node node).nodeType = .regularRegion ∨ (σ.node node).nodeType = .collapse) := by
      rw [htype]
      decide
    dsimp only
    rw [if_neg hkind]
    have hext := @Store.Extends.setData n D σ node h
      (({ (σ.node node).toNodeData with lastExitTime := timestamp } : NodeData n D).onMetrics .update timestamp
        (readMetric metrics)) rfl rfl rfl
    obtain ⟨σ', depth', hexit, hext'⟩ := @exitNodes_region n D _ outer region r timestamp metrics bound
      (depth - 1) hext.grown (hregion.mono hr hext.toKeeps)
    have hall := hext.trans hext'
    exact ⟨r, σ', depth', hexit, hall, Nat.lt_of_lt_of_le hr hall.allocated, hregion.mono hr hall.toKeeps⟩

theorem profileExit_spec [SparseValue D] (h : s.store.Grown) (hnode : node < s.store.allocated)
    (hcurrent : (s.location l).currentTaskNode = some node) (hentered : Entered s.store outer region node)
    (hcollapse : (s.store.node node).nodeType = .collapse →
      (s.store.node node).typeSpecificData.value = (s.location l).currentDepth.toNat)
    (hmigration : (s.location l).migrationSum = 0 ∧ (s.location l).migrationWin = 0) : ∃ s' depth,
    s.profileExit cfg l timestamp region metrics = some s' ∧ Store.Extends s.store s'.store ∧
      s'.location l = { s.location l with currentTaskNode := some outer, currentDepth := depth } := by
  have htask : s.updateTaskMetrics cfg l = some s := by
    have hnone : ¬((s.location l).migrationSum ≠ 0 ∨ (s.location l).migrationWin ≠ 0) := by
      rw [hmigration.1, hmigration.2]
      simp
    unfold updateTaskMetrics
    dsimp only
    rw [if_neg hnone]
  have hstay : ¬((s.store.node node).nodeType = .collapse ∧
      (s.location l).currentDepth.toNat > (s.store.node node).typeSpecificData.value) := by
    rintro ⟨htype, hgt⟩
    rw [hcollapse htype] at hgt
    exact Nat.lt_irrefl _ hgt
  obtain ⟨bound, hbound⟩ := Nat.exists_eq_succ_of_ne_zero (Nat.ne_of_gt (Nat.zero_lt_of_lt hnode))
  obtain ⟨r, σ', depth', hexit, hext, hr, hregion⟩ := @exitNodes_entered n D s.store outer region node timestamp
    metrics bound (s.location l).currentDepth h hnode hentered
  have hhandle : ¬((σ'.node r).nodeType = .regularRegion ∧ (σ'.node r).typeSpecificData.handle ≠ region) := by
    rintro ⟨htype, hne⟩
    rcases hregion.kind with ⟨-, hregion⟩ | hcollapse
    · exact hne hregion
    · rw [htype] at hcollapse
      exact nomatch hcollapse
  rw [show bound + 2 = s.store.allocated + 1 by rw [hbound]] at hexit
  unfold profileExit
  simp only [htask, bind_eq_bind, bind_some, hcurrent, ite_self]
  unfold exit
  simp only [if_neg hstay, hexit, bind_eq_bind, bind_some, if_neg hhandle, hregion.parent]
  refine ⟨_, depth', rfl, hext, ?_⟩
  unfold setCurrentNode setCurrentDepth setLocation setStore
  dsimp only
  rw [update_self, update_self]

end State

theorem triggerInt64_spec [SparseValue D] {s : State n D} {metric node : ℕ} {value : UInt64}
    {scheme : UpdateScheme} {list : List (SparseMetric UInt64)} (h : s.store.Grown)
    (hnode : node < s.store.allocated)
    (hlist : triggerSparse metric value scheme (s.store.node node).firstIntSparse = some list) : ∃ s',
    s.triggerInt64 metric value node scheme = some s' ∧ s'.location = s.location ∧
      Store.Keeps s.store s'.store ∧
      ∀ k, (s'.store.node k).firstIntSparse = if k = node then list else (s.store.node k).firstIntSparse := by
  unfold State.triggerInt64
  simp only [hlist, bind_eq_bind, bind_some]
  refine ⟨_, rfl, rfl, Store.Keeps.setNode h rfl (fun hle => absurd hnode (Nat.not_lt.2 hle)) fun c hc => hc, ?_⟩
  intro k
  show ((s.store.setNode node _).node k).firstIntSparse = _
  rw [Store.node_setNode]
  split_ifs <;> rfl

/-! ## The open regions -/

def OnPath (σ : Store n D) : List Visit → ℕ → Prop
  | [], cur => cur < σ.allocated
  | visit :: opens, cur => visit.node = cur ∧ cur < σ.allocated ∧ ∃ outer,
    (σ.node outer).nodeType ≠ .collapse ∧ Entered σ outer visit.region cur ∧ OnPath σ opens outer

variable {opens : List Visit} {cur : ℕ}

theorem OnPath.bound (h : OnPath σ opens cur) : cur < σ.allocated := by
  cases opens with
  | nil => exact h
  | cons visit opens => exact h.2.1

theorem OnPath.mono (h : OnPath σ opens cur) (hkeeps : Store.Keeps σ σ') : OnPath σ' opens cur := by
  induction opens generalizing cur with
  | nil => exact Nat.lt_of_lt_of_le h hkeeps.allocated
  | cons visit opens ih =>
    obtain ⟨hnode, hbound, outer, htype, hentered, houter⟩ := h
    refine ⟨hnode, Nat.lt_of_lt_of_le hbound hkeeps.allocated, outer, ?_, hentered.mono hbound hkeeps, ih houter⟩
    rw [hkeeps.nodeType houter.bound]
    exact htype

theorem OnPath.le (h : OnPath σ opens cur) : ∀ visit ∈ opens, visit.node ≤ cur := by
  induction opens generalizing cur with
  | nil => exact fun visit hvisit => (not_mem_nil hvisit).elim
  | cons first opens ih =>
    obtain ⟨hnode, -, outer, -, hentered, houter⟩ := h
    intro visit hvisit
    rcases mem_cons.1 hvisit with rfl | hvisit
    · exact Nat.le_of_eq hnode
    · exact Nat.le_of_lt (Nat.lt_of_le_of_lt (ih houter visit hvisit) hentered.older)

namespace Tracked

variable {t t' : Tracked n D} {p : Probe} {cfg : Config} {event : RegionEvent n}

structure Inv [SparseValue D] (p : Probe) (t : Tracked n D) : Prop where
  grown : t.state.store.Grown
  path : ∃ cur, t.current p = some cur ∧ OnPath t.state.store t.opens cur ∧
    ((t.state.store.node cur).nodeType = .collapse →
      (t.state.store.node cur).typeSpecificData.value = (t.state.location p.location).currentDepth.toNat)
  migration : (t.state.location p.location).migrationSum = 0 ∧ (t.state.location p.location).migrationWin = 0
  started : ∀ node value, t.startValue p node = some value ↔
    ∃ visit ∈ t.opens, visit.node = node ∧ visit.value = value
  sums : ∀ node, t.sum p node = ((t.visits.filter (·.1 == node)).map Prod.snd).sum
  ordered : ∀ visit ∈ t.opens, ∃ last ∈ t.last, p.valueType.le visit.value last

variable [SparseValue D]

theorem Inv.consistent (h : t.Inv p) : t.Consistent p where
  current := fun visit hvisit => by
    obtain ⟨cur, hcurrent, hpath, -⟩ := h.path
    obtain ⟨opens, hopens⟩ := head?_eq_some_iff.1 hvisit
    rw [hopens] at hpath
    rw [hcurrent, hpath.1]
  started := h.started
  sums := h.sums

omit [SparseValue D] in
theorem activated_sparse (l : ℕ) (depth : UInt32) (i : ℕ) :
    ((activated n D l depth).state.store.node i).firstIntSparse = [] := by
  unfold activated
  dsimp only
  split_ifs <;> rfl

theorem activated_inv (depth : UInt32) : (activated n D p.location depth).Inv p where
  grown :=
    { free := fun _ => rfl
      child := fun i _ c hc => by
        unfold activated at hc ⊢
        dsimp only at hc ⊢
        split_ifs at hc with hi
        · rw [mem_singleton.1 hc, hi]
          exact ⟨Nat.zero_lt_one, Nat.lt_succ_self 1, rfl⟩
        · exact (not_mem_nil hc).elim
      fresh := fun i _ => activated_sparse p.location depth i }
  path := by
    refine ⟨1, ?_, Nat.lt_succ_self 1, fun htype => ?_⟩
    · unfold current activated
      dsimp only
      rw [if_pos rfl]
    · exact nomatch htype
  migration := ⟨rfl, rfl⟩
  started := fun node value => by
    unfold startValue
    rw [activated_sparse]
    refine iff_of_false (fun hsome => nomatch hsome) ?_
    rintro ⟨visit, hvisit, -⟩
    exact not_mem_nil hvisit
  sums := fun node => by
    unfold sum
    rw [activated_sparse]
    rfl
  ordered := fun visit hvisit => (not_mem_nil hvisit).elim

theorem enter_step (h : t.Inv p) {timestamp value : UInt64} {region : ℕ} {metrics : Metrics n}
    (hlegal : t.Legal p (.enter timestamp region metrics value))
    (havoids : t.Avoids cfg p (.enter timestamp region metrics value)) : ∃ t',
    t.step cfg p (.enter timestamp region metrics value) = .ok t' ∧ t'.Inv p := by
  obtain ⟨cur, hcurrent, hpath, -⟩ := h.path
  have htype : (t.state.store.node cur).nodeType ≠ .collapse := havoids cur hcurrent
  obtain ⟨s₁, node, depth, henter, hext, hnode, hentered, hlocation, hcollapse⟩ :=
    @State.profileEnter_spec n D region t.state cfg p.location cur timestamp metrics h.grown hpath.bound
      hcurrent htype
  -- the node that is entered is younger than those of the open regions
  have hyounger : ∀ visit ∈ t.opens, visit.node ≠ node := fun visit hvisit =>
    Nat.ne_of_lt (Nat.lt_of_le_of_lt (hpath.le visit hvisit) hentered.older)
  have hnone : openValue p.metric (s₁.store.node node).firstIntSparse = none := by
    rw [hext.sparse]
    by_contra hsome
    obtain ⟨first, hfirst⟩ := ne_none_iff_exists'.1 hsome
    obtain ⟨visit, hvisit, hsame, -⟩ := (h.started node first).1 hfirst
    exact hyounger visit hvisit hsame
  obtain ⟨list, htrigger, hopen, hsum⟩ := @triggerSparse_begin p.metric value _ hnone
  obtain ⟨s₂, hwrite, hsame, hkeeps, hlists⟩ := triggerInt64_spec hext.grown hnode htrigger
  have hcurrent₂ : (s₂.location p.location).currentTaskNode = some node := by
    rw [hsame, hlocation]
  refine ⟨{ t with state := s₂, opens := ⟨region, node, value⟩ :: t.opens, last := some value }, ?_, ?_⟩
  · have hcurrent₁ : (s₁.location p.location).currentTaskNode = some node := by rw [hlocation]
    simp only [step, State.enterRegion, State.writeSparseMetricsEnter, henter, orFault_some, ok_bind, hcurrent₁,
      hwrite, hcurrent₂]
    rfl
  · have hall : ∀ i, i < t.state.store.allocated → (s₂.store.node i).nodeType = (t.state.store.node i).nodeType := by
      intro i hi
      rw [hkeeps.nodeType (Nat.lt_of_lt_of_le hi hext.allocated), hext.nodeType hi]
    have hother : ∀ k ≠ node, (s₂.store.node k).firstIntSparse = (t.state.store.node k).firstIntSparse := by
      intro k hk
      rw [hlists, if_neg hk, hext.sparse]
    have hself : (s₂.store.node node).firstIntSparse = list := by
      rw [hlists, if_pos rfl]
    refine ⟨hkeeps.grown, ⟨node, hcurrent₂, ⟨rfl, ?_, cur, ?_, ?_, ?_⟩, ?_⟩, ?_, ?_, ?_, ?_⟩
    · exact Nat.lt_of_lt_of_le hnode hkeeps.allocated
    · rw [hall cur hpath.bound]
      exact htype
    · exact hentered.mono hnode hkeeps
    · exact (hpath.mono hext.toKeeps).mono hkeeps
    · intro htype
      rw [hkeeps.nodeType hnode] at htype
      show (s₂.store.node node).typeSpecificData.value = (s₂.location p.location).currentDepth.toNat
      rw [hkeeps.data hnode, hsame, hlocation]
      exact hcollapse htype
    · show (s₂.location p.location).migrationSum = 0 ∧ (s₂.location p.location).migrationWin = 0
      rw [hsame, hlocation]
      exact h.migration
    · intro k v
      show openValue p.metric (s₂.store.node k).firstIntSparse = some v ↔ _
      by_cases hk : k = node
      · rw [hk, hself, hopen, some.injEq]
        constructor
        · exact fun hv => ⟨_, mem_cons_self, rfl, hv⟩
        · rintro ⟨visit, hvisit, hnode', hv⟩
          rcases mem_cons.1 hvisit with rfl | hvisit
          · exact hv
          · exact absurd hnode' (hyounger visit hvisit)
      · rw [hother k hk]
        refine (h.started k v).trans ⟨?_, ?_⟩
        · rintro ⟨visit, hvisit, hv⟩
          exact ⟨visit, mem_cons_of_mem _ hvisit, hv⟩
        · rintro ⟨visit, hvisit, hnode', hv⟩
          rcases mem_cons.1 hvisit with rfl | hvisit
          · exact absurd hnode'.symm hk
          · exact ⟨visit, hvisit, hnode', hv⟩
    · intro k
      show sumOf p.metric (s₂.store.node k).firstIntSparse = _
      rw [← h.sums k]
      by_cases hk : k = node
      · rw [hk, hself, hsum, hext.sparse]
        rfl
      · rw [hother k hk]
        rfl
    · intro visit hvisit
      refine ⟨value, rfl, ?_⟩
      rcases mem_cons.1 hvisit with rfl | hvisit
      · exact ValueType.le_refl value
      · obtain ⟨last, hlast, hle⟩ := h.ordered visit hvisit
        exact ValueType.le_trans hle (hlegal last hlast)

theorem exit_step (h : t.Inv p) {timestamp value : UInt64} {region : ℕ} {metrics : Metrics n}
    (hlegal : t.Legal p (.exit timestamp region metrics value))
    (havoids : t.Avoids cfg p (.exit timestamp region metrics value)) : ∃ t',
    t.step cfg p (.exit timestamp region metrics value) = .ok t' ∧ t'.Inv p := by
  obtain ⟨cur, hcurrent, hpath, hcollapse⟩ := h.path
  obtain ⟨hregion, hlegal⟩ := hlegal
  obtain ⟨visit, hhead, rfl⟩ := map_eq_some_iff.1 hregion
  obtain ⟨opens, hopens⟩ := head?_eq_some_iff.1 hhead
  have hstarted := h.started
  have hordered := h.ordered
  rw [hopens] at hpath hstarted hordered
  obtain ⟨rfl, hbound, outer, htype, hentered, houter⟩ := hpath
  have holder : ∀ other ∈ opens, other.node ≠ visit.node := fun other hother =>
    Nat.ne_of_lt (Nat.lt_of_le_of_lt (houter.le other hother) hentered.older)
  -- the start value is open and not greater
  have hopen : openValue p.metric (t.state.store.node visit.node).firstIntSparse = some visit.value :=
    (hstarted visit.node visit.value).2 ⟨visit, mem_cons_self, rfl, rfl⟩
  have hle : visit.value ≤ value := by
    obtain ⟨last, hlast, hle⟩ := hordered visit mem_cons_self
    exact ValueType.le_unsigned (ValueType.le_trans hle (hlegal last hlast)) fun hint =>
      havoids hint visit hhead
  obtain ⟨list, htrigger, hnone, hsum⟩ := triggerSparse_end hopen hle
  obtain ⟨s₁, hwrite, hsame, hkeeps, hlists⟩ := triggerInt64_spec h.grown hbound htrigger
  have hcurrent₀ : (t.state.location p.location).currentTaskNode = some visit.node := hcurrent
  have hcurrent₁ : (s₁.location p.location).currentTaskNode = some visit.node := by rw [hsame, hcurrent₀]
  obtain ⟨s₂, depth, hexit, hext, hlocation⟩ :=
    @State.profileExit_spec n D outer visit.region visit.node s₁ cfg p.location timestamp metrics _ hkeeps.grown
      (Nat.lt_of_lt_of_le hbound hkeeps.allocated) hcurrent₁ (hentered.mono hbound hkeeps)
      (by
        rw [hkeeps.nodeType hbound, hkeeps.data hbound, hsame]
        exact hcollapse)
      (by
        rw [hsame]
        exact h.migration)
  have hother : ∀ k ≠ visit.node, (s₂.store.node k).firstIntSparse = (t.state.store.node k).firstIntSparse := by
    intro k hk
    rw [hext.sparse, hlists, if_neg hk]
  have hself : (s₂.store.node visit.node).firstIntSparse = list := by
    rw [hext.sparse, hlists, if_pos rfl]
  have hcurrent₂ : (s₂.location p.location).currentTaskNode = some outer := by rw [hlocation]
  have houter' : (s₂.store.node outer).nodeType ≠ .collapse := by
    rw [hext.nodeType (Nat.lt_of_lt_of_le houter.bound hkeeps.allocated), hkeeps.nodeType houter.bound]
    exact htype
  refine ⟨⟨s₂, opens, some value, (visit.node, value - visit.value) :: t.visits⟩, ?_, ?_⟩
  · simp only [step, State.exitRegion, State.writeSparseMetricsExit, hcurrent₀, orFault_some, ok_bind, hwrite,
      hexit, hopens]
    rfl
  · refine ⟨hext.grown, ⟨outer, hcurrent₂, (houter.mono hkeeps).mono hext.toKeeps, ?_⟩, ?_, ?_, ?_, ?_⟩
    · exact fun hcontra => absurd hcontra houter'
    · show (s₂.location p.location).migrationSum = 0 ∧ (s₂.location p.location).migrationWin = 0
      rw [hlocation, hsame]
      exact h.migration
    · intro k v
      show openValue p.metric (s₂.store.node k).firstIntSparse = some v ↔ _
      by_cases hk : k = visit.node
      · rw [hk, hself, hnone]
        refine iff_of_false (fun hv => nomatch hv) ?_
        rintro ⟨other, hmem, hnode', -⟩
        exact holder other hmem hnode'
      · rw [hother k hk]
        refine (hstarted k v).trans ⟨?_, ?_⟩
        · rintro ⟨other, hmem, hnode', hv⟩
          rcases mem_cons.1 hmem with rfl | hmem
          · exact absurd hnode'.symm hk
          · exact ⟨other, hmem, hnode', hv⟩
        · rintro ⟨other, hmem, hv⟩
          exact ⟨other, mem_cons_of_mem _ hmem, hv⟩
    · intro k
      show sumOf p.metric (s₂.store.node k).firstIntSparse = _
      by_cases hk : k = visit.node
      · have hsums := h.sums visit.node
        rw [hk, hself, hsum, filter_cons_of_pos (by rw [beq_iff_eq]), map_cons, sum_cons, ← hsums]
        exact UInt64.add_comm _ _
      · rw [hother k hk, filter_cons_of_neg (by rw [beq_iff_eq]; exact Ne.symm hk)]
        exact h.sums k
    · intro other hmem
      refine ⟨value, rfl, ?_⟩
      obtain ⟨last, hlast, hle⟩ := hordered other (mem_cons_of_mem _ hmem)
      exact ValueType.le_trans hle (hlegal last hlast)

theorem parameter_step (h : t.Inv p) {s : State n D} {node : ℕ} {depth : UInt32} {cur : ℕ} (hopens : t.opens = []) {type : NodeType} {td : TypeData}
    (htype : type ≠ .collapse) (hchild : Store.ChildOf t.state.store s.store cur node type td)
    (hlocation : s.location p.location = { t.state.location p.location with
      currentTaskNode := some node, currentDepth := depth }) : Inv p { t with state := s } := by
  refine ⟨hchild.extend.grown, ⟨node, ?_, ?_, fun hcollapse => ?_⟩, ?_, fun k v => ?_, fun k => ?_, h.ordered⟩
  · unfold current
    rw [hlocation]
  · rw [hopens]
    exact hchild.bound
  · exact absurd (hchild.nodeType.symm.trans hcollapse) htype
  · show (s.location p.location).migrationSum = 0 ∧ (s.location p.location).migrationWin = 0
    rw [hlocation]
    exact h.migration
  · show openValue p.metric (s.store.node k).firstIntSparse = some v ↔ _
    rw [hchild.extend.sparse]
    exact h.started k v
  · show sumOf p.metric (s.store.node k).firstIntSparse = _
    rw [hchild.extend.sparse]
    exact h.sums k

theorem inv_step (h : t.Inv p) (hlegal : t.Legal p event) (havoids : t.Avoids cfg p event) : ∃ t',
    t.step cfg p event = .ok t' ∧ t'.Inv p := by
  cases event with
  | enter timestamp region metrics value => exact enter_step h hlegal havoids
  | exit timestamp region metrics value => exact exit_step h hlegal havoids
  | parameterInteger param value =>
    obtain ⟨cur, hcurrent, hpath, -⟩ := h.path
    obtain ⟨s, hparameter, hcases⟩ := @State.parameterUint64_spec n D t.state cfg p.location cur param value
      h.grown hpath.bound hcurrent
    refine ⟨{ t with state := s }, ?_, ?_⟩
    · simp only [step, hparameter, orFault_some, ok_bind]
      rfl
    · rcases hcases with ⟨-, rfl⟩ | ⟨hdeep, node, td, hchild, hlocation⟩
      · exact h
      · have hopens : t.opens = [] := havoids.resolve_right hdeep
        exact parameter_step h hopens (by decide) hchild hlocation
  | parameterString param string =>
    obtain ⟨cur, hcurrent, hpath, -⟩ := h.path
    obtain ⟨s, hparameter, hcases⟩ := @State.parameterString_spec n D t.state cfg p.location cur param string
      h.grown hpath.bound hcurrent
    refine ⟨{ t with state := s }, ?_, ?_⟩
    · simp only [step, hparameter, orFault_some, ok_bind]
      rfl
    · rcases hcases with ⟨-, rfl⟩ | ⟨hdeep, node, td, hchild, hlocation⟩
      · exact h
      · have hopens : t.opens = [] := havoids.resolve_right hdeep
        exact parameter_step h hopens (by decide) hchild hlocation

end Tracked

end Trees

/-! ## Runs that are calculated -/

section Runs

variable {cfg : Config} {p : Probe} {events : List (RegionEvent 0)} {event : RegionEvent 0}

def depthLimit (maxCallpathDepth : UInt64) : Config where
  maxCallpathDepth := maxCallpathDepth
  taskExchangeNum := 0
  regionType := fun _ => .other
  paramInstance := 0
  migrationLossMetric := 1
  migrationWinMetric := 2

def probe (valueType : ValueType) : Probe :=
  ⟨0, 3, valueType⟩

instance (p : Probe) (t : Tracked 0 UInt64) (event : RegionEvent 0) : Decidable (t.Legal p event) := by
  cases event with
  | enter timestamp region metrics value =>
    exact @Option.decidableForallMem UInt64 (fun last => p.valueType.le last value) _ t.last
  | exit timestamp region metrics value =>
    exact @instDecidableAnd _ _ inferInstance
      (@Option.decidableForallMem UInt64 (fun last => p.valueType.le last value) _ t.last)
  | parameterInteger param value => exact isTrue trivial
  | parameterString param string => exact isTrue trivial

instance (cfg : Config) (p : Probe) (t : Tracked 0 UInt64) (event : RegionEvent 0) :
    Decidable (t.Avoids cfg p event) := by
  cases event with
  | enter timestamp region metrics value =>
    exact inferInstanceAs (Decidable (∀ node ∈ t.current p, (t.state.store.node node).nodeType ≠ .collapse))
  | exit timestamp region metrics value =>
    exact inferInstanceAs (Decidable (p.valueType = .int64 → ∀ visit ∈ t.opens.head?,
      ¬(visit.value.toInt64 < 0 ∧ 0 ≤ value.toInt64)))
  | parameterInteger param value => exact inferInstanceAs (Decidable (t.opens = [] ∨ _ ≤ _))
  | parameterString param string => exact inferInstanceAs (Decidable (t.opens = [] ∨ _ ≤ _))

def advance (cfg : Config) (p : Probe) (guard : Tracked 0 UInt64 → RegionEvent 0 → Bool)
    (t : Tracked 0 UInt64) (event : RegionEvent 0) : Option (Tracked 0 UInt64) :=
  if guard t event then (t.step cfg p event).toOption else none

theorem exists_run {guard : Tracked 0 UInt64 → RegionEvent 0 → Bool} {f : Tracked 0 UInt64 → Bool}
    {start : Tracked 0 UInt64} (h : (events.foldlM (advance cfg p guard) start).map f = some true) : ∃ t,
    Steps (fun t event t' => guard t event = true ∧ t.step cfg p event = .ok t') start events t ∧ f t = true := by
  obtain ⟨t, hrun, hf⟩ := Steps.exists_of_foldlM h
  refine ⟨t, hrun.mono fun s a s' hstep => ?_, hf⟩
  unfold advance at hstep
  split_ifs at hstep with hguard
  refine ⟨hguard, ?_⟩
  cases hresult : s.step cfg p a with
  | error fault =>
    rw [hresult] at hstep
    exact nomatch hstep
  | ok s'' =>
    rw [hresult] at hstep
    rw [some.inj hstep]

def bugAt (cfg : Config) (p : Probe) (event : RegionEvent 0) (t : Tracked 0 UInt64) : Bool :=
  match t.step cfg p event with
  | .error .bug => decide (t.Legal p event)
  | .error .stopped => false
  | .ok _ => false

theorem not_fine_of_bugAt {t : Tracked 0 UInt64} (h : bugAt cfg p event t = true) : ¬t.Fine cfg p := by
  intro hfine
  unfold bugAt at h
  cases hresult : t.step cfg p event with
  | error fault =>
    have hlegal : t.Legal p event := by
      rw [hresult] at h
      cases fault with
      | stopped => exact nomatch h
      | bug => exact of_decide_eq_true h
    obtain ⟨t', hok⟩ := hfine event hlegal
    rw [hresult] at hok
    exact nomatch hok
  | ok t' =>
    rw [hresult] at h
    exact nomatch h

theorem not_fine_of_run {depth : UInt32}
    (h : (events.foldlM (advance cfg p fun t event => decide (t.Legal p event))
      (activated 0 UInt64 p.location depth)).map (bugAt cfg p event) = some true) :
    ∃ t, Steps (fun t event t' => t.Legal p event ∧ t.step cfg p event = .ok t')
      (activated 0 UInt64 p.location depth) events t ∧ ¬t.Fine cfg p := by
  obtain ⟨t, hrun, hbug⟩ := exists_run h
  exact ⟨t, hrun.mono fun s a s' hstep => ⟨of_decide_eq_true hstep.1, hstep.2⟩, not_fine_of_bugAt hbug⟩

end Runs

/-! ## The metric over whole runs -/

namespace Tracked

/-- In every run that avoids the cases of `Avoids` no check fails, each end value meets its start value and
the sums are those of the visits. -/
theorem consistent_of_avoids {n : ℕ} {D : Type} [SparseValue D] {cfg : Config} {p : Probe} {depth : UInt32}
    {events : List (RegionEvent n)} {t : Tracked n D}
    (hrun : Steps (fun t event t' => (t.Legal p event ∧ t.Avoids cfg p event) ∧ t.step cfg p event = .ok t')
      (activated n D p.location depth) events t) :
    t.Consistent p ∧ ∀ event, t.Legal p event → t.Avoids cfg p event → ∃ t', t.step cfg p event = .ok t' := by
  have hinv : t.Inv p := by
    refine hrun.invariant_of_guard (fun t event t' h hguard hstep => ?_) (activated_inv depth)
    obtain ⟨t'', hstep', hinv⟩ := inv_step h hguard.1 hguard.2
    rw [hstep] at hstep'
    rw [Except.ok.inj hstep']
    exact hinv
  refine ⟨hinv.consistent, fun event hlegal havoids => ?_⟩
  obtain ⟨t', hstep, -⟩ := inv_step hinv hlegal havoids
  exact ⟨t', hstep⟩

theorem consistent_of_avoids_recursion : ∃ t : Tracked 0 UInt64, t.Consistent (probe .uint64) ∧
      ∀ event, t.Legal (probe .uint64) event → t.Avoids (depthLimit 2) (probe .uint64) event →
        ∃ t', t.step (depthLimit 2) (probe .uint64) event = .ok t' := by
  obtain ⟨t, hrun, -⟩ := @exists_run (depthLimit 2) (probe .uint64)
    [.parameterString 6 1, .enter 1 5 none 10, .enter 2 5 none 12, .parameterInteger 6 7, .exit 3 5 none 15,
      .exit 4 5 none 15]
    (fun t event => decide (t.Legal (probe .uint64) event ∧ t.Avoids (depthLimit 2) (probe .uint64) event))
    (fun _ => true) (activated 0 UInt64 0 0) (by decide +kernel)
  exact ⟨t, @consistent_of_avoids 0 UInt64 _ (depthLimit 2) (probe .uint64) 0 _ t
    (hrun.mono fun s a s' hstep => ⟨of_decide_eq_true hstep.1, hstep.2⟩)⟩

/-- A parameter inside a region, a second region below the depth limit, and a value that gets positive. -/
theorem not_fine_activated : (∃ t, Steps (fun t event t' => t.Legal (probe .uint64) event ∧
          t.step (depthLimit 30) (probe .uint64) event = .ok t')
        (activated 0 UInt64 0 0) [.enter 1 5 none 10, .parameterInteger 6 7] t ∧
      ¬t.Fine (depthLimit 30) (probe .uint64)) ∧ (∃ t, Steps (fun t event t' => t.Legal (probe .uint64) event ∧
          t.step (depthLimit 0) (probe .uint64) event = .ok t')
        (activated 0 UInt64 0 0) [.enter 1 5 none 10] t ∧ ¬t.Fine (depthLimit 0) (probe .uint64)) ∧
    ∃ t, Steps (fun t event t' => t.Legal (probe .int64) event ∧
          t.step (depthLimit 30) (probe .int64) event = .ok t')
        (activated 0 UInt64 0 0) [.enter 1 5 none (-1)] t ∧ ¬t.Fine (depthLimit 30) (probe .int64) := by
  refine ⟨?_, ?_, ?_⟩
  · exact @not_fine_of_run (depthLimit 30) (probe .uint64) _ (.exit 2 5 none 11) 0 (by decide +kernel)
  · exact @not_fine_of_run (depthLimit 0) (probe .uint64) _ (.enter 2 5 none 11) 0 (by decide +kernel)
  · exact @not_fine_of_run (depthLimit 30) (probe .int64) _ (.exit 2 5 none 0) 0 (by decide +kernel)

end Tracked

end ScoreP.Profile
