import ScoreP.Foundations.FreeLists
import ScoreP.Profile.NodeType

/-!
# Profile data for reuse

Source: `scorep_profile_location.h`, `scorep_profile_location.c` and `scorep_profile_node.c`. Nodes, records of
sparse metrics and task objects are numbered in the order of their creation. A `Pool` has the objects of one
kind, those that are in use, and the pointers to the lists of released ones.

The profile data of a node, a record or a task is not part of the model, nor are the other members of the
location data.
-/

namespace ScoreP.Recycling

open Foundations Function

universe u v

inductive TaskContext
  | untied
  | tied
  deriving DecidableEq

inductive Sparse
  | int
  | double
  deriving DecidableEq

structure Node where
  parent : Option ℕ
  firstChild : Option ℕ
  nextSibling : Option ℕ
  context : TaskContext
  /-- `first_int_sparse` and `first_double_sparse` -/
  firstSparse : Sparse → Option ℕ

/-- A node after `memset`. -/
def emptyNode : Node where
  parent := none
  firstChild := none
  nextSibling := none
  context := .tied
  firstSparse := fun _ => none

structure Task (L : Type) where
  next : Option ℕ
  creator : L

/-- The lists of nodes, `exchange` is `scorep_profile_stub_exchange`. -/
inductive NodeList (L : Type)
  | freeNodes (l : L)
  | freeStubs (l : L)
  | foreignStubs (l : L)
  | exchange
  deriving DecidableEq

/-- The lists of task objects, `exchange` is `scorep_profile_task_exchange`. -/
inductive TaskList (L : Type)
  | freeTasks (l : L)
  | foreignTasks (l : L)
  | exchange
  deriving DecidableEq

/-! ## Pools -/

structure Pool (ι : Type u) (α : Type v) where
  objects : ℕ → α
  created : ℕ
  inUse : List ℕ
  heads : ι → Option ℕ

namespace Pool

variable {ι : Type u} {α : Type v} [DecidableEq ι] (pool : Pool ι α)

def setObject (a : ℕ) (object : α) : Pool ι α :=
  { pool with objects := update pool.objects a object }

def setHead (i : ι) (p : Option ℕ) : Pool ι α :=
  { pool with heads := update pool.heads i p }

/-- `a` is returned from the list, `rest` is the list then. -/
def take (i : ι) (a : ℕ) (rest : Option ℕ) : Pool ι α :=
  { pool.setHead i rest with inUse := a :: pool.inUse }

def create (object : α) : Pool ι α :=
  { pool.setObject pool.created object with created := pool.created + 1, inUse := pool.created :: pool.inUse }

def release (as : List ℕ) : Pool ι α :=
  { pool with inUse := pool.inUse.filter fun a => decide (a ∉ as) }

end Pool

/-- What `SCOREP_Profile_LocationData` has for the reuse of objects. -/
structure LocationData where
  freeNodes : Option ℕ
  freeMetrics : Sparse → Option ℕ
  freeTasks : Option ℕ
  foreignTasks : Option ℕ
  freeStubs : Option ℕ
  foreignStubs : Option ℕ
  numForeignTasks : UInt32
  numForeignStubs : UInt32

/-- `scorep_profile_create_location_data`; `misc` is what `SCOREP_Location_AllocForMisc` returns. -/
def createLocationData (misc : LocationData) : LocationData :=
  { misc with
    freeNodes := none
    freeMetrics := fun _ => none
    freeTasks := none
    foreignTasks := none
    freeStubs := none
    numForeignTasks := 0
    numForeignStubs := 0 }

/-! ## Nodes in lists -/

def addChild (nodes : ℕ → Node) (parent child : ℕ) : ℕ → Node :=
  let nodes := update nodes child { nodes child with nextSibling := (nodes parent).firstChild }
  let nodes := update nodes parent { nodes parent with firstChild := some child }
  update nodes child { nodes child with parent := some parent }

def addList (nodes : ℕ → Node) (leaf : ℕ) : Option ℕ → ℕ → Node
  | none => nodes
  | some child => addChild nodes leaf child

variable {nodes : ℕ → Node} {parent child leaf a : ℕ} {list : Option ℕ}

theorem addChild_links :
    (addChild nodes parent child a).firstChild = update (fun a => (nodes a).firstChild) parent (some child) a ∧
      (addChild nodes parent child a).nextSibling =
        update (fun a => (nodes a).nextSibling) child (nodes parent).firstChild a := by
  by_cases hchild : a = child
  · subst hchild
    by_cases hparent : a = parent
    · subst hparent
      simp [addChild]
    · simp [addChild, hparent]
  · by_cases hparent : a = parent
    · subst hparent
      simp [addChild, hchild]
    · simp [addChild, hchild, hparent]

theorem addList_of_ne (hleaf : a ≠ leaf) (hlist : list ≠ some a) : addList nodes leaf list a = nodes a := by
  cases list with
  | none => rfl
  | some child =>
    have hchild : a ≠ child := fun h => hlist (by rw [h])
    simp only [addList, addChild, update_of_ne hchild, update_of_ne hleaf]

theorem addList_firstChild (hleaf : list = none → (nodes leaf).firstChild = none) :
    (fun a => (addList nodes leaf list a).firstChild) = update (fun a => (nodes a).firstChild) leaf list := by
  cases list with
  | none =>
    have hself := update_eq_self leaf fun a => (nodes a).firstChild
    beta_reduce at hself
    rw [hleaf rfl] at hself
    exact hself.symm
  | some child =>
    funext a
    exact addChild_links.1

theorem addList_nextSibling (hlist : list ≠ some a) :
    (addList nodes leaf list a).nextSibling = (nodes a).nextSibling := by
  cases list with
  | none => rfl
  | some child =>
    have hchild : a ≠ child := fun h => hlist (by rw [h])
    rw [addList, addChild_links.2, update_of_ne hchild]

end ScoreP.Recycling
