import ScoreP.Profile.Node

/-!
# The call trees of all locations

Source: `scorep_profile_node.c` and the recycling of nodes in `scorep_profile_location.c`. A `Store`
holds the nodes, the list of root nodes and the lists of released nodes. A node with `children` stands
for the node and its list of siblings from `first_child` on; released nodes, which the code links
through `first_child`, stand in the lists `free`.

Locations are named by numbers. Recursions and loops that follow links get a bound on their depth,
`none` is what comes out when it is exceeded or when the code would dereference a null pointer. The
released records of sparse metrics are not part of the model.
-/

namespace ScoreP.Profile

open Function

/-- Where released nodes are kept: `scorep_profile_stub_exchange` and, for each location, `free_nodes`,
`free_stubs` and `foreign_stubs`. -/
inductive Place where
  | exchange
  | nodes (location : ℕ)
  | stubs (location : ℕ)
  | foreign (location : ℕ)
deriving DecidableEq

structure Store (n : ℕ) (D : Type) where
  node : ℕ → Node n D
  allocated : ℕ
  free : Place → List ℕ
  numForeignStubs : ℕ → UInt32
  rootNodes : List ℕ

/-- What the fork node of a thread start is as a handle; `0` is the null pointer. -/
def forkHandle : Option ℕ → ℕ
  | none => 0
  | some i => i + 1

namespace Store

variable {n : ℕ} {D : Type}

def setNode (σ : Store n D) (i : ℕ) (node : Node n D) : Store n D :=
  { σ with node := update σ.node i node }

def setData (σ : Store n D) (i : ℕ) (data : NodeData n D) : Store n D :=
  σ.setNode i { σ.node i with toNodeData := data }

def setChildren (σ : Store n D) (i : ℕ) (children : List ℕ) : Store n D :=
  σ.setNode i { σ.node i with children := children }

def setParent (σ : Store n D) (i : ℕ) (parent : Option ℕ) : Store n D :=
  σ.setNode i { σ.node i with parent := parent }

def setFree (σ : Store n D) (place : Place) (list : List ℕ) : Store n D :=
  { σ with free := update σ.free place list }

/-! ## Recycling -/

def recycleStub (σ : Store n D) (location : ℕ) : Option (ℕ × Store n D) :=
  match σ.free (.stubs location) with
  | newStub :: rest => some (newStub, σ.setFree (.stubs location) rest)
  | [] =>
    match σ.free (.foreign location) with
    | newStub :: rest =>
      let num := σ.numForeignStubs location - 1
      some (newStub, { σ.setFree (.foreign location) rest with
        numForeignStubs := update σ.numForeignStubs location num })
    | [] =>
      match σ.free .exchange with
      | newStub :: rest => some (newStub, (σ.setFree .exchange []).setFree (.stubs location) rest)
      | [] => none

def allocNew (σ : Store n D) : ℕ × Store n D :=
  (σ.allocated, { σ with allocated := σ.allocated + 1 })

/-- `scorep_profile_alloc_node`; `untied` is the task context. -/
def allocNode (σ : Store n D) (location : ℕ) (type : NodeType) (untied : Bool) : ℕ × Store n D :=
  if type = .threadRoot then σ.allocNew
  else
    match if untied then [] else σ.free (.nodes location) with
    | newNode :: rest => (newNode, σ.setFree (.nodes location) rest)
    | [] => (σ.recycleStub location).getD σ.allocNew

/-- `scorep_profile_release_stubs` for one node and with `localObjects == false`. When there are too
many of them, all stubs of the location go to the exchange. -/
def releaseStubs (σ : Store n D) (taskExchangeNum : UInt64) (location root : ℕ) : Store n D :=
  let stubs := root :: σ.free (.foreign location)
  let num := σ.numForeignStubs location + 1
  if num.toUInt64 > taskExchangeNum then
    { (σ.setFree .exchange (stubs ++ σ.free .exchange)).setFree (.foreign location) [] with
      numForeignStubs := update σ.numForeignStubs location 0 }
  else
    { σ.setFree (.foreign location) stubs with
      numForeignStubs := update σ.numForeignStubs location num }

/-- `scorep_profile_release_subtree` for a node without children. -/
def releaseNode (σ : Store n D) (taskExchangeNum : UInt64) (location root : ℕ) : Store n D :=
  if (σ.node root).inUntiedTask then σ.releaseStubs taskExchangeNum location root
  else σ.setFree (.nodes location) (root :: σ.free (.nodes location))

/-- `scorep_profile_create_node`. The node is not linked to its parent yet. -/
def createNode (σ : Store n D) (location : ℕ) (parent : Option ℕ) (type : NodeType) (data : TypeData)
    (timestamp : UInt64) (untied : Bool) : ℕ × Store n D :=
  let (node, σ) := σ.allocNode location type untied
  (node, σ.setNode node { toNodeData := .create type data timestamp, parent := parent, children := [] })

def copyNode (σ : Store n D) (location source : ℕ) : ℕ × Store n D :=
  let from_ := σ.node source
  let (node, σ) :=
    σ.createNode location none from_.nodeType from_.typeSpecificData 0 from_.inUntiedTask
  (node, σ.setData node from_.toNodeData.copy)

/-! ## Children -/

def addChild (σ : Store n D) (parent child : ℕ) : Store n D :=
  (σ.setChildren parent (child :: (σ.node parent).children)).setParent child (some parent)

def removeNode (σ : Store n D) (node : ℕ) : Store n D :=
  let unlinked :=
    match (σ.node node).parent with
    | none => { σ with rootNodes := σ.rootNodes.erase node }
    | some parent => σ.setChildren parent ((σ.node parent).children.erase node)
  unlinked.setParent node none

def findChild (σ : Store n D) (parent type : ℕ) : Option ℕ :=
  (σ.node parent).children.find? fun child =>
    compareNodes (σ.node child).nodeType (σ.node type).nodeType (σ.node child).typeSpecificData
      (σ.node type).typeSpecificData

/-- `scorep_profile_find_create_child`. The child becomes the first one of the list. -/
def findCreateChild (σ : Store n D) (location parent : ℕ) (type : NodeType) (data : TypeData)
    (timestamp : UInt64) : ℕ × Store n D :=
  let found := (σ.node parent).children.find? fun child =>
    (σ.node child).nodeType == type && compareTypeData data (σ.node child).typeSpecificData type
  match found with
  | none =>
    let (child, σ) :=
      σ.createNode location (some parent) type data timestamp (σ.node parent).inUntiedTask
    (child, σ.setChildren parent (child :: (σ.node parent).children))
  | some child => (child, σ.setChildren parent (child :: (σ.node parent).children.erase child))

/-! ## Thread starts -/

def getThreadStartForFork (σ : Store n D) (root fork : ℕ) : Option ℕ :=
  (σ.node root).children.find? fun child =>
    (σ.node child).nodeType == .threadStart &&
      (σ.node child).typeSpecificData.handle == forkHandle (some fork)

/-- `scorep_profile_type_set_fork_node` for the data of a node. -/
def setForkNode (σ : Store n D) (node fork : ℕ) : Store n D :=
  let data := (σ.node node).typeSpecificData
  σ.setData node { (σ.node node).toNodeData with
    typeSpecificData := { data with handle := forkHandle (some fork) } }

def substituteThreadStarts (σ : Store n D) (old substitute : ℕ) : Store n D :=
  σ.rootNodes.foldl (fun σ root =>
    match σ.getThreadStartForFork root old with
    | none => σ
    | some child => σ.setForkNode child substitute) σ

def getLocationOfNode (σ : Store n D) : ℕ → Option ℕ → Option ℕ
  | 0, _ | _ + 1, none => none
  | depth + 1, some node =>
    if (σ.node node).nodeType = .threadRoot then some (σ.node node).typeSpecificData.handle
    else σ.getLocationOfNode depth (σ.node node).parent

/-- `merge_thread_starts`. `mergeSubtree` merges two trees for a location, `roots` are the root nodes
that are still to come. -/
def mergeThreadStarts (mergeSubtree : ℕ → ℕ → ℕ → Store n D → Option (Store n D))
    (destination source : ℕ) : List ℕ → Store n D → Option (Store n D)
  | [], σ => some σ
  | root :: roots, σ =>
    match σ.getThreadStartForFork root source with
    | none => mergeThreadStarts mergeSubtree destination source roots σ
    | some src =>
      match σ.getThreadStartForFork root destination with
      | none =>
        mergeThreadStarts mergeSubtree destination source roots (σ.setForkNode src destination)
      | some dest => do
        let location ← σ.getLocationOfNode (σ.allocated + 1) (some root)
        let σ ← mergeSubtree location dest src (σ.removeNode src)
        mergeThreadStarts mergeSubtree destination source roots σ

section Merge

variable [SparseValue D]

/-- The loop over the children of the source in `scorep_profile_merge_subtree`. -/
def mergeChildren (mergeSubtree : ℕ → ℕ → Store n D → Option (Store n D)) (destination : ℕ) :
    List ℕ → Store n D → Option (Store n D)
  | [], σ => some σ
  | child :: rest, σ =>
    match σ.findChild destination child with
    | none => mergeChildren mergeSubtree destination rest (σ.addChild destination child)
    | some found => do
      let σ ← mergeSubtree found child σ
      mergeChildren mergeSubtree destination rest σ

def mergeSubtree (taskExchangeNum : UInt64) : ℕ → ℕ → ℕ → ℕ → Store n D → Option (Store n D)
  | 0, _, _, _, _ => none
  | depth + 1, location, destination, source, σ => do
    let σ ←
      if (σ.node source).isForkNode then
        if (σ.node destination).isForkNode then
          mergeThreadStarts (mergeSubtree taskExchangeNum depth) destination source σ.rootNodes σ
        else some (σ.substituteThreadStarts source destination)
      else some σ
    let merged := (σ.node destination).toNodeData.merge (σ.node source).toNodeData
    let σ := σ.setData destination merged
    let σ ← mergeChildren (mergeSubtree taskExchangeNum depth location) destination
      (σ.node source).children σ
    some ((σ.setChildren source []).releaseNode taskExchangeNum location source)

end Merge

end Store

end ScoreP.Profile
