import ScoreP.Foundations.Siblings
import ScoreP.Profile.NodeType

/-!
# Callpath handles of the nodes

The definitions follow `scorep_profile_callpath.c`. A callpath handle is the place of its definition in
the list of callpath definitions of the process; `none` is `SCOREP_INVALID_CALLPATH`. Of a node there is
what the assignment reads: its type data, the time of its first enter and its handle. `lists` gives what
stands at the address of a parameter list.
-/

namespace ScoreP.Callpath

open Foundations Profile

structure Parameter where
  parameterHandle : ℕ
  value : ℕ
deriving DecidableEq

structure CallpathDef where
  parentCallpathHandle : Option ℕ
  regionHandle : ℕ
  parameters : List Parameter
deriving DecidableEq

structure Node where
  nodeType : NodeType
  typeSpecificData : TypeData
  firstEnterTime : ℕ
  callpathHandle : Option ℕ
deriving DecidableEq

abbrev Forest := Siblings Node

variable (lists : ℕ → List Parameter)

def parametersOf (value : ℕ) : List Parameter :=
  if value = 0 then [] else lists value

/-- `SCOREP_Definitions_NewCallpath`. The local definition manager has no hash table for callpaths, so
every call appends a definition. -/
def newCallpath (parent : Option ℕ) (region : ℕ) (parameters : List Parameter)
    (definitions : List CallpathDef) : ℕ × List CallpathDef :=
  (definitions.length, definitions ++ [⟨parent, region, parameters⟩])

/-- `assign_callpath` for a node whose parent path is `parent`; `none` when the profile stops with an
error. -/
def assignCallpath (parent : Option ℕ) (current : Node) (definitions : List CallpathDef) :
    Option (Node × List CallpathDef) :=
  match current.callpathHandle with
  | some _ => some (current, definitions)
  | none =>
    match current.nodeType with
    | .taskRoot | .regularRegion =>
      let (handle, definitions) := newCallpath parent current.typeSpecificData.handle
        (parametersOf lists current.typeSpecificData.value) definitions
      some ({ current with callpathHandle := some handle }, definitions)
    | .threadRoot => some (current, definitions)
    | .parameterString | .parameterInteger | .threadStart | .collapse => none

def pathBelow (node : Node) : Option ℕ :=
  if node.nodeType = .threadRoot then none else node.callpathHandle

/-- `scorep_profile_for_all` with `assign_callpath`. -/
def assignAll (parent : Option ℕ) : Forest → List CallpathDef → Option (Forest × List CallpathDef)
  | .nil, definitions => some (.nil, definitions)
  | .node current children siblings, definitions =>
    match assignCallpath lists parent current definitions with
    | none => none
    | some (current, definitions) =>
      match assignAll (pathBelow current) children definitions with
      | none => none
      | some (children, definitions) =>
        match assignAll parent siblings definitions with
        | none => none
        | some (siblings, definitions) => some (.node current children siblings, definitions)

/-- `scorep_profile_find_create_child`: the child that comes to stand first, its children and the other
children. -/
def findCreateChild (nodeType : NodeType) (data : TypeData) (timestamp : ℕ) (children : Forest) :
    Node × Forest × Forest :=
  match children.extract fun child =>
      child.nodeType = nodeType ∧ compareTypeData data child.typeSpecificData nodeType = true with
  | some found => found
  | none => (⟨nodeType, data, timestamp, none⟩, .nil, children)

/-- `match_callpath` for each of the siblings, with the children of their parent's match. -/
def matchCallpaths (parent : Option ℕ) :
    Forest → Forest → List CallpathDef → Option (Forest × Forest × List CallpathDef)
  | .nil, master, definitions => some (.nil, master, definitions)
  | .node current children siblings, master, definitions =>
    let (found, inner, others) := findCreateChild current.nodeType current.typeSpecificData
      current.firstEnterTime master
    match assignCallpath lists parent found definitions with
    | none => none
    | some (found, definitions) =>
      match matchCallpaths (pathBelow found) children inner definitions with
      | none => none
      | some (children, inner, definitions) =>
        match matchCallpaths parent siblings (.node found inner others) definitions with
        | none => none
        | some (siblings, master, definitions) =>
          some (.node { current with callpathHandle := found.callpathHandle } children siblings, master,
            definitions)

/-- `compare_first_enter_time`, as an order. -/
def enteredBefore (a b : Node) : Bool :=
  a.firstEnterTime ≤ b.firstEnterTime

def sortTree (roots : Forest) : Forest :=
  roots.sortBelow enteredBefore

def assignCallpathToMaster (roots : Forest) (definitions : List CallpathDef) :
    Option (Forest × List CallpathDef) :=
  match sortTree roots with
  | .nil => some (.nil, definitions)
  | .node master children threads =>
    if master.nodeType ≠ .threadRoot then none
    else
      match assignCallpath lists none master definitions with
      | none => none
      | some (master, definitions) =>
        match assignAll lists (pathBelow master) children definitions with
        | none => none
        | some (children, definitions) => some (.node master children threads, definitions)

def matchThreads (parent : Option ℕ) : Forest → Forest → List CallpathDef → Option (Forest × Forest × List CallpathDef)
  | .nil, master, definitions => some (.nil, master, definitions)
  | .node thread children threads, master, definitions =>
    match matchCallpaths lists parent children master definitions with
    | none => none
    | some (children, master, definitions) =>
      match matchThreads parent threads master definitions with
      | none => none
      | some (threads, master, definitions) =>
        some (.node thread children threads, master, definitions)

def assignCallpathToWorkers (roots : Forest) (definitions : List CallpathDef) :
    Option (Forest × List CallpathDef) :=
  match roots with
  | .nil => some (.nil, definitions)
  | .node master children threads =>
    match matchThreads lists (pathBelow master) threads children definitions with
    | none => none
    | some (threads, children, definitions) => some (.node master children threads, definitions)

/-- The last steps of `SCOREP_Profile_Process`. -/
def assignCallpaths (roots : Forest) (definitions : List CallpathDef) : Option (Forest × List CallpathDef) :=
  match assignCallpathToMaster lists roots definitions with
  | none => none
  | some (roots, definitions) => assignCallpathToWorkers lists roots definitions

end ScoreP.Callpath
