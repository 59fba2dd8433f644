import Mathlib.Algebra.Group.Nat.Defs
import Mathlib.Logic.Function.Basic

/-!
# The skiplist

Source: `src/utils/include/SCOREP_Skiplist.h`, the functions of an instantiation, called by one
thread: the guards have no effect then.

Nodes are named by numbers in the order of their allocation, and a node that is not allocated has
height zero. Reading or writing a link of a level that the node does not have, following a null
pointer and using a freelist beyond `max_height` are the faults, which the functions answer with
`none`. The `while` loops take a bound on their number of rounds, and running out of it is a fault
too.

The `unsigned int` heights and levels stay below `max_height` and are natural numbers.
-/

namespace ScoreP.Skiplist

open Function

/-- The payload with the functions its user provides, and the random number generator with its
state. `zeroed` is a payload after `memset( ..., 0, ... )`. -/
structure Template (P G : Type) where
  zeroed : P
  resetPayload : P → P
  cmp : P → P → ℤ
  getRandomNumber : G → ℕ × G

/-- `get_random_number`. -/
def linearCongruential (seed : ℕ) : ℕ × ℕ :=
  let randomSeed := (seed * 1103515245 + 12345) % 2 ^ 32 % 2 ^ 31
  (randomSeed, randomSeed)

structure Node (P : Type) where
  payload : P
  height : ℕ
  prev : ℕ → Option ℕ
  next : ℕ → Option ℕ

/-- `SCOREP_SKIPLIST_HANDLE` and the memory of its nodes. -/
structure Handle (P G : Type) where
  headnode : ℕ
  freelist : ℕ → Option ℕ
  randomSeed : G
  ceiling : ℕ
  maxHeight : ℕ
  randomBits : ℕ
  bitsAvailable : ℕ
  node : ℕ → Node P
  allocated : ℕ

namespace Handle

variable {P G : Type} (T : Template P G) (list : Handle P G)

/-! ## Memory -/

def withNext (n level : ℕ) (p : Option ℕ) : Handle P G :=
  { list with
    node := update list.node n
      { list.node n with next := update (list.node n).next level p } }

def withPrev (n level : ℕ) (p : Option ℕ) : Handle P G :=
  { list with
    node := update list.node n
      { list.node n with prev := update (list.node n).prev level p } }

def withPayload (n : ℕ) (payload : P) : Handle P G :=
  { list with node := update list.node n { list.node n with payload := payload } }

/-- `n->next[ level ]`. -/
def next (n level : ℕ) : Option (Option ℕ) :=
  if level < (list.node n).height then some ((list.node n).next level) else none

/-- `n->prev[ level ]`. -/
def prev (n level : ℕ) : Option (Option ℕ) :=
  if level < (list.node n).height then some ((list.node n).prev level) else none

/-- `n->next[ level ] = p`. -/
def setNext (n level : ℕ) (p : Option ℕ) : Option (Handle P G) :=
  if level < (list.node n).height then some (list.withNext n level p) else none

/-- `n->prev[ level ] = p`. -/
def setPrev (n level : ℕ) (p : Option ℕ) : Option (Handle P G) :=
  if level < (list.node n).height then some (list.withPrev n level p) else none

/-! ## New nodes -/

def flipCoin : ℕ × Handle P G :=
  let refilled := if list.bitsAvailable = 0 then
      let (bits, seed) := T.getRandomNumber list.randomSeed
      { list with randomSeed := seed, randomBits := bits, bitsAvailable := 31 }
    else list
  (refilled.randomBits % 2,
    { refilled with
      randomBits := refilled.randomBits / 2
      bitsAvailable := refilled.bitsAvailable - 1 })

/-- The loop of `compute_random_height`. -/
def flipCoins : ℕ → ℕ → Handle P G → Option (ℕ × Handle P G)
  | 0, _, _ => none
  | fuel + 1, height, list =>
    if height < list.maxHeight - 1 then
      let (coinFlipResult, list) := list.flipCoin T
      if coinFlipResult = 1 then flipCoins fuel (height + 1) list else some (height, list)
    else some (height, list)

def computeRandomHeight : Option (ℕ × Handle P G) :=
  flipCoins T list.maxHeight 1 list

def allocateNodeOfHeight (height : ℕ) : ℕ × Handle P G :=
  (list.allocated,
    { list with
      allocated := list.allocated + 1
      node := update list.node list.allocated
        { payload := T.resetPayload T.zeroed
          height := height
          prev := fun _ => none
          next := fun _ => none } })

def getNodeOfHeight (height : ℕ) : Option (ℕ × Handle P G) :=
  if height < list.maxHeight then
    match list.freelist height with
    | none => some (list.allocateNodeOfHeight T height)
    | some newNode => do
      let rest ← list.next newNode 0
      let list := { list with freelist := update list.freelist height rest }
      let list ← list.setNext newNode 0 none
      return (newNode, list)
  else none

def createNode : Option (ℕ × Handle P G) := do
  let (height, list) ← list.computeRandomHeight T
  list.getNodeOfHeight T height

/-! ## Search -/

/-- The `while` loop of `lower_bound` on one level. -/
def advance (searchElement : P) (level : ℕ) : ℕ → ℕ → Option ℕ
  | 0, _ => none
  | fuel + 1, listElement => do
    match ← list.next listElement level with
    | none => return listElement
    | some succ =>
      if T.cmp (list.node succ).payload searchElement ≤ 0 then
        advance searchElement level fuel succ
      else return listElement

/-- The levels below `level`, from `listElement` on. -/
def descend (searchElement : P) : ℕ → ℕ → Option ℕ
  | 0, listElement => some listElement
  | level + 1, listElement => do
    let listElement ← list.advance T searchElement level list.allocated listElement
    if T.cmp (list.node listElement).payload searchElement = 0 then return listElement
    else descend searchElement level listElement

def lowerBound (searchElement : P) : Option ℕ :=
  list.descend T searchElement list.ceiling list.headnode

/-! ## Insertion -/

/-- `if ( p->next[ level ] ) p->next[ level ]->prev[ level ] = newNode`. -/
def linkBack (newNode p level : ℕ) : Option (Handle P G) := do
  match ← list.next p level with
  | none => return list
  | some succ => list.setPrev succ level (some newNode)

/-- `newNode` is linked behind `predecessorElement`. -/
def linkOnLevel (newNode predecessorElement level : ℕ) : Option (Handle P G) := do
  let list ← list.setPrev newNode level (some predecessorElement)
  let list ← list.setNext newNode level (← list.next predecessorElement level)
  let list ← list.linkBack newNode predecessorElement level
  list.setNext predecessorElement level (some newNode)

def walkBack (level : ℕ) : ℕ → ℕ → Option ℕ
  | 0, _ => none
  | fuel + 1, predecessorElement =>
    if (list.node predecessorElement).height ≤ level + 1 then do
      match ← list.prev predecessorElement level with
      | none => none
      | some p => walkBack level fuel p
    else some predecessorElement

/-- The given number of levels from `level` on. -/
def linkOnLevels (newNode : ℕ) : ℕ → ℕ → ℕ → Handle P G → Option (Handle P G)
  | 0, _, _, list => some list
  | levels + 1, level, predecessorElement, list => do
    let list ← list.linkOnLevel newNode predecessorElement level
    let predecessorElement ← list.walkBack level list.allocated predecessorElement
    linkOnLevels newNode levels (level + 1) predecessorElement list

def insertNode (newNode : ℕ) : Option (Handle P G) := do
  let predecessorElement ← list.lowerBound T (list.node newNode).payload
  let list ← linkOnLevels newNode (list.node newNode).height 0 predecessorElement list
  return { list with ceiling := max list.ceiling (list.node newNode).height }

/-! ## Removal -/

def unlinkOnLevel (element level : ℕ) : Option (Handle P G) := do
  match ← list.prev element level with
  | none => return list
  | some p =>
    let list ← list.setNext p level (← list.next element level)
    match ← list.next element level with
    | none => return list
    | some succ => list.setPrev succ level (← list.prev element level)

/-- The given number of levels from `level` on. -/
def unlinkOnLevels (element : ℕ) : ℕ → ℕ → Handle P G → Option (Handle P G)
  | 0, _, list => some list
  | levels + 1, level, list => do
    let list ← list.unlinkOnLevel element level
    unlinkOnLevels element levels (level + 1) list

def resetNodeLinks (element : ℕ) : Handle P G :=
  { list with
    node := update list.node element
      { list.node element with
        prev := fun level => if level < (list.node element).height then none
          else (list.node element).prev level
        next := fun level => if level < (list.node element).height then none
          else (list.node element).next level } }

/-- `element->next[ 0 ] = freelist[ height ]` and `freelist[ height ] = element`. -/
def pushFree (element : ℕ) : Option (Handle P G) :=
  if (list.node element).height < list.maxHeight then do
    let list ← list.setNext element 0 (list.freelist (list.node element).height)
    return { list with
      freelist := update list.freelist (list.node element).height (some element) }
  else none

def removeNode (element : ℕ) : Option (Handle P G) := do
  let list ← unlinkOnLevels element (list.node element).height 0 list
  let list := list.withPayload element (T.resetPayload (list.node element).payload)
  (list.resetNodeLinks element).pushFree element

/-- The loop of `destroy_list`. -/
def removeNodes : ℕ → Handle P G → Option (Handle P G)
  | 0, _ => none
  | fuel + 1, list => do
    match ← list.next list.headnode 0 with
    | none => return list
    | some n =>
      let list ← list.removeNode T n
      removeNodes fuel list

def destroyList : Option (Handle P G) :=
  removeNodes T list.allocated list

def createList (maxHeight : ℕ) (seed : G) : Handle P G :=
  let empty : Handle P G :=
    { headnode := 0
      freelist := fun _ => none
      randomSeed := seed
      ceiling := 1
      maxHeight := maxHeight
      randomBits := 0
      bitsAvailable := 0
      node := fun _ =>
        { payload := T.zeroed, height := 0, prev := fun _ => none, next := fun _ => none }
      allocated := 0 }
  let (headnode, list) := empty.allocateNodeOfHeight T maxHeight
  { list with headnode := headnode }

end Handle

end ScoreP.Skiplist
