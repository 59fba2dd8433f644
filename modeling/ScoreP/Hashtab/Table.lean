import Mathlib.Data.Int.Notation
import Mathlib.Data.List.Basic

/-!
# The chained hash table `SCOREP_Hashtab`

Source: `src/utils/hashtab/SCOREP_Hashtab.c`. A table is an array of `tabsize` collision lists plus
a counter `size`. A collision list (the `next` chain of a bucket) is a Lean list, the bucket array
is the list of its chains, and an index at or beyond the array is a `Stop.tableIndex`, never a
default value: the iterator's scans read the array before they compare the index.

* `insert`, `remove`, `find` follow `SCOREP_Hashtab_Insert*`, `_Remove` and `_Find`;
* `iteratorFirst`, `iteratorNext` and `foreach` follow the iterator and `_Foreach`.

The four insert functions differ in the member of the value union they assign; here the value type
is a parameter.
-/

namespace ScoreP.Hashtab

variable {K V : Type}

structure Entry (K V : Type) where
  key : K
  value : V
  deriving DecidableEq

structure EntryPtr (K V : Type) where
  addr : ℕ
  entry : Entry K V
  deriving DecidableEq

/-- `scorep_hashtab_listitem`; the `next` member is the tail of the chain the item is in. -/
structure ListItem (K V : Type) extends EntryPtr K V where
  hashValue : ℕ
  deriving DecidableEq

/-- `scorep_hashtab_struct`. -/
structure Table (K V : Type) where
  table : List (List (ListItem K V))
  tabsize : ℕ
  size : ℕ
  hash : K → ℕ
  kcmp : K → K → ℤ

inductive Stop
  /-- The bucket array was read at an index at or beyond its length. -/
  | tableIndex (index : ℕ)
  | outOfFuel
  deriving DecidableEq

def createSize (size : ℕ) (hashfunc : K → ℕ) (kcmpfunc : K → K → ℤ) : Table K V where
  table := List.replicate size []
  tabsize := size
  size := 0
  hash := hashfunc
  kcmp := kcmpfunc

namespace Table

def empty (t : Table K V) : Bool := t.size == 0

def hashval (t : Table K V) (key : K) : Option ℕ → ℕ
  | some h => h
  | none => t.hash key

/-- `SCOREP_Hashtab_Insert*`. `malloc` is the address `malloc` returned, or `none` if it failed. -/
def insert (t : Table K V) (key : K) (value : V) (hashValPtr malloc : Option ℕ) :
    Table K V × Option (EntryPtr K V) :=
  let hashval := t.hashval key hashValPtr
  let index := hashval % t.tabsize
  match malloc with
  | none => (t, none)
  | some addr =>
    let item : ListItem K V := { addr, entry := { key, value }, hashValue := hashval }
    ({ t with table := t.table.modify index (item :: ·), size := t.size + 1 }, some item.toEntryPtr)

def isMatch (t : Table K V) (hashval : ℕ) (key : K) (item : ListItem K V) : Bool :=
  hashval == item.hashValue && 0 == t.kcmp key item.entry.key

/-- The loop of `SCOREP_Hashtab_Remove` over one chain: the first matching item is unlinked. -/
def unlink (t : Table K V) (hashval : ℕ) (key : K) : List (ListItem K V) → List (ListItem K V)
  | [] => []
  | item :: next => if t.isMatch hashval key item then next else item :: t.unlink hashval key next

/-- `SCOREP_Hashtab_Remove`. The member `size` is left as it is. -/
def remove (t : Table K V) (key : K) (hashValPtr : Option ℕ) : Table K V :=
  let hashval := t.hashval key hashValPtr
  let index := hashval % t.tabsize
  { t with table := t.table.modify index (t.unlink hashval key) }

/-- `SCOREP_Hashtab_Find`: the entry found, and what is stored at `hashValPtr`. -/
def find (t : Table K V) (key : K) : Option (EntryPtr K V) × ℕ :=
  let hashval := t.hash key
  let index := hashval % t.tabsize
  (((t.table.getD index []).find? (t.isMatch hashval key)).map ListItem.toEntryPtr, hashval)

/-- `scorep_hashtab_iter_struct`; `item` is the chain from the current item on, `[]` for `NULL`. -/
structure Iterator (K V : Type) where
  index : ℕ
  item : List (ListItem K V)

def iteratorCreate : Iterator K V := ⟨0, []⟩

/-- `while ( table[ index ] == NULL && index < tabsize ) index++`, over the buckets from `index`
on. The bucket is read before the index is compared, so a table without items is read past its
end. -/
def skipEmpty (tabsize : ℕ) : List (List (ListItem K V)) → ℕ → Except Stop ℕ
  | [], index => .error (.tableIndex index)
  | [] :: rest, index => if index < tabsize then skipEmpty tabsize rest (index + 1) else .ok index
  | (_ :: _) :: _, index => .ok index

def bucketAt (t : Table K V) (index : ℕ) : Except Stop (List (ListItem K V)) :=
  match t.table[index]? with
  | some bucket => .ok bucket
  | none => .error (.tableIndex index)

def iteratorFirst (t : Table K V) (it : Iterator K V) : Except Stop (Option (EntryPtr K V) × Iterator K V) :=
  if t.size = 0 then .ok (none, it)
  else do
    let index ← skipEmpty t.tabsize t.table 0
    let item ← t.bucketAt index
    return (item.head?.map ListItem.toEntryPtr, ⟨index, item⟩)

/-- The loop of `SCOREP_Hashtab_IteratorNext`, over the buckets from `index` on. -/
def nextUsed (tabsize : ℕ) : List (List (ListItem K V)) → ℕ → Except Stop (ℕ × List (ListItem K V))
  | rest, index =>
    if index = tabsize then .ok (index, [])
    else
      match rest with
      | [] => .error (.tableIndex index)
      | [] :: rest => nextUsed tabsize rest (index + 1)
      | (item :: next) :: _ => .ok (index, item :: next)

def iteratorNext (t : Table K V) (it : Iterator K V) : Except Stop (Option (EntryPtr K V) × Iterator K V) :=
  match it.item with
  | [] => .ok (none, it)
  | _ :: item :: next => .ok (some item.toEntryPtr, { it with item := item :: next })
  | [_] => do
    let (index, item) ← nextUsed t.tabsize (t.table.drop (it.index + 1)) (it.index + 1)
    return (item.head?.map ListItem.toEntryPtr, ⟨index, item⟩)

/-- `while ( entry ) { procfunc( entry ); entry = IteratorNext( iter ); }`: the entries passed to
`procfunc`, in order. -/
def foreachFrom (t : Table K V) : ℕ → Option (EntryPtr K V) × Iterator K V → Except Stop (List (EntryPtr K V))
  | _, (none, _) => .ok []
  | 0, (some _, _) => .error .outOfFuel
  | fuel + 1, (some entry, it) => do
    let visited ← t.foreachFrom fuel (← t.iteratorNext it)
    return entry :: visited

/-- `SCOREP_Hashtab_Foreach`, with at most `fuel` calls of `procfunc`. -/
def foreach (t : Table K V) (fuel : ℕ) : Except Stop (List (EntryPtr K V)) := do
  t.foreachFrom fuel (← t.iteratorFirst iteratorCreate)

end Table

end ScoreP.Hashtab
