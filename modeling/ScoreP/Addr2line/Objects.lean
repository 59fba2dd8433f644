import Mathlib.Algebra.GroupWithZero.Nat
import Mathlib.Data.List.Infix
import Mathlib.Order.Fin.Basic
import ScoreP.Foundations.Overlaps

/-!
# Shared objects

Source: `src/services/addr2line/SCOREP_Addr2line.c`. The load-time objects are collected once, by
`fill_lt_arrays_cb`; `lt_begin_addrs` and `lt_objects` are one list of records. What `iterate_segments` finds
is part of the data of a loaded object. `lookupSo` is `none` when its `UTILS_BUG_ON` fires.

`countOverlaps_toNat` and `addr2lineInitialize_collected` describe the running count of overlapping pairs,
`lookupSo_eq` is the result of a lookup into a container that is large enough, and `bitsetTest_set` and `bitsetTest_clear`
are the operations on the bitset of tokens.
-/

namespace ScoreP.Addr2line

open Foundations Function List

/-- `uintptr_t` -/
abbrev Address := Fin (2 ^ 64)

instance address_neZero : NeZero (2 ^ 64) := ⟨by decide⟩

abbrev Text := List Char

/-- What `iterate_segments` finds in an object with symbols. -/
structure Segments where
  name : Text
  baseAddr : Address
  beginAddrMin : Address
  endAddrMax : Address
  deriving DecidableEq

/-- A `dl_phdr_info`. -/
structure PhdrInfo where
  name : Text
  /-- There is a readable segment of type `PT_LOAD`. -/
  readable : Bool
  segments : Option Segments
  deriving DecidableEq

/-- The members `SO_OBJECT_COMMON` with the begin address. -/
structure SharedObject where
  name : Text
  baseAddr : Address
  beginAddr : Address
  endAddr : Address
  token : ℕ
  deriving DecidableEq

structure RtObject extends SharedObject where
  auditCookie : ℕ
  deriving DecidableEq

def SharedObject.range (obj : SharedObject) : Span Address :=
  ⟨obj.beginAddr, obj.endAddr⟩

/-- `[ UINTPTR_MAX, 0 ]` -/
def noAddrs : Span Address :=
  ⟨Fin.last _, 0⟩

def ltObjectToken : ℕ := 2 ^ 16 - 1

def irrelevantNames : List Text :=
  [['l', 'i', 'n', 'u', 'x', '-', 'v', 'd', 's', 'o'], ['l', 'i', 'b', 's', 'c', 'o', 'r', 'e', 'p'],
    ['l', 'i', 'b', 'c', 'u', 'b', 'e', '4', 'w'], ['l', 'i', 'b', 'o', 't', 'f', '2'],
    ['l', 'd', '-', 'l', 'i', 'n', 'u', 'x']]

/-- `strstr( name, part )` -/
def strstr (name part : Text) : Bool :=
  name.tails.any fun tail => part.isPrefixOf tail

def isObjRelevant (name : Text) : Bool :=
  !irrelevantNames.any (strstr name)

def countOverlaps (objects : List SharedObject) (new : SharedObject) (n : UInt32) : UInt32 :=
  objects.foldl (fun n obj => if obj.beginAddr ≤ new.endAddr ∧ new.beginAddr ≤ obj.endAddr then n + 1 else n) n

/-! ## Load-time objects -/

structure LoadTime where
  objects : List SharedObject
  /-- `lt_objects_min_addr` and `lt_objects_max_addr` -/
  range : Span Address
  nOverlappingAddressRanges : UInt32

/-- `count_shared_objs` for all objects. -/
def countSharedObjs (infos : List PhdrInfo) : ℕ :=
  infos.countP fun info => isObjRelevant info.name && info.readable

def ltObject (segments : Segments) : SharedObject where
  name := segments.name
  baseAddr := segments.baseAddr
  beginAddr := segments.beginAddrMin
  endAddr := segments.endAddrMax
  token := ltObjectToken

def LoadTime.insert (lt : LoadTime) (new : SharedObject) : LoadTime where
  objects := lt.objects ++ [new]
  range := lt.range.widen new.range
  nOverlappingAddressRanges := countOverlaps lt.objects new lt.nOverlappingAddressRanges

def fillLtArraysCb (lt : LoadTime) (info : PhdrInfo) : LoadTime :=
  if isObjRelevant info.name then
    match info.segments with
    | none => lt
    | some segments => lt.insert (ltObject segments)
  else lt

def addr2lineInitialize (infos : List PhdrInfo) : LoadTime :=
  infos.foldl fillLtArraysCb ⟨[], noAddrs, 0⟩

/-! ## Run-time objects -/

/-- The object that `insert_rt_object_cb` inserts. -/
def selectRtObject (ltObjsCapacity : ℕ) (name : Text) (infos : List PhdrInfo) : Option Segments :=
  ((infos.drop ltObjsCapacity).find? fun info => decide (info.name = name) && isObjRelevant name).bind
    PhdrInfo.segments

def rtObject (segments : Segments) (token cookie : ℕ) : RtObject where
  name := segments.name
  baseAddr := segments.baseAddr
  beginAddr := segments.beginAddrMin
  endAddr := segments.endAddrMax
  token := token
  auditCookie := cookie

/-- The update of the address interval in `scorep_la_objclose`, `objects` are the remaining ones. -/
def shrink (range : Span Address) (remove : RtObject) (objects : List RtObject) : Span Address :=
  if remove.beginAddr = range.lower ∨ remove.endAddr = range.upper then
    hullOf (fun obj => obj.range) noAddrs (objects.map RtObject.toSharedObject)
  else range

def maxRtObjopenCallsTracked : ℕ := 2 ^ 13

def bitsetMask (bit : ℕ) : BitVec 8 :=
  (1 : BitVec 8) <<< (bit % 8)

def bitsetSet (bitset : ℕ → BitVec 8) (bit : ℕ) : ℕ → BitVec 8 :=
  update bitset (bit / 8) (bitset (bit / 8) ||| bitsetMask bit)

def bitsetClear (bitset : ℕ → BitVec 8) (bit : ℕ) : ℕ → BitVec 8 :=
  update bitset (bit / 8) (bitset (bit / 8) &&& ~~~bitsetMask bit)

def bitsetTest (bitset : ℕ → BitVec 8) (bit : ℕ) : Bool :=
  bitset (bit / 8) &&& bitsetMask bit ≠ 0

/-! ## Lookups -/

def addMatches (addr : Address) (capacity : ℕ) : List SharedObject → List SharedObject → Option (List SharedObject)
  | found, [] => some found
  | found, obj :: objects =>
    if obj.range.Contains addr then
      if capacity < found.length + 1 then none else addMatches addr capacity (found ++ [obj]) objects
    else addMatches addr capacity found objects

def lookupSo (lt : LoadTime) (rtRange : Span Address) (rtObjects : List RtObject) (addr : Address)
    (capacity : ℕ) (unlock : Bool) : Option (List SharedObject) :=
  let ltFound := if lt.range.Contains addr then addMatches addr capacity [] lt.objects else some []
  ltFound.bind fun found =>
    if unlock then
      if rtRange.Contains addr then addMatches addr capacity found (rtObjects.map RtObject.toSharedObject)
      else some found
    else some found

/-! ## The running count -/

theorem countOverlaps_toNat (objects : List SharedObject) (new : SharedObject) (n : UInt32) :
    (countOverlaps objects new n).toNat =
      (n.toNat + meeting SharedObject.range objects new.range) % 2 ^ 32 := by
  induction objects generalizing n with
  | nil =>
    have hsmall := n.toNat_lt
    exact (Nat.mod_eq_of_lt hsmall).symm
  | cons obj objects ih =>
    have hmeeting : meeting SharedObject.range (obj :: objects) new.range =
        meeting SharedObject.range objects new.range +
          if obj.beginAddr ≤ new.endAddr ∧ new.beginAddr ≤ obj.endAddr then 1 else 0 := by
      rw [meeting, countP_cons, meeting]
      simp only [decide_eq_true_eq]
      rfl
    rw [countOverlaps, foldl_cons, ← countOverlaps, ih, hmeeting]
    split
    · rw [UInt32.toNat_add, UInt32.toNat_one]
      omega
    · rfl

namespace LoadTime

/-- The interval covers all objects and the overlapping pairs are counted. -/
structure Collected (lt : LoadTime) : Prop where
  covers : ∀ obj ∈ lt.objects, lt.range.Covers obj.range
  counted : lt.nOverlappingAddressRanges.toNat = pairs SharedObject.range lt.objects % 2 ^ 32

variable {lt : LoadTime}

theorem Collected.insert (h : lt.Collected) (new : SharedObject) : (lt.insert new).Collected := by
  constructor
  · intro obj hobj
    rcases mem_append.1 hobj with hold | hnew
    · exact (h.covers obj hold).widen
    · rw [mem_singleton.1 hnew]
      exact Span.covers_widen
  · rw [LoadTime.insert]
    dsimp only
    rw [countOverlaps_toNat, h.counted, pairs_append, Nat.mod_add_mod]

theorem Collected.fillLtArraysCb (h : lt.Collected) (info : PhdrInfo) : (fillLtArraysCb lt info).Collected := by
  unfold Addr2line.fillLtArraysCb
  split
  · split
    · exact h
    · exact h.insert _
  · exact h

end LoadTime

theorem addr2lineInitialize_collected (infos : List PhdrInfo) : (addr2lineInitialize infos).Collected := by
  have hfold : ∀ lt : LoadTime, lt.Collected → (infos.foldl fillLtArraysCb lt).Collected := by
    induction infos with
    | nil => exact fun _ h => h
    | cons info infos ih => exact fun lt h => ih _ (h.fillLtArraysCb info)
  apply hfold
  exact ⟨fun obj hobj => absurd hobj not_mem_nil, rfl⟩

theorem shrink_covers {range : Span Address} {remove : RtObject} {objects : List RtObject}
    (h : ∀ obj ∈ objects, range.Covers obj.range) : ∀ obj ∈ objects, (shrink range remove objects).Covers obj.range := by
  intro obj hobj
  rw [shrink]
  split
  · exact covers_hullOf (mem_map_of_mem hobj)
  · exact h obj hobj

/-! ## The operations on the bitset -/

theorem bitsetMask_getLsbD {bit k : ℕ} (hk : k < 8) : (bitsetMask bit).getLsbD k = decide (k = bit % 8) := by
  rw [Bool.eq_iff_iff, bitsetMask]
  simp only [BitVec.getLsbD_shiftLeft, BitVec.ofNat_eq_ofNat, BitVec.getLsbD_one, Bool.and_eq_true,
    Bool.not_eq_true', decide_eq_true_eq, decide_eq_false_iff_not]
  omega

theorem and_bitsetMask_ne_zero {byte : BitVec 8} {bit : ℕ} :
    byte &&& bitsetMask bit ≠ 0 ↔ byte.getLsbD (bit % 8) = true := by
  constructor
  · intro hne
    by_contra hbit
    apply hne
    apply BitVec.eq_of_getLsbD_eq
    intro j hj
    rw [BitVec.getLsbD_and, bitsetMask_getLsbD hj, BitVec.ofNat_eq_ofNat, BitVec.getLsbD_zero]
    by_cases hjk : j = bit % 8
    · rw [hjk, Bool.eq_false_iff.2 hbit, Bool.false_and]
    · rw [decide_eq_false hjk, Bool.and_false]
  · intro hbit heq
    have hlt : bit % 8 < 8 := Nat.mod_lt _ (by decide)
    have hmasked : (byte &&& bitsetMask bit).getLsbD (bit % 8) = (0 : BitVec 8).getLsbD (bit % 8) := by rw [heq]
    rw [BitVec.getLsbD_and, bitsetMask_getLsbD hlt, hbit, decide_eq_true rfl, BitVec.ofNat_eq_ofNat,
      BitVec.getLsbD_zero] at hmasked
    exact absurd hmasked (by decide)

theorem bitsetTest_eq (bitset : ℕ → BitVec 8) (bit : ℕ) :
    bitsetTest bitset bit = (bitset (bit / 8)).getLsbD (bit % 8) := by
  rw [Bool.eq_iff_iff, bitsetTest, decide_eq_true_iff]
  exact and_bitsetMask_ne_zero

theorem bitsetTest_set (bitset : ℕ → BitVec 8) (bit other : ℕ) :
    bitsetTest (bitsetSet bitset bit) other = (decide (other = bit) || bitsetTest bitset other) := by
  have hlt : other % 8 < 8 := Nat.mod_lt _ (by decide)
  rw [bitsetTest_eq, bitsetTest_eq, bitsetSet]
  by_cases hslot : other / 8 = bit / 8
  · rw [hslot, update_self, BitVec.getLsbD_or, bitsetMask_getLsbD hlt, Bool.or_comm]
    congr 1
    rw [decide_eq_decide]
    omega
  · have hne : ¬other = bit := fun h => hslot (by rw [h])
    rw [update_of_ne hslot, decide_eq_false hne, Bool.false_or]

theorem bitsetTest_clear (bitset : ℕ → BitVec 8) (bit other : ℕ) :
    bitsetTest (bitsetClear bitset bit) other = (!decide (other = bit) && bitsetTest bitset other) := by
  have hlt : other % 8 < 8 := Nat.mod_lt _ (by decide)
  rw [bitsetTest_eq, bitsetTest_eq, bitsetClear]
  by_cases hslot : other / 8 = bit / 8
  · rw [hslot, update_self, BitVec.getLsbD_and, BitVec.getLsbD_not, bitsetMask_getLsbD hlt,
      decide_eq_true hlt, Bool.true_and, Bool.and_comm]
    congr 2
    rw [decide_eq_decide]
    omega
  · have hne : ¬other = bit := fun h => hslot (by rw [h])
    rw [update_of_ne hslot, decide_eq_false hne, Bool.not_false, Bool.true_and]

/-! ## The matching objects -/

theorem addMatches_eq {addr : Address} {capacity : ℕ} {found objects : List SharedObject}
    (h : found.length + (containing SharedObject.range objects addr).length ≤ capacity) :
    addMatches addr capacity found objects = some (found ++ containing SharedObject.range objects addr) := by
  induction objects generalizing found with
  | nil => rw [addMatches, containing, filter_nil, append_nil]
  | cons obj objects ih =>
    rw [containing, filter_cons] at h ⊢
    rw [addMatches]
    by_cases hobj : obj.range.Contains addr
    · rw [if_pos (decide_eq_true hobj), length_cons] at h
      have hroom : ¬capacity < found.length + 1 := by omega
      have hrest : (found ++ [obj]).length + (containing SharedObject.range objects addr).length ≤ capacity := by
        rw [length_append, length_singleton, containing]
        omega
      rw [if_pos hobj, if_neg hroom, ih hrest, if_pos (decide_eq_true hobj), append_assoc,
        singleton_append, containing]
    · have hfalse : ¬decide (obj.range.Contains addr) = true := fun hd => hobj (of_decide_eq_true hd)
      rw [if_neg hfalse] at h
      rw [if_neg hobj, if_neg hfalse]
      exact ih h

theorem containing_eq_nil {hull : Span Address} {objects : List SharedObject} {addr : Address}
    (hcovers : ∀ obj ∈ objects, hull.Covers obj.range) (haddr : ¬hull.Contains addr) :
    containing SharedObject.range objects addr = [] := by
  apply filter_eq_nil_iff.2
  intro obj hobj hcontains
  exact haddr ((hcovers obj hobj).contains (of_decide_eq_true hcontains))

def matching (lt : LoadTime) (rtObjects : List RtObject) (addr : Address) (unlock : Bool) : List SharedObject :=
  containing SharedObject.range lt.objects addr ++
    if unlock then containing SharedObject.range (rtObjects.map RtObject.toSharedObject) addr else []

theorem lookupSo_eq {lt : LoadTime} {rtRange : Span Address} {rtObjects : List RtObject} {addr : Address}
    {capacity : ℕ} {unlock : Bool} (hlt : ∀ obj ∈ lt.objects, lt.range.Covers obj.range)
    (hrt : ∀ obj ∈ rtObjects, rtRange.Covers obj.range)
    (hfits : (matching lt rtObjects addr unlock).length ≤ capacity) :
    lookupSo lt rtRange rtObjects addr capacity unlock = some (matching lt rtObjects addr unlock) := by
  rw [matching, length_append] at hfits
  have hfound : (if lt.range.Contains addr then addMatches addr capacity [] lt.objects else some []) =
      some (containing SharedObject.range lt.objects addr) := by
    split
    · rw [addMatches_eq, nil_append]
      rw [length_nil]
      omega
    · next haddr => rw [containing_eq_nil hlt haddr]
  rw [lookupSo, matching, hfound, Option.bind_some]
  cases unlock with
  | false => rw [if_neg Bool.false_ne_true, if_neg Bool.false_ne_true, append_nil]
  | true =>
    rw [if_pos rfl] at hfits
    rw [if_pos rfl, if_pos rfl]
    split
    · exact addMatches_eq hfits
    · next haddr =>
      have hrt' : ∀ obj ∈ rtObjects.map RtObject.toSharedObject, rtRange.Covers obj.range := by
        intro obj hobj
        obtain ⟨rt, hmem, rfl⟩ := mem_map.1 hobj
        exact hrt rt hmem
      rw [containing_eq_nil hrt' haddr, append_nil]

end ScoreP.Addr2line
