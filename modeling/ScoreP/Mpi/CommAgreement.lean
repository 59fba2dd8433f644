import ScoreP.Foundations.Meetings
import ScoreP.Mpi.CommUnification

/-!
# What the processes announce

The lists of the processes are parts of one order of communicators. `Agreed.ranksParticipating_iff` says
when all members of a communicator announce it, and `groupRanks_members` what the two arrays hold then.
-/

namespace ScoreP.Mpi.Unification

open Foundations List

/-! ## Communicators -/

/-- A communicator as all its members know it. The second group of an intra-communicator is empty. -/
structure Communicator (worldSize : ℕ) where
  root : Fin worldSize
  id : ℕ
  low : List (Fin worldSize)
  high : List (Fin worldSize)
deriving DecidableEq

namespace Communicator

variable {worldSize : ℕ}

def members (communicator : Communicator worldSize) : List (Fin worldSize) :=
  communicator.low ++ communicator.high

def key (communicator : Communicator worldSize) : Fin worldSize × ℕ :=
  (communicator.root, communicator.id)

/-- The groups of an inter-communicator are disjoint, and the high one has the greater root. A
communicator of one process is self-like. -/
structure WellFormed (communicator : Communicator worldSize) : Prop where
  nodup : communicator.members.Nodup
  several : 2 ≤ communicator.members.length
  low_ne_nil : communicator.low ≠ []
  roots : communicator.high ≠ [] → rootWorldRank communicator.low < rootWorldRank communicator.high

/-- What `scorep_mpi_comm_create_finalize` stores on a member. -/
def payload (communicator : Communicator worldSize) (rank : Fin worldSize) : Payload :=
  if rank ∈ communicator.low then
    createFinalize communicator.root communicator.id rank communicator.low
      (if communicator.high = [] then none else some communicator.high)
  else
    createFinalize communicator.root communicator.id rank communicator.high (some communicator.low)

def announcement (communicator : Communicator worldSize) (rank : Fin worldSize) : Announcement :=
  if rank ∈ communicator.low then
    ⟨communicator.root, communicator.id, communicator.low.idxOf rank, 0⟩
  else ⟨communicator.root, communicator.id, communicator.high.idxOf rank, 1⟩

end Communicator

theorem highBit_encode {size high : ℕ} (hsize : size < 2 ^ 31) (hhigh : high < 2) :
    highBit (size ||| high <<< 31) = high := by
  have hsum : size ||| high <<< 31 = 2 ^ 31 * high + size := by
    rw [Nat.shiftLeft_eq, Nat.mul_comm, Nat.or_comm, Nat.two_pow_add_eq_or_of_lt hsize]
  rw [highBit, hsum, Nat.shiftRight_eq_div_pow, Nat.and_one_is_mod]
  omega

theorem extractedRemoteSize_encode {size high : ℕ} (hsize : size < 2 ^ 31) :
    extractedRemoteSize (size ||| high <<< 31) = size := by
  have hsum : size ||| high <<< 31 = 2 ^ 31 * high + size := by
    rw [Nat.shiftLeft_eq, Nat.mul_comm, Nat.or_comm, Nat.two_pow_add_eq_or_of_lt hsize]
  have hmask : uint32Max - 2 ^ 31 = 2 ^ 31 - 1 := rfl
  rw [extractedRemoteSize, hsum, hmask, Nat.and_two_pow_sub_one_eq_mod]
  omega

section Payloads

variable {worldSize : ℕ} {communicator : Communicator worldSize}

theorem length_le_of_nodup {group : List (Fin worldSize)} (h : group.Nodup) : group.length ≤ worldSize := by
  have hle := h.length_le_card
  rwa [Fintype.card_fin] at hle

theorem Communicator.WellFormed.announce_payload (h : communicator.WellFormed)
    (hsize : worldSize < 2 ^ 31) {rank : Fin worldSize} (hmem : rank ∈ communicator.members) :
    announce worldSize (some (communicator.payload rank)) = ⟨communicator.announcement rank,
        if rank ∈ communicator.low then communicator.low.length else communicator.high.length,
        if rank ∈ communicator.low then communicator.high.length else communicator.low.length,
        communicator.members.length⟩ := by
  have hlength := length_le_of_nodup h.nodup
  have hsum : communicator.members.length = communicator.low.length + communicator.high.length :=
    length_append
  by_cases hlow : rank ∈ communicator.low
  · by_cases hhigh : communicator.high = []
    · have hzero : highBit 0 = 0 ∧ extractedRemoteSize 0 = 0 := by decide
      have hlt : communicator.low.length < 4294967296 := by omega
      simp [announce, payload, createFinalize, announcement, hlow, hhigh, hzero, hlt, members,
        Nat.mod_succ_eq_iff_lt]
    · have hroots := h.roots hhigh
      have hbit := highBit_encode (show communicator.high.length < 2 ^ 31 by omega) (show 0 < 2 by omega)
      have hextract : extractedRemoteSize (communicator.high.length ||| 0 <<< 31) =
          communicator.high.length := extractedRemoteSize_encode (by omega)
      have hmod : (communicator.low.length + communicator.high.length) % 2 ^ 32 =
          communicator.low.length + communicator.high.length := by
        apply Nat.mod_eq_of_lt
        omega
      simp only [announce, payload, createFinalize, announcement, hlow, hhigh, if_true, if_false,
        gt_iff_lt, Nat.not_lt.mpr hroots.le, hbit, hextract, hmod, hsum]
  · have hin : rank ∈ communicator.high := by
      rcases mem_append.mp hmem with hleft | hright
      · exact absurd hleft hlow
      · exact hright
    have hroots := h.roots (ne_nil_of_mem hin)
    have hbit := highBit_encode (show communicator.low.length < 2 ^ 31 by omega) (show 1 < 2 by omega)
    have hextract : extractedRemoteSize (communicator.low.length ||| 1 <<< 31) =
        communicator.low.length := extractedRemoteSize_encode (by omega)
    have hmod : (communicator.high.length + communicator.low.length) % 2 ^ 32 =
        communicator.low.length + communicator.high.length := by
      rw [Nat.add_comm]
      apply Nat.mod_eq_of_lt
      omega
    simp only [announce, payload, createFinalize, announcement, hlow, if_true, if_false, gt_iff_lt,
      hroots, hbit, hextract, hmod, hsum]

theorem Communicator.announcement_key (communicator : Communicator worldSize) (rank : Fin worldSize) :
    (communicator.announcement rank).globalRootRank = communicator.root ∧
      (communicator.announcement rank).rootId = communicator.id := by
  rw [announcement]
  split_ifs <;> exact ⟨rfl, rfl⟩

end Payloads

section Announcements

variable {worldSize : ℕ}

theorem countP_members {members : List (Fin worldSize)} (hnodup : members.Nodup)
    {counted : Fin worldSize → Bool} (hcounted : ∀ i, counted i = true → i ∈ members) :
    (List.finRange worldSize).countP counted = members.length ↔ ∀ i ∈ members, counted i = true := by
  have hperm : ((List.finRange worldSize).filter counted).Perm (members.filter counted) := by
    apply (perm_ext_iff_of_nodup ((nodup_finRange worldSize).filter _) (hnodup.filter _)).mpr
    intro i
    constructor
    · intro hi
      have hcount := (mem_filter.mp hi).2
      exact mem_filter.mpr ⟨hcounted i hcount, hcount⟩
    · intro hi
      exact mem_filter.mpr ⟨mem_finRange i, (mem_filter.mp hi).2⟩
  rw [countP_eq_length_filter, hperm.length_eq, ← countP_eq_length_filter]
  exact countP_eq_length

theorem foldl_set_getElem? {α : Type} (ranks : List α) (writes : α → Bool) (place : α → ℕ) (value : α → ℕ)
    {found : α} {array : List ℕ} (hlt : place found < array.length)
    (hunique : ∀ i ∈ ranks, writes i = true → place i = place found → i = found)
    (hfound : (found ∈ ranks ∧ writes found = true) ∨ array[place found]? = some (value found)) :
    (ranks.foldl (fun array i => if writes i then array.set (place i) (value i) else array)
      array)[place found]? = some (value found) := by
  induction ranks generalizing array with
  | nil =>
    rcases hfound with ⟨hmem, -⟩ | hhas
    · exact absurd hmem not_mem_nil
    · exact hhas
  | cons i ranks ih =>
    have hrest : ∀ j ∈ ranks, writes j = true → place j = place found → j = found :=
      fun j hj => hunique j (mem_cons_of_mem i hj)
    rw [foldl_cons]
    by_cases hwrites : writes i = true
    · rw [if_pos hwrites]
      have hlt' : place found < (array.set (place i) (value i)).length := by
        rw [length_set]
        exact hlt
      by_cases hplace : place i = place found
      · have heq := hunique i mem_cons_self hwrites hplace
        subst heq
        apply ih hlt' hrest
        exact .inr (getElem?_set_self hlt)
      · apply ih hlt' hrest
        rcases hfound with ⟨hmem, hwrite⟩ | hhas
        · rcases mem_cons.mp hmem with rfl | hmem
          · exact absurd rfl hplace
          · exact .inl ⟨hmem, hwrite⟩
        · right
          rw [getElem?_set_ne hplace]
          exact hhas
    · rw [if_neg hwrites]
      apply ih hlt hrest
      rcases hfound with ⟨hmem, hwrite⟩ | hhas
      · rcases mem_cons.mp hmem with rfl | hmem
        · exact absurd hwrite hwrites
        · exact .inl ⟨hmem, hwrite⟩
      · exact .inr hhas

theorem groupRanks_eq (all : Fin worldSize → Announcement) (announcement : Announcement)
    (ranks : List ℕ × List ℕ) :
    groupRanks all announcement ranks = ((List.finRange worldSize).foldl (fun array i =>
          if sameComm announcement (all i) && decide ((all i).high = 0) then array.set (all i).localRank i
          else array) ranks.1, (List.finRange worldSize).foldl (fun array i =>
          if sameComm announcement (all i) && !decide ((all i).high = 0) then array.set (all i).localRank i
          else array) ranks.2) := by
  rw [groupRanks]
  generalize List.finRange worldSize = all'
  induction all' generalizing ranks with
  | nil => rfl
  | cons i rest ih =>
    rw [foldl_cons, foldl_cons, foldl_cons, ih]
    by_cases hsame : sameComm announcement (all i) = true
    · by_cases hhigh : (all i).high = 0 <;> simp [addRank, hsame, hhigh]
    · simp [addRank, hsame]

theorem length_groupRanks (all : Fin worldSize → Announcement) (announcement : Announcement)
    (ranks : List ℕ × List ℕ) : (groupRanks all announcement ranks).1.length = ranks.1.length ∧
      (groupRanks all announcement ranks).2.length = ranks.2.length := by
  rw [groupRanks]
  generalize List.finRange worldSize = all'
  induction all' generalizing ranks with
  | nil => exact ⟨rfl, rfl⟩
  | cons i rest ih =>
    have hstep := ih (addRank all announcement ranks i)
    rw [foldl_cons, hstep.1, hstep.2, addRank]
    split_ifs <;> simp

theorem take_foldl_set {group : List (Fin worldSize)} (hnodup : group.Nodup)
    (writes : Fin worldSize → Bool) (place : Fin worldSize → ℕ) {array : List ℕ}
    (hlength : array.length = worldSize) (hwrites : ∀ i, writes i = true ↔ i ∈ group)
    (hplace : ∀ i ∈ group, place i = group.idxOf i) :
    ((List.finRange worldSize).foldl (fun array i => if writes i then array.set (place i) i else array)
      array).take group.length = group.map Fin.val := by
  apply ext_getElem?
  intro j
  by_cases hj : j < group.length
  · have hmem : group[j] ∈ group := getElem_mem hj
    have hidx : place group[j] = j := by
      rw [hplace _ hmem]
      exact hnodup.idxOf_getElem j hj
    have hle := length_le_of_nodup hnodup
    have hunique : ∀ i ∈ List.finRange worldSize, writes i = true → place i = place group[j] →
        i = group[j] := by
      intro i _ hi heq
      rw [hplace i ((hwrites i).mp hi), hplace _ hmem] at heq
      exact (idxOf_inj ((hwrites i).mp hi)).mp heq
    have hfold := foldl_set_getElem? (List.finRange worldSize) writes place (fun i => i.val)
      (show place group[j] < array.length by omega) hunique
      (.inl ⟨mem_finRange _, (hwrites _).mpr hmem⟩)
    rw [hidx] at hfold
    rw [getElem?_take_of_lt hj, hfold, getElem?_map, getElem?_eq_getElem hj]
    rfl
  · rw [getElem?_eq_none (by rw [length_take]; omega), getElem?_eq_none (by rw [length_map]; omega)]

theorem groupRanks_members {communicator : Communicator worldSize} (h : communicator.WellFormed)
    {all : Fin worldSize → Announcement} {rank : Fin worldSize}
    (hmember : ∀ i ∈ communicator.members, all i = communicator.announcement i)
    (hsame : ∀ i, sameComm (communicator.announcement rank) (all i) = true → i ∈ communicator.members)
    {ranks : List ℕ × List ℕ} (hlow : ranks.1.length = worldSize) (hhigh : ranks.2.length = worldSize) :
    (groupRanks all (communicator.announcement rank) ranks).1.take communicator.low.length =
        communicator.low.map Fin.val ∧
      (groupRanks all (communicator.announcement rank) ranks).2.take communicator.high.length =
        communicator.high.map Fin.val := by
  have hnodup := nodup_append.mp h.nodup
  have hkey : ∀ i ∈ communicator.members, sameComm (communicator.announcement rank) (all i) = true := by
    intro i hi
    rw [hmember i hi, sameComm, (communicator.announcement_key i).1, (communicator.announcement_key i).2,
      (communicator.announcement_key rank).1, (communicator.announcement_key rank).2]
    simp
  have hnotLow : ∀ i ∈ communicator.high, i ∉ communicator.low :=
    fun i hi hin => hnodup.2.2 i hin i hi rfl
  rw [groupRanks_eq]
  constructor
  · apply take_foldl_set hnodup.1 _ _ hlow
    · intro i
      rw [Bool.and_eq_true, decide_eq_true_iff]
      constructor
      · rintro ⟨hi, hzero⟩
        by_contra hnot
        rw [hmember i (hsame i hi), Communicator.announcement, if_neg hnot] at hzero
        exact absurd hzero one_ne_zero
      · intro hi
        have hin : i ∈ communicator.members := mem_append_left _ hi
        refine ⟨hkey i hin, ?_⟩
        rw [hmember i hin, Communicator.announcement, if_pos hi]
    · intro i hi
      rw [hmember i (mem_append_left _ hi), Communicator.announcement, if_pos hi]
  · apply take_foldl_set hnodup.2.1 _ _ hhigh
    · intro i
      rw [Bool.and_eq_true, Bool.not_eq_true', decide_eq_false_iff_not]
      constructor
      · rintro ⟨hi, hone⟩
        have hin := hsame i hi
        rcases mem_append.mp hin with hl | hr
        · rw [hmember i hin, Communicator.announcement, if_pos hl] at hone
          exact absurd rfl hone
        · exact hr
      · intro hi
        have hin : i ∈ communicator.members := mem_append_right _ hi
        refine ⟨hkey i hin, ?_⟩
        rw [hmember i hin, Communicator.announcement, if_neg (hnotLow i hi)]
        exact one_ne_zero
    · intro i hi
      rw [hmember i (mem_append_right _ hi), Communicator.announcement, if_neg (hnotLow i hi)]

end Announcements

section Agreement

variable {worldSize : ℕ} {Name H : Type}

def ownList (order : List (Communicator worldSize)) (rank : Fin worldSize) : List (Communicator worldSize) :=
  order.filter fun communicator => decide (rank ∈ communicator.members)

/-- All members of a communicator have it in their lists, other communicators have other keys, and
parents come first. Ranks and sizes are an `int`. -/
structure Agreed (order : List (Communicator worldSize))
    (definitions : Fin worldSize → List (InterimCommunicatorDef Name)) : Prop where
  worldSize_lt : worldSize < 2 ^ 31
  keys : (order.map Communicator.key).Nodup
  wellFormed : ∀ communicator ∈ order, communicator.WellFormed
  payloads : ∀ rank, (localInterimCommDefs (definitions rank)).map (fun entry => entry.1.payload) =
    (ownList order rank).map fun communicator => communicator.payload rank
  parents : ∀ rank (place : ℕ) (definition : InterimCommunicatorDef Name),
    (definitions rank)[place]? = some definition → ∀ parent, definition.parent = some parent → parent < place

variable {order : List (Communicator worldSize)}
  {definitions : Fin worldSize → List (InterimCommunicatorDef Name)}

theorem Agreed.nodup (h : Agreed order definitions) : order.Nodup :=
  h.keys.of_map _

theorem Agreed.key_injective (h : Agreed order definitions) {c d : Communicator worldSize}
    (hc : c ∈ order) (hd : d ∈ order) (hkey : c.key = d.key) : c = d :=
  inj_on_of_nodup_map h.keys hc hd hkey

def queue (order : List (Communicator worldSize)) (states : Fin worldSize → LoopState Name H)
    (rank : Fin worldSize) : List (Communicator worldSize) :=
  (ownList order rank).drop (states rank).interimCommDefsProcessed

variable {states : Fin worldSize → LoopState Name H} {rank : Fin worldSize} {c : Communicator worldSize}

theorem mem_of_head_queue (hhead : (queue order states rank).head? = some c) :
    c ∈ order ∧ rank ∈ c.members := by
  have hmem : c ∈ ownList order rank := mem_of_mem_drop (mem_of_head? hhead)
  rw [ownList, mem_filter, decide_eq_true_iff] at hmem
  exact hmem

theorem Agreed.next_eq (h : Agreed order definitions) (states : Fin worldSize → LoopState Name H)
    (rank : Fin worldSize) : @next worldSize _ _ (definitions rank) (states rank) =
      announce worldSize ((queue order states rank).head?.map fun c => c.payload rank) := by
  rw [next, queue, head?_drop, ← getElem?_map, ← getElem?_map, h.payloads rank]

theorem Agreed.allNext_of_head (h : Agreed order definitions)
    (hhead : (queue order states rank).head? = some c) :
    allNext definitions states rank = c.announcement rank := by
  obtain ⟨horder, hmem⟩ := mem_of_head_queue hhead
  rw [allNext, h.next_eq, hhead, Option.map_some,
    (h.wellFormed c horder).announce_payload h.worldSize_lt hmem]

theorem Agreed.allNext_of_nil (h : Agreed order definitions) (hnil : queue order states rank = []) :
    allNext definitions states rank = nothingLeft := by
  rw [allNext, h.next_eq, hnil]
  rfl

theorem root_ne_uint32Max (h : Agreed order definitions) (c : Communicator worldSize) :
    (c.root : ℕ) ≠ uint32Max := by
  have hlt := c.root.isLt
  have hsize := h.worldSize_lt
  rw [uint32Max]
  omega

theorem Agreed.sameComm_iff (h : Agreed order definitions) (hc : c ∈ order) (i : Fin worldSize) :
    sameComm (c.announcement rank) (allNext definitions states i) = true ↔
      (queue order states i).head? = some c := by
  have hkey := c.announcement_key rank
  rw [sameComm, Bool.and_eq_true, decide_eq_true_iff, decide_eq_true_iff, hkey.1, hkey.2]
  cases hqueue : queue order states i with
  | nil =>
    rw [h.allNext_of_nil hqueue]
    have hroot := root_ne_uint32Max h c
    constructor
    · rintro ⟨hsame, -⟩
      exact absurd hsame.symm hroot
    · intro hhead
      cases hhead
  | cons d rest =>
    have hhead : (queue order states i).head? = some d := by rw [hqueue]; rfl
    have hd := (mem_of_head_queue hhead).1
    have hkeyd := d.announcement_key i
    rw [h.allNext_of_head hhead, hkeyd.1, hkeyd.2, head?_cons, Option.some.injEq]
    constructor
    · rintro ⟨hroot, hid⟩
      exact h.key_injective hd hc (Prod.ext (Fin.ext hroot) hid)
    · intro heq
      rw [heq]
      exact ⟨rfl, rfl⟩

theorem Agreed.sameComm_nothing_iff (h : Agreed order definitions) (i : Fin worldSize) :
    sameComm nothingLeft (allNext definitions states i) = true ↔ queue order states i = [] := by
  cases hqueue : queue order states i with
  | nil =>
    rw [h.allNext_of_nil hqueue]
    exact ⟨fun _ => rfl, fun _ => rfl⟩
  | cons d rest =>
    have hhead : (queue order states i).head? = some d := by rw [hqueue]; rfl
    have hkey := d.announcement_key i
    have hroot := root_ne_uint32Max h d
    rw [h.allNext_of_head hhead, sameComm, hkey.1]
    constructor
    · intro hsame
      rw [Bool.and_eq_true, decide_eq_true_iff] at hsame
      exact absurd hsame.1 hroot
    · intro hnil
      cases hnil

def IsMember (c : Communicator worldSize) (rank : Fin worldSize) : Prop :=
  rank ∈ c.members

instance (c : Communicator worldSize) (rank : Fin worldSize) : Decidable (IsMember c rank) :=
  inferInstanceAs (Decidable (rank ∈ c.members))

theorem Agreed.ranksParticipating_iff (h : Agreed order definitions) (hc : c ∈ order) :
    ranksParticipating (allNext definitions states) (c.announcement rank) = c.members.length ↔
      Meetings.Gathered IsMember (queue order states) c := by
  have hcounted : ∀ i, sameComm (c.announcement rank) (allNext definitions states i) = true →
      i ∈ c.members := fun i hi => (mem_of_head_queue ((h.sameComm_iff hc i).mp hi)).2
  have hcount := countP_members (h.wellFormed c hc).nodup hcounted
  rw [ranksParticipating, hcount]
  apply forall_congr'
  intro i
  apply imp_congr_right
  intro _
  exact h.sameComm_iff hc i

theorem Agreed.ranksParticipating_nothing_iff (h : Agreed order definitions) :
    ranksParticipating (allNext definitions states) nothingLeft = worldSize ↔
      ∀ i, queue order states i = [] := by
  have hlength : (List.finRange worldSize).length = worldSize := length_finRange
  rw [ranksParticipating]
  conv_lhs =>
    rhs
    rw [← hlength]
  rw [countP_eq_length]
  constructor
  · intro hall i
    exact (h.sameComm_nothing_iff i).mp (hall i (mem_finRange i))
  · intro hall i _
    exact (h.sameComm_nothing_iff i).mpr (hall i)

end Agreement

end ScoreP.Mpi.Unification
