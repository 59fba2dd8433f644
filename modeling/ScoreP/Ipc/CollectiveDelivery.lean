import Mathlib.Data.BitVec
import ScoreP.Ipc.ShmemCollectives

/-!
# What the collective operations over SHMEM deliver

`Collective.deliver` is what the MPI operation of the same name leaves in the receive buffers. Every call
delivers it (`Collective.Delivers`), but for `SCOREP_IpcGroup_Gather` and `SCOREP_IpcGroup_Allgather` of
one-byte elements: both leave the padding of the blocks in the symmetric buffer and unpack it as if the
blocks followed each other, so that the count must be a multiple of 4 when there are two processing
elements or more (`delivers_iff_exact`).
-/

namespace ScoreP.Ipc

open Foundations.Region Function List Option

variable {β : Type}

/-- The receive buffer of a processing element after the MPI operation: the elements of processing element
`i` start at position `i * count`, or at the sum of the counts before. -/
def Collective.deliver (size : ℕ) (datatype : Datatype) (sendbuf recvbuf : ℕ → ℕ → β) : Collective → ℕ → ℕ → β
  | .bcast count root, pe => write (recvbuf pe) 0 (read (recvbuf root) 0 (count * datatype.sizeof))
  | .gather count root, pe =>
    if pe = root then
      write (recvbuf pe) 0 ((List.range size).flatMap fun i => read (sendbuf i) 0 (count * datatype.sizeof))
    else recvbuf pe
  | .gatherv counts root, pe =>
    if pe = root then
      write (recvbuf pe) 0
        ((List.range size).flatMap fun i => read (sendbuf i) 0 (counts i * datatype.sizeof))
    else recvbuf pe
  | .allgather count, pe =>
    write (recvbuf pe) 0 ((List.range size).flatMap fun i => read (sendbuf i) 0 (count * datatype.sizeof))
  | .scatter count root, pe =>
    write (recvbuf pe) 0 (read (sendbuf root) (pe * count * datatype.sizeof) (count * datatype.sizeof))
  | .scatterv counts root, pe =>
    write (recvbuf pe) 0
      (read (sendbuf root) (displacement counts pe * datatype.sizeof) (counts pe * datatype.sizeof))

def Collective.Delivers [Zero β] (library : Library β) (brokenShmemCollect : Bool) (size : ℕ)
    (datatype : Datatype) (call : Collective) : Prop :=
  ∀ (sendbuf recvbuf : ℕ → ℕ → β) (buffers : ℕ → SymmetricBuffers β) (result : Result β),
    call.perform library brokenShmemCollect size datatype sendbuf recvbuf buffers = some result →
      ∀ pe < size, result.1 pe = call.deliver size datatype sendbuf recvbuf pe

def Collective.Fits [Zero β] (library : Library β) (brokenShmemCollect : Bool) (size : ℕ)
    (datatype : Datatype) (call : Collective) : Prop :=
  ∀ (sendbuf recvbuf : ℕ → ℕ → β) (buffers : ℕ → SymmetricBuffers β),
    call.perform library brokenShmemCollect size datatype sendbuf recvbuf buffers ≠ none

def Collective.Legal (size : ℕ) : Collective → Prop
  | .bcast _ root | .gather _ root | .gatherv _ root | .scatter _ root | .scatterv _ root => root < size
  | .allgather _ => True

def Collective.Exact (size : ℕ) (datatype : Datatype) : Collective → Prop
  | .gather count _ | .allgather count => datatype.isOneByte = true → 4 ∣ count ∨ size ≤ 1
  | .bcast _ _ | .gatherv _ _ | .scatter _ _ | .scatterv _ _ => True

/-! ## Padding -/

def Datatype.padded (datatype : Datatype) (count : ℕ) : ℕ :=
  if datatype.isOneByte then ceil count 4 * 4 else count * datatype.sizeof

theorem le_ceil_mul (count : ℕ) : count ≤ ceil count 4 * 4 := by
  unfold ceil
  split <;> omega

theorem le_padded (datatype : Datatype) (count : ℕ) : count * datatype.sizeof ≤ datatype.padded count := by
  rw [Datatype.padded]
  split
  next h =>
    rw [sizeof_of_isOneByte h, Nat.mul_one]
    exact le_ceil_mul count
  next => exact Nat.le_refl _

theorem padded_eq {datatype : Datatype} {count : ℕ} (h : datatype.isOneByte = true → 4 ∣ count) :
    datatype.padded count = count * datatype.sizeof := by
  rw [Datatype.padded]
  split
  next hone =>
    obtain ⟨words, rfl⟩ := h hone
    rw [sizeof_of_isOneByte hone, ceil]
    split <;> omega
  next => rfl

theorem lt_padded {datatype : Datatype} {count : ℕ} (hone : datatype.isOneByte = true)
    (h : ¬ 4 ∣ count) : count < datatype.padded count := by
  rw [Datatype.padded, if_pos hone, ceil]
  split <;> omega

/-! ## Broadcast -/

theorem bcast_delivers [Zero β] {library : Library β} (hlibrary : library.Specified)
    (brokenShmemCollect : Bool) (size : ℕ) (datatype : Datatype) (count root : ℕ) :
    (Collective.bcast count root).Delivers library brokenShmemCollect size datatype := by
  intro sendbuf recvbuf buffers result h pe _
  rw [Collective.perform, bcast] at h
  obtain ⟨-, h⟩ := ite_none_left_eq_some.mp h
  cases h
  rw [Collective.deliver]
  by_cases hpe : root = pe
  · subst hpe
    simp only [ne_eq, not_true_eq_false, if_false]
    exact write_read.symm
  simp only [ne_eq, hpe, not_false_eq_true, if_true]
  have hpe' : pe ≠ root := fun h => hpe h.symm
  have hle := le_padded datatype count
  have hread : ∀ words, count * datatype.sizeof ≤ words → read (write (buffers pe).symmetricBufferA 0
        (read (memcpy (buffers root).symmetricBufferA 0 (recvbuf root) 0 (count * datatype.sizeof)) 0 words))
        0 (count * datatype.sizeof) = read (recvbuf root) 0 (count * datatype.sizeof) := by
    intro words hwords
    rw [read_write_start (by rwa [length_read]), take_read hwords, memcpy, read_write_read]
  rw [memcpy]
  congr 1
  cases datatype <;>
    simp only [hlibrary.broadcast, if_neg hpe', if_neg hpe, if_true] <;>
    exact hread _ hle

/-! ## Gathering -/

variable {size count : ℕ} {datatype : Datatype} {sendbuf recvbuf : ℕ → ℕ → β}
  {buffers after : ℕ → SymmetricBuffers β} {library : Library β}

theorem gatherBlocks_spec (hlibrary : library.Specified)
    (h : gatherBlocks library size datatype sendbuf buffers count = some after) (pe : ℕ) :
    (after pe).symmetricBufferB = write (buffers pe).symmetricBufferB 0 ((List.range size).flatMap fun i =>
        read (write (buffers i).symmetricBufferA 0 (read (sendbuf i) 0 (count * datatype.sizeof))) 0
          (datatype.padded count)) := by
  rw [gatherBlocks] at h
  obtain ⟨-, h⟩ := ite_none_left_eq_some.mp h
  cases h
  cases datatype <;> apply hlibrary.fcollect

theorem unpackBlocks_eq (recvbuf b : ℕ → β) : unpackBlocks size datatype count recvbuf b =
      write recvbuf 0 (read b 0 (size * (count * datatype.sizeof))) := by
  rw [unpackBlocks]
  split
  next hone =>
    have hinner : ∀ (state : (ℕ → β) × ℕ) (i : ℕ), (List.range count).foldl (fun (state : (ℕ → β) × ℕ) j =>
            (update state.1 state.2 (b (j + i * count)), state.2 + 1)) state =
        (write state.1 state.2 (read b (0 + i * count) count),
          state.2 + (read b (0 + i * count) count).length) := by
      intro state i
      obtain ⟨m, start⟩ := state
      rw [foldl_update, length_read, Foundations.Region.read]
      congr 3
      funext j
      rw [Nat.zero_add, Nat.add_comm]
    simp only [hinner]
    rw [foldl_write, flatMap_read, sizeof_of_isOneByte hone, Nat.mul_one]
  next => rw [memcpy, Nat.mul_assoc]

theorem read_gathered {A : ℕ → ℕ → β} {B : ℕ → β} {bytes padded : ℕ} (hle : bytes ≤ padded)
    (h : padded = bytes ∨ size ≤ 1) : read (write B 0 ((List.range size).flatMap fun i =>
        read (write (A i) 0 (read (sendbuf i) 0 bytes)) 0 padded)) 0 (size * bytes) =
      (List.range size).flatMap fun i => read (sendbuf i) 0 bytes := by
  have hlength : ∀ n, ((List.range size).flatMap fun i =>
      read (write (A i) 0 (read (sendbuf i) 0 bytes)) 0 n).length = size * n := by
    intro n
    rw [length_flatMap_range]
    simp only [length_read]
    exact displacement_const n size
  have hfits : size * bytes ≤ size * padded := Nat.mul_le_mul_left size hle
  rw [read_write_start (by rwa [hlength])]
  cases h with
  | inl hpadded =>
    subst hpadded
    rw [take_of_length_le (by rw [hlength])]
    simp [read_write_read]
  | inr hsize =>
    rcases Nat.le_one_iff_eq_zero_or_eq_one.mp hsize with rfl | rfl
    · simp
    · simp only [range_one, flatMap_singleton, Nat.one_mul]
      rw [take_read hle, read_write_read]

theorem padded_of_exact (h : datatype.isOneByte = true → 4 ∣ count ∨ size ≤ 1) :
    datatype.padded count = count * datatype.sizeof ∨ size ≤ 1 := by
  by_cases hsize : size ≤ 1
  · exact Or.inr hsize
  · exact Or.inl (padded_eq fun hone => (h hone).resolve_right hsize)

theorem unpackBlocks_gathered (hlibrary : library.Specified)
    (h : gatherBlocks library size datatype sendbuf buffers count = some after)
    (hexact : datatype.isOneByte = true → 4 ∣ count ∨ size ≤ 1) (m : ℕ → β) (pe : ℕ) :
    unpackBlocks size datatype count m (after pe).symmetricBufferB =
      write m 0 ((List.range size).flatMap fun i => read (sendbuf i) 0 (count * datatype.sizeof)) := by
  rw [unpackBlocks_eq, gatherBlocks_spec hlibrary h,
    read_gathered (le_padded datatype count) (padded_of_exact hexact)]

theorem gather_delivers [Zero β] (hlibrary : library.Specified) (brokenShmemCollect : Bool) {root : ℕ}
    (hexact : (Collective.gather count root).Exact size datatype) :
    (Collective.gather count root).Delivers library brokenShmemCollect size datatype := by
  intro sendbuf recvbuf buffers result h pe _
  obtain ⟨after, hafter, hresult⟩ := bind_eq_some_iff.mp h
  cases hresult
  simp [Collective.deliver, unpackBlocks_gathered hlibrary hafter hexact]

theorem allgather_delivers [Zero β] (hlibrary : library.Specified) (brokenShmemCollect : Bool)
    (hexact : (Collective.allgather count).Exact size datatype) :
    (Collective.allgather count).Delivers library brokenShmemCollect size datatype := by
  intro sendbuf recvbuf buffers result h pe _
  rw [Collective.perform, allgather] at h
  rw [Collective.deliver]
  split at h
  next hcount =>
    cases h
    subst hcount
    have hnil : ((List.range size).flatMap fun i => read (sendbuf i) 0 (0 * datatype.sizeof)) = [] := by
      rw [flatMap_eq_nil_iff]
      intro i _
      rw [Nat.zero_mul, read_zero]
    rw [hnil, write_nil]
  next =>
    obtain ⟨after, hafter, hresult⟩ := bind_eq_some_iff.mp h
    cases hresult
    exact unpackBlocks_gathered hlibrary hafter hexact (recvbuf pe) pe

theorem unpackv_eq [Zero β] {counts : ℕ → ℕ} (sendcountExtra : ℕ) (recvbuf b : ℕ → β) :
    unpackv size datatype sendcountExtra counts recvbuf b = write recvbuf 0 ((List.range size).flatMap fun i =>
        read b (displacement (fun j => datatype.padded (counts j + sendcountExtra)) i)
          (counts i * datatype.sizeof)) := by
  rw [unpackv]
  split
  next hone =>
    have hinner : ∀ (state : (ℕ → β) × ℕ) (i offset : ℕ), (List.range (counts i)).foldl
          (fun (inner : (ℕ → β) × ℕ) j =>
            (update inner.1 inner.2 (b (j + offset)), inner.2 + 1)) state =
        (write state.1 state.2 (read b offset (counts i)),
          state.2 + (read b offset (counts i)).length) := by
      intro state i offset
      obtain ⟨m, start⟩ := state
      rw [foldl_update, length_read, Foundations.Region.read]
      congr 3
      funext j
      rw [Nat.add_comm]
    simp only [hinner, roundUpTo]
    rw [foldl_displacement (fun i offset (state : (ℕ → β) × ℕ) =>
        (write state.1 state.2 (read b offset (counts i)),
          state.2 + (read b offset (counts i)).length)), foldl_write, sizeof_of_isOneByte hone]
    simp [Datatype.padded, hone]
  next hone =>
    have hstep : ∀ (state : (ℕ → β) × ℕ) (i offset : ℕ),
        (memcpy state.1 state.2 b offset (counts i * datatype.sizeof), state.2 + counts i * datatype.sizeof) =
        (write state.1 state.2 (read b offset (counts i * datatype.sizeof)),
          state.2 + (read b offset (counts i * datatype.sizeof)).length) := by
      intro state i offset
      rw [length_read, memcpy]
    simp only [hstep]
    rw [foldl_displacement (fun i offset (state : (ℕ → β) × ℕ) =>
      (write state.1 state.2 (read b offset (counts i * datatype.sizeof)),
        state.2 + (read b offset (counts i * datatype.sizeof)).length)), foldl_write]
    simp [Datatype.padded, hone]

theorem read_collected (A sendbuf : ℕ → ℕ → β) (B : ℕ → β) (bytes padded : ℕ → ℕ) (padding : List β) {i : ℕ}
    (hi : i < size) (hle : bytes i ≤ padded i) : read (write B 0 ((List.range size).flatMap fun j =>
        read (write (write (A j) 0 (read (sendbuf j) 0 (bytes j))) (bytes j) padding) 0 (padded j)))
        (displacement padded i) (bytes i) = read (sendbuf i) 0 (bytes i) := by
  let block := fun j =>
    read (write (write (A j) 0 (read (sendbuf j) 0 (bytes j))) (bytes j) padding) 0 (padded j)
  have hblock : read (write B 0 ((List.range size).flatMap block))
      (0 + displacement (fun j => (block j).length) i) (bytes i) = (block i).take (bytes i) :=
    read_block hi (by rwa [length_read])
  simp only [block, length_read, Nat.zero_add] at hblock
  have happend : write (write (A i) 0 (read (sendbuf i) 0 (bytes i)))
      (0 + (read (sendbuf i) 0 (bytes i)).length) padding =
        write (A i) 0 (read (sendbuf i) 0 (bytes i) ++ padding) :=
    write_append
  rw [length_read, Nat.zero_add] at happend
  rw [hblock, take_read hle, happend, read_write_start]
  · exact take_left' length_read
  · rw [length_append, length_read]
    exact Nat.le_add_right _ _

theorem flatMap_range_congr {block block' : ℕ → List β} (h : ∀ i < size, block i = block' i) :
    (List.range size).flatMap block = (List.range size).flatMap block' := by
  apply flatMap_congr
  intro i hi
  exact h i (mem_range.mp hi)

theorem gatherv_delivers [Zero β] (hlibrary : library.Specified) (brokenShmemCollect : Bool)
    (counts : ℕ → ℕ) (root : ℕ) :
    (Collective.gatherv counts root).Delivers library brokenShmemCollect size datatype := by
  intro sendbuf recvbuf buffers result h pe _
  rw [Collective.perform, gatherv] at h
  generalize (if brokenShmemCollect then 1 else 0) = sendcountExtra at h
  obtain ⟨-, h⟩ := ite_none_left_eq_some.mp h
  cases h
  rw [Collective.deliver]
  by_cases hpe : pe = root
  · subst hpe
    simp only [if_true]
    rw [unpackv_eq]
    congr 1
    apply flatMap_range_congr
    intro i hi
    have hle : counts i * datatype.sizeof ≤ datatype.padded (counts i + sendcountExtra) := by
      have hextra := Nat.mul_le_mul_right datatype.sizeof (Nat.le_add_right (counts i) sendcountExtra)
      exact Nat.le_trans hextra (le_padded datatype (counts i + sendcountExtra))
    have hcollected := read_collected (fun j => (buffers j).symmetricBufferA) sendbuf
      (buffers pe).symmetricBufferB (fun j => counts j * datatype.sizeof)
      (fun j => datatype.padded (counts j + sendcountExtra))
      (List.replicate (sendcountExtra * datatype.sizeof) 0) hi hle
    rw [← hcollected]
    congr 1
    cases datatype <;> apply hlibrary.collect
  · simp [hpe]

/-! ## Scattering -/

theorem giveBlock_self (root offset bytes : ℕ) (state : (ℕ → β) × (ℕ → SymmetricBuffers β)) :
    giveBlock library sendbuf root root offset bytes state =
      (write state.1 0 (read (sendbuf root) offset bytes), state.2) :=
  if_pos rfl

theorem giveBlock_fst {root receiver : ℕ} (h : receiver ≠ root) (offset bytes : ℕ)
    (state : (ℕ → β) × (ℕ → SymmetricBuffers β)) :
    (giveBlock library sendbuf root receiver offset bytes state).1 = state.1 := by
  rw [giveBlock, if_neg h]

theorem giveBlock_snd (hlibrary : library.Specified) {root receiver : ℕ} (h : receiver ≠ root)
    (offset bytes : ℕ) (state : (ℕ → β) × (ℕ → SymmetricBuffers β)) (pe : ℕ) :
    ((giveBlock library sendbuf root receiver offset bytes state).2 pe).symmetricBufferB =
      if pe = receiver then write (state.2 pe).symmetricBufferB 0 (read (sendbuf root) offset bytes)
      else (state.2 pe).symmetricBufferB := by
  simp only [giveBlock, if_neg h]
  split
  next hpe =>
    subst hpe
    rw [update_self, hlibrary.putmem]
  next hpe => rw [update_of_ne hpe]

theorem foldl_giveBlock (hlibrary : library.Specified) (buffers : ℕ → SymmetricBuffers β) (root : ℕ)
    (offset bytes : ℕ → ℕ) (m : ℕ → β) (rounds : ℕ) :
    let given := (List.range rounds).foldl
      (fun state receiver => giveBlock library sendbuf root receiver (offset receiver) (bytes receiver) state)
      (m, buffers)
    given.1 = (if root < rounds then write m 0 (read (sendbuf root) (offset root) (bytes root)) else m) ∧
    ∀ pe ≠ root, (given.2 pe).symmetricBufferB =
      if pe < rounds then write (buffers pe).symmetricBufferB 0 (read (sendbuf root) (offset pe) (bytes pe))
      else (buffers pe).symmetricBufferB := by
  induction rounds with
  | zero => exact ⟨rfl, fun pe _ => rfl⟩
  | succ rounds ih =>
    obtain ⟨ihroot, ihothers⟩ := ih
    simp only [range_succ, foldl_append, foldl_cons, foldl_nil]
    by_cases hroot : rounds = root
    · subst hroot
      rw [giveBlock_self]
      constructor
      · rw [ihroot, if_neg (Nat.lt_irrefl rounds), if_pos (Nat.lt_succ_self rounds)]
      · intro pe hpe
        rw [ihothers pe hpe]
        have hiff : pe < rounds + 1 ↔ pe < rounds := by omega
        simp only [hiff]
    · constructor
      · rw [giveBlock_fst hroot, ihroot]
        have hiff : root < rounds + 1 ↔ root < rounds := by omega
        simp only [hiff]
      · intro pe hpe
        rw [giveBlock_snd hlibrary hroot, ihothers pe hpe]
        by_cases hlast : pe = rounds
        · subst hlast
          rw [if_pos rfl, if_neg (Nat.lt_irrefl pe), if_pos (Nat.lt_succ_self pe)]
        · have hiff : pe < rounds + 1 ↔ pe < rounds := by omega
          simp [hlast, hiff]

theorem receiveScattered_spec (hlibrary : library.Specified) {root pe : ℕ} (hroot : root < size)
    (hpe : pe < size) (offset counts : ℕ → ℕ) :
    let sent := (List.range size).foldl
      (fun state receiver => giveBlock library sendbuf root receiver (offset receiver)
        (counts receiver * datatype.sizeof) state) (recvbuf root, buffers)
    (receiveScattered datatype recvbuf counts root sent.1 sent.2).1 pe =
      write (recvbuf pe) 0 (read (sendbuf root) (offset pe) (counts pe * datatype.sizeof)) := by
  intro sent
  obtain ⟨hown, hothers⟩ := foldl_giveBlock hlibrary buffers root offset
    (fun receiver => counts receiver * datatype.sizeof) (recvbuf root) size
  rw [receiveScattered]
  by_cases heq : pe = root
  · subst heq
    rw [if_pos hpe] at hown
    simp only [if_true]
    exact hown
  · have hb := hothers pe heq
    rw [if_pos hpe] at hb
    simp only [heq, if_false]
    rw [memcpy, hb, read_write_read]

theorem scatter_delivers [Zero β] (hlibrary : library.Specified) (brokenShmemCollect : Bool) {root : ℕ}
    (hroot : root < size) :
    (Collective.scatter count root).Delivers library brokenShmemCollect size datatype := by
  intro sendbuf recvbuf buffers result h pe hpe
  rw [Collective.perform, scatter] at h
  obtain ⟨-, h⟩ := ite_none_left_eq_some.mp h
  cases h
  exact receiveScattered_spec hlibrary hroot hpe (fun receiver => receiver * count * datatype.sizeof)
    (fun _ => count)

theorem scatterv_delivers [Zero β] (hlibrary : library.Specified) (brokenShmemCollect : Bool) {root : ℕ}
    (hroot : root < size) (counts : ℕ → ℕ) :
    (Collective.scatterv counts root).Delivers library brokenShmemCollect size datatype := by
  intro sendbuf recvbuf buffers result h pe hpe
  rw [Collective.perform, scatterv] at h
  obtain ⟨-, h⟩ := ite_none_left_eq_some.mp h
  cases h
  rw [foldl_displacement (fun receiver total (state : (ℕ → β) × (ℕ → SymmetricBuffers β)) =>
    giveBlock library sendbuf root receiver (total * datatype.sizeof) (counts receiver * datatype.sizeof) state)]
  exact receiveScattered_spec hlibrary hroot hpe
    (fun receiver => displacement counts receiver * datatype.sizeof) counts

/-! ## Padding that is unpacked -/

theorem flatMap_range_two (block : ℕ → List β) (hsize : 1 < size) :
    ∃ rest, (List.range size).flatMap block = block 0 ++ (block 1 ++ rest) := by
  obtain ⟨others, rfl⟩ := Nat.exists_eq_add_of_le hsize
  apply Exists.intro (((List.range others).map (Nat.succ 1 + ·)).flatMap block)
  rw [range_add, flatMap_append, range_succ, range_one]
  simp

theorem unpackBlocks_padding (hlibrary : library.Specified) {x y : β} (hxy : x ≠ y)
    (h : gatherBlocks library size datatype (fun _ _ => y) (fun _ => ⟨fun _ => x, fun _ => x⟩) count =
      some after)
    (hone : datatype.isOneByte = true) (hcount : ¬ 4 ∣ count) (hsize : 1 < size) (m : ℕ → β) (pe : ℕ) :
    unpackBlocks size datatype count m (after pe).symmetricBufferB ≠
      write m 0 ((List.range size).flatMap fun _ => read (fun _ => y) 0 (count * datatype.sizeof)) := by
  intro heq
  have hpos : 0 < count := Nat.pos_of_ne_zero fun hzero => hcount (hzero ▸ Nat.dvd_zero 4)
  have hinside : count < size * count := by
    calc count = 1 * count := (Nat.one_mul count).symm
      _ < size * count := Nat.mul_lt_mul_of_pos_right hsize hpos
  have hpadded := lt_padded hone hcount
  have hcell := congrFun heq count
  rw [unpackBlocks_eq, gatherBlocks_spec hlibrary h, sizeof_of_isOneByte hone, Nat.mul_one] at hcell
  -- the cell behind the block of the first processing element is its padding
  obtain ⟨rest, hrest⟩ := flatMap_range_two (fun _ : ℕ =>
    read (write (fun _ => x) 0 (read (fun _ => y) 0 count)) 0 (datatype.padded count)) hsize
  rw [hrest, write_zero_apply, getElem?_read hinside, getD_some, Nat.zero_add, write_zero_apply,
    getElem?_append_left (by rwa [length_read]), getElem?_read hpadded, getD_some, Nat.zero_add,
    write_zero_apply, getElem?_eq_none (by rw [length_read]), getD_none] at hcell
  -- and not the first element of the second
  obtain ⟨rest', hrest'⟩ := flatMap_range_two (fun _ : ℕ => read (fun _ => y) 0 count) hsize
  rw [hrest', write_zero_apply, getElem?_append_right (by rw [length_read]), length_read, Nat.sub_self,
    getElem?_append_left (by rwa [length_read]), getElem?_read hpos, getD_some] at hcell
  exact hxy hcell

theorem exact_of_delivers [Zero β] [Nontrivial β] (hlibrary : library.Specified)
    (brokenShmemCollect : Bool) {call : Collective} (hlegal : call.Legal size)
    (hfits : call.Fits library brokenShmemCollect size datatype)
    (h : call.Delivers library brokenShmemCollect size datatype) : call.Exact size datatype := by
  obtain ⟨x, y, hxy⟩ := exists_pair_ne β
  have hresult := hfits (fun _ _ => y) (fun _ _ => x) (fun _ => ⟨fun _ => x, fun _ => x⟩)
  obtain ⟨result, hresult⟩ := ne_none_iff_exists'.mp hresult
  have hdelivers := h _ _ _ result hresult
  cases call with
  | bcast _ _ => trivial
  | gatherv _ _ => trivial
  | scatter _ _ => trivial
  | scatterv _ _ => trivial
  | gather count root =>
    intro hone
    by_contra hnot
    rw [not_or, Nat.not_le] at hnot
    obtain ⟨after, hafter, hreturn⟩ := bind_eq_some_iff.mp hresult
    cases hreturn
    have hroot := hdelivers root hlegal
    simp only [Collective.deliver, if_true] at hroot
    exact unpackBlocks_padding hlibrary hxy hafter hone hnot.1 hnot.2 _ root hroot
  | allgather count =>
    intro hone
    by_contra hnot
    rw [not_or, Nat.not_le] at hnot
    have hcount : count ≠ 0 := fun hzero => hnot.1 (hzero ▸ Nat.dvd_zero 4)
    rw [Collective.perform, allgather, if_neg hcount] at hresult
    obtain ⟨after, hafter, hreturn⟩ := bind_eq_some_iff.mp hresult
    cases hreturn
    exact unpackBlocks_padding hlibrary hxy hafter hone hnot.1 hnot.2 _ 0
      (hdelivers 0 (Nat.zero_lt_of_lt hnot.2))

/-- A call delivers what MPI delivers, whatever the buffers hold, exactly when no padding lies between the
blocks of a gather. -/
theorem delivers_iff_exact [Zero β] [Nontrivial β] (hlibrary : library.Specified)
    (brokenShmemCollect : Bool) (size : ℕ) (datatype : Datatype) (call : Collective)
    (hlegal : call.Legal size) (hfits : call.Fits library brokenShmemCollect size datatype) :
    call.Delivers library brokenShmemCollect size datatype ↔ call.Exact size datatype := by
  constructor
  · exact exact_of_delivers hlibrary brokenShmemCollect hlegal hfits
  · intro hexact
    cases call with
    | bcast count root => exact bcast_delivers hlibrary brokenShmemCollect size datatype count root
    | gather count root => exact gather_delivers hlibrary brokenShmemCollect hexact
    | gatherv counts root => exact gatherv_delivers hlibrary brokenShmemCollect counts root
    | allgather count => exact allgather_delivers hlibrary brokenShmemCollect hexact
    | scatter count root => exact scatter_delivers hlibrary brokenShmemCollect hlegal
    | scatterv counts root => exact scatterv_delivers hlibrary brokenShmemCollect hlegal counts

def documentedLibrary (β : Type) : Library β where
  putmem target source sourceOffset len := write target 0 (read source sourceOffset len)
  broadcast wordSize nelems root _ target source pe :=
    if pe = root then target pe else write (target pe) 0 (read (source root) 0 (nelems * wordSize))
  fcollect wordSize nelems size target source pe :=
    write (target pe) 0 ((List.range size).flatMap fun i => read (source i) 0 (nelems * wordSize))
  collect wordSize nelems size target source pe :=
    write (target pe) 0 ((List.range size).flatMap fun i => read (source i) 0 (nelems i * wordSize))

theorem documentedLibrary_specified (β : Type) : (documentedLibrary β).Specified where
  putmem _ _ _ _ := rfl
  broadcast _ _ _ _ _ _ _ := rfl
  fcollect _ _ _ _ _ _ := rfl
  collect _ _ _ _ _ _ := rfl

theorem delivers_iff_exact_words :
    (Collective.gather 8 1).Delivers (documentedLibrary (BitVec 8)) false 3 .byte ↔
      (Collective.gather 8 1).Exact 3 .byte :=
  have : Nontrivial (BitVec 8) := ⟨0, 1, by decide⟩
  delivers_iff_exact (documentedLibrary_specified (BitVec 8)) false 3 .byte (.gather 8 1)
    (by decide : 1 < 3)
    (fun _ _ _ h => nomatch h)

/-- Two processing elements gather one byte each: the second byte is lost. -/
theorem not_delivers_byte :
    ¬ ∀ (library : Library (BitVec 8)) (size : ℕ) (datatype : Datatype) (call : Collective),
      library.Specified → call.Legal size → call.Fits library false size datatype →
        call.Delivers library false size datatype := by
  intro h
  have hgather := h (documentedLibrary (BitVec 8)) 2 .byte (.gather 1 0)
    (documentedLibrary_specified (BitVec 8)) Nat.two_pos (fun _ _ _ h => nomatch h)
    (fun pe _ => BitVec.ofNat 8 pe) (fun _ _ => 0) (fun _ => ⟨fun _ => 0, fun _ => 0⟩) _ rfl 0 Nat.two_pos
  have hcell := congrFun hgather 1
  exact absurd hcell (by decide)

end ScoreP.Ipc
