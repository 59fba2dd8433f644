import ScoreP.Mpi.CollBalance
import ScoreP.Mpi.CollCounts

/-!
# When the byte counts are exact

`Fits` lists the products that a function forms in `COUNT_T`. A function is defined if they all fit, and its
results are the residues of exact numbers then (`bytes_computes`). Below `2 ^ 63` the residues are the exact
numbers, except where counts were narrowed on the way (`exact_bytes_iff`).
-/

namespace ScoreP.Mpi.Coll.Counts

open Foundations

/-! ## The products of a call -/

section

variable {Datatype : Type} (t : CountType) (typeSize : Datatype → ℤ)

def AllToOneFits (sendcount : ℤ) (sendtype : Datatype) (recvcount : ℤ) (recvtype : Datatype)
    (root : Root) (comm : Comm) : Prop :=
  if isIntracomm comm then
    if .rank comm.rank = root then t.Represents (recvcount * typeSize recvtype)
    else t.Represents (sendcount * typeSize sendtype)
  else if root = .mpiRoot then t.Represents₃ comm.remoteSize recvcount (typeSize recvtype)
  else root ≠ .procNull → t.Represents₃ 1 sendcount (typeSize sendtype)

/-- The blocks of the first `n` ranks. -/
def BlocksFit (n : ℕ) (counts : ℕ → ℤ) (types : ℕ → Datatype) : Prop :=
  ∀ rank < n, t.Represents (counts rank * typeSize (types rank))

def GathervFits (sendcount : ℤ) (sendtype : Datatype) (recvcounts : ℕ → ℤ) (recvtype : Datatype)
    (root : Root) (comm : Comm) : Prop :=
  if isIntracomm comm then
    if .rank comm.rank = root then
      BlocksFit t typeSize comm.size recvcounts (fun _ => recvtype) ∧
        t.Represents (recvcounts comm.rank * typeSize recvtype)
    else t.Represents (sendcount * typeSize sendtype)
  else if root = .mpiRoot then
    BlocksFit t typeSize comm.remoteSize recvcounts fun _ => recvtype
  else root ≠ .procNull → t.Represents₃ 1 sendcount (typeSize sendtype)

def AlltoallFits (sendcount : ℤ) (sendtype : Datatype) (recvcount : ℤ) (recvtype : Datatype)
    (inplace : Bool) (comm : Comm) : Prop :=
  if inplace then t.Represents₃ (numPeers comm - 1) recvcount (typeSize recvtype)
  else t.Represents₃ (numPeers comm) sendcount (typeSize sendtype) ∧
    t.Represents₃ (numPeers comm) recvcount (typeSize recvtype)

def AlltoallwFits (sendcounts : ℕ → ℤ) (sendtypes : ℕ → Datatype) (recvcounts : ℕ → ℤ)
    (recvtypes : ℕ → Datatype) (inplace : Bool) (comm : Comm) : Prop :=
  BlocksFit t typeSize (numPeers comm) recvcounts recvtypes ∧
    if inplace then t.Represents (recvcounts comm.rank * typeSize (recvtypes comm.rank))
    else BlocksFit t typeSize (numPeers comm) sendcounts sendtypes

def NeighborAlltoallFits (sendcount : ℤ) (sendtype : Datatype) (recvcount : ℤ) (recvtype : Datatype)
    (topology : Topology) : Prop :=
  t.Represents₃ (numNeighbors topology).2 sendcount (typeSize sendtype) ∧
    t.Represents₃ (numNeighbors topology).1 recvcount (typeSize recvtype)

def BlocksFitAt (counts : ℕ → ℤ) (types : ℕ → Datatype) (indices : List ℕ) : Prop :=
  ∀ i ∈ indices, t.Represents (counts i * typeSize (types i))

end

def neighborIndices : Topology → List ℕ × List ℕ
  | .cart neighborRanks =>
    let indices := (cartNeighbors 0 neighborRanks).map Prod.snd
    (indices, indices)
  | topology => (List.range (topoNumNeighbors topology).1, List.range (topoNumNeighbors topology).2)

/-- `COUNT_T` represents every product that is formed in it. -/
def Fits {Datatype : Type} (t : CountType) (typeSize : Datatype → ℤ) (mpiUndefined : ℤ) (comm : Comm) :
    Call Datatype → Prop
  | .barrier => True
  | .gather sendcount sendtype recvcount recvtype root _ =>
    AllToOneFits t typeSize sendcount sendtype recvcount recvtype root comm
  | .reduce count datatype root _ => AllToOneFits t typeSize count datatype count datatype root comm
  | .gatherv sendcount sendtype recvcounts recvtype root _ =>
    GathervFits t typeSize sendcount sendtype recvcounts recvtype root comm
  | .bcast count datatype root => AllToOneFits t typeSize count datatype count datatype root comm
  | .scatter sendcount sendtype recvcount recvtype root _ =>
    AllToOneFits t typeSize recvcount recvtype sendcount sendtype root comm
  | .scatterv sendcounts sendtype recvcount recvtype root _ =>
    GathervFits t typeSize recvcount recvtype sendcounts sendtype root comm
  | .alltoall sendcount sendtype recvcount recvtype inplace =>
    AlltoallFits t typeSize sendcount sendtype recvcount recvtype inplace comm
  | .alltoallv sendcounts sendtype recvcounts recvtype inplace =>
    AlltoallwFits t typeSize sendcounts (fun _ => sendtype) recvcounts (fun _ => recvtype) inplace comm
  | .alltoallw sendcounts sendtypes recvcounts recvtypes inplace =>
    AlltoallwFits t typeSize sendcounts sendtypes recvcounts recvtypes inplace comm
  | .allgather sendcount sendtype recvcount recvtype inplace =>
    AlltoallFits t typeSize sendcount sendtype recvcount recvtype inplace comm
  | .allgatherv sendcount sendtype recvcounts recvtype inplace =>
    BlocksFit t typeSize (numPeers comm) recvcounts (fun _ => recvtype) ∧
      if inplace then
        t.Represents (recvcounts comm.rank * typeSize recvtype) ∧
          t.Represents ((numPeers comm - 1) * (recvcounts comm.rank * typeSize recvtype))
      else t.Represents (sendcount * typeSize sendtype) ∧
        t.Represents (numPeers comm * (sendcount * typeSize sendtype))
  | .allreduce count datatype inplace =>
    AlltoallFits t typeSize count datatype count datatype inplace comm
  | .reduceScatterBlock recvcount datatype inplace =>
    t.Represents₃ (if inplace then comm.size - 1 else comm.size) recvcount (typeSize datatype)
  | .reduceScatter recvcounts datatype inplace =>
    t.Represents₃ (if isIntracomm comm then if inplace then comm.size - 1 else comm.size
      else comm.remoteSize) (recvcounts comm.rank) (typeSize datatype)
  | .scan count datatype _ => t.Represents (count * typeSize datatype)
  | .exscan count datatype => t.Represents (count * typeSize datatype)
  | .neighborAlltoall sendcount sendtype recvcount recvtype =>
    NeighborAlltoallFits t typeSize sendcount sendtype recvcount recvtype comm.topology
  | .neighborAlltoallv sendcounts sendtype recvcounts recvtype =>
    BlocksFitAt t typeSize sendcounts (fun _ => sendtype) (neighborIndices comm.topology).2 ∧
      BlocksFitAt t typeSize recvcounts (fun _ => recvtype) (neighborIndices comm.topology).1
  | .neighborAlltoallw sendcounts sendtypes recvcounts recvtypes =>
    BlocksFitAt t typeSize sendcounts sendtypes (neighborIndices comm.topology).2 ∧
      BlocksFitAt t typeSize recvcounts recvtypes (neighborIndices comm.topology).1
  | .neighborAllgather sendcount sendtype recvcount recvtype =>
    NeighborAlltoallFits .int (intTypeSize typeSize mpiUndefined) (narrow sendcount) sendtype
      (narrow recvcount) recvtype comm.topology
  | .neighborAllgatherv sendcount sendtype recvcounts recvtype =>
    (match comm.topology with
      | .cart _ => BlocksFitAt t typeSize (fun _ => sendcount) (fun _ => sendtype)
          (neighborIndices comm.topology).2
      | topology => t.Represents₃ (topoNumNeighbors topology).2 sendcount (typeSize sendtype)) ∧
      BlocksFitAt t typeSize recvcounts (fun _ => recvtype) (neighborIndices comm.topology).1

def computed {Datatype : Type} (typeSize : Datatype → ℤ) (mpiUndefined : ℤ) (comm : Comm) :
    Call Datatype → Coll.Bytes
  | .neighborAllgather sendcount sendtype recvcount recvtype =>
    Coll.neighborAlltoall (intTypeSize typeSize mpiUndefined) (narrow sendcount) sendtype
      (narrow recvcount) recvtype comm
  | call => Coll.bytes typeSize comm call

/-! ## Arithmetic -/

theorem word_add (a b : ℤ) : word (a + b) = word a + word b :=
  BitVec.ofInt_add a b

theorem word_mul (a b : ℤ) : word (a * b) = word a * word b :=
  BitVec.ofInt_mul a b

theorem word_sub (a b : ℤ) : word (a - b) = word a - word b := by
  rw [sub_eq_add_neg, word_add, sub_eq_add_neg]
  exact congrArg _ BitVec.ofInt_neg

def words (bytes : Coll.Bytes) : Words :=
  ⟨word bytes.sendbytes, word bytes.recvbytes⟩

section

variable {Datatype : Type} {t : CountType}

theorem product_computes (a b : ℤ) : Computes (t.product a b) (t.Represents (a * b)) (a * b) :=
  Computes.ite _

theorem product₃_computes (a b c : ℤ) : Computes (t.product₃ a b c) (t.Represents₃ a b c) (a * b * c) :=
  (product_computes a b).bind (product_computes (a * b) c)

theorem addUp_computes {amount : ℕ → Option ℤ} {p : ℕ → Prop} {f : ℕ → ℤ}
    (h : ∀ rank, Computes (amount rank) (p rank) (f rank)) (n : ℕ) :
    Computes (addUp n amount) (∀ rank < n, p rank) (word (Coll.addUp n f)) := by
  have hround : ∀ (total : BitVec 64) (rank : ℕ), Computes
      (do return total + word (← amount rank)) (p rank) (total + word (f rank)) := by
    intro total rank
    exact (h rank).map fun v => total + word v
  have hloop := Computes.foldlM hround (List.range n) 0
  refine hloop.congr (by simp) ?_
  have htotal : ∀ (l : List ℕ) (total : ℤ), l.foldl (fun total rank => total + word (f rank)) (word total) =
        word (l.foldl (fun total rank => total + f rank) total) := by
    intro l
    induction l with
    | nil => exact fun _ => rfl
    | cons rank l ih =>
      intro total
      rw [List.foldl_cons, List.foldl_cons, ← word_add, ih]
  exact htotal (List.range n) 0

variable (typeSize : Datatype → ℤ) (sendcount : ℤ) (sendtype : Datatype) (recvcount : ℤ)
  (recvtype : Datatype) (sendcounts : ℕ → ℤ) (sendtypes : ℕ → Datatype) (recvcounts : ℕ → ℤ)
  (recvtypes : ℕ → Datatype) (root : Root) (inplace : Bool) (comm : Comm)

theorem blocks_computes (counts : ℕ → ℤ) (types : ℕ → Datatype) (n : ℕ) :
    Computes (addUp n fun rank => t.product (counts rank) (typeSize (types rank)))
      (BlocksFit t typeSize n counts types)
      (word (Coll.addUp n fun rank => counts rank * typeSize (types rank))) :=
  addUp_computes (fun rank => product_computes (counts rank) (typeSize (types rank))) n

theorem allToOne_computes :
    Computes (allToOne t typeSize sendcount sendtype recvcount recvtype root inplace comm)
      (AllToOneFits t typeSize sendcount sendtype recvcount recvtype root comm)
      (words (Coll.allToOne typeSize sendcount sendtype recvcount recvtype root inplace comm)) := by
  unfold allToOne AllToOneFits Coll.allToOne
  by_cases hintra : isIntracomm comm = true
  · simp only [if_pos hintra]
    by_cases hroot : Root.rank comm.rank = root
    · simp only [if_pos hroot]
      have hblock := product_computes (t := t) recvcount (typeSize recvtype)
      cases inplace with
      | true => exact (hblock.map _).congr Iff.rfl (by simp [words, word_mul]; rfl)
      | false => exact (hblock.map _).congr Iff.rfl (by simp [words, word_mul])
    · simp only [if_neg hroot]
      exact ((product_computes sendcount (typeSize sendtype)).map _).congr Iff.rfl rfl
  · simp only [if_neg hintra]
    by_cases hroot : root = .mpiRoot
    · simp only [if_pos hroot]
      exact ((product₃_computes comm.remoteSize recvcount (typeSize recvtype)).map _).congr Iff.rfl rfl
    · simp only [if_neg hroot]
      by_cases hnull : root = .procNull
      · subst hnull
        exact (Computes.value _).congr (by simp) rfl
      · simp only [ne_eq, hnull, not_false_eq_true, if_true, forall_const]
        exact ((product₃_computes 1 sendcount (typeSize sendtype)).map _).congr Iff.rfl rfl

theorem gatherv_computes :
    Computes (gatherv t typeSize sendcount sendtype recvcounts recvtype root inplace comm)
      (GathervFits t typeSize sendcount sendtype recvcounts recvtype root comm)
      (words (Coll.gatherv typeSize sendcount sendtype recvcounts recvtype root inplace comm)) := by
  unfold gatherv GathervFits Coll.gatherv
  by_cases hintra : isIntracomm comm = true
  · simp only [if_pos hintra]
    by_cases hroot : Root.rank comm.rank = root
    · simp only [if_pos hroot]
      have hblocks := blocks_computes (t := t) typeSize recvcounts (fun _ => recvtype) comm.size
      have hown := product_computes (t := t) (recvcounts comm.rank) (typeSize recvtype)
      cases inplace with
      | true => exact (hblocks.map₂ hown _).congr Iff.rfl (by simp [words, word_sub]; rfl)
      | false => exact (hblocks.map₂ hown _).congr Iff.rfl rfl
    · simp only [if_neg hroot]
      exact ((product_computes sendcount (typeSize sendtype)).map _).congr Iff.rfl rfl
  · simp only [if_neg hintra]
    by_cases hroot : root = .mpiRoot
    · simp only [if_pos hroot]
      exact ((blocks_computes typeSize recvcounts (fun _ => recvtype) comm.remoteSize).map _).congr
        Iff.rfl rfl
    · simp only [if_neg hroot]
      by_cases hnull : root = .procNull
      · subst hnull
        exact (Computes.value _).congr (by simp) rfl
      · simp only [ne_eq, hnull, not_false_eq_true, if_true, forall_const]
        exact ((product₃_computes 1 sendcount (typeSize sendtype)).map _).congr Iff.rfl rfl

theorem alltoall_computes : Computes (alltoall t typeSize sendcount sendtype recvcount recvtype inplace comm)
      (AlltoallFits t typeSize sendcount sendtype recvcount recvtype inplace comm)
      (words (Coll.alltoall typeSize sendcount sendtype recvcount recvtype inplace comm)) := by
  cases inplace with
  | true => exact (product₃_computes (numPeers comm - 1) recvcount (typeSize recvtype)).map _
  | false =>
    exact (product₃_computes (numPeers comm) sendcount (typeSize sendtype)).map₂
      (product₃_computes (numPeers comm) recvcount (typeSize recvtype)) _

theorem alltoallw_computes :
    Computes (alltoallw t typeSize sendcounts sendtypes recvcounts recvtypes inplace comm)
      (AlltoallwFits t typeSize sendcounts sendtypes recvcounts recvtypes inplace comm)
      (words (Coll.alltoallw typeSize sendcounts sendtypes recvcounts recvtypes inplace comm)) := by
  have hreceived := blocks_computes (t := t) typeSize recvcounts recvtypes (numPeers comm)
  have hsent := blocks_computes (t := t) typeSize sendcounts sendtypes (numPeers comm)
  have hown := product_computes (t := t) (recvcounts comm.rank) (typeSize (recvtypes comm.rank))
  cases inplace with
  | true =>
    refine (hreceived.map₂ hown fun received own =>
      (⟨received - word own, received - word own⟩ : Words)).congr (by simp [AlltoallwFits]) ?_
    simp [words, Coll.alltoallw, word_sub]
  | false =>
    refine (hsent.map₂ hreceived Words.mk).congr ?_ rfl
    simp [AlltoallwFits, and_comm]

theorem allgatherv_computes :
    Computes (allgatherv t typeSize sendcount sendtype recvcounts recvtype inplace comm)
      (Fits t typeSize 0 comm (.allgatherv sendcount sendtype recvcounts recvtype inplace))
      (words (Coll.allgatherv typeSize sendcount sendtype recvcounts recvtype inplace comm)) := by
  have hreceived := blocks_computes (t := t) typeSize recvcounts (fun _ => recvtype) (numPeers comm)
  cases inplace with
  | true =>
    have hown := product_computes (t := t) (recvcounts comm.rank) (typeSize recvtype)
    have hsent := product_computes (t := t) (numPeers comm - 1) (recvcounts comm.rank * typeSize recvtype)
    refine (hreceived.bind (hown.bind (hsent.map _))).congr (by simp [Fits]) ?_
    simp [words, Coll.allgatherv, word_sub]
  | false =>
    have hblock := product_computes (t := t) sendcount (typeSize sendtype)
    have hsent := product_computes (t := t) (numPeers comm) (sendcount * typeSize sendtype)
    refine (hreceived.bind (hblock.bind (hsent.map _))).congr (by simp [Fits]) ?_
    rfl

theorem reduceScatterBlock_computes (datatype : Datatype) :
    Computes (reduceScatterBlock t typeSize recvcount datatype inplace comm)
      (Fits t typeSize 0 comm (.reduceScatterBlock recvcount datatype inplace))
      (words (Coll.reduceScatterBlock typeSize recvcount datatype inplace comm)) := by
  cases inplace with
  | true => exact (product₃_computes (comm.size - 1) recvcount (typeSize datatype)).map _
  | false => exact (product₃_computes comm.size recvcount (typeSize datatype)).map _

theorem reduceScatter_computes (datatype : Datatype) :
    Computes (reduceScatter t typeSize recvcounts datatype inplace comm)
      (Fits t typeSize 0 comm (.reduceScatter recvcounts datatype inplace))
      (words (Coll.reduceScatter typeSize recvcounts datatype inplace comm)) := by
  have hsent : Computes (addUp comm.size fun rank => some (recvcounts rank)) True
      (word (Coll.addUp comm.size recvcounts)) :=
    (addUp_computes (fun rank => Computes.value (recvcounts rank)) comm.size).congr (by simp) rfl
  unfold reduceScatter Fits Coll.reduceScatter
  by_cases hintra : isIntracomm comm = true
  · simp only [if_pos hintra]
    cases inplace with
    | true =>
      have hreceived := product₃_computes (t := t) (comm.size - 1) (recvcounts comm.rank)
        (typeSize datatype)
      refine (hsent.map₂ hreceived fun sendcount received => (⟨(sendcount -
        word (recvcounts comm.rank)) * word (typeSize datatype), word received⟩ : Words)).congr (by simp) ?_
      simp [words, word_mul, word_sub]
    | false =>
      have hreceived := product₃_computes (t := t) comm.size (recvcounts comm.rank) (typeSize datatype)
      refine (hsent.map₂ hreceived fun sendcount received =>
        (⟨sendcount * word (typeSize datatype), word received⟩ : Words)).congr (by simp) ?_
      simp [words, word_mul]
  · simp only [if_neg hintra]
    have hreceived := product₃_computes (t := t) comm.remoteSize (recvcounts comm.rank) (typeSize datatype)
    refine (hsent.map₂ hreceived fun sendcount received =>
      (⟨sendcount * word (typeSize datatype), word received⟩ : Words)).congr (by simp) ?_
    simp [words, word_mul]

theorem scan_computes (datatype : Datatype) : Computes (scan t typeSize sendcount datatype inplace comm)
      (t.Represents (sendcount * typeSize datatype))
      (words (Coll.scan typeSize sendcount datatype inplace comm)) := by
  have hblock := product_computes (t := t) sendcount (typeSize datatype)
  cases inplace with
  | true => exact (hblock.map _).congr Iff.rfl (by simp [words, Coll.scan, word_mul])
  | false => exact (hblock.map _).congr Iff.rfl (by simp [words, Coll.scan, word_mul])

/-! ## Neighborhoods -/

theorem neighborAlltoall_bytes : Coll.neighborAlltoall typeSize sendcount sendtype recvcount recvtype comm =
      ⟨(numNeighbors comm.topology).2 * sendcount * typeSize sendtype,
        (numNeighbors comm.topology).1 * recvcount * typeSize recvtype⟩ := by
  unfold Coll.neighborAlltoall
  cases comm.topology <;> rfl

theorem neighborAlltoall_computes :
    Computes (neighborAlltoall t typeSize sendcount sendtype recvcount recvtype comm)
      (NeighborAlltoallFits t typeSize sendcount sendtype recvcount recvtype comm.topology)
      (words (Coll.neighborAlltoall typeSize sendcount sendtype recvcount recvtype comm)) := by
  have hsent := product₃_computes (t := t) (numNeighbors comm.topology).2 sendcount (typeSize sendtype)
  have hreceived := product₃_computes (t := t) (numNeighbors comm.topology).1 recvcount (typeSize recvtype)
  refine (hsent.map₂ hreceived fun sent received => (⟨word sent, word received⟩ : Words)).congr Iff.rfl ?_
  rw [neighborAlltoall_bytes]
  rfl

theorem cartAddUp_computes {sent received : ℕ → Option ℤ} {p q : ℕ → Prop} {f g : ℕ → ℤ}
    (hsent : ∀ i, Computes (sent i) (p i) (f i)) (hreceived : ∀ i, Computes (received i) (q i) (g i))
    (neighborRanks : List (Option ℕ × Option ℕ)) : Computes (cartAddUp sent received neighborRanks)
      ((∀ i ∈ (cartNeighbors 0 neighborRanks).map Prod.snd, p i) ∧
        ∀ i ∈ (cartNeighbors 0 neighborRanks).map Prod.snd, q i)
      (words (cartIter (fun bytes index => ⟨bytes.sendbytes + f index, bytes.recvbytes + g index⟩)
        0 neighborRanks ⟨0, 0⟩)) := by
  rw [cartAddUp, cartIter_eq, cartIter_eq]
  have hround : ∀ (total : Words) (neighbor : ℕ × ℕ), Computes
      ((sent neighbor.2).bind fun a => (received neighbor.2).bind fun b =>
        some (⟨total.sendbytes + word a, total.recvbytes + word b⟩ : Words))
      (p neighbor.2 ∧ q neighbor.2)
      ⟨total.sendbytes + word (f neighbor.2), total.recvbytes + word (g neighbor.2)⟩ :=
    fun total neighbor => (hsent neighbor.2).map₂ (hreceived neighbor.2) fun a b =>
      (⟨total.sendbytes + word a, total.recvbytes + word b⟩ : Words)
  have hloop := Computes.foldl_bind hround (cartNeighbors 0 neighborRanks) (Computes.value (⟨0, 0⟩ : Words))
  refine hloop.congr ?_ ?_
  · simp only [true_and, List.forall_mem_map]
    exact ⟨fun h => ⟨fun i hi => (h i hi).1, fun i hi => (h i hi).2⟩, fun h i hi => ⟨h.1 i hi, h.2 i hi⟩⟩
  · have htotal : ∀ (l : List (ℕ × ℕ)) (bytes : Coll.Bytes),
        l.foldl (fun total neighbor => (⟨total.sendbytes + word (f neighbor.2),
          total.recvbytes + word (g neighbor.2)⟩ : Words)) (words bytes) =
        words (l.foldl (fun bytes neighbor => ⟨bytes.sendbytes + f neighbor.2,
          bytes.recvbytes + g neighbor.2⟩) bytes) := by
      intro l
      induction l with
      | nil => exact fun _ => rfl
      | cons neighbor l ih =>
        intro bytes
        rw [List.foldl_cons, List.foldl_cons, ← ih]
        simp [words, word_add]
    exact htotal (cartNeighbors 0 neighborRanks) ⟨0, 0⟩

theorem range_computes {amount : ℕ → Option ℤ} {p : ℕ → Prop} {f : ℕ → ℤ}
    (h : ∀ i, Computes (amount i) (p i) (f i)) (n : ℕ) :
    Computes (addUp n amount) (∀ i ∈ List.range n, p i) (word (Coll.addUp n f)) :=
  (addUp_computes h n).congr (by simp) rfl

theorem neighborAlltoallw_computes :
    Computes (neighborAlltoallw t typeSize sendcounts sendtypes recvcounts recvtypes comm)
      (Fits t typeSize 0 comm (.neighborAlltoallw sendcounts sendtypes recvcounts recvtypes))
      (words (Coll.neighborAlltoallw typeSize sendcounts sendtypes recvcounts recvtypes comm)) := by
  have hsent := fun i => product_computes (t := t) (sendcounts i) (typeSize (sendtypes i))
  have hreceived := fun i => product_computes (t := t) (recvcounts i) (typeSize (recvtypes i))
  unfold neighborAlltoallw neighborAddUp Coll.neighborAlltoallw
  dsimp only [Fits, BlocksFitAt]
  cases comm.topology with
  | cart neighborRanks => exact cartAddUp_computes hsent hreceived neighborRanks
  | _ => exact (range_computes hsent _).map₂ (range_computes hreceived _) Words.mk

theorem neighborAllgatherv_computes :
    Computes (neighborAllgatherv t typeSize sendcount sendtype recvcounts recvtype comm)
      (Fits t typeSize 0 comm (.neighborAllgatherv sendcount sendtype recvcounts recvtype))
      (words (Coll.neighborAllgatherv typeSize sendcount sendtype recvcounts recvtype comm)) := by
  have hsent := fun _ : ℕ => product_computes (t := t) sendcount (typeSize sendtype)
  have hreceived := fun i => product_computes (t := t) (recvcounts i) (typeSize recvtype)
  unfold neighborAllgatherv Coll.neighborAllgatherv
  dsimp only [Fits, BlocksFitAt]
  cases comm.topology with
  | cart neighborRanks => exact cartAddUp_computes hsent hreceived neighborRanks
  | _ =>
    exact (product₃_computes _ sendcount (typeSize sendtype)).map₂ (range_computes hreceived _)
      fun sent received => (⟨word sent, received⟩ : Words)

/-! ## All calls -/

theorem swap_computes {x : Option Words} {p : Prop} {bytes : Coll.Bytes}
    (h : Computes x p (words bytes)) : Computes (x.map Words.swap) p (words bytes.swap) := by
  rw [Option.map_eq_bind]
  exact h.map Words.swap

theorem bytes_computes (mpiUndefined : ℤ) (call : Call Datatype) :
    Computes (bytes t typeSize mpiUndefined comm call) (Fits t typeSize mpiUndefined comm call)
      (words (computed typeSize mpiUndefined comm call)) := by
  cases call with
  | barrier => exact Computes.value _
  | gather => apply allToOne_computes
  | reduce => apply allToOne_computes
  | gatherv => apply gatherv_computes
  | bcast =>
    apply swap_computes
    apply allToOne_computes
  | scatter =>
    apply swap_computes
    apply allToOne_computes
  | scatterv =>
    apply swap_computes
    apply gatherv_computes
  | alltoall => apply alltoall_computes
  | alltoallv sendcounts sendtype recvcounts recvtype =>
    exact alltoallw_computes typeSize sendcounts (fun _ => sendtype) recvcounts (fun _ => recvtype) _ _
  | alltoallw => apply alltoallw_computes
  | allgather => apply alltoall_computes
  | allgatherv => apply allgatherv_computes
  | allreduce => apply alltoall_computes
  | reduceScatterBlock => apply reduceScatterBlock_computes
  | reduceScatter => apply reduceScatter_computes
  | scan => apply scan_computes
  | exscan => apply scan_computes
  | neighborAlltoall => apply neighborAlltoall_computes
  | neighborAlltoallv sendcounts sendtype recvcounts recvtype =>
    exact neighborAlltoallw_computes typeSize sendcounts (fun _ => sendtype) recvcounts
      (fun _ => recvtype) _
  | neighborAlltoallw => apply neighborAlltoallw_computes
  | neighborAllgather => apply neighborAlltoall_computes
  | neighborAllgatherv => apply neighborAllgatherv_computes

end

/-! ## Exact results -/

/-- The product of a number of neighbors with a count and a size comes out right through the function that
has `int` for `COUNT_T`. A block of no bytes only needs the product with its narrowed count. -/
def IntSuffices (n : ℕ) (count size : ℤ) : Prop :=
  if size = 0 then CountType.int.Represents (n * narrow count)
  else CountType.int.Represents (n * count * size)

def Suffices {Datatype : Type} (t : CountType) (typeSize : Datatype → ℤ) (mpiUndefined : ℤ)
    (comm : Comm) : Call Datatype → Prop
  | .neighborAllgather sendcount sendtype recvcount recvtype =>
    IntSuffices (numNeighbors comm.topology).2 sendcount (typeSize sendtype) ∧
      IntSuffices (numNeighbors comm.topology).1 recvcount (typeSize recvtype)
  | call => Fits t typeSize mpiUndefined comm call

/-- The counts that are narrowed to `int`. -/
def narrowedCounts {Datatype : Type} : Call Datatype → List ℤ
  | .neighborAllgather sendcount _ recvcount _ => [sendcount, recvcount]
  | _ => []

def Results (result : Option Words) (exact : Coll.Bytes) : Prop :=
  ∃ w, result = some w ∧ (w.sendbytes.toNat : ℤ) = exact.sendbytes ∧ (w.recvbytes.toNat : ℤ) = exact.recvbytes

/-- Below `2 ^ 63`. -/
def InRange (exact : Coll.Bytes) : Prop :=
  (0 ≤ exact.sendbytes ∧ exact.sendbytes < 2 ^ 63) ∧ 0 ≤ exact.recvbytes ∧ exact.recvbytes < 2 ^ 63

theorem word_toNat (v : ℤ) : ((word v).toNat : ℤ) = v % 2 ^ 64 := by
  rw [word, BitVec.toNat_ofInt]
  exact Int.toNat_of_nonneg (Int.emod_nonneg v (by decide))

theorem narrow_eq {v : ℤ} (h : CountType.int.Represents v) : narrow v = v := by
  rw [narrow, BitVec.toInt_ofInt]
  obtain ⟨hlow, hhigh⟩ := h
  simp only [CountType.bits] at hlow hhigh
  apply Int.bmod_eq_of_le <;> omega

theorem results_iff {result : Option Words} {p : Prop} {computed exact : Coll.Bytes}
    (h : Computes result p (words computed)) :
    Results result exact ↔ p ∧ computed.sendbytes % 2 ^ 64 = exact.sendbytes ∧
      computed.recvbytes % 2 ^ 64 = exact.recvbytes := by
  rw [← word_toNat, ← word_toNat]
  constructor
  · rintro ⟨w, hw, hsent, hreceived⟩
    obtain ⟨hp, rfl⟩ := (h w).1 hw
    exact ⟨hp, hsent, hreceived⟩
  · rintro ⟨hp, hsent, hreceived⟩
    exact ⟨words computed, (h _).2 ⟨hp, rfl⟩, hsent, hreceived⟩

theorem intSuffices_iff {Datatype : Type} {typeSize : Datatype → ℤ} {mpiUndefined : ℤ} {n : ℕ}
    {count : ℤ} {datatype : Datatype} (hcount : 0 ≤ count) (hsize : 0 ≤ typeSize datatype)
    (hrange : n * count * typeSize datatype < 2 ^ 63) :
    CountType.int.Represents₃ n (narrow count) (intTypeSize typeSize mpiUndefined datatype) ∧
        n * narrow count * intTypeSize typeSize mpiUndefined datatype % 2 ^ 64 = n * count * typeSize datatype ↔
      IntSuffices n count (typeSize datatype) := by
  have hexact : 0 ≤ n * count * typeSize datatype := by positivity
  rw [IntSuffices]
  by_cases hzero : typeSize datatype = 0
  · have hint : intTypeSize typeSize mpiUndefined datatype = 0 := by
      rw [intTypeSize, hzero]
      rfl
    rw [if_pos hzero, hint, hzero, mul_zero, mul_zero]
    exact ⟨fun h => h.1.1, fun h => ⟨⟨h, by rw [mul_zero]; decide⟩, rfl⟩⟩
  · rw [if_neg hzero]
    constructor
    · rintro ⟨⟨-, hlow, hhigh⟩, hresidue⟩
      simp only [CountType.bits] at hlow hhigh
      constructor <;> simp only [CountType.bits] <;> omega
    · intro hfits
      have hhigh : n * count * typeSize datatype < 2 ^ 31 := hfits.2
      rcases hcount.eq_or_lt with rfl | hpos
      · have hnarrow : narrow 0 = 0 := narrow_eq (by decide)
        rw [hnarrow, mul_zero, zero_mul, zero_mul]
        exact ⟨⟨by rw [mul_zero]; decide, by rw [mul_zero, zero_mul]; decide⟩, rfl⟩
      rcases n.eq_zero_or_pos with rfl | hn
      · simp only [Nat.cast_zero, zero_mul]
        exact ⟨⟨by rw [zero_mul]; decide, by rw [zero_mul, zero_mul]; decide⟩, rfl⟩
      have hn' : (1 : ℤ) ≤ n := by exact_mod_cast hn
      have hsize' : 1 ≤ typeSize datatype := by omega
      have hcounts : count ≤ n * count := le_mul_of_one_le_left hcount hn'
      have hblocks : n * count ≤ n * count * typeSize datatype :=
        le_mul_of_one_le_right (by omega) hsize'
      have hsizes : typeSize datatype ≤ n * count * typeSize datatype :=
        le_mul_of_one_le_left hsize (by omega)
      have hrepresents : ∀ v, 0 ≤ v → v ≤ n * count * typeSize datatype → CountType.int.Represents v := by
        intro v hv hle
        constructor <;> simp only [CountType.bits] <;> omega
      have hnarrow : narrow count = count := narrow_eq (hrepresents _ hcount (hcounts.trans hblocks))
      have hint : intTypeSize typeSize mpiUndefined datatype = typeSize datatype :=
        if_pos (hrepresents _ hsize hsizes)
      rw [hnarrow, hint]
      exact ⟨⟨hrepresents _ (by omega) hblocks, hfits⟩, by omega⟩

variable {Datatype : Type} {t : CountType} {typeSize : Datatype → ℤ} {mpiUndefined : ℤ} {comm : Comm}

theorem results_bytes_iff (hsizes : ∀ datatype, 0 ≤ typeSize datatype) {call : Call Datatype}
    (hcounts : ∀ count ∈ narrowedCounts call, 0 ≤ count) (hrange : InRange (Coll.bytes typeSize comm call)) :
    Results (bytes t typeSize mpiUndefined comm call) (Coll.bytes typeSize comm call) ↔
      Suffices t typeSize mpiUndefined comm call := by
  have hcomputes := bytes_computes (t := t) typeSize comm mpiUndefined call
  rw [results_iff hcomputes]
  have hresidues : (Coll.bytes typeSize comm call).sendbytes % 2 ^ 64 =
        (Coll.bytes typeSize comm call).sendbytes ∧
      (Coll.bytes typeSize comm call).recvbytes % 2 ^ 64 = (Coll.bytes typeSize comm call).recvbytes := by
    obtain ⟨⟨hsend, hsend'⟩, hrecv, hrecv'⟩ := hrange
    exact ⟨Int.emod_eq_of_lt hsend (by omega), Int.emod_eq_of_lt hrecv (by omega)⟩
  cases call with
  | neighborAllgather sendcount sendtype recvcount recvtype =>
    have hsend : 0 ≤ sendcount := hcounts _ (by simp [narrowedCounts])
    have hrecv : 0 ≤ recvcount := hcounts _ (by simp [narrowedCounts])
    have hbytes : Coll.bytes typeSize comm (.neighborAllgather sendcount sendtype recvcount recvtype) =
        ⟨(numNeighbors comm.topology).2 * sendcount * typeSize sendtype,
          (numNeighbors comm.topology).1 * recvcount * typeSize recvtype⟩ :=
      neighborAlltoall_bytes typeSize sendcount sendtype recvcount recvtype comm
    rw [hbytes] at hrange ⊢
    rw [computed, neighborAlltoall_bytes, Suffices, ← intSuffices_iff hsend (hsizes sendtype) hrange.1.2,
      ← intSuffices_iff hrecv (hsizes recvtype) hrange.2.2]
    exact and_and_and_comm
  | _ => exact and_iff_left hresidues

/-! ## Both instantiations -/

theorem CountType.Represents.widen {v : ℤ} (h : int.Represents v) : mpiCount.Represents v := by
  obtain ⟨hlow, hhigh⟩ := h
  simp only [bits] at hlow hhigh
  constructor <;> simp only [bits] <;> omega

theorem CountType.Represents₃.widen {a b c : ℤ} (h : int.Represents₃ a b c) : mpiCount.Represents₃ a b c :=
  ⟨h.1.widen, h.2.widen⟩

theorem BlocksFit.widen {n : ℕ} {counts : ℕ → ℤ} {types : ℕ → Datatype}
    (h : BlocksFit .int typeSize n counts types) : BlocksFit .mpiCount typeSize n counts types :=
  fun rank hrank => (h rank hrank).widen

theorem BlocksFitAt.widen {counts : ℕ → ℤ} {types : ℕ → Datatype} {indices : List ℕ}
    (h : BlocksFitAt .int typeSize counts types indices) :
    BlocksFitAt .mpiCount typeSize counts types indices :=
  fun i hi => (h i hi).widen

section

variable {sendcount recvcount : ℤ} {sendtype recvtype : Datatype} {recvcounts sendcounts : ℕ → ℤ}
  {sendtypes recvtypes : ℕ → Datatype} {root : Root} {inplace : Bool}

theorem AllToOneFits.widen (h : AllToOneFits .int typeSize sendcount sendtype recvcount recvtype root comm) :
    AllToOneFits .mpiCount typeSize sendcount sendtype recvcount recvtype root comm := by
  unfold AllToOneFits at h ⊢
  split_ifs at h ⊢
  · exact h.widen
  · exact h.widen
  · exact h.widen
  · exact fun hroot => (h hroot).widen

theorem GathervFits.widen (h : GathervFits .int typeSize sendcount sendtype recvcounts recvtype root comm) :
    GathervFits .mpiCount typeSize sendcount sendtype recvcounts recvtype root comm := by
  unfold GathervFits at h ⊢
  split_ifs at h ⊢
  · exact ⟨h.1.widen, h.2.widen⟩
  · exact h.widen
  · exact h.widen
  · exact fun hroot => (h hroot).widen

theorem AlltoallFits.widen (h : AlltoallFits .int typeSize sendcount sendtype recvcount recvtype inplace comm) :
    AlltoallFits .mpiCount typeSize sendcount sendtype recvcount recvtype inplace comm := by
  cases inplace with
  | true => exact CountType.Represents₃.widen h
  | false => exact ⟨h.1.widen, h.2.widen⟩

theorem AlltoallwFits.widen
    (h : AlltoallwFits .int typeSize sendcounts sendtypes recvcounts recvtypes inplace comm) :
    AlltoallwFits .mpiCount typeSize sendcounts sendtypes recvcounts recvtypes inplace comm := by
  refine ⟨h.1.widen, ?_⟩
  cases inplace with
  | true => exact CountType.Represents.widen h.2
  | false => exact BlocksFit.widen h.2

end

theorem Fits.widen {call : Call Datatype} (h : Fits .int typeSize mpiUndefined comm call) :
    Fits .mpiCount typeSize mpiUndefined comm call := by
  cases call with
  | barrier => trivial
  | gather => exact AllToOneFits.widen h
  | reduce => exact AllToOneFits.widen h
  | gatherv => exact GathervFits.widen h
  | bcast => exact AllToOneFits.widen h
  | scatter => exact AllToOneFits.widen h
  | scatterv => exact GathervFits.widen h
  | alltoall => exact AlltoallFits.widen h
  | alltoallv => exact AlltoallwFits.widen h
  | alltoallw => exact AlltoallwFits.widen h
  | allgather => exact AlltoallFits.widen h
  | allgatherv _ _ _ _ inplace =>
    refine ⟨h.1.widen, ?_⟩
    cases inplace with
    | true => exact ⟨h.2.1.widen, h.2.2.widen⟩
    | false => exact ⟨h.2.1.widen, h.2.2.widen⟩
  | allreduce => exact AlltoallFits.widen h
  | reduceScatterBlock => exact CountType.Represents₃.widen h
  | reduceScatter => exact CountType.Represents₃.widen h
  | scan => exact CountType.Represents.widen h
  | exscan => exact CountType.Represents.widen h
  | neighborAlltoall => exact ⟨h.1.widen, h.2.widen⟩
  | neighborAlltoallv => exact ⟨h.1.widen, h.2.widen⟩
  | neighborAlltoallw => exact ⟨h.1.widen, h.2.widen⟩
  | neighborAllgather => exact h
  | neighborAllgatherv =>
    refine ⟨?_, h.2.widen⟩
    have hsent := h.1
    split at hsent
    · exact BlocksFitAt.widen hsent
    · exact CountType.Represents₃.widen hsent

theorem bytes_widen {call : Call Datatype} {w : Words}
    (h : bytes .int typeSize mpiUndefined comm call = some w) :
    bytes .mpiCount typeSize mpiUndefined comm call = some w := by
  have hint := (bytes_computes (t := .int) typeSize comm mpiUndefined call w).1 h
  exact (bytes_computes (t := .mpiCount) typeSize comm mpiUndefined call w).2 ⟨hint.1.widen, hint.2⟩

/-- The results are exact if and only if no product is too large for the type in which it is formed, and both
instantiations agree where the one for `int` has a result. -/
theorem exact_bytes_iff (t : CountType) (mpiUndefined : ℤ) (comm : Comm)
    (hsizes : ∀ datatype, 0 ≤ typeSize datatype) (call : Call Datatype)
    (hcounts : ∀ count ∈ narrowedCounts call, 0 ≤ count) (hrange : InRange (Coll.bytes typeSize comm call)) :
    (Results (bytes t typeSize mpiUndefined comm call) (Coll.bytes typeSize comm call) ↔
        Suffices t typeSize mpiUndefined comm call) ∧ ∀ w, bytes .int typeSize mpiUndefined comm call = some w →
        bytes .mpiCount typeSize mpiUndefined comm call = some w :=
  ⟨results_bytes_iff hsizes hcounts hrange, fun _ => bytes_widen⟩

def fourRanks (topology : Topology) : Comm :=
  ⟨false, 1, 4, 0, topology⟩

/-- `MPI_UNDEFINED` of MPICH. -/
def undefinedSize : ℤ := -32766

theorem exact_bytes_iff_alltoall : Results (bytes .int (fun _ : Unit => 8) undefinedSize (fourRanks (.graph []))
      (.alltoall 3 () 3 () false)) ⟨96, 96⟩ :=
  ((exact_bytes_iff .int undefinedSize (fourRanks (.graph [])) (fun _ => by decide)
    (.alltoall 3 () 3 () false) (by simp [narrowedCounts]) ⟨by decide, by decide⟩).1).2
    ⟨⟨by decide, by decide⟩, by decide, by decide⟩

/-- The large counts of a call of the second instantiation are lost in the first, and 2 ^ 32 bytes are too
many for `int`. -/
theorem large_counts_lost : (let comm := fourRanks (.graph [0])
      let call := Call.neighborAllgather (2 ^ 32) () (2 ^ 32) ()
      Coll.bytes (fun _ : Unit => 1) comm call = ⟨2 ^ 32, 2 ^ 32⟩ ∧
        bytes .mpiCount (fun _ : Unit => 1) undefinedSize comm call = some ⟨0, 0⟩) ∧
    (let comm := fourRanks (.graph [])
      let call := Call.alltoall (2 ^ 28) () (2 ^ 28) () false
      Coll.bytes (fun _ : Unit => 4) comm call = ⟨2 ^ 32, 2 ^ 32⟩ ∧
        bytes .int (fun _ : Unit => 4) undefinedSize comm call = none) := by
  decide

end ScoreP.Mpi.Coll.Counts
