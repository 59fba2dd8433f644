import ScoreP.Mpi.CollExact

/-!
# The vector forms of collective operations

`twin_bytes_iff`: a vector form with one count and type for all ranks returns what the scalar form returns if
no product of either is too large for its type, the block form of `reduce_scatter` aside, which takes no
account of the remote group.
-/

namespace ScoreP.Mpi.Coll.Counts

open Foundations

section

variable {Datatype : Type}

inductive Twin : Call Datatype → Call Datatype → Prop
  | gatherv (sendcount : ℤ) (sendtype : Datatype) (recvcount : ℤ) (recvtype : Datatype) (root : Root)
      (inplace : Bool) :
    Twin (.gather sendcount sendtype recvcount recvtype root inplace)
      (.gatherv sendcount sendtype (fun _ => recvcount) recvtype root inplace)
  | scatterv (sendcount : ℤ) (sendtype : Datatype) (recvcount : ℤ) (recvtype : Datatype) (root : Root)
      (inplace : Bool) :
    Twin (.scatter sendcount sendtype recvcount recvtype root inplace)
      (.scatterv (fun _ => sendcount) sendtype recvcount recvtype root inplace)
  | allgatherv (sendcount : ℤ) (sendtype : Datatype) (recvcount : ℤ) (recvtype : Datatype)
      (inplace : Bool) :
    Twin (.allgather sendcount sendtype recvcount recvtype inplace)
      (.allgatherv sendcount sendtype (fun _ => recvcount) recvtype inplace)
  | alltoallv (sendcount : ℤ) (sendtype : Datatype) (recvcount : ℤ) (recvtype : Datatype) (inplace : Bool) :
    Twin (.alltoall sendcount sendtype recvcount recvtype inplace)
      (.alltoallv (fun _ => sendcount) sendtype (fun _ => recvcount) recvtype inplace)
  | alltoallw (sendcount : ℤ) (sendtype : Datatype) (recvcount : ℤ) (recvtype : Datatype) (inplace : Bool) :
    Twin (.alltoall sendcount sendtype recvcount recvtype inplace)
      (.alltoallw (fun _ => sendcount) (fun _ => sendtype) (fun _ => recvcount) (fun _ => recvtype) inplace)
  | reduceScatter (recvcount : ℤ) (datatype : Datatype) (inplace : Bool) :
    Twin (.reduceScatterBlock recvcount datatype inplace)
      (.reduceScatter (fun _ => recvcount) datatype inplace)
  | neighborAlltoallv (sendcount : ℤ) (sendtype : Datatype) (recvcount : ℤ) (recvtype : Datatype) :
    Twin (.neighborAlltoall sendcount sendtype recvcount recvtype)
      (.neighborAlltoallv (fun _ => sendcount) sendtype (fun _ => recvcount) recvtype)
  | neighborAlltoallw (sendcount : ℤ) (sendtype : Datatype) (recvcount : ℤ) (recvtype : Datatype) :
    Twin (.neighborAlltoall sendcount sendtype recvcount recvtype)
      (.neighborAlltoallw (fun _ => sendcount) (fun _ => sendtype) (fun _ => recvcount) (fun _ => recvtype))
  | neighborAllgatherv (sendcount : ℤ) (sendtype : Datatype) (recvcount : ℤ) (recvtype : Datatype) :
    Twin (.neighborAllgather sendcount sendtype recvcount recvtype)
      (.neighborAllgatherv sendcount sendtype (fun _ => recvcount) recvtype)

/-- The blocks of `n` neighbors have as many bytes as with the count and the size narrowed to `int`. -/
def NarrowsTo (typeSize : Datatype → ℤ) (mpiUndefined : ℤ) (n : ℕ) (count : ℤ) (datatype : Datatype) : Prop :=
  word (n * narrow count * intTypeSize typeSize mpiUndefined datatype) = word (n * count * typeSize datatype)

def Even (typeSize : Datatype → ℤ) (mpiUndefined : ℤ) (comm : Comm) : Call Datatype → Prop
  | .reduceScatterBlock recvcount datatype inplace =>
    comm.inter = true → word (recvcount * typeSize datatype) = 0 ∨
      inplace = false ∧ comm.size = comm.remoteSize
  | .neighborAllgather sendcount sendtype recvcount recvtype =>
    NarrowsTo typeSize mpiUndefined (numNeighbors comm.topology).2 sendcount sendtype ∧
      NarrowsTo typeSize mpiUndefined (numNeighbors comm.topology).1 recvcount recvtype
  | _ => True

/-! ## Exact numbers -/

section

variable (typeSize : Datatype → ℤ) (sendcount : ℤ) (sendtype : Datatype) (recvcount : ℤ)
  (recvtype : Datatype) (root : Root) (inplace : Bool) (comm : Comm)

theorem addUp_const (n : ℕ) (amount : ℤ) : Coll.addUp n (fun _ => amount) = n * amount := by
  simp [addUp_eq]

theorem gather_eq : Coll.gather typeSize sendcount sendtype recvcount recvtype root inplace comm =
      Coll.gatherv typeSize sendcount sendtype (fun _ => recvcount) recvtype root inplace comm :=
  allToOne_eq ..

theorem allgather_eq : Coll.allgather typeSize sendcount sendtype recvcount recvtype inplace comm =
      Coll.allgatherv typeSize sendcount sendtype (fun _ => recvcount) recvtype inplace comm := by
  simp only [Coll.allgather, Coll.alltoall, Coll.allgatherv, addUp_const, sub_mul, one_mul, mul_assoc]

end

/-! ## Both forms -/

theorem CountType.Represents.inMpiCount {t : CountType} {v : ℤ} (h : t.Represents v) :
    mpiCount.Represents v := by
  cases t with
  | int => exact h.widen
  | mpiCount => exact h

theorem word_inj {v v' : ℤ} (h : CountType.mpiCount.Represents v)
    (h' : CountType.mpiCount.Represents v') : word v = word v' ↔ v = v' := by
  have hvalue : ∀ {v : ℤ}, CountType.mpiCount.Represents v → (word v).toInt = v := by
    rintro v ⟨hlow, hhigh⟩
    simp only [CountType.bits] at hlow hhigh
    rw [word, BitVec.toInt_ofInt]
    apply Int.bmod_eq_of_le <;> omega
  constructor
  · intro hword
    rw [← hvalue h, ← hvalue h', hword]
  · exact congrArg word

section

variable {t : CountType} {typeSize : Datatype → ℤ} {mpiUndefined : ℤ} {comm : Comm}

theorem reduceScatter_words_iff {recvcount : ℤ} {datatype : Datatype} {inplace : Bool}
    (hblock : Fits t typeSize mpiUndefined comm (.reduceScatterBlock recvcount datatype inplace))
    (hvector : Fits t typeSize mpiUndefined comm (.reduceScatter (fun _ => recvcount) datatype inplace)) :
    words (Coll.reduceScatterBlock typeSize recvcount datatype inplace comm) =
        words (Coll.reduceScatter typeSize (fun _ => recvcount) datatype inplace comm) ↔
      Even typeSize mpiUndefined comm (.reduceScatterBlock recvcount datatype inplace) := by
  cases hinter : comm.inter with
  | false =>
    have hintra : isIntracomm comm = true := by simp [isIntracomm, hinter]
    refine iff_of_true ?_ ?_
    · cases inplace <;>
        simp [Coll.reduceScatterBlock, Coll.reduceScatter, hintra, addUp_const, sub_mul, one_mul]
    · simp [Even, hinter]
  | true =>
    have hintra : isIntracomm comm = false := by simp [isIntracomm, hinter]
    have hproduct : ∀ n : ℤ, word (n * recvcount * typeSize datatype) =
        word n * word (recvcount * typeSize datatype) := by
      intro n
      rw [mul_assoc, word_mul]
    have hvectorBytes : Coll.reduceScatter typeSize (fun _ => recvcount) datatype inplace comm =
        ⟨comm.size * recvcount * typeSize datatype, comm.remoteSize * recvcount * typeSize datatype⟩ := by
      simp [Coll.reduceScatter, hintra, addUp_const]
    have hreceived : CountType.mpiCount.Represents (comm.remoteSize * recvcount * typeSize datatype) := by
      have hfits := hvector.2
      rw [hintra] at hfits
      exact hfits.inMpiCount
    rw [hvectorBytes, words, words, Words.ext_iff]
    cases inplace with
    | false =>
      have hsent : CountType.mpiCount.Represents (comm.size * recvcount * typeSize datatype) :=
        hblock.2.inMpiCount
      have hsizes : word (comm.size * recvcount * typeSize datatype) =
            word (comm.remoteSize * recvcount * typeSize datatype) ↔
          word (recvcount * typeSize datatype) = 0 ∨ comm.size = comm.remoteSize := by
        constructor
        · intro hword
          have heq := (word_inj hsent hreceived).1 hword
          rw [mul_assoc, mul_assoc] at heq
          rcases mul_eq_mul_right_iff.1 heq with hranks | hzero
          · exact .inr (by exact_mod_cast hranks)
          · exact .inl (by rw [hzero]; rfl)
        · rintro (hzero | hranks)
          · rw [hproduct, hproduct, hzero, mul_zero, mul_zero]
          · rw [hranks]
      simpa [Even, hinter, Coll.reduceScatterBlock] using hsizes
    | true =>
      have hsizes : word ((comm.size - 1) * recvcount * typeSize datatype) =
              word (comm.size * recvcount * typeSize datatype) ∧
            word ((comm.size - 1) * recvcount * typeSize datatype) =
              word (comm.remoteSize * recvcount * typeSize datatype) ↔
          word (recvcount * typeSize datatype) = 0 := by
        rw [hproduct, hproduct, hproduct]
        constructor
        · rintro ⟨hsent, -⟩
          rw [word_sub, sub_mul, sub_eq_self] at hsent
          exact (one_mul _).symm.trans hsent
        · intro hzero
          rw [hzero, mul_zero, mul_zero, mul_zero]
          exact ⟨rfl, rfl⟩
      simpa [Even, hinter, Coll.reduceScatterBlock] using hsizes

theorem twin_words_iff {scalar vector : Call Datatype} (h : Twin scalar vector)
    (hscalar : Fits t typeSize mpiUndefined comm scalar) (hvector : Fits t typeSize mpiUndefined comm vector) :
    words (computed typeSize mpiUndefined comm scalar) = words (computed typeSize mpiUndefined comm vector) ↔
      Even typeSize mpiUndefined comm scalar := by
  cases h with
  | gatherv sendcount sendtype recvcount recvtype root inplace =>
    exact iff_of_true (congrArg words (gather_eq ..)) trivial
  | scatterv sendcount sendtype recvcount recvtype root inplace =>
    exact iff_of_true (congrArg (fun bytes => words bytes.swap) (gather_eq ..)) trivial
  | allgatherv sendcount sendtype recvcount recvtype inplace =>
    exact iff_of_true (congrArg words (allgather_eq ..)) trivial
  | alltoallv sendcount sendtype recvcount recvtype inplace =>
    exact iff_of_true (congrArg words (alltoall_eq ..)) trivial
  | alltoallw sendcount sendtype recvcount recvtype inplace =>
    exact iff_of_true (congrArg words (alltoall_eq ..)) trivial
  | reduceScatter recvcount datatype inplace => exact reduceScatter_words_iff hscalar hvector
  | neighborAlltoallv sendcount sendtype recvcount recvtype =>
    exact iff_of_true (congrArg words (neighborAlltoall_eq ..)) trivial
  | neighborAlltoallw sendcount sendtype recvcount recvtype =>
    exact iff_of_true (congrArg words (neighborAlltoall_eq ..)) trivial
  | neighborAllgatherv sendcount sendtype recvcount recvtype =>
    have hexact : computed typeSize mpiUndefined comm
        (.neighborAllgatherv sendcount sendtype (fun _ => recvcount) recvtype) =
        ⟨(numNeighbors comm.topology).2 * sendcount * typeSize sendtype,
          (numNeighbors comm.topology).1 * recvcount * typeSize recvtype⟩ := by
      rw [← neighborAlltoall_bytes, neighborAlltoall_eq]
      exact neighborAllgatherv_eq typeSize sendcount sendtype (fun _ => recvcount) recvtype comm
    rw [hexact, computed, neighborAlltoall_bytes]
    exact Words.ext_iff

/-- The two forms agree if and only if all their products fit and they take account of the same. -/
theorem twin_bytes_iff {scalar vector : Call Datatype} (h : Twin scalar vector) :
    (∃ w, bytes t typeSize mpiUndefined comm scalar = some w ∧
        bytes t typeSize mpiUndefined comm vector = some w) ↔
      (Fits t typeSize mpiUndefined comm scalar ∧ Fits t typeSize mpiUndefined comm vector) ∧
        Even typeSize mpiUndefined comm scalar := by
  have hscalar := bytes_computes (t := t) typeSize comm mpiUndefined scalar
  have hvector := bytes_computes (t := t) typeSize comm mpiUndefined vector
  rw [hscalar.agree_iff hvector]
  exact and_congr_right fun hfits => twin_words_iff h hfits.1 hfits.2

end

end

theorem twin_bytes_iff_gather : ∃ w, bytes .int (fun _ : Unit => 8) undefinedSize (fourRanks (.graph []))
          (.gather 3 () 3 () (.rank 1) true) = some w ∧
        bytes .int (fun _ : Unit => 8) undefinedSize (fourRanks (.graph []))
          (.gatherv 3 () (fun _ => 3) () (.rank 1) true) = some w :=
  (twin_bytes_iff (.gatherv 3 () 3 () (.rank 1) true)).2 ⟨⟨(by decide : CountType.int.Represents (3 * 8)),
      fun _ _ => (by decide : CountType.int.Represents (3 * 8)), by decide⟩, trivial⟩

/-- Two ranks that scatter the result of three remote ones. -/
theorem remote_group_missed :
    let comm : Comm := ⟨true, 0, 2, 3, .graph []⟩
    bytes .int (fun _ : Unit => 8) undefinedSize comm (.reduceScatterBlock 1 () false) = some ⟨16, 16⟩ ∧
      bytes .int (fun _ : Unit => 8) undefinedSize comm (.reduceScatter (fun _ => 1) () false) =
        some ⟨16, 24⟩ := by
  decide

end ScoreP.Mpi.Coll.Counts
