import Mathlib.Data.List.Nodup

/-!
# The hash table template

Source: `src/utils/include/SCOREP_FastHashtab.h`. What the variants of the template share: the
parameters of an instantiation with the functions its user provides, and how the loop variables
`i`, `j` and `chunk` of a search address the pairs of a bucket. The pair at position `i` is in slot
`i % nPairsPerChunk` of the chunk at position `i / nPairsPerChunk` of the bucket's chain.
-/

namespace ScoreP.FastHashtab

structure Template (K : Type) where
  nPairsPerChunk : ℕ
  hashTableSize : ℕ
  bucketIdx : K → ℕ
  equals : K → K → Bool

structure Template.Lawful {K : Type} (T : Template K) : Prop where
  nPairsPerChunk_pos : 1 ≤ T.nPairsPerChunk
  bucketIdx_lt : ∀ key, T.bucketIdx key < T.hashTableSize
  refl : ∀ key, T.equals key key = true
  symm : ∀ key key', T.equals key key' = true → T.equals key' key = true
  trans : ∀ key key' key'', T.equals key key' = true → T.equals key' key'' = true → T.equals key key'' = true
  bucketIdx_eq : ∀ key key', T.equals key key' = true → T.bucketIdx key = T.bucketIdx key'

/-- The places a `prefix_chunk_t**` points to: `&bucket->chunk` and `&c->next`. -/
inductive ChunkRef
  | bucketChunk
  | next (c : ℕ)

variable {chain : List ℕ}

/-- `chunk` is the place of the pointer to the chunk at position `q`. -/
def RefAt (chain : List ℕ) : ℕ → ChunkRef → Prop
  | 0, ref => ref = .bucketChunk
  | q + 1, ref => ∃ c, chain[q]? = some c ∧ ref = .next c

/-- The loop variables stand behind the first `i` pairs. -/
structure Cursor (n : ℕ) (chain : List ℕ) (q i j : ℕ) (ref : ChunkRef) : Prop where
  index : i = q * n + j
  le : j ≤ n
  pos : j = 0 → i = 0
  refAt : RefAt chain q ref

theorem cursor_zero (n : ℕ) (chain : List ℕ) : Cursor n chain 0 0 0 .bucketChunk where
  index := by omega
  le := Nat.zero_le n
  pos := fun _ => rfl
  refAt := rfl

theorem div_mod_of_index {n q i j : ℕ} (hj : j < n) (hi : i = q * n + j) : i / n = q ∧ i % n = j := by
  subst hi
  have hn : 0 < n := by omega
  constructor
  · rw [Nat.mul_comm, Nat.mul_add_div hn, Nat.div_eq_of_lt hj]
    rfl
  · rw [Nat.mul_comm, Nat.mul_add_mod, Nat.mod_eq_of_lt hj]

theorem slot_inj {n p p' c : ℕ} (hnodup : chain.Nodup) (hc : chain[p / n]? = some c)
    (hc' : chain[p' / n]? = some c) (hmod : p % n = p' % n) : p = p' := by
  have hlt := (List.getElem?_eq_some_iff.1 hc).1
  have hdiv : p / n = p' / n := (List.getElem?_inj hlt hnodup).1 (hc.trans hc'.symm)
  rw [← Nat.div_add_mod p n, ← Nat.div_add_mod p' n, hdiv, hmod]

end ScoreP.FastHashtab
