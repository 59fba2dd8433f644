import ScoreP.FastHashtab.Layout
import ScoreP.Foundations.Refill

/-!
# What the functions of the table do

For a table that `Holds` lists of pairs, without a fault: a search answers with the first pair of
the bucket whose key is equal (`searchLoop_spec`), an insertion appends a pair (`getAndInsert_spec`)
and a removal puts the last pair of the bucket in the place of the removed one
(`getAndRemoveImpl_spec`).
-/

namespace ScoreP.FastHashtab

open Foundations Function List

variable {K V : Type} {T : Template K} {t t' : Table K V} {b : ℕ} {chain free : List ℕ}
  {pairs : List (K × V)}

/-! ## Search -/

theorem BucketHolds.slot_at (h : BucketHolds T t b chain pairs) {q i j : ℕ}
    (hj : j < T.nPairsPerChunk) (hi : i = q * T.nPairsPerChunk + j) {pair : K × V}
    (hp : pairs[i]? = some pair) : ∃ c, chain[q]? = some c ∧ (t.heap c).Stores j pair := by
  obtain ⟨c, hc, hslot⟩ := h.slot i pair hp
  obtain ⟨hdiv, hmod⟩ := div_mod_of_index hj hi
  rw [hdiv] at hc
  rw [hmod] at hslot
  exact ⟨c, hc, hslot⟩

theorem BucketHolds.advance (h : BucketHolds T t b chain pairs) (hn : 1 ≤ T.nPairsPerChunk)
    {q i j : ℕ} {ref : ChunkRef} (hcursor : Cursor T.nPairsPerChunk chain q i j ref)
    {pair : K × V} (hp : pairs[i]? = some pair) : ∃ q' j' ref' c, t.advance T b j ref = some (j', ref') ∧
      t.load b ref' = some c ∧ (t.heap c).Stores j' pair ∧
      Cursor T.nPairsPerChunk chain q' (i + 1) (j' + 1) ref' := by
  have hindex := hcursor.index
  by_cases hj : j = T.nPairsPerChunk
  · have hi : i = (q + 1) * T.nPairsPerChunk + 0 := by
      rw [Nat.add_mul]
      omega
    obtain ⟨c, hc, hslot⟩ := h.slot_at hn hi hp
    have hlt := (List.getElem?_eq_some_iff.1 hc).1
    have hprev : chain[q]? = some chain[q] := getElem?_eq_getElem (by omega)
    have hload : t.load b ref = some chain[q] := (load_refAt h.linked hcursor.refAt).trans hprev
    have hrefAt : RefAt chain (q + 1) (.next chain[q]) := ⟨chain[q], hprev, rfl⟩
    refine ⟨q + 1, 0, .next chain[q], c, ?_, ?_, hslot, ⟨by omega, by omega, by omega, hrefAt⟩⟩
    · simp [Table.advance, hj, hload]
    · rw [load_refAt h.linked hrefAt]
      exact hc
  · have hle := hcursor.le
    obtain ⟨c, hc, hslot⟩ := h.slot_at (by omega) hindex hp
    refine ⟨q, j, ref, c, if_neg hj, ?_, hslot, ⟨by omega, by omega, by omega, hcursor.refAt⟩⟩
    rw [load_refAt h.linked hcursor.refAt]
    exact hc

theorem searchLoop_spec (h : BucketHolds T t b chain pairs) (hn : 1 ≤ T.nPairsPerChunk) (key : K)
    {m q i j : ℕ} {ref : ChunkRef} (hcursor : Cursor T.nPairsPerChunk chain q i j ref)
    (hm : i + m = pairs.length) : (∃ pair ∈ pairs.drop i, T.equals key pair.1 = true ∧
        t.searchLoop T b key m i j ref = some (.found pair.2)) ∨
      (∀ pair ∈ pairs.drop i, T.equals key pair.1 = false) ∧
        ∃ q' j' ref', Cursor T.nPairsPerChunk chain q' pairs.length j' ref' ∧
          t.searchLoop T b key m i j ref = some (.notFound pairs.length j' ref') := by
  induction m generalizing q i j ref with
  | zero =>
    have hi : i = pairs.length := by omega
    subst hi
    exact Or.inr ⟨by simp, q, j, ref, hcursor, rfl⟩
  | succ m ih =>
    have hlt : i < pairs.length := by omega
    obtain ⟨q', j', ref', c, hadvance, hload, ⟨hkey, hvalue⟩, hnext⟩ :=
      h.advance hn hcursor (getElem?_eq_getElem hlt)
    have hdrop : pairs.drop i = pairs[i] :: pairs.drop (i + 1) := drop_eq_getElem_cons hlt
    rw [hdrop]
    by_cases heq : T.equals key pairs[i].1 = true
    · refine Or.inl ⟨pairs[i], mem_cons_self, heq, ?_⟩
      simp [Table.searchLoop, hadvance, hload, hkey, hvalue, heq]
    · have hloop : t.searchLoop T b key (m + 1) i j ref = t.searchLoop T b key m (i + 1) (j' + 1) ref' := by
        simp [Table.searchLoop, hadvance, hload, hkey, heq]
      rw [hloop]
      cases ih hnext (by omega) with
      | inl hfound =>
        obtain ⟨pair, hmem, hpair⟩ := hfound
        exact Or.inl ⟨pair, mem_cons_of_mem _ hmem, hpair⟩
      | inr hnone =>
        obtain ⟨hall, hend⟩ := hnone
        refine Or.inr ⟨?_, hend⟩
        intro pair hpair
        cases mem_cons.1 hpair with
        | inl hhead =>
          rw [hhead]
          simpa using heq
        | inr htail => exact hall pair htail

/-! ## Insertion -/

structure Fits (n size len : ℕ) : Prop where
  room : size ≤ len * n
  used : 1 < len → (len - 1) * n < size

theorem Fits.len_eq {n size len : ℕ} (h : Fits n size len) (hn : 1 ≤ n) (hlen : 1 ≤ len) :
    len = max 1 ((size + n - 1) / n) := by
  obtain ⟨hroom, hused⟩ := h
  obtain ⟨l, rfl⟩ : ∃ l, len = l + 1 := ⟨len - 1, by omega⟩
  rw [Nat.add_mul] at hroom
  cases l with
  | zero =>
    have hdiv : (size + n - 1) / n ≤ 1 :=
      Nat.lt_succ_iff.1 (Nat.div_lt_of_lt_mul (by rw [Nat.mul_comm]; omega))
    omega
  | succ l =>
    have hused := hused (by omega)
    rw [Nat.add_sub_cancel] at hused
    have hdiv : (size + n - 1) / n = l + 1 + 1 := by
      apply Nat.div_eq_of_lt_le
      · rw [Nat.add_mul (l + 1)]
        omega
      · rw [Nat.add_mul (l + 1 + 1), Nat.add_mul (l + 1)]
        omega
    omega

theorem setNext_self {c : ℕ} {p : Option ℕ} (h : t.nextOf c = p) : t.setNext c p = t := by
  subst h
  simp [Table.setNext, Table.nextOf]

theorem BucketHolds.lt_length (h : BucketHolds T t b chain pairs) {q j : ℕ} (hj : 0 < j)
    (hle : j ≤ T.nPairsPerChunk) (hlen : pairs.length = q * T.nPairsPerChunk + j) : q < chain.length := by
  have hlast : pairs[pairs.length - 1]? = some pairs[pairs.length - 1] :=
    getElem?_eq_getElem (by omega)
  obtain ⟨c, hc, -⟩ := h.slot_at (q := q) (j := j - 1) (by omega) (by omega) hlast
  exact (List.getElem?_eq_some_iff.1 hc).1

variable {chains : ℕ → List ℕ}

theorem newChunk_spec {pairs : ℕ → List (K × V)} (h : Holds T t chains free pairs)
    (hb : b < T.hashTableSize) (hn : 1 ≤ T.nPairsPerChunk)
    (hfits : Fits T.nPairsPerChunk (pairs b).length (chains b).length) {q j : ℕ} {ref : ChunkRef}
    (hcursor : Cursor T.nPairsPerChunk (chains b) q (pairs b).length j ref) :
    ∃ t' chain' free' q' j' ref' c, t.newChunk T b (pairs b).length j ref = some (t', j', ref') ∧
      Holds T t' (update chains b chain') free' pairs ∧
      Fits T.nPairsPerChunk ((pairs b).length + 1) chain'.length ∧
      j' < T.nPairsPerChunk ∧ (pairs b).length = q' * T.nPairsPerChunk + j' ∧
      chain'[q']? = some c ∧ t'.load b ref' = some c := by
  have hbucket := h.bucket b hb
  obtain ⟨hindex, hle, hpos, href⟩ := hcursor
  unfold Table.newChunk
  by_cases hsize : (pairs b).length = 0
  · have hj : j = 0 := by omega
    subst hj
    rw [if_pos hsize]
    cases hchain : chains b with
    | nil =>
      have hnone : (t.hashTable b).chunk = none := by
        rw [← hbucket.linked.head_eq, hchain]
        rfl
      have hrefAt : RefAt (chains b) (chains b).length .bucketChunk := by
        rw [hchain]
        rfl
      obtain ⟨c, rest, hholds⟩ := assignNewChunk_holds h hb hrefAt
      rw [hchain, nil_append] at hholds
      refine ⟨_, [c], rest, 0, 0, .bucketChunk, c, ?_, hholds, ⟨?_, by simp⟩, hn, by omega, rfl, ?_⟩
      · simp [hnone]
      · rw [hsize]
        simpa using hn
      · have hlinked := (hholds.bucket b hb).linked
        rw [update_self] at hlinked
        exact load_refAt hlinked (q := 0) rfl
    | cons c cs =>
      have hsome : (t.hashTable b).chunk = some c := by
        rw [← hbucket.linked.head_eq, hchain]
        rfl
      have hcs : cs = [] := by
        have hused := hfits.used
        rw [hchain, hsize] at hused
        cases cs with
        | nil => rfl
        | cons c' cs =>
          have hlt := hused (by simp)
          omega
      have hlinked := hbucket.linked
      rw [hchain, hcs] at hlinked
      have hnext : t.nextOf c = none := (chain_cons.1 hlinked).2
      refine ⟨t, [c], free, 0, 0, .bucketChunk, c, ?_, ?_, ⟨?_, by simp⟩, hn, by omega, rfl, ?_⟩
      · simp [hsome, setNext_self hnext]
      · rw [← hcs, ← hchain, update_eq_self]
        exact h
      · rw [hsize]
        simpa using hn
      · exact load_refAt hlinked (q := 0) rfl
  · rw [if_neg hsize]
    have hj : 0 < j := by
      by_contra hzero
      exact hsize (hpos (by omega))
    have hq := hbucket.lt_length hj hle hindex
    have hget : (chains b)[q]? = some (chains b)[q] := getElem?_eq_getElem hq
    have hload := (load_refAt hbucket.linked href).trans hget
    by_cases hfull : j = T.nPairsPerChunk
    · have hlen : (chains b).length = q + 1 := by
        have hused := hfits.used
        by_contra hne
        have hlt := hused (by omega)
        have hsucc : (pairs b).length = (q + 1) * T.nPairsPerChunk := by
          rw [Nat.add_mul]
          omega
        rw [hsucc] at hlt
        have := Nat.lt_of_mul_lt_mul_right hlt
        omega
      have hrefAt : RefAt (chains b) (chains b).length (.next (chains b)[q]) := by
        rw [hlen]
        exact ⟨_, hget, rfl⟩
      obtain ⟨c, rest, hholds⟩ := assignNewChunk_holds h hb hrefAt
      have hc : (chains b ++ [c])[q + 1]? = some c := by
        rw [getElem?_append_right (by omega)]
        simp [hlen]
      refine ⟨_, chains b ++ [c], rest, q + 1, 0, .next (chains b)[q], c, ?_, hholds, ⟨?_, ?_⟩, hn,
        ?_, hc, ?_⟩
      · simp [hfull, hload]
      · rw [length_append, length_singleton, hlen, Nat.add_mul, Nat.add_mul]
        omega
      · intro _
        rw [length_append, length_singleton, hlen, Nat.add_sub_cancel, Nat.add_mul]
        omega
      · rw [Nat.add_mul]
        omega
      · have hlinked := (hholds.bucket b hb).linked
        rw [update_self] at hlinked
        rw [← hc]
        refine load_refAt hlinked (q := q + 1) ⟨_, ?_, rfl⟩
        rw [getElem?_append_left hq]
        exact hget
    · refine ⟨t, chains b, free, q, j, ref, (chains b)[q], ?_, ?_, ⟨?_, ?_⟩, by omega, hindex, hget, hload⟩
      · rw [if_neg hfull]
      · rw [update_eq_self]
        exact h
      · have hmul := Nat.mul_le_mul_right T.nPairsPerChunk (Nat.succ_le_of_lt hq)
        rw [Nat.succ_mul] at hmul
        omega
      · intro hlt
        exact Nat.lt_succ_of_lt (hfits.used hlt)

theorem getAndInsert_spec {pairs : ℕ → List (K × V)} (hT : T.Lawful)
    (h : Holds T t chains free pairs) {key stored : K} (value : V)
    (hfits : Fits T.nPairsPerChunk (pairs (T.bucketIdx key)).length
      (chains (T.bucketIdx key)).length) (hstored : T.equals key stored = true) :
    (∃ pair ∈ pairs (T.bucketIdx key), T.equals key pair.1 = true ∧
        t.getAndInsert T key stored value = some (t, pair.2, false)) ∨
      (∀ pair ∈ pairs (T.bucketIdx key), T.equals key pair.1 = false) ∧
        ∃ t' chain' free', t.getAndInsert T key stored value = some (t', value, true) ∧
          Holds T t' (update chains (T.bucketIdx key) chain') free'
            (update pairs (T.bucketIdx key) (pairs (T.bucketIdx key) ++ [(stored, value)])) ∧
          Fits T.nPairsPerChunk ((pairs (T.bucketIdx key)).length + 1) chain'.length := by
  have hb := hT.bucketIdx_lt key
  have hn := hT.nPairsPerChunk_pos
  have hbucket := h.bucket _ hb
  unfold Table.getAndInsert
  simp only [ge_iff_le, Nat.not_le.2 hb, if_false, hbucket.size_eq]
  generalize T.bucketIdx key = b at *
  cases searchLoop_spec hbucket hn key (cursor_zero _ _) (Nat.zero_add _) with
  | inl hfound =>
    obtain ⟨pair, hmem, heq, hsearch⟩ := hfound
    exact Or.inl ⟨pair, hmem, heq, by simp [hsearch]⟩
  | inr hnone =>
    obtain ⟨hall, q, j, ref, hcursor, hsearch⟩ := hnone
    refine Or.inr ⟨hall, ?_⟩
    obtain ⟨t', chain', free', q', j', ref', c, hnew, hholds, hfits', hj', hindex, hc, hload⟩ :=
      newChunk_spec h hb hn hfits hcursor
    obtain ⟨hdiv, hmod⟩ := div_mod_of_index hj' hindex
    have happend := append_holds hholds hb (c := c) (by rw [update_self, hdiv]; exact hc)
      stored value
    rw [hmod] at happend
    refine ⟨_, chain', free', ?_, happend, hfits'⟩
    simp [hsearch, hnew, Table.searchLoop, Table.insert2, hload, hstored, Nat.not_le.2 hj']

theorem get_spec {pairs : ℕ → List (K × V)} (hT : T.Lawful) (h : Holds T t chains free pairs) (key : K) :
    (∃ pair ∈ pairs (T.bucketIdx key), T.equals key pair.1 = true ∧ t.get T key = some (some pair.2)) ∨
      (∀ pair ∈ pairs (T.bucketIdx key), T.equals key pair.1 = false) ∧ t.get T key = some none := by
  have hb := hT.bucketIdx_lt key
  have hbucket := h.bucket _ hb
  unfold Table.get
  simp only [ge_iff_le, Nat.not_le.2 hb, if_false, hbucket.size_eq]
  cases searchLoop_spec hbucket hT.nPairsPerChunk_pos key (cursor_zero _ _) (Nat.zero_add _) with
  | inl hfound =>
    obtain ⟨pair, hmem, heq, hsearch⟩ := hfound
    exact Or.inl ⟨pair, hmem, heq, by simp [hsearch]⟩
  | inr hnone =>
    obtain ⟨hall, q, j, ref, -, hsearch⟩ := hnone
    exact Or.inr ⟨hall, by simp [hsearch]⟩

/-! ## Removal -/

/-- The chunk before the one at position `q`. -/
def previousAt (chain : List ℕ) : ℕ → Option ℕ
  | 0 => none
  | q + 1 => chain[q]?

theorem BucketHolds.removeAdvance (h : BucketHolds T t b chain pairs) (hn : 1 ≤ T.nPairsPerChunk)
    {q i j : ℕ} (hindex : i = q * T.nPairsPerChunk + j) (hle : j ≤ T.nPairsPerChunk)
    {pair : K × V} (hp : pairs[i]? = some pair) :
    ∃ q' j' c, t.removeAdvance T j (previousAt chain q) chain[q]? = some (j', previousAt chain q', some c) ∧
      i = q' * T.nPairsPerChunk + j' ∧ j' < T.nPairsPerChunk ∧ chain[q']? = some c ∧
      (t.heap c).Stores j' pair := by
  unfold Table.removeAdvance
  by_cases hj : j = T.nPairsPerChunk
  · have hi : i = (q + 1) * T.nPairsPerChunk + 0 := by
      rw [Nat.add_mul]
      omega
    obtain ⟨c, hc, hslot⟩ := h.slot_at hn hi hp
    have hlt := (List.getElem?_eq_some_iff.1 hc).1
    have hprev : chain[q]? = some chain[q] := getElem?_eq_getElem (by omega)
    have hnext : (t.heap chain[q]).next = some c := (h.linked.next_eq hprev).trans hc
    refine ⟨q + 1, 0, c, ?_, hi, hn, hc, hslot⟩
    simp [hj, hprev, hnext, previousAt]
  · obtain ⟨c, hc, hslot⟩ := h.slot_at (by omega) hindex hp
    refine ⟨q, j, c, ?_, hindex, by omega, hc, hslot⟩
    rw [if_neg hj, hc]

theorem removeSearch_spec (h : BucketHolds T t b chain pairs) (hn : 1 ≤ T.nPairsPerChunk) (key : K)
    {m q i j : ℕ} (hindex : i = q * T.nPairsPerChunk + j) (hle : j ≤ T.nPairsPerChunk)
    (hm : i + m = pairs.length) : (∃ p pair q' j' c, pairs[p]? = some pair ∧ T.equals key pair.1 = true ∧
        j' < T.nPairsPerChunk ∧ p = q' * T.nPairsPerChunk + j' ∧ chain[q']? = some c ∧
        t.removeSearch T key m i j (previousAt chain q) chain[q]? =
          some (some { i := p, j := j', previousChunk := previousAt chain q', chunk := c,
                       value := pair.2 })) ∨
      (∀ pair ∈ pairs.drop i, T.equals key pair.1 = false) ∧
        t.removeSearch T key m i j (previousAt chain q) chain[q]? = some none := by
  induction m generalizing q i j with
  | zero =>
    refine Or.inr ⟨?_, rfl⟩
    rw [drop_eq_nil_of_le (by omega)]
    simp
  | succ m ih =>
    have hlt : i < pairs.length := by omega
    have hget : pairs[i]? = some pairs[i] := getElem?_eq_getElem hlt
    obtain ⟨q', j', c, hadvance, hindex', hj', hc, hkey, hvalue⟩ :=
      h.removeAdvance hn hindex hle hget
    have hdrop : pairs.drop i = pairs[i] :: pairs.drop (i + 1) := drop_eq_getElem_cons hlt
    rw [hdrop]
    by_cases heq : T.equals key pairs[i].1 = true
    · refine Or.inl ⟨i, pairs[i], q', j', c, hget, heq, hj', hindex', hc, ?_⟩
      simp [Table.removeSearch, hadvance, hkey, hvalue, heq]
    · have hloop : t.removeSearch T key (m + 1) i j (previousAt chain q) chain[q]? =
          t.removeSearch T key m (i + 1) (j' + 1) (previousAt chain q') chain[q']? := by
        simp [Table.removeSearch, hadvance, hkey, heq, hc]
      rw [hloop]
      cases ih (q := q') (j := j' + 1) (i := i + 1) (by omega) (by omega) (by omega) with
      | inl hfound => exact Or.inl hfound
      | inr hnone =>
        obtain ⟨hall, hend⟩ := hnone
        refine Or.inr ⟨?_, hend⟩
        intro pair hpair
        cases mem_cons.1 hpair with
        | inl hhead =>
          rw [hhead]
          simpa using heq
        | inr htail => exact hall pair htail

theorem lastChunk_spec (hlinked : Chain t.nextOf (t.hashTable b).chunk chain) {fuel q c : ℕ}
    (hc : chain[q]? = some c) (hfuel : chain.length ≤ q + fuel) : ∃ last, chain[chain.length - 1]? = some last ∧
      t.lastChunk T fuel (q * T.nPairsPerChunk) (previousAt chain q) c =
        some ((chain.length - 1) * T.nPairsPerChunk, previousAt chain (chain.length - 1), last) := by
  induction fuel generalizing q c with
  | zero =>
    have hlt := (List.getElem?_eq_some_iff.1 hc).1
    omega
  | succ fuel ih =>
    have hlt := (List.getElem?_eq_some_iff.1 hc).1
    have hnext : (t.heap c).next = chain[q + 1]? := hlinked.next_eq hc
    unfold Table.lastChunk
    rw [hnext]
    cases hc' : chain[q + 1]? with
    | none =>
      have hlen : chain.length - 1 = q := by
        have hge := getElem?_eq_none_iff.1 hc'
        omega
      rw [hlen]
      exact ⟨c, hc, rfl⟩
    | some c' =>
      obtain ⟨last, hlast, heq⟩ := ih hc' (by omega)
      refine ⟨last, hlast, ?_⟩
      rw [← heq, Nat.add_mul, Nat.one_mul]
      show t.lastChunk T fuel _ (some c) c' = _
      simp [previousAt, hc]

theorem Holds.length_le {pairs : ℕ → List (K × V)} (h : Holds T t chains free pairs) (b : ℕ) :
    (chains b).length ≤ t.allocated := by
  have hnodup := (nodup_append.1 (h.nodup b)).1
  have hsubset : chains b ⊆ List.range t.allocated := by
    intro c hc
    exact mem_range.2 (h.allocated b c (mem_append_left _ hc))
  simpa using List.Nodup.length_le_of_subset hnodup hsubset

theorem exists_two_last (h : 2 ≤ chain.length) : ∃ as a c, chain = as ++ [a] ++ [c] := by
  cases chain using List.reverseRecOn with
  | nil => simp at h
  | append_singleton rest c =>
    cases rest using List.reverseRecOn with
    | nil => simp at h
    | append_singleton as a => exact ⟨as, a, c, rfl⟩

def removeAt (pairs : List (K × V)) (p : ℕ) : List (K × V) :=
  match pairs.getLast? with
  | none => []
  | some last => (pairs.set p last).dropLast

theorem releaseLast_spec {pairs : ℕ → List (K × V)} (h : Holds T t chains free pairs)
    (hb : b < T.hashTableSize) (hn : 1 ≤ T.nPairsPerChunk) {c : ℕ}
    (hc : (chains b)[(chains b).length - 1]? = some c)
    (hlen : (pairs b).length = ((chains b).length - 1) * T.nPairsPerChunk) :
    ∃ chain' free', Holds T (t.releaseChunk (previousAt (chains b) ((chains b).length - 1)) c)
        (update chains b chain') free' pairs ∧
      Fits T.nPairsPerChunk (pairs b).length chain'.length ∧ 1 ≤ chain'.length := by
  have hpos := (List.getElem?_eq_some_iff.1 hc).1
  by_cases hone : (chains b).length = 1
  · rw [hone] at hlen ⊢
    refine ⟨chains b, free, ?_, ⟨by omega, by omega⟩, by omega⟩
    rw [update_eq_self]
    exact h
  · obtain ⟨as, a, c', hchain⟩ := exists_two_last (show 2 ≤ (chains b).length by omega)
    have hlength : (chains b).length = as.length + 1 + 1 := by simp [hchain]
    rw [hlength, Nat.add_sub_cancel] at hc hlen ⊢
    have hprev : previousAt (chains b) (as.length + 1) = some a := by
      simp [previousAt, hchain]
    have hlast : c' = c := by
      simpa [hchain] using hc
    subst hlast
    rw [hprev]
    refine ⟨as ++ [a], c' :: free, release_holds h hb hchain (le_of_eq hlen), ⟨?_, ?_⟩, by simp⟩
    · rw [length_append, length_singleton]
      exact le_of_eq hlen
    · intro _
      rw [length_append, length_singleton, Nat.add_sub_cancel, hlen, Nat.add_mul]
      omega

theorem removeAt_eq_refill (pairs : List (K × V)) (p : ℕ) : removeAt pairs p = refill pairs p := by
  unfold removeAt refill
  cases pairs.getLast? with
  | none => rfl
  | some last => rfl

theorem moveLast_holds {pairs : ℕ → List (K × V)} (h : Holds T t chains free pairs)
    (hb : b < T.hashTableSize) {p q j c l last : ℕ} {previous previous' : Option ℕ} (value : V)
    (hindex : p = q * T.nPairsPerChunk + j) (hj : j < T.nPairsPerChunk)
    (hc : (chains b)[q]? = some c) (hlast : (chains b)[l]? = some last)
    (hused : l * T.nPairsPerChunk < (pairs b).length)
    (hroom : (pairs b).length ≤ l * T.nPairsPerChunk + T.nPairsPerChunk)
    (hwalk : t.lastChunk T t.allocated (q * T.nPairsPerChunk) previous c =
      some (l * T.nPairsPerChunk, previous', last)) :
    ∃ s, Holds T s chains free (update pairs b (removeAt (pairs b) p)) ∧
      t.moveLastToRemoved T b (pairs b).length
        { i := p, j := j, previousChunk := previous, chunk := c, value := value } =
        some (if (pairs b).length - l * T.nPairsPerChunk - 1 = 0 then s.releaseChunk previous' last
          else s) ∧
      s.allocated = t.allocated := by
  have hbucket := h.bucket b hb
  have hlastPair : (pairs b)[(pairs b).length - 1]? = some (pairs b)[(pairs b).length - 1] :=
    getElem?_eq_getElem (by omega)
  obtain ⟨c', hc', hkey, hvalue⟩ := hbucket.slot_at (q := l)
    (j := (pairs b).length - l * T.nPairsPerChunk - 1) (by omega) (by omega) hlastPair
  have hcc : last = c' := Option.some.inj (hlast.symm.trans hc')
  subst hcc
  obtain ⟨hdiv, hmod⟩ := div_mod_of_index hj hindex
  -- it is written over the removed one, and the size is stored
  have hover := overwrite_holds h hb (p := p) (by rw [hdiv]; exact hc)
    (pairs b)[(pairs b).length - 1].1 (pairs b)[(pairs b).length - 1].2
  rw [hmod] at hover
  have hshrink := shrink_holds hover hb
  have hremove : ((pairs b).set p (pairs b)[(pairs b).length - 1]).dropLast = removeAt (pairs b) p := by
    unfold removeAt
    rw [getLast?_eq_getElem?, hlastPair]
  rw [update_idem, update_self, length_set, hremove] at hshrink
  have hsub : p - j = q * T.nPairsPerChunk := by omega
  refine ⟨_, hshrink, ?_, rfl⟩
  simp only [Table.moveLastToRemoved, hsub, hwalk, hkey, hvalue, Option.bind_eq_bind, Option.bind_some]
  by_cases hzero : (pairs b).length - l * T.nPairsPerChunk - 1 = 0
  · rw [if_pos hzero, if_pos hzero]
    cases previous' with
    | none => rfl
    | some a => rfl
  · rw [if_neg hzero, if_neg hzero]

theorem Fits.last {n size len : ℕ} (h : Fits n size len) (hsize : 0 < size) :
    ∃ l, len = l + 1 ∧ l * n < size ∧ size ≤ l * n + n := by
  have hroom := h.room
  cases len with
  | zero => omega
  | succ l =>
    rw [Nat.add_mul, Nat.one_mul] at hroom
    refine ⟨l, rfl, ?_, hroom⟩
    cases l with
    | zero => omega
    | succ l => simpa using h.used (by omega)

theorem moveLastToRemoved_spec {pairs : ℕ → List (K × V)} (h : Holds T t chains free pairs)
    (hb : b < T.hashTableSize) (hn : 1 ≤ T.nPairsPerChunk)
    (hfits : Fits T.nPairsPerChunk (pairs b).length (chains b).length) {p q j c : ℕ} (value : V)
    (hp : p < (pairs b).length) (hindex : p = q * T.nPairsPerChunk + j) (hj : j < T.nPairsPerChunk)
    (hc : (chains b)[q]? = some c) : ∃ t' chain' free', t.moveLastToRemoved T b (pairs b).length
        { i := p, j := j, previousChunk := previousAt (chains b) q, chunk := c, value := value } = some t' ∧
      Holds T t' (update chains b chain') free' (update pairs b (removeAt (pairs b) p)) ∧
      Fits T.nPairsPerChunk ((pairs b).length - 1) chain'.length ∧ 1 ≤ chain'.length := by
  obtain ⟨last, hlast, hwalk⟩ := lastChunk_spec (T := T) (h.bucket b hb).linked hc
    (Nat.le_add_left_of_le (h.length_le b))
  obtain ⟨l, hl, hused, hroom⟩ := hfits.last (by omega)
  rw [hl, Nat.add_sub_cancel] at hlast hwalk
  obtain ⟨s, hholds, hmove, -⟩ := moveLast_holds h hb value hindex hj hc hlast hused hroom hwalk
  rw [hmove]
  by_cases hzero : (pairs b).length - l * T.nPairsPerChunk - 1 = 0
  · rw [if_pos hzero]
    have hsize : (pairs b).length - 1 = l * T.nPairsPerChunk := by omega
    have hlen : (update pairs b (removeAt (pairs b) p) b).length = l * T.nPairsPerChunk := by
      rw [update_self, removeAt_eq_refill, length_refill, hsize]
    obtain ⟨chain', free', hholds', hfits', hpos⟩ := releaseLast_spec hholds hb hn (c := last)
      (by rw [hl, Nat.add_sub_cancel]; exact hlast) (by rw [hl, Nat.add_sub_cancel]; exact hlen)
    rw [hl, Nat.add_sub_cancel] at hholds'
    rw [hlen, ← hsize] at hfits'
    exact ⟨_, chain', free', rfl, hholds', hfits', hpos⟩
  · rw [if_neg hzero]
    refine ⟨_, chains b, free, rfl, ?_, ⟨?_, ?_⟩, by omega⟩
    · rw [update_eq_self]
      exact hholds
    · rw [hl, Nat.add_mul]
      omega
    · intro _
      rw [hl, Nat.add_sub_cancel]
      omega

theorem getAndRemoveImpl_spec {pairs : ℕ → List (K × V)} (hT : T.Lawful)
    (h : Holds T t chains free pairs) (key : K)
    (hfits : Fits T.nPairsPerChunk (pairs (T.bucketIdx key)).length (chains (T.bucketIdx key)).length) :
    (∃ p pair, (pairs (T.bucketIdx key))[p]? = some pair ∧ T.equals key pair.1 = true ∧
        ∃ t' chain' free', t.getAndRemoveImpl T key = some (t', some pair.2) ∧
          Holds T t' (update chains (T.bucketIdx key) chain') free'
            (update pairs (T.bucketIdx key) (removeAt (pairs (T.bucketIdx key)) p)) ∧
          Fits T.nPairsPerChunk ((pairs (T.bucketIdx key)).length - 1) chain'.length ∧ 1 ≤ chain'.length) ∨
      (∀ pair ∈ pairs (T.bucketIdx key), T.equals key pair.1 = false) ∧
        t.getAndRemoveImpl T key = some (t, none) := by
  have hb := hT.bucketIdx_lt key
  have hn := hT.nPairsPerChunk_pos
  have hbucket := h.bucket _ hb
  unfold Table.getAndRemoveImpl
  simp only [ge_iff_le, Nat.not_le.2 hb, if_false, hbucket.size_eq, ← hbucket.linked.head_eq]
  generalize T.bucketIdx key = b at *
  have hsearch := removeSearch_spec hbucket hn key (m := (pairs b).length) (q := 0) (j := 0)
    (i := 0) (by omega) (by omega) (by omega)
  have hprev : previousAt (chains b) 0 = none := rfl
  rw [hprev] at hsearch
  cases hsearch with
  | inl hfound =>
    obtain ⟨p, pair, q, j, c, hp, heq, hj, hindex, hc, hsearch⟩ := hfound
    obtain ⟨t', chain', free', hmove, hholds, hfits', hpos⟩ := moveLastToRemoved_spec h hb hn hfits
      pair.2 (List.getElem?_eq_some_iff.1 hp).1 hindex hj hc
    refine Or.inl ⟨p, pair, hp, heq, t', chain', free', ?_, hholds, hfits', hpos⟩
    simp [hsearch, hmove]
  | inr hnone =>
    obtain ⟨hall, hsearch⟩ := hnone
    exact Or.inr ⟨hall, by simp [hsearch]⟩

/-! ## Traversal -/

theorem iterateSlots_spec (h : BucketHolds T t b chain pairs) {q c : ℕ} (hc : chain[q]? = some c)
    {m j : ℕ} (hj : j + m ≤ T.nPairsPerChunk) (hlen : q * T.nPairsPerChunk + j + m ≤ pairs.length) :
    t.iterateSlots c m j = some ((pairs.drop (q * T.nPairsPerChunk + j)).take m) := by
  induction m generalizing j with
  | zero => simp [Table.iterateSlots]
  | succ m ih =>
    have hlt : q * T.nPairsPerChunk + j < pairs.length := by omega
    obtain ⟨c', hc', hkey, hvalue⟩ :=
      h.slot_at (q := q) (j := j) (by omega) rfl (getElem?_eq_getElem hlt)
    have hcc : c = c' := Option.some.inj (hc.symm.trans hc')
    subst hcc
    rw [drop_eq_getElem_cons hlt, take_succ_cons]
    simp [Table.iterateSlots, hkey, hvalue, ih (j := j + 1) (by omega) (by omega), Nat.add_assoc]

theorem iterateChunks_spec (h : BucketHolds T t b chain pairs)
    (hroom : pairs.length ≤ chain.length * T.nPairsPerChunk) {fuel q i : ℕ}
    (hi : i = min (q * T.nPairsPerChunk) pairs.length) (hfuel : chain.length ≤ q + fuel) :
    t.iterateChunks T pairs.length fuel i chain[q]? = some (pairs.drop i) := by
  have hend : chain.length ≤ q → pairs.drop i = [] := by
    intro hle
    have hmul := Nat.mul_le_mul_right T.nPairsPerChunk hle
    exact drop_eq_nil_of_le (by omega)
  induction fuel generalizing q i with
  | zero =>
    rw [Nat.add_zero] at hfuel
    rw [getElem?_eq_none_iff.2 hfuel, hend hfuel]
    rfl
  | succ fuel ih =>
    cases hc : chain[q]? with
    | none =>
      rw [hend (getElem?_eq_none_iff.1 hc)]
      rfl
    | some c =>
      have hnext : (t.heap c).next = chain[q + 1]? := h.linked.next_eq hc
      generalize hm : min (pairs.length - i) T.nPairsPerChunk = m
      have hslots : t.iterateSlots c m 0 = some ((pairs.drop i).take m) := by
        by_cases hle : q * T.nPairsPerChunk ≤ pairs.length
        · have hstart : i = q * T.nPairsPerChunk + 0 := by omega
          rw [hstart]
          exact iterateSlots_spec h hc (by omega) (by omega)
        · have hzero : m = 0 := by omega
          rw [hzero]
          simp [Table.iterateSlots]
      have hvisited : ((pairs.drop i).take m).length = m := by
        rw [length_take, length_drop]
        omega
      have hi' : i + m = min ((q + 1) * T.nPairsPerChunk) pairs.length := by
        rw [Nat.add_mul]
        omega
      have hrest := ih hi' (by omega) fun hle => by
        have hmul := Nat.mul_le_mul_right T.nPairsPerChunk hle
        exact drop_eq_nil_of_le (by omega)
      unfold Table.iterateChunks
      simp only [hm, hslots, hvisited, hnext, hrest, Option.bind_eq_bind, Option.bind_some]
      rw [← drop_drop, take_append_drop]

theorem foldlM_append_some {α β : Type} (f : α → Option (List β)) (g : α → List β) (l : List α)
    (h : ∀ a ∈ l, f a = some (g a)) (acc : List β) :
    l.foldlM (fun visited a => do
      let pairs ← f a
      some (visited ++ pairs)) acc = some (acc ++ l.flatMap g) := by
  induction l generalizing acc with
  | nil => simp
  | cons a l ih =>
    have hl := ih fun x hx => h x (mem_cons_of_mem a hx)
    rw [foldlM_cons, h a mem_cons_self, flatMap_cons, ← append_assoc, ← hl]
    rfl

theorem iterateKeyValuePairs_spec {pairs : ℕ → List (K × V)} (h : Holds T t chains free pairs)
    (hfits : ∀ b < T.hashTableSize, Fits T.nPairsPerChunk (pairs b).length (chains b).length) :
    t.iterateKeyValuePairs T = some ((List.range T.hashTableSize).flatMap pairs) := by
  unfold Table.iterateKeyValuePairs
  rw [foldlM_append_some _ pairs, nil_append]
  intro b hb
  have hb := mem_range.1 hb
  have hbucket := h.bucket b hb
  rw [hbucket.size_eq, ← hbucket.linked.head_eq]
  have hlen := h.length_le b
  rw [iterateChunks_spec hbucket (hfits b hb).room (q := 0) (i := 0) (by omega) (by omega)]
  rfl

end ScoreP.FastHashtab
