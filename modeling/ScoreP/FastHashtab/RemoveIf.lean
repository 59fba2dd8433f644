import ScoreP.FastHashtab.Refinement

/-!
# Removing by a predicate

Source: `prefix_remove_if` of `src/utils/include/SCOREP_FastHashtab.h`. The loop over the slots of a
chunk puts the last pair of the bucket in the place of a removed one and then looks at the same slot
again. The search for the last chunk begins at the chunk of the removed pair with no previous chunk,
so a chunk that is not the first of its bucket stays in the chain when its own sole pair is removed.

`sweepSlots_spec` and `sweepChunks_spec` follow the loops with `Sweeping`, `removeIf_spec` says what
a call does to all buckets, and `removesExactly_iff` when it leaves the chains that the other
operations rely on.

The signed loop variables `outer_i` and `outer_j` step back by one before they step forward; here a
removal leaves them.
-/

namespace ScoreP.FastHashtab

open Foundations Function
open List hiding chain_cons

variable {K V : Type}

/-- The table, `outer_i`, `current_size`, and the pairs for which `condition` and
`prefix_value_dtor` were called. -/
structure Sweep (K V : Type) where
  table : Table K V
  outerI : ℕ
  currentSize : ℕ
  evaluated : List (K × V)
  destroyed : List (K × V)

namespace Table

variable (T : Template K) (condition : K → V → Bool) (b : ℕ)

/-- One round of the loop over slots: `outer_j` behind it. -/
def visit (outerChunk outerJ : ℕ) (s : Sweep K V) : Option (Sweep K V × ℕ) := do
  let key ← (s.table.heap outerChunk).keys outerJ
  let value ← (s.table.heap outerChunk).values outerJ
  if condition key value then
    let table ← s.table.moveLastToRemoved T b s.currentSize
      { i := s.outerI, j := outerJ, previousChunk := none, chunk := outerChunk, value := value }
    some ({ table := table
            outerI := s.outerI
            currentSize := s.currentSize - 1
            evaluated := s.evaluated ++ [(key, value)]
            destroyed := s.destroyed ++ [(key, value)] }, outerJ)
  else
    some ({ s with outerI := s.outerI + 1, evaluated := s.evaluated ++ [(key, value)] }, outerJ + 1)

/-- `for ( int32_t outer_j = 0; outer_i < current_size && outer_j < nPairsPerChunk; ... )`, with
`current_size - outer_i` rounds left. -/
def sweepSlots (outerChunk : ℕ) : ℕ → ℕ → Sweep K V → Option (Sweep K V)
  | 0, _, s => some s
  | n + 1, outerJ, s =>
    if outerJ < T.nPairsPerChunk then do
      let (s', outerJ') ← visit T condition b outerChunk outerJ s
      sweepSlots outerChunk n outerJ' s'
    else some s

/-- `while ( outer_chunk != NULL )`. -/
def sweepChunks : ℕ → Option ℕ → Sweep K V → Option (Sweep K V)
  | _, none, s => some s
  | 0, some _, _ => none
  | n + 1, some outerChunk, s => do
    let s' ← sweepSlots T condition b outerChunk (s.currentSize - s.outerI) 0 s
    sweepChunks n (s'.table.heap outerChunk).next s'

def sweepBucket (s : Sweep K V) (b : ℕ) : Option (Sweep K V) :=
  sweepChunks T condition b s.table.allocated (s.table.hashTable b).chunk
    { s with outerI := 0, currentSize := (s.table.hashTable b).size }

def removeIf (t : Table K V) : Option (Sweep K V) :=
  (List.range T.hashTableSize).foldlM (sweepBucket T condition)
    { table := t, outerI := 0, currentSize := 0, evaluated := [], destroyed := [] }

end Table

variable {T : Template K} {t t' : Table K V} {b : ℕ} {chain free : List ℕ}
  {chains : ℕ → List ℕ} {pairs : ℕ → List (K × V)} {condition : K → V → Bool}

def holdsFor (condition : K → V → Bool) (pair : K × V) : Bool :=
  condition pair.1 pair.2

def EmptiesAt (n : ℕ) (condition : K → V → Bool) (pairs : List (K × V)) (kept : ℕ) : Prop :=
  0 < kept ∧ n ∣ kept ∧ ∃ pair, pairs[kept]? = some pair ∧ holdsFor condition pair = true

/-! ## Moving the last pair, from the chunk of the removed one on -/

/-- The chain `chain'` is left when the pair in slot `j` of chunk `q` of a chain for `size` pairs is
removed: either it fits, or its last chunk, which was `q`, is empty. -/
def Shrinks (n size q j : ℕ) (chain' : List ℕ) : Prop :=
  Fits n (size - 1) chain'.length ∧ ¬ (size - 1 = q * n + j ∧ j = 0 ∧ 1 ≤ q) ∨
    chain'.length = q + 1 ∧ size - 1 = q * n + j ∧ j = 0 ∧ 1 ≤ q

theorem lastChunk_of_next {c c' q fuel : ℕ}
    (hlinked : Chain t.nextOf (t.hashTable b).chunk chain) (hc : chain[q]? = some c)
    (hc' : chain[q + 1]? = some c') (hfuel : chain.length ≤ q + fuel) (previous : Option ℕ) :
    t.lastChunk T fuel (q * T.nPairsPerChunk) previous c =
      t.lastChunk T fuel (q * T.nPairsPerChunk) (previousAt chain q) c := by
  have hlt := (List.getElem?_eq_some_iff.1 hc).1
  obtain ⟨m, rfl⟩ : ∃ m, fuel = m + 1 := ⟨fuel - 1, by omega⟩
  have hnext : (t.heap c).next = some c' := (hlinked.next_eq hc).trans hc'
  simp [Table.lastChunk, hnext]

theorem moveHere_spec (h : Holds T t chains free pairs) (hb : b < T.hashTableSize) (hn : 1 ≤ T.nPairsPerChunk)
    (hfits : Fits T.nPairsPerChunk (pairs b).length (chains b).length) {p q j c : ℕ} (value : V)
    (hp : p < (pairs b).length) (hindex : p = q * T.nPairsPerChunk + j)
    (hj : j < T.nPairsPerChunk) (hc : (chains b)[q]? = some c) :
    ∃ t' chain' free', t.moveLastToRemoved T b (pairs b).length
        { i := p, j := j, previousChunk := none, chunk := c, value := value } = some t' ∧
      Holds T t' (update chains b chain') free' (update pairs b (refill (pairs b) p)) ∧
      chain'[q]? = some c ∧ chain'.length ≤ (chains b).length ∧
      Shrinks T.nPairsPerChunk (pairs b).length q j chain' := by
  have hlinked := (h.bucket b hb).linked
  have hallocated := h.length_le b
  obtain ⟨last, hlast, hwalk⟩ := lastChunk_spec (T := T) hlinked hc (Nat.le_add_left_of_le hallocated)
  obtain ⟨l, hl, hused, hroom⟩ := hfits.last (by omega)
  rw [hl, Nat.add_sub_cancel] at hlast hwalk
  have hql : q ≤ l := by
    have hlt := (List.getElem?_eq_some_iff.1 hc).1
    omega
  cases Nat.eq_or_lt_of_le hql with
  | inl heq =>
    -- the removed pair is in the last chunk, and there is no previous one
    subst heq
    have hcc : c = last := Option.some.inj (hc.symm.trans hlast)
    subst hcc
    have hnext : (t.heap c).next = none := by
      rw [← Table.nextOf, hlinked.next_eq hc]
      exact List.getElem?_eq_none (by omega)
    obtain ⟨m, hm⟩ : ∃ m, t.allocated = m + 1 := ⟨t.allocated - 1, by omega⟩
    have hwalk' : t.lastChunk T t.allocated (q * T.nPairsPerChunk) none c =
        some (q * T.nPairsPerChunk, none, c) := by
      rw [hm]
      simp [Table.lastChunk, hnext]
    obtain ⟨s, hholds, hmove, -⟩ := moveLast_holds h hb value hindex hj hc hc hused hroom hwalk'
    have hmove' : t.moveLastToRemoved T b (pairs b).length
        { i := p, j := j, previousChunk := none, chunk := c, value := value } = some s := by
      rw [hmove]
      exact congrArg some (ite_self s)
    refine ⟨s, chains b, free, hmove', ?_, hc, le_rfl, ?_⟩
    · rw [update_eq_self, ← removeAt_eq_refill]
      exact hholds
    · unfold Shrinks
      by_cases hempty : (pairs b).length - 1 = q * T.nPairsPerChunk + j ∧ j = 0 ∧ 1 ≤ q
      · exact Or.inr ⟨hl, hempty⟩
      · refine Or.inl ⟨⟨?_, ?_⟩, hempty⟩
        · rw [hl, Nat.add_mul]
          omega
        · intro hlen
          rw [hl, Nat.add_sub_cancel]
          omega
  | inr hlt =>
    -- a later chunk is the last one, its predecessor was passed
    have hc' : (chains b)[q + 1]? = some (chains b)[q + 1] := List.getElem?_eq_getElem (by omega)
    have hwalk' : t.lastChunk T t.allocated (q * T.nPairsPerChunk) none c =
        some (l * T.nPairsPerChunk, previousAt (chains b) l, last) := by
      rw [lastChunk_of_next hlinked hc hc' (Nat.le_add_left_of_le hallocated)]
      exact hwalk
    obtain ⟨s, hholds, hmove, -⟩ := moveLast_holds h hb value hindex hj hc hlast hused hroom hwalk'
    have hbehind : (q + 1) * T.nPairsPerChunk ≤ l * T.nPairsPerChunk := Nat.mul_le_mul_right _ hlt
    rw [Nat.add_mul, Nat.one_mul] at hbehind
    rw [hmove]
    by_cases hzero : (pairs b).length - l * T.nPairsPerChunk - 1 = 0
    · rw [if_pos hzero]
      obtain ⟨as, a, c'', hchain⟩ := exists_two_last (show 2 ≤ (chains b).length by omega)
      have hlength : l = as.length + 1 := by
        rw [hchain, length_append, length_append] at hl
        simpa using hl.symm
      subst hlength
      have hprev : previousAt (chains b) (as.length + 1) = some a := by
        simp [previousAt, hchain]
      have hcc : c'' = last := by
        simpa [hchain] using hlast
      subst hcc
      rw [hprev]
      have hempty : (update pairs b (removeAt (pairs b) p) b).length ≤
          (as.length + 1) * T.nPairsPerChunk := by
        rw [update_self, removeAt_eq_refill, length_refill]
        omega
      refine ⟨_, as ++ [a], c'' :: free, rfl, ?_, ?_, ?_, Or.inl ⟨⟨?_, ?_⟩, ?_⟩⟩
      · rw [← removeAt_eq_refill]
        exact release_holds hholds hb hchain hempty
      · rw [hchain, List.getElem?_append_left (by simpa using hlt)] at hc
        exact hc
      · rw [hl, length_append, length_singleton]
        omega
      · rw [length_append, length_singleton]
        omega
      · intro _
        rw [length_append, length_singleton, Nat.add_sub_cancel]
        rw [Nat.add_mul, Nat.one_mul] at hused
        omega
      · intro hend
        omega
    · rw [if_neg hzero]
      refine ⟨_, chains b, free, rfl, ?_, hc, le_rfl, Or.inl ⟨⟨?_, ?_⟩, ?_⟩⟩
      · rw [update_eq_self, ← removeAt_eq_refill]
        exact hholds
      · rw [hl, Nat.add_mul]
        omega
      · intro _
        rw [hl, Nat.add_sub_cancel]
        omega
      · intro hend
        omega

/-! ## The sweep of one bucket -/

structure Sweeping (T : Template K) (condition : K → V → Bool) (b : ℕ) (chains : ℕ → List ℕ)
    (pairs : ℕ → List (K × V)) (start : Sweep K V) (chain : List ℕ) (l : List (K × V))
    (s : Sweep K V) : Prop where
  holds : ∃ free, Holds T s.table (update chains b chain) free (update pairs b l)
  size_eq : s.currentSize = l.length
  swept : ∃ seen gone, Swept (holdsFor condition) (pairs b) s.outerI l seen gone ∧
    s.evaluated = start.evaluated ++ seen ∧ s.destroyed = start.destroyed ++ gone
  nil_iff : chain = [] ↔ chains b = []
  layout : Fits T.nPairsPerChunk l.length chain.length ∧
      (s.outerI = l.length → ¬ EmptiesAt T.nPairsPerChunk condition (pairs b) l.length) ∨
    s.outerI = l.length ∧ EmptiesAt T.nPairsPerChunk condition (pairs b) l.length ∧
      chain.length = l.length / T.nPairsPerChunk + 1

variable {start s : Sweep K V} {l : List (K × V)}

theorem Sweeping.bucket (h : Sweeping T condition b chains pairs start chain l s)
    (hb : b < T.hashTableSize) : BucketHolds T s.table b chain l := by
  obtain ⟨free, hholds⟩ := h.holds
  simpa using hholds.bucket b hb

theorem Sweeping.le (h : Sweeping T condition b chains pairs start chain l s) : s.outerI ≤ l.length := by
  obtain ⟨seen, gone, hswept, -⟩ := h.swept
  exact hswept.le

theorem Sweeping.fits (h : Sweeping T condition b chains pairs start chain l s)
    (hlt : s.outerI < l.length) : Fits T.nPairsPerChunk l.length chain.length := by
  cases h.layout with
  | inl hfits => exact hfits.1
  | inr hend => omega

theorem Shrinks.layout {n size q j k : ℕ} {chain' : List ℕ} {start : List (K × V)}
    (h : Shrinks n size q j chain') (hn : 1 ≤ n) (hj : j < n) (hk : k = size - 1)
    (hend : q * n + j = k → ∃ pair, start[k]? = some pair ∧ holdsFor condition pair = true) :
    Fits n k chain'.length ∧ (q * n + j = k → ¬ EmptiesAt n condition start k) ∨
      q * n + j = k ∧ EmptiesAt n condition start k ∧ chain'.length = k / n + 1 := by
  subst hk
  cases h with
  | inl hfits =>
    refine Or.inl ⟨hfits.1, fun heq hempties => hfits.2 ⟨heq.symm, ?_, ?_⟩⟩
    · have hdvd := (Nat.dvd_add_right (Nat.dvd_mul_left n q)).1 (heq ▸ hempties.2.1)
      exact Nat.eq_zero_of_dvd_of_lt hdvd hj
    · by_contra hq
      have hzero : q = 0 := by omega
      subst hzero
      have hpos := hempties.1
      have hdvd := hempties.2.1
      rw [← heq, Nat.zero_mul, Nat.zero_add] at hpos hdvd
      exact absurd (Nat.le_of_dvd hpos hdvd) (by omega)
  | inr hempty =>
    obtain ⟨hlen, hsize, rfl, hq⟩ := hempty
    rw [Nat.add_zero] at hsize
    have hpos : 0 < q * n := Nat.mul_pos hq hn
    refine Or.inr ⟨hsize.symm, ⟨by omega, ?_, hend hsize.symm⟩, ?_⟩
    · rw [hsize]
      exact Nat.dvd_mul_left n q
    · rw [hlen, hsize, Nat.mul_div_cancel _ (by omega)]

theorem visit_spec (h : Sweeping T condition b chains pairs start chain l s)
    (hb : b < T.hashTableSize) (hn : 1 ≤ T.nPairsPerChunk) {q j c : ℕ}
    (hi : s.outerI = q * T.nPairsPerChunk + j) (hj : j < T.nPairsPerChunk)
    (hlt : s.outerI < l.length) (hc : chain[q]? = some c) :
    ∃ s' j' chain' l', Table.visit T condition b c j s = some (s', j') ∧
      Sweeping T condition b chains pairs start chain' l' s' ∧
      chain'[q]? = some c ∧ chain'.length ≤ chain.length ∧
      s'.outerI = q * T.nPairsPerChunk + j' ∧ j' ≤ T.nPairsPerChunk ∧
      l'.length - s'.outerI + 1 = l.length - s.outerI := by
  obtain ⟨seen, gone, hswept, hevaluated, hdestroyed⟩ := h.swept
  have hget : l[s.outerI]? = some l[s.outerI] := List.getElem?_eq_getElem hlt
  generalize l[s.outerI] = pair at hget
  obtain ⟨c', hc', hkey, hvalue⟩ := (h.bucket hb).slot_at hj hi hget
  have hcc : c = c' := Option.some.inj (hc.symm.trans hc')
  subst hcc
  cases hdrop : condition pair.1 pair.2 with
  | false =>
    refine ⟨_, j + 1, chain, l, by simp [Table.visit, hkey, hvalue, hdrop]; rfl, ?_, hc, le_rfl, ?_, hj, ?_⟩
    · refine ⟨h.holds, h.size_eq, ⟨seen ++ [pair], gone, hswept.keep hget hdrop, ?_, hdestroyed⟩,
        h.nil_iff, Or.inl ⟨h.fits hlt, ?_⟩⟩
      · show s.evaluated ++ [pair] = _
        rw [hevaluated, append_assoc]
      · intro _ hempties
        exact hswept.keep_end hget hdrop hempties.2.2
    · show s.outerI + 1 = _
      omega
    · show l.length - (s.outerI + 1) + 1 = _
      omega
  | true =>
    obtain ⟨free, hholds⟩ := h.holds
    obtain ⟨t', chain', free', hmove, hholds', hc'', hlen, hshrinks⟩ :=
      moveHere_spec hholds hb hn (p := s.outerI) (q := q) (j := j) (c := c) (by simpa using h.fits hlt)
        pair.2 (by simpa using hlt) hi hj (by simpa using hc)
    rw [update_self, update_idem, update_idem] at hholds'
    rw [update_self] at hmove hlen hshrinks
    rw [← h.size_eq] at hmove
    refine ⟨{ table := t', outerI := s.outerI, currentSize := s.currentSize - 1,
              evaluated := s.evaluated ++ [pair], destroyed := s.destroyed ++ [pair] },
      j, chain', refill l s.outerI, ?_, ?_, hc'', hlen, hi, le_of_lt hj, ?_⟩
    · simp [Table.visit, hkey, hvalue, hdrop, hmove]
    · refine ⟨⟨free', hholds'⟩, ?_, ⟨seen ++ [pair], gone ++ [pair], hswept.remove hget hdrop, ?_, ?_⟩,
        ?_, ?_⟩
      · rw [length_refill, ← h.size_eq]
      · show s.evaluated ++ [pair] = _
        rw [hevaluated, append_assoc]
      · show s.destroyed ++ [pair] = _
        rw [hdestroyed, append_assoc]
      · rw [← h.nil_iff]
        refine ⟨fun hnil => ?_, fun hnil => ?_⟩
        · simp [hnil] at hc''
        · simp [hnil] at hc
      · show _ ∧ (s.outerI = _ → _) ∨ s.outerI = _ ∧ _
        rw [hi]
        refine hshrinks.layout hn hj length_refill ?_
        intro hend
        rw [← hi] at hend ⊢
        exact hswept.remove_end hget hdrop hend
    · rw [length_refill]
      show l.length - 1 - s.outerI + 1 = _
      omega

theorem sweepSlots_spec (hb : b < T.hashTableSize) (hn : 1 ≤ T.nPairsPerChunk) {m q j c : ℕ}
    (h : Sweeping T condition b chains pairs start chain l s)
    (hi : s.outerI = q * T.nPairsPerChunk + j) (hj : j ≤ T.nPairsPerChunk)
    (hm : m = l.length - s.outerI) (hc : chain[q]? = some c) :
    ∃ s' chain' l', Table.sweepSlots T condition b c m j s = some s' ∧
      Sweeping T condition b chains pairs start chain' l' s' ∧
      chain'[q]? = some c ∧ chain'.length ≤ chain.length ∧
      (s'.outerI = l'.length ∨ s'.outerI = (q + 1) * T.nPairsPerChunk) := by
  induction m generalizing s chain l j with
  | zero =>
    have hle := h.le
    exact ⟨s, chain, l, rfl, h, hc, le_rfl, Or.inl (by omega)⟩
  | succ m ih =>
    unfold Table.sweepSlots
    by_cases hlt : j < T.nPairsPerChunk
    · rw [if_pos hlt]
      obtain ⟨s', j', chain', l', hvisit, h', hc', hlen, hi', hj', hm'⟩ :=
        visit_spec h hb hn hi hlt (by omega) hc
      obtain ⟨s'', chain'', l'', hloop, h'', hc'', hlen', hend⟩ := ih h' hi' hj' (by omega) hc'
      refine ⟨s'', chain'', l'', ?_, h'', hc'', hlen'.trans hlen, hend⟩
      simp [hvisit, hloop]
    · rw [if_neg hlt]
      refine ⟨s, chain, l, rfl, h, hc, le_rfl, Or.inr ?_⟩
      rw [Nat.add_mul, Nat.one_mul]
      omega

theorem Sweeping.at_end (h : Sweeping T condition b chains pairs start chain l s) {q : ℕ}
    (hi : s.outerI = l.length ∨ s.outerI = q * T.nPairsPerChunk) (hq : chain.length ≤ q) :
    s.outerI = l.length := by
  cases hi with
  | inl heq => exact heq
  | inr heq =>
    by_contra hne
    have hle := h.le
    have hroom := (h.fits (by omega)).room
    have hmul := Nat.mul_le_mul_right T.nPairsPerChunk hq
    omega

theorem sweepChunks_spec (hb : b < T.hashTableSize) (hn : 1 ≤ T.nPairsPerChunk) {fuel q : ℕ}
    (h : Sweeping T condition b chains pairs start chain l s)
    (hi : s.outerI = l.length ∨ s.outerI = q * T.nPairsPerChunk) (hfuel : chain.length ≤ q + fuel) :
    ∃ s' chain' l', Table.sweepChunks T condition b fuel chain[q]? s = some s' ∧
      Sweeping T condition b chains pairs start chain' l' s' ∧ s'.outerI = l'.length := by
  induction fuel generalizing s chain l q with
  | zero =>
    rw [List.getElem?_eq_none (by omega)]
    exact ⟨s, chain, l, rfl, h, h.at_end hi (by omega)⟩
  | succ fuel ih =>
    cases hc : chain[q]? with
    | none => exact ⟨s, chain, l, rfl, h, h.at_end hi (List.getElem?_eq_none_iff.1 hc)⟩
    | some c =>
      obtain ⟨s', chain', l', hslots, h', hc', hlen, hi'⟩ :
          ∃ s' chain' l', Table.sweepSlots T condition b c (s.currentSize - s.outerI) 0 s = some s' ∧
            Sweeping T condition b chains pairs start chain' l' s' ∧
            chain'[q]? = some c ∧ chain'.length ≤ chain.length ∧
            (s'.outerI = l'.length ∨ s'.outerI = (q + 1) * T.nPairsPerChunk) := by
        rw [h.size_eq]
        cases hi with
        | inl heq =>
          refine ⟨s, chain, l, ?_, h, hc, le_rfl, Or.inl heq⟩
          rw [heq, Nat.sub_self]
          rfl
        | inr heq => exact sweepSlots_spec hb hn h (by omega) (by omega) rfl hc
      have hnext : (s'.table.heap c).next = chain'[q + 1]? := (h'.bucket hb).linked.next_eq hc'
      obtain ⟨s'', chain'', l'', hloop, h'', hdone⟩ := ih (q := q + 1) h' hi' (by omega)
      refine ⟨s'', chain'', l'', ?_, h'', hdone⟩
      unfold Table.sweepChunks
      simp [hslots, hnext, hloop]

theorem EmptiesAt.congr_kept {n : ℕ} {l : List (K × V)} (start : List (K × V))
    (hperm : l.Perm (start.filter fun pair => !holdsFor condition pair)) :
    EmptiesAt n condition start l.length ↔
      EmptiesAt n condition start (start.filter fun pair => !holdsFor condition pair).length := by
  rw [hperm.length_eq]

def LeavesEmptyChunk (n : ℕ) (condition : K → V → Bool) (pairs : List (K × V)) : Prop :=
  EmptiesAt n condition pairs (pairs.filter fun pair => !holdsFor condition pair).length

structure BucketSwept (n : ℕ) (condition : K → V → Bool) (before after : List (K × V))
    (chain chain' : List ℕ) : Prop where
  perm : after.Perm (before.filter fun pair => !holdsFor condition pair)
  nil_iff : chain' = [] ↔ chain = []
  layout : Fits n after.length chain'.length ∧ ¬ LeavesEmptyChunk n condition before ∨
    LeavesEmptyChunk n condition before ∧ chain'.length = after.length / n + 1

theorem sweepBucket_spec (condition : K → V → Bool) (h : Holds T s.table chains free pairs) (hb : b < T.hashTableSize)
    (hn : 1 ≤ T.nPairsPerChunk) (hfits : Fits T.nPairsPerChunk (pairs b).length (chains b).length) :
    ∃ s' chain' free' l' seen gone, Table.sweepBucket T condition s b = some s' ∧
      Holds T s'.table (update chains b chain') free' (update pairs b l') ∧
      BucketSwept T.nPairsPerChunk condition (pairs b) l' (chains b) chain' ∧
      s'.evaluated = s.evaluated ++ seen ∧ seen.Perm (pairs b) ∧
      s'.destroyed = s.destroyed ++ gone ∧ gone.Perm ((pairs b).filter (holdsFor condition)) := by
  have hbucket := h.bucket b hb
  have hbegin : Sweeping T condition b chains pairs s (chains b) (pairs b)
      { s with outerI := 0, currentSize := (s.table.hashTable b).size } := by
    refine ⟨⟨free, by simpa using h⟩, hbucket.size_eq, ⟨[], [], swept_zero _ _, by simp, by simp⟩,
      Iff.rfl, Or.inl ⟨hfits, ?_⟩⟩
    intro hzero hempties
    have hpos := hempties.1
    rw [← hzero] at hpos
    exact absurd hpos (lt_irrefl 0)
  have hlength := h.length_le b
  obtain ⟨s', chain', l', hsweep, hend, hdone⟩ := sweepChunks_spec hb hn (q := 0)
    hbegin (Or.inr (by simp)) (show (chains b).length ≤ 0 + s.table.allocated by omega)
  obtain ⟨free', hholds⟩ := hend.holds
  obtain ⟨seen, gone, hswept, hevaluated, hdestroyed⟩ := hend.swept
  rw [hdone] at hswept
  have hperm := hswept.left_perm
  refine ⟨s', chain', free', l', seen, gone, ?_, hholds, ⟨hperm, hend.nil_iff, ?_⟩, hevaluated,
    hswept.all_seen, hdestroyed, hswept.gone_perm⟩
  · unfold Table.sweepBucket
    rw [← hbucket.linked.head_eq]
    exact hsweep
  · unfold LeavesEmptyChunk
    rw [← EmptiesAt.congr_kept _ hperm]
    cases hend.layout with
    | inl hfits' => exact Or.inl ⟨hfits'.1, hfits'.2 hdone⟩
    | inr hempty => exact Or.inr hempty.2

/-! ## All buckets -/

/-- The first `m` buckets were swept. -/
structure SweptBuckets (T : Template K) (condition : K → V → Bool) (chains : ℕ → List ℕ)
    (pairs : ℕ → List (K × V)) (m : ℕ) (chains' : ℕ → List ℕ) (pairs' : ℕ → List (K × V))
    (s : Sweep K V) : Prop where
  holds : ∃ free, Holds T s.table chains' free pairs'
  swept : ∀ b < m, BucketSwept T.nPairsPerChunk condition (pairs b) (pairs' b) (chains b) (chains' b)
  rest : ∀ b, m ≤ b → chains' b = chains b ∧ pairs' b = pairs b
  evaluated : s.evaluated.Perm ((List.range m).flatMap pairs)
  destroyed : s.destroyed.Perm (((List.range m).flatMap pairs).filter (holdsFor condition))

theorem removeIf_spec (condition : K → V → Bool) (h : Holds T t chains free pairs) (hn : 1 ≤ T.nPairsPerChunk)
    (hfits : ∀ b < T.hashTableSize, Fits T.nPairsPerChunk (pairs b).length (chains b).length) :
    ∃ s chains' pairs', t.removeIf T condition = some s ∧
      SweptBuckets T condition chains pairs T.hashTableSize chains' pairs' s := by
  unfold Table.removeIf
  suffices hm : ∀ m ≤ T.hashTableSize, ∃ s chains' pairs',
      (List.range m).foldlM (Table.sweepBucket T condition)
        { table := t, outerI := 0, currentSize := 0, evaluated := [], destroyed := [] } = some s ∧
      SweptBuckets T condition chains pairs m chains' pairs' s from hm _ le_rfl
  intro m hle
  induction m with
  | zero => exact ⟨_, chains, pairs, rfl, ⟨free, h⟩, by simp, fun _ _ => ⟨rfl, rfl⟩, by simp, by simp⟩
  | succ m ih =>
    obtain ⟨s, chains', pairs', hfold, hswept⟩ := ih (by omega)
    obtain ⟨free', hholds⟩ := hswept.holds
    obtain ⟨hchain, hpairs⟩ := hswept.rest m le_rfl
    obtain ⟨s', chain', free'', l', seen, gone, hbucket, hholds', hl', hevaluated, hseen, hdestroyed,
      hgone⟩ := sweepBucket_spec condition hholds (b := m) (by omega) hn
        (by rw [hchain, hpairs]; exact hfits m (by omega))
    rw [hpairs] at hseen hgone
    refine ⟨s', _, _, ?_, ⟨free'', hholds'⟩, ?_, ?_, ?_, ?_⟩
    · rw [range_succ, foldlM_append, hfold]
      simp [hbucket]
    · intro b hb
      by_cases heq : b = m
      · subst heq
        rw [update_self, update_self, ← hchain, ← hpairs]
        exact hl'
      · rw [update_of_ne heq, update_of_ne heq]
        exact hswept.swept b (by omega)
    · intro b hb
      rw [update_of_ne (by omega), update_of_ne (by omega)]
      exact hswept.rest b (by omega)
    · rw [range_succ, flatMap_append, hevaluated]
      exact hswept.evaluated.append (by simpa using hseen)
    · rw [range_succ, flatMap_append, filter_append, hdestroyed]
      exact hswept.destroyed.append (by simpa using hgone)

/-! ## Which calls leave a well-formed table -/

/-- The table stores `pairs`. A chain that was used has as many chunks as its pairs need, at least
one; so the last chunk is not empty where there are several. -/
def WellFormed (T : Template K) (t : Table K V) (pairs : ℕ → List (K × V)) : Prop :=
  ∃ chains free, Holds T t chains free pairs ∧ ∀ b < T.hashTableSize, (t.hashTable b).chunk = none ∨
      (chains b).length = max 1 (((pairs b).length + T.nPairsPerChunk - 1) / T.nPairsPerChunk)

structure FaultFree (T : Template K) (t : Table K V) : Prop where
  remove : ∀ key, ∃ r, t.getAndRemoveImpl T key = some r
  insert : ∀ key stored ctorValue, T.equals key stored = true →
    ∃ r, t.getAndInsert T key stored ctorValue = some r

structure RemovesExactly (T : Template K) (t : Table K V) (pairs : ℕ → List (K × V))
    (condition : K → V → Bool) (s : Sweep K V) : Prop where
  removeIf_eq : t.removeIf T condition = some s
  evaluated : s.evaluated.Perm ((List.range T.hashTableSize).flatMap pairs)
  destroyed : s.destroyed.Perm (((List.range T.hashTableSize).flatMap pairs).filter (holdsFor condition))
  stored : ∃ pairs', WellFormed T s.table pairs' ∧ ∀ b < T.hashTableSize,
    (pairs' b).Perm ((pairs b).filter fun pair => !holdsFor condition pair) ∧
      ((s.table.hashTable b).chunk = none ↔ (t.hashTable b).chunk = none)
  faultFree : FaultFree T s.table

theorem Fits.of_len_eq {n size len : ℕ} (hn : 1 ≤ n) (hlen : len = max 1 ((size + n - 1) / n)) :
    Fits n size len := by
  have hdiv := Nat.div_add_mod (size + n - 1) n
  have hmod := Nat.mod_lt (size + n - 1) hn
  generalize (size + n - 1) / n = d at hlen hdiv
  rw [Nat.mul_comm] at hdiv
  refine ⟨?_, ?_⟩
  · have hmul := Nat.mul_le_mul_right n (show d ≤ len by omega)
    omega
  · intro htwo
    have hd : len = d := by omega
    subst hd
    have hpred : len * n = (len - 1) * n + n := by
      rw [← Nat.succ_mul, Nat.succ_eq_add_one, Nat.sub_add_cancel (by omega)]
    omega

theorem WellFormed.fits (hn : 1 ≤ T.nPairsPerChunk) (h : Holds T t chains free pairs)
    (hlen : ∀ b < T.hashTableSize, (t.hashTable b).chunk = none ∨ (chains b).length =
      max 1 (((pairs b).length + T.nPairsPerChunk - 1) / T.nPairsPerChunk)) :
    ∀ b < T.hashTableSize, Fits T.nPairsPerChunk (pairs b).length (chains b).length := by
  intro b hb
  cases hlen b hb with
  | inl hnone =>
    have hbucket := h.bucket b hb
    have hnil : chains b = [] := hbucket.linked.eq_nil_iff.2 hnone
    have hpairs : pairs b = [] := by
      refine eq_nil_iff_forall_not_mem.2 fun pair hpair => ?_
      obtain ⟨p, hp⟩ := mem_iff_getElem?.1 hpair
      obtain ⟨c, hc, -⟩ := hbucket.slot p pair hp
      simp [hnil] at hc
    rw [hnil, hpairs]
    exact ⟨by simp, by simp⟩
  | inr heq => exact Fits.of_len_eq hn heq

theorem WellFormed.faultFree (hT : T.Lawful) (h : WellFormed T t pairs) : FaultFree T t := by
  obtain ⟨chains, free, hholds, hlen⟩ := h
  have hfits := WellFormed.fits hT.nPairsPerChunk_pos hholds hlen
  refine ⟨fun key => ?_, fun key stored ctorValue hstored => ?_⟩
  · cases getAndRemoveImpl_spec hT hholds key (hfits _ (hT.bucketIdx_lt key)) with
    | inl hfound =>
      obtain ⟨p, pair, -, -, t', chain', free', hcall, -⟩ := hfound
      exact ⟨_, hcall⟩
    | inr hnone => exact ⟨_, hnone.2⟩
  · cases getAndInsert_spec hT hholds ctorValue (hfits _ (hT.bucketIdx_lt key)) hstored with
    | inl hfound =>
      obtain ⟨pair, -, -, hcall⟩ := hfound
      exact ⟨_, hcall⟩
    | inr hnone =>
      obtain ⟨-, t', chain', free', hcall, -⟩ := hnone
      exact ⟨_, hcall⟩

theorem chunk_none_iff {chains' : ℕ → List ℕ} {pairs' : ℕ → List (K × V)} {free' : List ℕ}
    (h : Holds T t chains free pairs) (h' : Holds T t' chains' free' pairs')
    (hb : b < T.hashTableSize) (hnil : chains' b = [] ↔ chains b = []) :
    (t'.hashTable b).chunk = none ↔ (t.hashTable b).chunk = none := by
  rw [← (h.bucket b hb).linked.eq_nil_iff, ← (h'.bucket b hb).linked.eq_nil_iff]
  exact hnil

theorem removesExactly_of_kept (hT : T.Lawful) (h : WellFormed T t pairs)
    (hkept : ∀ b < T.hashTableSize, ¬ LeavesEmptyChunk T.nPairsPerChunk condition (pairs b)) :
    ∃ s, RemovesExactly T t pairs condition s := by
  obtain ⟨chains, free, hholds, hlen⟩ := h
  have hn := hT.nPairsPerChunk_pos
  obtain ⟨s, chains', pairs', hcall, hswept⟩ := removeIf_spec condition hholds hn
    (WellFormed.fits hn hholds hlen)
  obtain ⟨free', hholds'⟩ := hswept.holds
  have hwell : WellFormed T s.table pairs' := by
    refine ⟨chains', free', hholds', fun b hb => ?_⟩
    cases (hswept.swept b hb).layout with
    | inl hfits =>
      rcases Nat.eq_zero_or_pos (chains' b).length with hzero | hpos
      · exact Or.inl ((hholds'.bucket b hb).linked.eq_nil_iff.1 (length_eq_zero_iff.1 hzero))
      · exact Or.inr (hfits.1.len_eq hn hpos)
    | inr hempty => exact absurd hempty.1 (hkept b hb)
  exact ⟨s, hcall, hswept.evaluated, hswept.destroyed, ⟨pairs', hwell, fun b hb =>
    ⟨(hswept.swept b hb).perm, chunk_none_iff hholds hholds' hb (hswept.swept b hb).nil_iff⟩⟩,
    hwell.faultFree hT⟩

theorem not_removesExactly (hT : T.Lawful) (h : WellFormed T t pairs) (hb : b < T.hashTableSize)
    (hleaves : LeavesEmptyChunk T.nPairsPerChunk condition (pairs b)) (s : Sweep K V) :
    ¬ RemovesExactly T t pairs condition s := by
  intro hexact
  obtain ⟨chains, free, hholds, hlen⟩ := h
  have hn := hT.nPairsPerChunk_pos
  obtain ⟨s', chains', pairs', hcall, hswept⟩ := removeIf_spec condition hholds hn
    (WellFormed.fits hn hholds hlen)
  have hss : s' = s := Option.some.inj (hcall.symm.trans hexact.removeIf_eq)
  subst hss
  obtain ⟨free', hholds'⟩ := hswept.holds
  obtain ⟨pairs'', ⟨chains'', free'', hholds'', hlen''⟩, hpairs⟩ := hexact.stored
  have hbucket := hholds'.bucket b hb
  have hbucket'' := hholds''.bucket b hb
  have hchain : chains'' b = chains' b := hbucket''.linked.unique hbucket.linked
  have hsize : (pairs'' b).length = (pairs' b).length :=
    hbucket''.size_eq.symm.trans hbucket.size_eq
  have hkept := (hswept.swept b hb).perm.length_eq
  obtain ⟨hpos, hdvd, -⟩ := id hleaves
  rw [← hkept] at hpos hdvd
  have hused : (s'.table.hashTable b).chunk ≠ none := by
    rw [ne_eq, ← hbucket.linked.eq_nil_iff]
    intro hnil
    have hroom : BucketHolds T s'.table b (chains' b) (pairs' b) := hbucket
    obtain ⟨c, hc, -⟩ := hroom.slot 0 _ (List.getElem?_eq_getElem hpos)
    simp [hnil] at hc
  cases (hswept.swept b hb).layout with
  | inl hfits => exact hfits.2 hleaves
  | inr hempty =>
    have hlen := (hlen'' b hb).resolve_left hused
    rw [hchain, hsize, hempty.2] at hlen
    obtain ⟨q, hq⟩ := hdvd
    rw [hq] at hlen hpos
    have hq : 0 < q := Nat.pos_of_mul_pos_left hpos
    rw [Nat.mul_div_cancel_left _ hn, Nat.add_sub_assoc hn, Nat.mul_add_div hn,
      Nat.div_eq_of_lt (by omega)] at hlen
    omega

/-- The table is well-formed again iff no bucket has a pair that begins a chunk other than the first
one, stands where the kept pairs end, and is removed. -/
theorem removesExactly_iff (hT : T.Lawful) (h : WellFormed T t pairs) (condition : K → V → Bool) :
    (∃ s, RemovesExactly T t pairs condition s) ↔
      ∀ b < T.hashTableSize, ¬ LeavesEmptyChunk T.nPairsPerChunk condition (pairs b) := by
  constructor
  · intro hexact b hb hleaves
    obtain ⟨s, hexact⟩ := hexact
    exact not_removesExactly hT h hb hleaves s hexact
  · intro hkept
    exact removesExactly_of_kept hT h hkept

/-! ## The map that is left -/

def twoPairs : Table ℕ ℕ where
  hashTable := fun _ => { size := 2, chunk := some 0 }
  chunkFreeList := none
  heap := fun c =>
    { keys := fun j => if j = 0 then some c else none
      values := fun j => if j = 0 then some c else none
      next := if c = 0 then some 1 else none }
  allocated := 2

theorem twoPairs_wellFormed : WellFormed (remainders 1 1) twoPairs (fun _ => [(0, 0), (1, 1)]) := by
  refine ⟨fun b => if b = 0 then [0, 1] else [], [], ⟨?_, rfl, ?_, ?_, ?_⟩, ?_⟩
  · intro b hb
    have hzero : b = 0 := Nat.lt_one_iff.1 hb
    subst hzero
    refine ⟨rfl, by simp [chain_cons, twoPairs, Table.nextOf], ?_⟩
    intro p pair hp
    rcases p with _ | _ | p
    · have heq : (0, 0) = pair := Option.some.inj hp
      exact ⟨0, rfl, heq ▸ ⟨rfl, rfl⟩⟩
    · have heq : (1, 1) = pair := Option.some.inj hp
      exact ⟨1, rfl, heq ▸ ⟨rfl, rfl⟩⟩
    · simp at hp
  · intro b
    by_cases hb : b = 0 <;> simp [hb]
  · intro b b' hne
    by_cases hb : b = 0
    · subst hb
      simp [hne.symm]
    · simp [hb]
  · intro b c hc
    by_cases hb : b = 0
    · have hmem : c = 0 ∨ c = 1 := by simpa [hb] using hc
      show c < 2
      omega
    · simp [hb] at hc
  · intro b hb
    have hzero : b = 0 := Nat.lt_one_iff.1 hb
    subst hzero
    exact Or.inr rfl

/-- The first pair is removed and the second one moves to its place. -/
theorem removesExactly_iff_first : ∃ s, RemovesExactly (remainders 1 1) twoPairs
    (fun _ => [(0, 0), (1, 1)]) (fun key _ => key == 0) s := by
  refine (removesExactly_iff (remainders_lawful le_rfl le_rfl) twoPairs_wellFormed _).2 ?_
  intro b _ hleaves
  obtain ⟨-, -, pair, hpair, hdrop⟩ := hleaves
  have heq : pair = (1, 1) := by
    simpa [holdsFor] using hpair.symm
  simp [heq, holdsFor] at hdrop

/-- The sole pair of the second chunk is removed, and the chunk stays in the chain. -/
theorem not_removesExactly_second : ¬ ∀ (T : Template ℕ) (t : Table ℕ ℕ) (pairs : ℕ → List (ℕ × ℕ))
    (condition : ℕ → ℕ → Bool), T.Lawful → WellFormed T t pairs →
      ∃ s, RemovesExactly T t pairs condition s := by
  intro hall
  have hT : (remainders 1 1).Lawful := remainders_lawful le_rfl le_rfl
  obtain ⟨s, hexact⟩ := hall (remainders 1 1) twoPairs _ (fun key _ => key == 1) hT twoPairs_wellFormed
  have hb : 0 < (remainders 1 1).hashTableSize := Nat.zero_lt_one
  refine not_removesExactly hT twoPairs_wellFormed hb ⟨?_, ?_, (1, 1), ?_, rfl⟩ s hexact
  · decide
  · exact ⟨_, (Nat.one_mul _).symm⟩
  · rfl

end ScoreP.FastHashtab
