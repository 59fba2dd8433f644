import Mathlib.Data.List.Infix
import ScoreP.FastHashtab.Monotonic

/-!
# One step of a thread

As in the sequential table, bucket `b` stores a list of pairs along a chain of chunks; both lists
only grow, and only by the thread that holds `insert_lock`. `LocInv` says what a thread knows at
each place: how far it has searched, where it found its key, where it will insert. What a thread
without the lock knows stays true when the lists grow (`LocInv.mono`), what the holder knows stays
true because nobody else writes to its bucket (`LocInv.congr`). `act_effect` is the step lemma.
-/

namespace ScoreP.FastHashtab.Monotonic

open List Option

variable {K V I : Type} {T : Template K} {c c' : Shared K V} {b : ℕ} {chain chain' : List ℕ}
  {pairs pairs' : List (K × V)} {key : K}

/-! ## Buckets -/

def Chunk.Stores (chunk : Chunk K V) (j : ℕ) (pair : K × V) : Prop :=
  chunk.keys j = some pair.1 ∧ chunk.values j = some pair.2

def Tight (n size : ℕ) (chain : List ℕ) : Prop :=
  chain ≠ [] → (chain.length - 1) * n < size

/-- Bucket `b` stores `pairs` along `chain`. -/
structure BucketInv (T : Template K) (c : Shared K V) (b : ℕ) (chain : List ℕ)
    (pairs : List (K × V)) : Prop where
  size_eq : c.size b = pairs.length
  head_eq : c.bucketChunk b = chain[0]?
  next_eq : ∀ q p p', chain[q]? = some p → chain[q + 1]? = some p' → (c.heap p).next = some (some p')
  slot : ∀ i pair, pairs[i]? = some pair → ∃ p, chain[i / T.nPairsPerChunk]? = some p ∧
    (c.heap p).Stores (i % T.nPairsPerChunk) pair
  nodup : chain.Nodup
  lt_allocated : ∀ p ∈ chain, p < c.allocated
  tight : c.insertLock b = false → Tight T.nPairsPerChunk pairs.length chain
  distinct : pairs.Pairwise fun x y => T.equals x.1 y.1 = false
  bucketIdx : ∀ pair ∈ pairs, T.bucketIdx pair.1 = b

variable {ref : ChunkRef}

theorem BucketInv.load_eq (h : BucketInv T c b chain pairs) {q p : ℕ} (href : RefAt chain q ref)
    (hp : chain[q]? = some p) : c.load b ref = some p := by
  cases q with
  | zero =>
    have heq : ref = .bucketChunk := href
    subst heq
    exact h.head_eq.trans hp
  | succ q =>
    obtain ⟨p', hp', rfl⟩ := href
    simp [Shared.load, h.next_eq q p' p hp' hp]

theorem BucketInv.slot_at (h : BucketInv T c b chain pairs) {q i j : ℕ}
    (hj : j < T.nPairsPerChunk) (hi : i = q * T.nPairsPerChunk + j) {pair : K × V}
    (hp : pairs[i]? = some pair) : ∃ p, chain[q]? = some p ∧ (c.heap p).Stores j pair := by
  obtain ⟨p, hp, hslot⟩ := h.slot i pair hp
  obtain ⟨hdiv, hmod⟩ := div_mod_of_index hj hi
  rw [hdiv] at hp
  rw [hmod] at hslot
  exact ⟨p, hp, hslot⟩

/-! ## What a thread knows -/

def Fresh (T : Template K) (key : K) (pairs : List (K × V)) : Prop :=
  ∀ pair ∈ pairs, T.equals key pair.1 = false

/-- The first `i` pairs were compared, none is equal. -/
structure Searched (T : Template K) (chain : List ℕ) (pairs : List (K × V)) (key : K) (i j : ℕ)
    (ref : ChunkRef) : Prop where
  cursor : ∃ q, Cursor T.nPairsPerChunk chain q i j ref
  le : i ≤ pairs.length
  fresh : Fresh T key (pairs.take i)

def Hit (T : Template K) (chain : List ℕ) (pairs : List (K × V)) (key : K) (j : ℕ) (ref : ChunkRef) : Prop :=
  ∃ q i pair, RefAt chain q ref ∧ i = q * T.nPairsPerChunk + j ∧ j < T.nPairsPerChunk ∧
    pairs[i]? = some pair ∧ T.equals key pair.1 = true

/-- The slot behind the last pair, in chunk `p`. -/
structure InsertAt (T : Template K) (chain : List ℕ) (pairs : List (K × V)) (key : K)
    (currentSize j : ℕ) (ref : ChunkRef) (p : ℕ) : Prop where
  size_eq : currentSize = pairs.length
  fresh : Fresh T key pairs
  slot : ∃ q, pairs.length = q * T.nPairsPerChunk + j ∧ RefAt chain q ref ∧
    chain[q]? = some p ∧ chain.length = q + 1
  lt : j < T.nPairsPerChunk

def LocInv (T : Template K) (c : Shared K V) (chain : List ℕ) (pairs : List (K × V)) (key : K) : Loc K V → Prop
  | .load => True
  | .search phase i j currentSize chunk => Searched T chain pairs key i j chunk ∧ i ≤ currentSize ∧
      currentSize ≤ pairs.length ∧
      (phase = .locked → currentSize = pairs.length ∧ Tight T.nPairsPerChunk pairs.length chain)
  | .reload i j oldSize chunk | .trylock i j oldSize chunk | .loadWait i j oldSize chunk =>
      Searched T chain pairs key i j chunk ∧ i = oldSize
  | .loadLocked i j chunk =>
      Searched T chain pairs key i j chunk ∧ Tight T.nPairsPerChunk pairs.length chain
  | .readValue j chunk | .readInserted j chunk => Hit T chain pairs key j chunk
  | .unlockFound j chunk | .unlock j chunk =>
      Hit T chain pairs key j chunk ∧ Tight T.nPairsPerChunk pairs.length chain
  | .newChunk currentSize j chunk => Searched T chain pairs key currentSize j chunk ∧
      currentSize = pairs.length ∧ Tight T.nPairsPerChunk pairs.length chain
  | .nextNull currentSize j chunk | .writeKey currentSize j chunk
  | .valueCtor currentSize j chunk => ∃ p, InsertAt T chain pairs key currentSize j chunk p
  | .writeValue currentSize j chunk _ => ∃ p, InsertAt T chain pairs key currentSize j chunk p ∧
      ∃ stored, (c.heap p).keys j = some stored ∧ T.equals key stored = true
  | .storeSize currentSize j chunk => ∃ p, InsertAt T chain pairs key currentSize j chunk p ∧
      ∃ pair, (c.heap p).Stores j pair ∧ T.equals key pair.1 = true
  | .returnGet _ => True
  | .returnInsert value _ => ∃ pair ∈ pairs, T.equals key pair.1 = true ∧ pair.2 = value
  | .fault => False

/-- The thread holds `insert_lock`. -/
def Loc.locked : Loc K V → Bool
  | .search .locked _ _ _ _ | .loadLocked _ _ _ | .unlockFound _ _ | .newChunk _ _ _
  | .nextNull _ _ _ | .writeKey _ _ _ | .valueCtor _ _ _ | .writeValue _ _ _ _
  | .storeSize _ _ _ | .unlock _ _ => true
  | _ => false

def Loc.stored : Loc K V → Bool
  | .unlock _ _ | .readInserted _ _ | .returnInsert _ true => true
  | _ => false

/-! ### Growing lists -/

theorem getElem?_of_isPrefix {α : Type} {l l' : List α} (h : l <+: l') {i : ℕ} {a : α}
    (hi : l[i]? = some a) : l'[i]? = some a := by
  obtain ⟨rest, rfl⟩ := h
  rw [List.getElem?_append_left (List.getElem?_eq_some_iff.1 hi).1]
  exact hi

theorem refAt_mono {q : ℕ} (h : RefAt chain q ref) (hchain : chain <+: chain') : RefAt chain' q ref := by
  cases q with
  | zero => exact h
  | succ q =>
    obtain ⟨p, hp, rfl⟩ := h
    exact ⟨p, getElem?_of_isPrefix hchain hp, rfl⟩

theorem Searched.mono {i j : ℕ} (h : Searched T chain pairs key i j ref) (hchain : chain <+: chain')
    (hpairs : pairs <+: pairs') : Searched T chain' pairs' key i j ref := by
  obtain ⟨⟨q, hcursor⟩, hle, hfresh⟩ := h
  refine ⟨⟨q, hcursor.index, hcursor.le, hcursor.pos, refAt_mono hcursor.refAt hchain⟩,
    hle.trans hpairs.length_le, ?_⟩
  obtain ⟨rest, rfl⟩ := hpairs
  rw [take_append_of_le_length hle]
  exact hfresh

theorem Hit.mono {j : ℕ} (h : Hit T chain pairs key j ref) (hchain : chain <+: chain')
    (hpairs : pairs <+: pairs') : Hit T chain' pairs' key j ref := by
  obtain ⟨q, i, pair, href, hi, hj, hp, heq⟩ := h
  exact ⟨q, i, pair, refAt_mono href hchain, hi, hj, getElem?_of_isPrefix hpairs hp, heq⟩

theorem LocInv.mono {loc : Loc K V} (h : LocInv T c chain pairs key loc)
    (hloc : loc.locked = false) (hchain : chain <+: chain') (hpairs : pairs <+: pairs') :
    LocInv T c' chain' pairs' key loc := by
  cases loc with
  | load => trivial
  | search phase i j currentSize chunk =>
    obtain ⟨hsearched, hi, hsize, -⟩ := h
    refine ⟨hsearched.mono hchain hpairs, hi, hsize.trans hpairs.length_le, ?_⟩
    intro hphase
    subst hphase
    simp [Loc.locked] at hloc
  | reload i j oldSize chunk => exact ⟨h.1.mono hchain hpairs, h.2⟩
  | readValue j chunk => exact Hit.mono h hchain hpairs
  | trylock i j oldSize chunk => exact ⟨h.1.mono hchain hpairs, h.2⟩
  | loadWait i j oldSize chunk => exact ⟨h.1.mono hchain hpairs, h.2⟩
  | readInserted j chunk => exact Hit.mono h hchain hpairs
  | returnGet value => trivial
  | returnInsert value inserted =>
    obtain ⟨pair, hmem, hpair⟩ := h
    exact ⟨pair, hpairs.subset hmem, hpair⟩
  | fault => exact h
  | loadLocked | unlockFound | newChunk | nextNull | writeKey | valueCtor | writeValue | storeSize
  | unlock => simp [Loc.locked] at hloc

theorem LocInv.congr {loc : Loc K V} (h : LocInv T c chain pairs key loc)
    (hheap : ∀ p ∈ chain, c'.heap p = c.heap p) : LocInv T c' chain pairs key loc := by
  have hmem : ∀ {currentSize j : ℕ} {ref : ChunkRef} {p : ℕ},
      InsertAt T chain pairs key currentSize j ref p → p ∈ chain := by
    intro currentSize j ref p hat
    obtain ⟨q, -, -, hp, -⟩ := hat.slot
    exact mem_of_getElem? hp
  cases loc with
  | writeValue currentSize j chunk value =>
    obtain ⟨p, hat, hkey⟩ := h
    exact ⟨p, hat, (hheap p (hmem hat)).symm ▸ hkey⟩
  | storeSize currentSize j chunk =>
    obtain ⟨p, hat, hpair⟩ := h
    exact ⟨p, hat, (hheap p (hmem hat)).symm ▸ hpair⟩
  | _ => exact h

/-! ## Reading -/

theorem Searched.compare (h : BucketInv T c b chain pairs) (hn : 1 ≤ T.nPairsPerChunk) {i j : ℕ}
    (hsearched : Searched T chain pairs key i j ref) (hi : i < pairs.length) :
    ∃ q' j' ref', c.compare T b key j ref = some (j', ref', T.equals key pairs[i].1) ∧
      RefAt chain q' ref' ∧ i = q' * T.nPairsPerChunk + j' ∧ j' < T.nPairsPerChunk := by
  obtain ⟨q, hcursor⟩ := hsearched.cursor
  have hindex := hcursor.index
  have hget : pairs[i]? = some pairs[i] := getElem?_eq_getElem hi
  by_cases hj : j = T.nPairsPerChunk
  · have hi' : i = (q + 1) * T.nPairsPerChunk + 0 := by
      rw [Nat.add_mul]
      omega
    obtain ⟨p, hp, hkey, -⟩ := h.slot_at hn hi' hget
    have hlt := (List.getElem?_eq_some_iff.1 hp).1
    have hprev : chain[q]? = some chain[q] := getElem?_eq_getElem (by omega)
    have hload := h.load_eq hcursor.refAt hprev
    have hrefAt : RefAt chain (q + 1) (.next chain[q]) := ⟨chain[q], hprev, rfl⟩
    refine ⟨q + 1, 0, .next chain[q], ?_, hrefAt, hi', hn⟩
    simp [Shared.compare, Shared.advance, Shared.keyAt, hj, hload, h.load_eq hrefAt hp, hkey]
  · have hle := hcursor.le
    obtain ⟨p, hp, hkey, -⟩ := h.slot_at (by omega) hindex hget
    refine ⟨q, j, ref, ?_, hcursor.refAt, hindex, by omega⟩
    simp [Shared.compare, Shared.advance, Shared.keyAt, hj, h.load_eq hcursor.refAt hp, hkey]

theorem Searched.succ {i j q' j' : ℕ} {ref ref' : ChunkRef}
    (h : Searched T chain pairs key i j ref) (hi : i < pairs.length)
    (hne : T.equals key pairs[i].1 = false) (href : RefAt chain q' ref')
    (hindex : i = q' * T.nPairsPerChunk + j') (hj : j' < T.nPairsPerChunk) :
    Searched T chain pairs key (i + 1) (j' + 1) ref' := by
  refine ⟨⟨q', by omega, by omega, by omega, href⟩, hi, ?_⟩
  intro pair hpair
  rw [take_add_one, getElem?_eq_getElem hi] at hpair
  cases mem_append.1 hpair with
  | inl hold => exact h.fresh pair hold
  | inr hnew =>
    rw [toList_some, mem_singleton] at hnew
    rw [hnew]
    exact hne

theorem Searched.fresh_all {i j : ℕ} (h : Searched T chain pairs key i j ref)
    (hi : pairs.length ≤ i) : Fresh T key pairs := by
  have hfresh := h.fresh
  rw [take_of_length_le hi] at hfresh
  exact hfresh

theorem Hit.valueAt (h : BucketInv T c b chain pairs) {j : ℕ} (hhit : Hit T chain pairs key j ref) :
    ∃ pair ∈ pairs, T.equals key pair.1 = true ∧ c.valueAt b j ref = some pair.2 := by
  obtain ⟨q, i, pair, href, hi, hj, hget, heq⟩ := hhit
  obtain ⟨p, hp, -, hvalue⟩ := h.slot_at hj hi hget
  refine ⟨pair, mem_of_getElem? hget, heq, ?_⟩
  simp [Shared.valueAt, h.load_eq href hp, hvalue]

variable {currentSize j p : ℕ}

theorem InsertAt.load_eq (h : BucketInv T c b chain pairs)
    (hat : InsertAt T chain pairs key currentSize j ref p) : c.load b ref = some p := by
  obtain ⟨q, -, href, hp, -⟩ := hat.slot
  exact h.load_eq href hp

/-! ## The step lemma -/

structure Effect (T : Template K) (c c' : Shared K V) (key : K) (b : ℕ) (loc loc' : Loc K V)
    (chain chain' : List ℕ) (pairs pairs' : List (K × V)) : Prop where
  bucket : BucketInv T c' b chain' pairs'
  knows : LocInv T c' chain' pairs' key loc'
  chain_extends : chain <+: chain'
  pairs_extends : pairs <+: pairs'
  size_other : ∀ b', b' ≠ b → c'.size b' = c.size b'
  bucketChunk_other : ∀ b', b' ≠ b → c'.bucketChunk b' = c.bucketChunk b'
  insertLock_other : ∀ b', b' ≠ b → c'.insertLock b' = c.insertLock b'
  heap_other : ∀ p < c.allocated, p ∉ chain → c'.heap p = c.heap p
  allocated_le : c.allocated ≤ c'.allocated
  mem_chain : ∀ p ∈ chain', p ∈ chain ∨ c.allocated ≤ p
  quiet : loc.locked = false → c'.heap = c.heap ∧ chain' = chain ∧ pairs' = pairs
  acquire : loc'.locked = true → loc.locked = false → c.insertLock b = false
  held : loc'.locked = true → c'.insertLock b = true
  release : loc.locked = false → c.insertLock b = true → c'.insertLock b = true
  published : (pairs' = pairs ∧ loc'.stored = loc.stored) ∨
    loc.stored = false ∧ loc'.stored = true ∧ Fresh T key pairs ∧
      ∃ pair, pairs' = pairs ++ [pair] ∧ T.equals key pair.1 = true
  missed : loc' = .returnGet none → Fresh T key pairs

section Act

variable {loc loc' : Loc K V}

theorem effect_local (h : BucketInv T c b chain pairs) (hloc : LocInv T c chain pairs key loc')
    (hheld : loc.locked = true → c.insertLock b = true) (hlocked : loc'.locked = loc.locked)
    (hstored : loc'.stored = loc.stored) (hmissed : loc' = .returnGet none → Fresh T key pairs) :
    Effect T c c key b loc loc' chain chain pairs pairs where
  bucket := h
  knows := hloc
  chain_extends := prefix_rfl
  pairs_extends := prefix_rfl
  size_other := fun _ _ => rfl
  bucketChunk_other := fun _ _ => rfl
  insertLock_other := fun _ _ => rfl
  heap_other := fun _ _ _ => rfl
  allocated_le := le_rfl
  mem_chain := fun _ hp => Or.inl hp
  quiet := fun _ => ⟨rfl, rfl, rfl⟩
  acquire := by
    intro h' hnot
    rw [hlocked, hnot] at h'
    exact Bool.noConfusion h'
  held := fun h' => hheld (hlocked ▸ h')
  release := fun _ hlock => hlock
  published := Or.inl ⟨rfl, hstored⟩
  missed := hmissed

theorem effect_setLock (loc' : Loc K V) (h : BucketInv T c b chain pairs)
    (hloc : LocInv T c chain pairs key loc') (hopen : loc.locked = false → c.insertLock b = false)
    (htight : Tight T.nPairsPerChunk pairs.length chain) (hstored : loc'.stored = loc.stored)
    (hmissed : loc' ≠ .returnGet none) :
    Effect T c (c.setLock b loc'.locked) key b loc loc' chain chain pairs pairs where
  bucket := { h with tight := fun _ => htight }
  knows := hloc.congr fun _ _ => rfl
  chain_extends := prefix_rfl
  pairs_extends := prefix_rfl
  size_other := fun _ _ => rfl
  bucketChunk_other := fun _ _ => rfl
  insertLock_other := fun b' hne => by simp [Shared.setLock, hne]
  heap_other := fun _ _ _ => rfl
  allocated_le := le_rfl
  mem_chain := fun _ hp => Or.inl hp
  quiet := fun _ => ⟨rfl, rfl, rfl⟩
  acquire := fun _ hnot => hopen hnot
  held := fun h' => by simp [Shared.setLock, h']
  release := by
    intro hnot hlock
    rw [hopen hnot] at hlock
    exact Bool.noConfusion hlock
  published := Or.inl ⟨rfl, hstored⟩
  missed := fun heq => absurd heq hmissed

theorem effect_setChunk (h : BucketInv T c b chain pairs)
    (hat : InsertAt T chain pairs key currentSize j ref p) {f : Chunk K V → Chunk K V}
    (hf : ∀ chunk : Chunk K V, ∀ j', j' ≠ j →
      (f chunk).keys j' = chunk.keys j' ∧ (f chunk).values j' = chunk.values j')
    (hloc : LocInv T (c.setChunk p f) chain pairs key loc') (hheld : c.insertLock b = true)
    (hlock : loc.locked = true) (hstored : loc'.stored = loc.stored) (hmissed : loc' ≠ .returnGet none) :
    Effect T c (c.setChunk p f) key b loc loc' chain chain pairs pairs := by
  obtain ⟨q, hlen, href, hp, hlast⟩ := hat.slot
  have hj := hat.lt
  obtain ⟨hdiv, hmod⟩ := div_mod_of_index hj hlen
  have hpmem : p ∈ chain := mem_of_getElem? hp
  have hother : ∀ p', p' ≠ p → (c.setChunk p f).heap p' = c.heap p' := by
    intro p' hne
    simp [Shared.setChunk, hne]
  refine
    { bucket := ?_, knows := hloc, chain_extends := prefix_rfl, pairs_extends := prefix_rfl
      size_other := fun _ _ => rfl, bucketChunk_other := fun _ _ => rfl
      insertLock_other := fun _ _ => rfl, heap_other := ?_, allocated_le := le_rfl
      mem_chain := fun _ hp => Or.inl hp, quiet := ?_, acquire := ?_, held := fun _ => hheld
      release := fun _ hheld => hheld, published := Or.inl ⟨rfl, hstored⟩
      missed := fun heq => absurd heq hmissed }
  · refine { h with next_eq := ?_, slot := ?_ }
    · intro q' p' p'' hp' hp''
      have hne : p' ≠ p := by
        intro heq
        have hlt := (List.getElem?_eq_some_iff.1 hp'').1
        have hqq : q' = q := (getElem?_inj (by omega) h.nodup).1 (hp'.trans (heq ▸ hp.symm))
        omega
      rw [hother p' hne]
      exact h.next_eq q' p' p'' hp' hp''
    · intro i pair hi
      obtain ⟨p', hp', hslot⟩ := h.slot i pair hi
      refine ⟨p', hp', ?_⟩
      by_cases heq : p' = p
      · subst heq
        have hne : i % T.nPairsPerChunk ≠ j := by
          intro hij
          have hlt := (List.getElem?_eq_some_iff.1 hi).1
          have := slot_inj h.nodup hp' (hdiv.symm ▸ hp) (hij.trans hmod.symm)
          omega
        obtain ⟨hkeys, hvalues⟩ := hf (c.heap p') _ hne
        simp only [Chunk.Stores, Shared.setChunk, Function.update_self, hkeys, hvalues]
        exact hslot
      · rw [hother p' heq]
        exact hslot
  · intro p' _ hp'
    refine hother p' fun heq => hp' (heq ▸ hpmem)
  · intro hnot
    rw [hlock] at hnot
    exact Bool.noConfusion hnot
  · intro _ hnot
    rw [hlock] at hnot
    exact Bool.noConfusion hnot

@[simp] theorem linkChunk_size (ref : ChunkRef) : (c.linkChunk b ref).size = c.size := by
  cases ref with
  | bucketChunk => rfl
  | next p => rfl

@[simp] theorem linkChunk_insertLock (ref : ChunkRef) : (c.linkChunk b ref).insertLock = c.insertLock := by
  cases ref with
  | bucketChunk => rfl
  | next p => rfl

@[simp] theorem linkChunk_allocated (ref : ChunkRef) : (c.linkChunk b ref).allocated = c.allocated + 1 := by
  cases ref with
  | bucketChunk => rfl
  | next p => rfl

theorem linkChunk_bucketChunk_of_ne {b' : ℕ} (ref : ChunkRef) (h : b' ≠ b) :
    (c.linkChunk b ref).bucketChunk b' = c.bucketChunk b' := by
  cases ref with
  | bucketChunk => simp [Shared.linkChunk, h]
  | next p => rfl

theorem linkChunk_heap {p : ℕ} (ref : ChunkRef) (h : p ≠ c.allocated) (hne : ref ≠ .next p) :
    (c.linkChunk b ref).heap p = c.heap p := by
  cases ref with
  | bucketChunk => simp [Shared.linkChunk, h]
  | next p' =>
    have hpp : p ≠ p' := fun heq => hne (heq ▸ rfl)
    simp [Shared.linkChunk, Shared.setChunk, h, hpp]

theorem linkChunk_stores {p j : ℕ} {pair : K × V} (ref : ChunkRef) (h : p ≠ c.allocated) :
    ((c.linkChunk b ref).heap p).Stores j pair ↔ (c.heap p).Stores j pair := by
  cases ref with
  | bucketChunk => rw [linkChunk_heap _ h (by simp)]
  | next p' =>
    by_cases hpp : p = p'
    · subst hpp
      simp [Shared.linkChunk, Shared.setChunk, Chunk.Stores, h]
    · rw [linkChunk_heap _ h (by simpa using fun heq => hpp heq.symm)]

theorem linkChunk_next {p : ℕ} : ((c.linkChunk b (.next p)).heap p).next = some (some c.allocated) := by
  simp [Shared.linkChunk, Shared.setChunk]

theorem effect_linkChunk (h : BucketInv T c b chain pairs) {currentSize : ℕ}
    (hn : 1 ≤ T.nPairsPerChunk) (hsize : currentSize = pairs.length) (hfresh : Fresh T key pairs)
    (href : RefAt chain chain.length ref) (hfull : pairs.length = chain.length * T.nPairsPerChunk)
    (hheld : c.insertLock b = true) (hlock : loc.locked = true) (hstored : loc.stored = false) :
    Effect T c (c.linkChunk b ref) key b loc (.nextNull currentSize 0 ref) chain
      (chain ++ [c.allocated]) pairs pairs := by
  have hne : ∀ p ∈ chain, p ≠ c.allocated := fun p hp => Nat.ne_of_lt (h.lt_allocated p hp)
  have hextends : chain <+: chain ++ [c.allocated] := prefix_append _ _
  have hlast : (chain ++ [c.allocated])[chain.length]? = some c.allocated := by simp
  have hnodup : (chain ++ [c.allocated]).Nodup := by
    refine nodup_append.2 ⟨h.nodup, by simp, ?_⟩
    intro p hp p' hp'
    rw [mem_singleton.1 hp']
    exact hne p hp
  have hreflast : ∀ p, ref = .next p → ∃ q, chain[q]? = some p ∧ chain.length = q + 1 := by
    intro p heq
    subst heq
    cases hlen : chain.length with
    | zero =>
      rw [hlen] at href
      cases href
    | succ q =>
      rw [hlen] at href
      obtain ⟨p', hp', heq⟩ := href
      cases heq
      exact ⟨q, hp', rfl⟩
  refine
    { bucket := ?_, knows := ?_, chain_extends := hextends, pairs_extends := prefix_rfl
      size_other := fun _ _ => by simp
      bucketChunk_other := fun b' hb' => linkChunk_bucketChunk_of_ne ref hb'
      insertLock_other := fun _ _ => by simp, heap_other := ?_, allocated_le := by simp
      mem_chain := ?_, quiet := ?_, acquire := ?_, held := fun _ => by simpa using hheld
      release := fun _ hheld => by simpa using hheld
      published := Or.inl ⟨rfl, hstored.symm⟩, missed := by simp }
  · refine ⟨?_, ?_, ?_, ?_, hnodup, ?_, ?_, h.distinct, h.bucketIdx⟩
    · rw [linkChunk_size]
      exact h.size_eq
    · cases ref with
      | bucketChunk =>
        have hnil : chain = [] := by
          cases hchain : chain with
          | nil => rfl
          | cons p ps =>
            rw [hchain] at href
            obtain ⟨_, _, heq⟩ := href
            cases heq
        simp [Shared.linkChunk, hnil]
      | next p =>
        obtain ⟨q, hq, hlen⟩ := hreflast p rfl
        rw [getElem?_append_left (by omega)]
        exact h.head_eq
    · intro q p p' hp hp'
      by_cases hq : q + 1 < chain.length
      · rw [getElem?_append_left (by omega)] at hp
        rw [getElem?_append_left hq] at hp'
        rw [linkChunk_heap ref (hne p (mem_of_getElem? hp))]
        · exact h.next_eq q p p' hp hp'
        · intro heq
          obtain ⟨q', hq', hlen⟩ := hreflast p heq
          have hqq : q = q' := (getElem?_inj (by omega) h.nodup).1 (hp.trans hq'.symm)
          omega
      · have hlt := (List.getElem?_eq_some_iff.1 hp').1
        rw [length_append, length_singleton] at hlt
        have hqlen : chain.length = q + 1 := by omega
        rw [← hqlen, hlast] at hp'
        rw [getElem?_append_left (by omega)] at hp
        rw [hqlen] at href
        obtain ⟨p'', hp'', heq⟩ := href
        have hpp : p'' = p := some.inj (hp''.symm.trans hp)
        subst hpp
        subst heq
        rw [linkChunk_next, ← hp']
    · intro i pair hi
      obtain ⟨p, hp, hslot⟩ := h.slot i pair hi
      exact ⟨p, getElem?_of_isPrefix hextends hp, (linkChunk_stores ref (hne p (mem_of_getElem? hp))).2 hslot⟩
    · intro p hp
      rw [linkChunk_allocated]
      cases mem_append.1 hp with
      | inl hmem => exact Nat.lt_succ_of_lt (h.lt_allocated p hmem)
      | inr hnew =>
        rw [mem_singleton.1 hnew]
        exact Nat.lt_succ_self _
    · intro hopen
      rw [linkChunk_insertLock, hheld] at hopen
      exact Bool.noConfusion hopen
  · refine ⟨c.allocated, hsize, hfresh, ⟨chain.length, by omega, refAt_mono href hextends, hlast, ?_⟩, hn⟩
    simp
  · intro p hp hpc
    refine linkChunk_heap ref (Nat.ne_of_lt hp) ?_
    intro heq
    obtain ⟨q, hq, -⟩ := hreflast p heq
    exact hpc (mem_of_getElem? hq)
  · intro p hp
    rw [mem_append, mem_singleton] at hp
    exact hp.imp_right fun heq => le_of_eq heq.symm
  · intro hnot
    rw [hlock] at hnot
    exact Bool.noConfusion hnot
  · intro _ hnot
    rw [hlock] at hnot
    exact Bool.noConfusion hnot

theorem effect_storeSize (h : BucketInv T c b chain pairs) (hT : T.Lawful)
    (hat : InsertAt T chain pairs key currentSize j ref p) {pair : K × V}
    (hslot : (c.heap p).Stores j pair) (heq : T.equals key pair.1 = true)
    (hkey : T.bucketIdx key = b) (hheld : c.insertLock b = true) :
    Effect T c { c with size := Function.update c.size b (currentSize + 1) } key b
      (.storeSize currentSize j ref) (.unlock j ref) chain chain pairs (pairs ++ [pair]) := by
  obtain ⟨q, hlen, href, hp, hlast⟩ := hat.slot
  have hj := hat.lt
  obtain ⟨hdiv, hmod⟩ := div_mod_of_index hj hlen
  have hnew : (pairs ++ [pair])[pairs.length]? = some pair := by simp
  have htight : Tight T.nPairsPerChunk (pairs ++ [pair]).length chain := by
    intro _
    rw [hlast, Nat.add_sub_cancel, length_append, length_singleton, hlen]
    omega
  refine
    { bucket := ?_, knows := ?_, chain_extends := prefix_rfl
      pairs_extends := prefix_append _ _
      size_other := fun b' hb' => by simp [hb']
      bucketChunk_other := fun _ _ => rfl, insertLock_other := fun _ _ => rfl
      heap_other := fun _ _ _ => rfl, allocated_le := le_rfl, mem_chain := fun _ hp => Or.inl hp
      quiet := by simp [Loc.locked], acquire := by simp [Loc.locked], held := fun _ => hheld
      release := fun _ hheld => hheld
      published := Or.inr ⟨rfl, rfl, hat.fresh, pair, rfl, heq⟩, missed := by simp }
  · refine { h with size_eq := ?_, slot := ?_, tight := fun _ => htight, distinct := ?_, bucketIdx := ?_ }
    · simp [hat.size_eq]
    · intro i pair' hi
      by_cases hlt : i < pairs.length
      · rw [getElem?_append_left hlt] at hi
        exact h.slot i pair' hi
      · have hlt' := (List.getElem?_eq_some_iff.1 hi).1
        rw [length_append, length_singleton] at hlt'
        have hii : i = pairs.length := by omega
        subst hii
        have hpair : pair = pair' := some.inj (hnew.symm.trans hi)
        subst hpair
        exact ⟨p, hdiv.symm ▸ hp, hmod.symm ▸ hslot⟩
    · refine pairwise_append.2 ⟨h.distinct, pairwise_singleton _ _, ?_⟩
      intro x hx y hy
      rw [mem_singleton.1 hy]
      by_contra hne
      have hsame := hT.trans _ _ _ heq (hT.symm _ _ (eq_true_of_ne_false hne))
      rw [hat.fresh x hx] at hsame
      exact Bool.noConfusion hsame
    · intro pair' hpair'
      cases mem_append.1 hpair' with
      | inl hold => exact h.bucketIdx pair' hold
      | inr hnew =>
        rw [mem_singleton.1 hnew, ← hkey]
        exact (hT.bucketIdx_eq _ _ heq).symm
  · exact ⟨⟨q, pairs.length, pair, href, hlen, hj, hnew, heq⟩, htight⟩

theorem act_search (h : BucketInv T c b chain pairs) (hn : 1 ≤ T.nPairsPerChunk) {call : Call K}
    (hb : T.bucketIdx call.key = b) {phase : Phase} {i j currentSize : ℕ} {chunk : ChunkRef}
    (hloc : LocInv T c chain pairs call.key (.search phase i j currentSize chunk))
    (hheld : (Loc.search phase i j currentSize chunk : Loc K V).locked = true → c.insertLock b = true)
    (hact : c.act T call (.search phase i j currentSize chunk) .run = some (c', loc')) :
    Effect T c c' call.key b (.search phase i j currentSize chunk) loc' chain chain pairs pairs := by
  obtain ⟨hsearched, hle, hsize, hphase⟩ := hloc
  simp only [Shared.act, hb] at hact
  by_cases hi : i < currentSize
  · rw [if_pos hi] at hact
    have hlt : i < pairs.length := by omega
    obtain ⟨q', j', chunk', hcompare, href, hindex, hj'⟩ := hsearched.compare h hn hlt
    rw [hcompare] at hact
    cases heq : T.equals call.key pairs[i].1 with
    | true =>
      rw [heq] at hact
      simp only [some.injEq, Prod.mk.injEq] at hact
      obtain ⟨rfl, rfl⟩ := hact
      have hhit : Hit T chain pairs call.key j' chunk' :=
        ⟨q', i, pairs[i], href, hindex, hj', getElem?_eq_getElem hlt, heq⟩
      cases phase with
      | get => exact effect_local h hhit hheld rfl rfl (by simp)
      | wait => exact effect_local h hhit hheld rfl rfl (by simp)
      | locked => exact effect_local h ⟨hhit, (hphase rfl).2⟩ hheld rfl rfl (by simp)
    | false =>
      rw [heq] at hact
      simp only [some.injEq, Prod.mk.injEq] at hact
      obtain ⟨rfl, rfl⟩ := hact
      have hnext := hsearched.succ hlt heq href hindex hj'
      refine effect_local h ⟨hnext, by omega, hsize, hphase⟩ hheld ?_ rfl (by simp)
      cases phase with
      | get => rfl
      | wait => rfl
      | locked => rfl
  · rw [if_neg hi] at hact
    have hii : i = currentSize := by omega
    cases phase with
    | get =>
      simp only [some.injEq, Prod.mk.injEq] at hact
      obtain ⟨rfl, rfl⟩ := hact
      exact effect_local h ⟨hsearched, hii⟩ hheld rfl rfl (by simp)
    | wait =>
      simp only [some.injEq, Prod.mk.injEq] at hact
      obtain ⟨rfl, rfl⟩ := hact
      exact effect_local h ⟨hsearched, hii⟩ hheld rfl rfl (by simp)
    | locked =>
      simp only [some.injEq, Prod.mk.injEq] at hact
      obtain ⟨rfl, rfl⟩ := hact
      exact effect_local h ⟨hii ▸ hsearched, hphase rfl⟩ hheld rfl rfl (by simp)

theorem act_newChunk (h : BucketInv T c b chain pairs) (hn : 1 ≤ T.nPairsPerChunk) {call : Call K}
    (hb : T.bucketIdx call.key = b) {j currentSize : ℕ} {chunk : ChunkRef}
    (hloc : LocInv T c chain pairs call.key (.newChunk currentSize j chunk)) (hheld : c.insertLock b = true)
    (hact : c.act T call (.newChunk currentSize j chunk) .run = some (c', loc')) :
    ∃ chain', Effect T c c' call.key b (.newChunk currentSize j chunk) loc' chain chain' pairs pairs := by
  obtain ⟨hsearched, hsize, htight⟩ := hloc
  have hfresh := hsearched.fresh_all (le_of_eq hsize.symm)
  obtain ⟨q, hindex, hle, hpos, href⟩ := hsearched.cursor
  simp only [Shared.act, hb] at hact
  by_cases hzero : currentSize = 0
  · rw [if_pos hzero] at hact
    simp only [some.injEq, Prod.mk.injEq] at hact
    obtain ⟨rfl, rfl⟩ := hact
    have hnil : chain = [] := by
      by_contra hne
      have hlt := htight hne
      omega
    have hj : j = 0 := by omega
    rw [hj]
    refine ⟨_, effect_linkChunk h hn hsize hfresh ?_ ?_ hheld rfl rfl⟩
    · rw [hnil]
      rfl
    · rw [hnil, ← hsize, hzero]
      simp
  · rw [if_neg hzero] at hact
    have hj : 0 < j := by
      by_contra hnot
      exact hzero (hpos (by omega))
    have hlt : currentSize - 1 < pairs.length := by omega
    obtain ⟨p, hp, -⟩ := h.slot_at (q := q) (j := j - 1) (by omega) (by omega)
      (getElem?_eq_getElem hlt)
    have hqlt := (List.getElem?_eq_some_iff.1 hp).1
    have htight := htight (by
      intro hnil
      simp [hnil] at hqlt)
    have hmul : (chain.length - 1) * T.nPairsPerChunk < (q + 1) * T.nPairsPerChunk := by
      rw [Nat.add_mul]
      omega
    have hlen : chain.length = q + 1 := by
      have := Nat.lt_of_mul_lt_mul_right hmul
      omega
    by_cases hfull : j = T.nPairsPerChunk
    · rw [if_pos hfull, h.load_eq href hp] at hact
      simp only [some.injEq, Prod.mk.injEq] at hact
      obtain ⟨rfl, rfl⟩ := hact
      refine ⟨_, effect_linkChunk h hn hsize hfresh ?_ ?_ hheld rfl rfl⟩
      · rw [hlen]
        exact ⟨p, hp, rfl⟩
      · rw [hlen, ← hsize, hindex, Nat.add_mul]
        omega
    · rw [if_neg hfull] at hact
      simp only [some.injEq, Prod.mk.injEq] at hact
      obtain ⟨rfl, rfl⟩ := hact
      refine ⟨chain, effect_local h ?_ (fun _ => hheld) rfl rfl (by simp)⟩
      exact ⟨p, hsize, hfresh, ⟨q, by omega, href, hp, hlen⟩, by omega⟩

/-- The step lemma. -/
theorem act_effect (hT : T.Lawful) {call : Call K} (h : BucketInv T c (T.bucketIdx call.key) chain pairs)
    (hloc : LocInv T c chain pairs call.key loc)
    (hheld : loc.locked = true → c.insertLock (T.bucketIdx call.key) = true) {input : Input K V}
    (hinput : input.Legal T call) (hact : c.act T call loc input = some (c', loc')) :
    ∃ chain' pairs', Effect T c c' call.key (T.bucketIdx call.key) loc loc' chain chain' pairs pairs' := by
  have hn := hT.nPairsPerChunk_pos
  generalize hb : T.bucketIdx call.key = b at h hheld
  cases input with
  | call _ =>
    cases loc <;> simp [Shared.act] at hact
  | ctor stored value =>
    cases loc with
    | valueCtor currentSize j chunk =>
      obtain ⟨p, hat⟩ := hloc
      simp only [Shared.act, hb, hat.load_eq h, some.injEq, Prod.mk.injEq] at hact
      obtain ⟨rfl, rfl⟩ := hact
      refine ⟨chain, pairs, effect_setChunk h hat ?_ ?_ (hheld rfl) rfl rfl (by simp)⟩
      · intro chunk j' hne
        simp [hne]
      · exact ⟨p, hat, stored, by simp [Shared.setChunk], hinput⟩
    | _ => simp [Shared.act] at hact
  | run =>
    cases loc with
    | search phase i j currentSize chunk => exact ⟨chain, pairs, act_search h hn hb hloc hheld hact⟩
    | newChunk currentSize j chunk =>
      obtain ⟨chain', heffect⟩ := act_newChunk h hn hb hloc (hheld rfl) hact
      exact ⟨chain', pairs, heffect⟩
    | load =>
      simp only [Shared.act, hb, some.injEq, Prod.mk.injEq] at hact
      obtain ⟨rfl, rfl⟩ := hact
      refine ⟨chain, pairs, effect_local h ⟨⟨⟨0, cursor_zero _ _⟩, by omega, ?_⟩, by omega, ?_, ?_⟩
        hheld rfl rfl (by simp)⟩
      · simp [Fresh]
      · exact le_of_eq h.size_eq
      · simp
    | reload i j oldSize chunk =>
      obtain ⟨hsearched, hi⟩ := hloc
      simp only [Shared.act, hb] at hact
      by_cases hmore : c.size b > oldSize
      · rw [if_pos hmore] at hact
        simp only [some.injEq, Prod.mk.injEq] at hact
        obtain ⟨rfl, rfl⟩ := hact
        exact ⟨chain, pairs, effect_local h ⟨hsearched, by omega, le_of_eq h.size_eq, by simp⟩ hheld
          rfl rfl (by simp)⟩
      · rw [if_neg hmore, h.size_eq] at *
        have hfresh := hsearched.fresh_all (by omega)
        cases call with
        | get key =>
          simp only [some.injEq, Prod.mk.injEq] at hact
          obtain ⟨rfl, rfl⟩ := hact
          exact ⟨chain, pairs, effect_local h trivial hheld rfl rfl fun _ => hfresh⟩
        | getAndInsert key =>
          simp only [some.injEq, Prod.mk.injEq] at hact
          obtain ⟨rfl, rfl⟩ := hact
          exact ⟨chain, pairs, effect_local h ⟨hsearched, hi⟩ hheld rfl rfl (by simp)⟩
    | readValue j chunk =>
      obtain ⟨pair, hmem, heq, hvalue⟩ := Hit.valueAt h hloc
      simp only [Shared.act, hb, hvalue] at hact
      cases call with
      | get key =>
        simp only [some.injEq, Prod.mk.injEq] at hact
        obtain ⟨rfl, rfl⟩ := hact
        exact ⟨chain, pairs, effect_local h trivial hheld rfl rfl (by simp)⟩
      | getAndInsert key =>
        simp only [some.injEq, Prod.mk.injEq] at hact
        obtain ⟨rfl, rfl⟩ := hact
        exact ⟨chain, pairs, effect_local h ⟨pair, hmem, heq, rfl⟩ hheld rfl rfl (by simp)⟩
    | trylock i j oldSize chunk =>
      simp only [Shared.act, hb] at hact
      cases hlock : c.insertLock b with
      | true =>
        simp only [hlock, if_true, some.injEq, Prod.mk.injEq] at hact
        obtain ⟨rfl, rfl⟩ := hact
        exact ⟨chain, pairs, effect_local h hloc hheld rfl rfl (by simp)⟩
      | false =>
        simp only [hlock, Bool.false_eq_true, if_false, some.injEq, Prod.mk.injEq] at hact
        obtain ⟨rfl, rfl⟩ := hact
        have htight := h.tight hlock
        exact ⟨chain, pairs, effect_setLock (.loadLocked i j chunk) h ⟨hloc.1, htight⟩
          (fun _ => hlock) htight rfl (by simp)⟩
    | loadWait i j oldSize chunk =>
      obtain ⟨hsearched, hi⟩ := hloc
      simp only [Shared.act, hb] at hact
      by_cases hmore : c.size b > oldSize
      · rw [if_pos hmore] at hact
        simp only [some.injEq, Prod.mk.injEq] at hact
        obtain ⟨rfl, rfl⟩ := hact
        exact ⟨chain, pairs, effect_local h ⟨hsearched, by omega, le_of_eq h.size_eq, by simp⟩ hheld
          rfl rfl (by simp)⟩
      · rw [if_neg hmore] at hact
        simp only [some.injEq, Prod.mk.injEq] at hact
        obtain ⟨rfl, rfl⟩ := hact
        exact ⟨chain, pairs, effect_local h ⟨hsearched, hi⟩ hheld rfl rfl (by simp)⟩
    | loadLocked i j chunk =>
      obtain ⟨hsearched, htight⟩ := hloc
      simp only [Shared.act, hb, some.injEq, Prod.mk.injEq] at hact
      obtain ⟨rfl, rfl⟩ := hact
      rw [h.size_eq]
      exact ⟨chain, pairs, effect_local h ⟨hsearched, hsearched.le, le_rfl, fun _ => ⟨rfl, htight⟩⟩
        hheld rfl rfl (by simp)⟩
    | unlockFound j chunk =>
      obtain ⟨hhit, htight⟩ := hloc
      simp only [Shared.act, hb, some.injEq, Prod.mk.injEq] at hact
      obtain ⟨rfl, rfl⟩ := hact
      exact ⟨chain, pairs, effect_setLock (.readValue j chunk) h hhit (by simp [Loc.locked])
        htight rfl (by simp)⟩
    | nextNull currentSize j chunk =>
      obtain ⟨p, hat⟩ := hloc
      simp only [Shared.act, hb, hat.load_eq h, some.injEq, Prod.mk.injEq] at hact
      obtain ⟨rfl, rfl⟩ := hact
      exact ⟨chain, pairs, effect_setChunk h hat (fun _ _ _ => ⟨rfl, rfl⟩) ⟨p, hat⟩ (hheld rfl) rfl
        rfl (by simp)⟩
    | writeKey currentSize j chunk =>
      obtain ⟨p, hat⟩ := hloc
      simp only [Shared.act, hb, hat.load_eq h, hat.lt, if_true, some.injEq, Prod.mk.injEq] at hact
      obtain ⟨rfl, rfl⟩ := hact
      refine ⟨chain, pairs, effect_setChunk h hat ?_ ⟨p, hat⟩ (hheld rfl) rfl rfl (by simp)⟩
      intro chunk j' hne
      simp [hne]
    | writeValue currentSize j chunk value =>
      obtain ⟨p, hat, stored, hkey, heq⟩ := hloc
      simp only [Shared.act, hb, hat.load_eq h, some.injEq, Prod.mk.injEq] at hact
      obtain ⟨rfl, rfl⟩ := hact
      refine ⟨chain, pairs, effect_setChunk h hat ?_ ?_ (hheld rfl) rfl rfl (by simp)⟩
      · intro chunk j' hne
        simp [hne]
      · exact ⟨p, hat, (stored, value), by simp [Chunk.Stores, Shared.setChunk, hkey], heq⟩
    | storeSize currentSize j chunk =>
      obtain ⟨p, hat, pair, hslot, heq⟩ := hloc
      have hkeyAt : c.keyAt b j chunk = some pair.1 := by
        simp [Shared.keyAt, hat.load_eq h, hslot.1]
      simp only [Shared.act, hb, hkeyAt, heq, if_true, some.injEq, Prod.mk.injEq] at hact
      obtain ⟨rfl, rfl⟩ := hact
      exact ⟨chain, _, effect_storeSize h hT hat hslot heq hb (hheld rfl)⟩
    | unlock j chunk =>
      obtain ⟨hhit, htight⟩ := hloc
      simp only [Shared.act, hb, some.injEq, Prod.mk.injEq] at hact
      obtain ⟨rfl, rfl⟩ := hact
      exact ⟨chain, pairs, effect_setLock (.readInserted j chunk) h hhit
        (by simp [Loc.locked]) htight rfl (by simp)⟩
    | readInserted j chunk =>
      obtain ⟨pair, hmem, heq, hvalue⟩ := Hit.valueAt h hloc
      simp only [Shared.act, hb, hvalue, some.injEq, Prod.mk.injEq] at hact
      obtain ⟨rfl, rfl⟩ := hact
      exact ⟨chain, pairs, effect_local h ⟨pair, hmem, heq, rfl⟩ hheld rfl rfl (by simp)⟩
    | valueCtor | returnGet | returnInsert | fault => simp [Shared.act] at hact

end Act

end ScoreP.FastHashtab.Monotonic
