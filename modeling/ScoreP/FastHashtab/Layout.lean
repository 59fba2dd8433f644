import Mathlib.Data.List.Range
import ScoreP.FastHashtab.Table
import ScoreP.Foundations.Chain

/-!
# How the table stores pairs

Bucket `b` stores the list `pairs b` along its chain of chunks `chains b`: the pair at position `p`
is in slot `p % nPairsPerChunk` of the chunk at position `p / nPairsPerChunk`. `Holds` says so for
all buckets, and that the chains and the free list do not share chunks. It is about places only and
is kept by each primitive of the source: a chunk taken into a chain, a slot written, the size
stored, a chunk released.
-/

namespace ScoreP.FastHashtab

open Foundations
open List hiding chain_cons

variable {K V : Type} {T : Template K} {t t' : Table K V} {b : ℕ} {chain free : List ℕ}
  {pairs : List (K × V)}

def Table.nextOf (t : Table K V) (c : ℕ) : Option ℕ :=
  (t.heap c).next

def Chunk.Stores (chunk : Chunk K V) (j : ℕ) (pair : K × V) : Prop :=
  chunk.keys j = some pair.1 ∧ chunk.values j = some pair.2

/-- Bucket `b` stores `pairs` along `chain`. -/
structure BucketHolds (T : Template K) (t : Table K V) (b : ℕ) (chain : List ℕ)
    (pairs : List (K × V)) : Prop where
  size_eq : (t.hashTable b).size = pairs.length
  linked : Chain t.nextOf (t.hashTable b).chunk chain
  slot : ∀ p pair, pairs[p]? = some pair → ∃ c, chain[p / T.nPairsPerChunk]? = some c ∧
    (t.heap c).Stores (p % T.nPairsPerChunk) pair

structure Holds (T : Template K) (t : Table K V) (chains : ℕ → List ℕ) (free : List ℕ)
    (pairs : ℕ → List (K × V)) : Prop where
  bucket : ∀ b < T.hashTableSize, BucketHolds T t b (chains b) (pairs b)
  freeList : Chain t.nextOf t.chunkFreeList free
  nodup : ∀ b, (chains b ++ free).Nodup
  disjoint : ∀ b b', b ≠ b' → (chains b).Disjoint (chains b')
  allocated : ∀ b, ∀ c ∈ chains b ++ free, c < t.allocated

theorem init_holds (T : Template K) : Holds T (Table.init : Table K V) (fun _ => []) [] (fun _ => []) where
  bucket := fun b _ => ⟨rfl, rfl, by simp⟩
  freeList := rfl
  nodup := by simp
  disjoint := by simp
  allocated := by simp

/-! ## Changing one bucket -/

theorem BucketHolds.congr (h : BucketHolds T t b chain pairs)
    (htable : t'.hashTable b = t.hashTable b) (hheap : ∀ c ∈ chain, t'.heap c = t.heap c) :
    BucketHolds T t' b chain pairs where
  size_eq := by
    rw [htable]
    exact h.size_eq
  linked := by
    rw [htable]
    refine h.linked.congr fun c hc => ?_
    unfold Table.nextOf
    rw [hheap c hc]
  slot := by
    intro p pair hp
    obtain ⟨c, hc, hslot⟩ := h.slot p pair hp
    exact ⟨c, hc, hheap c (mem_of_getElem? hc) ▸ hslot⟩

structure Touches (t t' : Table K V) (b : ℕ) (owned owned' : List ℕ) : Prop where
  nodup : owned'.Nodup
  mem : ∀ c ∈ owned', c ∈ owned ∨ t.allocated ≤ c
  lt : ∀ c ∈ owned', c < t'.allocated
  le : t.allocated ≤ t'.allocated
  table : ∀ b', b' ≠ b → t'.hashTable b' = t.hashTable b'
  heap : ∀ c < t.allocated, c ∉ owned → t'.heap c = t.heap c

variable {pairs : ℕ → List (K × V)} {chains : ℕ → List ℕ}

theorem Holds.update (h : Holds T t chains free pairs) (hb : b < T.hashTableSize)
    {chain' free' : List ℕ} {pairs' : List (K × V)} (hbucket : BucketHolds T t' b chain' pairs')
    (hfree : Chain t'.nextOf t'.chunkFreeList free')
    (htouches : Touches t t' b (chains b ++ free) (chain' ++ free')) :
    Holds T t' (Function.update chains b chain') free' (Function.update pairs b pairs') := by
  have hother : ∀ b', b' ≠ b → ∀ c ∈ chains b', c ∉ chain' ++ free' := by
    intro b' hne c hc hmem
    cases htouches.mem c hmem with
    | inl howned =>
      cases mem_append.1 howned with
      | inl hchain => exact h.disjoint b' b hne hc hchain
      | inr hfree => exact (nodup_append.1 (h.nodup b')).2.2 c hc c hfree rfl
    | inr hge =>
      have hlt := h.allocated b' c (mem_append_left _ hc)
      omega
  have hheap : ∀ b', b' ≠ b → ∀ c ∈ chains b', t'.heap c = t.heap c := by
    intro b' hne c hc
    refine htouches.heap c (h.allocated b' c (mem_append_left _ hc)) ?_
    intro howned
    cases mem_append.1 howned with
    | inl hchain => exact h.disjoint b' b hne hc hchain
    | inr hfree => exact (nodup_append.1 (h.nodup b')).2.2 c hc c hfree rfl
  have hne_chain : ∀ b', b' ≠ b → Function.update chains b chain' b' = chains b' :=
    fun b' hne => Function.update_of_ne hne _ _
  constructor
  · intro b' hb'
    by_cases heq : b' = b
    · subst heq
      simpa using hbucket
    · rw [hne_chain b' heq, Function.update_of_ne heq]
      exact (h.bucket b' hb').congr (htouches.table b' heq) (hheap b' heq)
  · exact hfree
  · intro b'
    by_cases heq : b' = b
    · subst heq
      simpa using htouches.nodup
    · rw [hne_chain b' heq]
      refine nodup_append.2 ⟨(nodup_append.1 (h.nodup b')).1,
        (nodup_append.1 htouches.nodup).2.1, ?_⟩
      intro c hc c' hc' hcc
      exact hother b' heq c hc (mem_append_right _ (hcc ▸ hc'))
  · intro b₁ b₂ hne
    by_cases heq₁ : b₁ = b
    · subst heq₁
      rw [Function.update_self, hne_chain b₂ hne.symm]
      intro c hc hc'
      exact hother b₂ hne.symm c hc' (mem_append_left _ hc)
    · rw [hne_chain b₁ heq₁]
      by_cases heq₂ : b₂ = b
      · subst heq₂
        rw [Function.update_self]
        intro c hc hc'
        exact hother b₁ hne c hc (mem_append_left _ hc')
      · rw [hne_chain b₂ heq₂]
        exact h.disjoint b₁ b₂ hne
  · intro b' c hc
    by_cases heq : b' = b
    · subst heq
      rw [Function.update_self] at hc
      exact htouches.lt c hc
    · rw [hne_chain b' heq] at hc
      cases mem_append.1 hc with
      | inl hchain =>
        have hlt := h.allocated b' c (mem_append_left _ hchain)
        have hle := htouches.le
        omega
      | inr hfree => exact htouches.lt c (mem_append_right _ hfree)

/-! ## Links -/

@[simp] theorem setNext_hashTable (c : ℕ) (p : Option ℕ) : (t.setNext c p).hashTable = t.hashTable := rfl

@[simp] theorem setNext_chunkFreeList (c : ℕ) (p : Option ℕ) :
    (t.setNext c p).chunkFreeList = t.chunkFreeList := rfl

@[simp] theorem setNext_allocated (c : ℕ) (p : Option ℕ) : (t.setNext c p).allocated = t.allocated := rfl

theorem setNext_heap_of_ne {c c' : ℕ} (p : Option ℕ) (h : c' ≠ c) : (t.setNext c p).heap c' = t.heap c' := by
  simp [Table.setNext, h]

@[simp] theorem nextOf_setNext_self (c : ℕ) (p : Option ℕ) : (t.setNext c p).nextOf c = p := by
  simp [Table.setNext, Table.nextOf]

theorem nextOf_setNext_of_ne {c c' : ℕ} (p : Option ℕ) (h : c' ≠ c) :
    (t.setNext c p).nextOf c' = t.nextOf c' := by
  simp [Table.nextOf, setNext_heap_of_ne p h]

variable {p : Option ℕ}

@[simp] theorem setNext_stores {c c' j : ℕ} {pair : K × V} :
    ((t.setNext c p).heap c').Stores j pair ↔ (t.heap c').Stores j pair := by
  by_cases h : c' = c
  · subst h
    simp [Table.setNext, Chunk.Stores]
  · rw [setNext_heap_of_ne p h]

variable {ref : ChunkRef}

theorem load_refAt (h : Chain t.nextOf (t.hashTable b).chunk chain) {q : ℕ}
    (href : RefAt chain q ref) : t.load b ref = chain[q]? := by
  cases q with
  | zero =>
    have heq : ref = .bucketChunk := href
    subst heq
    exact h.head_eq.symm
  | succ q =>
    obtain ⟨c, hc, rfl⟩ := href
    exact h.next_eq hc

/-! ## A chunk joins a chain -/

theorem store_chain (h : Chain t.nextOf (t.hashTable b).chunk chain) (hnodup : chain.Nodup)
    (href : RefAt chain chain.length ref) {c : ℕ} (hc : c ∉ chain) :
    Chain ((t.store b ref (some c)).setNext c none).nextOf
      (((t.store b ref (some c)).setNext c none).hashTable b).chunk (chain ++ [c]) := by
  cases chain using List.reverseRecOn with
  | nil =>
    have heq : ref = .bucketChunk := href
    subst heq
    rw [nil_append, chain_cons, chain_nil]
    exact ⟨by simp [Table.store], nextOf_setNext_self c none⟩
  | append_singleton as a _ =>
    rw [length_append, length_singleton] at href
    obtain ⟨a', ha', rfl⟩ := href
    simp only [List.getElem?_append_right (le_refl _), Nat.sub_self, List.getElem?_cons_zero,
      Option.some.injEq] at ha'
    subst ha'
    have hne : a ≠ c := by
      intro heq
      exact hc (by simp [heq])
    refine h.snoc ?_ ?_ (nextOf_setNext_self c none)
    · intro x hx
      have hxa : x ≠ a := (nodup_append.1 hnodup).2.2 x hx a mem_cons_self
      have hxc : x ≠ c := by
        intro heq
        exact hc (by simp [← heq, hx])
      rw [nextOf_setNext_of_ne none hxc]
      exact nextOf_setNext_of_ne _ hxa
    · rw [nextOf_setNext_of_ne none hne]
      exact nextOf_setNext_self a _

theorem assignNewChunk_cases (hfree : Chain t.nextOf t.chunkFreeList free) (ref : ChunkRef) :
    (∃ c rest, free = c :: rest ∧ Chain t.nextOf (t.nextOf c) rest ∧ t.assignNewChunk b ref =
      (({ t with chunkFreeList := t.nextOf c }).store b ref (some c)).setNext c none) ∨
    free = [] ∧ t.chunkFreeList = none ∧ t.assignNewChunk b ref =
      (({ t with allocated := t.allocated + 1 }).store b ref (some t.allocated)).setNext
        t.allocated none := by
  cases free with
  | nil =>
    have hnil : t.chunkFreeList = none := hfree
    exact Or.inr ⟨rfl, hnil, by simp [Table.assignNewChunk, hnil]⟩
  | cons c rest =>
    obtain ⟨hp, hrest⟩ := chain_cons.1 hfree
    exact Or.inl ⟨c, rest, rfl, hrest, by simp [Table.assignNewChunk, hp, Table.nextOf]⟩

theorem store_stores {c j : ℕ} {pair : K × V} :
    ((t.store b ref p).heap c).Stores j pair ↔ (t.heap c).Stores j pair := by
  cases ref with
  | bucketChunk => rfl
  | next c' => exact setNext_stores

theorem store_size : ((t.store b ref p).hashTable b).size = (t.hashTable b).size := by
  cases ref with
  | bucketChunk => simp [Table.store]
  | next c' => rfl

theorem store_hashTable_of_ne {b' : ℕ} (h : b' ≠ b) : (t.store b ref p).hashTable b' = t.hashTable b' := by
  cases ref with
  | bucketChunk => simp [Table.store, h]
  | next c' => rfl

theorem store_allocated : (t.store b ref p).allocated = t.allocated := by
  cases ref with
  | bucketChunk => rfl
  | next c' => rfl

theorem store_chunkFreeList : (t.store b ref p).chunkFreeList = t.chunkFreeList := by
  cases ref with
  | bucketChunk => rfl
  | next c' => rfl

theorem store_heap_of_refAt {q : ℕ} (href : RefAt chain q ref) {c : ℕ} (hc : c ∉ chain) :
    (t.store b ref p).heap c = t.heap c := by
  cases q with
  | zero =>
    have heq : ref = .bucketChunk := href
    subst heq
    rfl
  | succ q =>
    obtain ⟨c', hc', rfl⟩ := href
    refine setNext_heap_of_ne p ?_
    intro heq
    exact hc (heq ▸ mem_of_getElem? hc')

theorem attach_holds (h : Holds T t chains free pairs) (hb : b < T.hashTableSize)
    (href : RefAt (chains b) (chains b).length ref) (s : Table K V) (c : ℕ) (free' : List ℕ)
    (htable : s.hashTable = t.hashTable) (hheap : s.heap = t.heap)
    (hfree : Chain t.nextOf s.chunkFreeList free') (hnodup : (chains b ++ [c] ++ free').Nodup)
    (hmem : ∀ x ∈ chains b ++ [c] ++ free', x ∈ chains b ++ free ∨ t.allocated ≤ x)
    (hlt : ∀ x ∈ chains b ++ [c] ++ free', x < s.allocated) (hle : t.allocated ≤ s.allocated) :
    Holds T ((s.store b ref (some c)).setNext c none)
      (Function.update chains b (chains b ++ [c])) free' pairs := by
  rw [← Function.update_eq_self b pairs]
  have hbucket := h.bucket b hb
  have hnext : s.nextOf = t.nextOf := by
    unfold Table.nextOf
    rw [hheap]
  obtain ⟨hchain, -, hsep⟩ := nodup_append.1 hnodup
  obtain ⟨hchain, -, hc⟩ := nodup_append.1 hchain
  have hc : c ∉ chains b := fun hmem => hc c hmem c mem_cons_self rfl
  refine h.update hb ⟨?_, ?_, ?_⟩ ?_ ⟨hnodup, hmem, ?_, ?_, ?_, ?_⟩
  · rw [setNext_hashTable, store_size, htable]
    exact hbucket.size_eq
  · have hlinked := hbucket.linked
    rw [← hnext, ← htable] at hlinked
    exact store_chain hlinked hchain href hc
  · intro p pair hp
    obtain ⟨c', hc', hslot⟩ := hbucket.slot p pair hp
    refine ⟨c', ?_, ?_⟩
    · rw [List.getElem?_append_left (List.getElem?_eq_some_iff.1 hc').1]
      exact hc'
    · rw [setNext_stores, store_stores, hheap]
      exact hslot
  · rw [setNext_chunkFreeList, store_chunkFreeList]
    refine hfree.congr fun x hx => ?_
    have hxc : x ≠ c := fun heq => hsep c (by simp) x hx heq.symm
    have hxchain : x ∉ chains b := fun hmem => hsep x (mem_append_left _ hmem) x hx rfl
    rw [nextOf_setNext_of_ne none hxc, ← hnext]
    unfold Table.nextOf
    rw [store_heap_of_refAt href hxchain]
  · intro x hx
    rw [setNext_allocated, store_allocated]
    exact hlt x hx
  · rw [setNext_allocated, store_allocated]
    exact hle
  · intro b' hne
    rw [setNext_hashTable, store_hashTable_of_ne hne, htable]
  · intro x hx hxowned
    have hxc : x ≠ c := by
      intro heq
      cases hmem c (by simp) with
      | inl howned => exact hxowned (heq ▸ howned)
      | inr hge => omega
    have hxchain : x ∉ chains b := fun hmem => hxowned (mem_append_left _ hmem)
    rw [setNext_heap_of_ne none hxc, store_heap_of_refAt href hxchain, hheap]

theorem assignNewChunk_holds (h : Holds T t chains free pairs) (hb : b < T.hashTableSize)
    (href : RefAt (chains b) (chains b).length ref) :
    ∃ c rest, Holds T (t.assignNewChunk b ref) (Function.update chains b (chains b ++ [c])) rest pairs := by
  have hnodup := h.nodup b
  have hlt := h.allocated b
  cases assignNewChunk_cases (b := b) h.freeList ref with
  | inl hsome =>
    obtain ⟨c, rest, rfl, hrest, heq⟩ := hsome
    rw [heq]
    have hassoc : chains b ++ [c] ++ rest = chains b ++ c :: rest := by simp
    exact ⟨c, rest, attach_holds h hb href { t with chunkFreeList := t.nextOf c } c rest rfl rfl
      hrest (hassoc ▸ hnodup) (fun x hx => Or.inl (hassoc ▸ hx)) (fun x hx => hlt x (hassoc ▸ hx))
      le_rfl⟩
  | inr hnone =>
    obtain ⟨rfl, hnil, heq⟩ := hnone
    rw [heq]
    rw [append_nil] at hnodup hlt
    have hfresh : t.allocated ∉ chains b := fun hmem => absurd (hlt _ hmem) (lt_irrefl _)
    refine ⟨t.allocated, [], attach_holds h hb href { t with allocated := t.allocated + 1 }
      t.allocated [] rfl rfl (by rw [hnil]; rfl) ?_ ?_ ?_ (Nat.le_succ _)⟩
    · rw [append_nil, nodup_append]
      refine ⟨hnodup, by simp, ?_⟩
      intro x hx y hy hxy
      rw [mem_singleton] at hy
      exact hfresh (hy ▸ hxy ▸ hx)
    · intro x hx
      simp only [append_nil, mem_append, mem_singleton] at hx ⊢
      exact hx.imp_right fun heq => le_of_eq heq.symm
    · intro x hx
      simp only [append_nil, mem_append, mem_singleton] at hx
      show x < t.allocated + 1
      cases hx with
      | inl hmem =>
        have hxlt := hlt x hmem
        omega
      | inr heq => omega

/-! ## Slots -/

@[simp] theorem setSlot_nextOf (c j : ℕ) (key : K) (value : V) :
    (t.setSlot c j key value).nextOf = t.nextOf := by
  funext c'
  by_cases h : c' = c
  · subst h
    simp [Table.nextOf, Table.setSlot]
  · simp [Table.nextOf, Table.setSlot, h]

@[simp] theorem setSize_nextOf (size : ℕ) : (t.setSize b size).nextOf = t.nextOf := rfl

@[simp] theorem setSize_hashTable (size : ℕ) :
    (t.setSize b size).hashTable b = { t.hashTable b with size := size } := by
  simp [Table.setSize]

theorem setSize_hashTable_of_ne {b' : ℕ} (size : ℕ) (h : b' ≠ b) :
    (t.setSize b size).hashTable b' = t.hashTable b' := by
  simp [Table.setSize, h]

theorem setSlot_stores_self (c j : ℕ) (key : K) (value : V) :
    ((t.setSlot c j key value).heap c).Stores j (key, value) := by
  simp [Table.setSlot, Chunk.Stores]

theorem setSlot_stores_of_ne {c j c' j' : ℕ} (key : K) (value : V) {pair : K × V}
    (h : c' = c → j' ≠ j) (hstores : (t.heap c').Stores j' pair) :
    ((t.setSlot c j key value).heap c').Stores j' pair := by
  by_cases hc : c' = c
  · subst hc
    simpa [Table.setSlot, Chunk.Stores, h rfl] using hstores
  · simpa [Table.setSlot, hc] using hstores

theorem Holds.update_pairs (h : Holds T t chains free pairs) (hb : b < T.hashTableSize)
    {pairs' : List (K × V)} (hbucket : BucketHolds T t' b (chains b) pairs')
    (hnext : t'.nextOf = t.nextOf) (hfree : t'.chunkFreeList = t.chunkFreeList)
    (hallocated : t'.allocated = t.allocated) (htable : ∀ b', b' ≠ b → t'.hashTable b' = t.hashTable b')
    (hheap : ∀ c, c ∉ chains b → t'.heap c = t.heap c) :
    Holds T t' chains free (Function.update pairs b pairs') := by
  rw [← Function.update_eq_self b chains]
  refine h.update hb hbucket ?_ ⟨h.nodup b, fun c hc => Or.inl hc, ?_, ?_, htable, ?_⟩
  · rw [hnext, hfree]
    exact h.freeList
  · rw [hallocated]
    exact h.allocated b
  · exact le_of_eq hallocated.symm
  · intro c _ hc
    exact hheap c fun hmem => hc (mem_append_left _ hmem)

theorem setSlot_heap_of_ne {c c' : ℕ} (j : ℕ) (key : K) (value : V) (h : c' ≠ c) :
    (t.setSlot c j key value).heap c' = t.heap c' := by
  simp [Table.setSlot, h]

theorem overwrite_holds (h : Holds T t chains free pairs) (hb : b < T.hashTableSize) {p c : ℕ}
    (hc : (chains b)[p / T.nPairsPerChunk]? = some c) (key : K) (value : V) :
    Holds T (t.setSlot c (p % T.nPairsPerChunk) key value) chains free
      (Function.update pairs b ((pairs b).set p (key, value))) := by
  have hbucket := h.bucket b hb
  have hnodup := (nodup_append.1 (h.nodup b)).1
  refine h.update_pairs hb ⟨?_, ?_, ?_⟩ (setSlot_nextOf _ _ _ _) rfl rfl (fun _ _ => rfl) ?_
  · rw [length_set]
    exact hbucket.size_eq
  · rw [setSlot_nextOf]
    exact hbucket.linked
  · intro p' pair hp'
    by_cases heq : p = p'
    · subst heq
      rw [List.getElem?_set_self' ] at hp'
      cases hold : (pairs b)[p]? with
      | none => simp [hold] at hp'
      | some old =>
        simp only [hold, Option.map_eq_map, Option.map_some, Option.some.injEq] at hp'
        subst hp'
        exact ⟨c, hc, setSlot_stores_self _ _ _ _⟩
    · rw [List.getElem?_set_ne heq] at hp'
      obtain ⟨c', hc', hslot⟩ := hbucket.slot p' pair hp'
      refine ⟨c', hc', setSlot_stores_of_ne _ _ ?_ hslot⟩
      intro hcc hmod
      subst hcc
      exact heq (slot_inj hnodup hc hc' hmod.symm)
  · intro c' hc'
    refine setSlot_heap_of_ne _ _ _ ?_
    intro heq
    exact hc' (heq ▸ mem_of_getElem? hc)

theorem append_holds (h : Holds T t chains free pairs) (hb : b < T.hashTableSize) {c : ℕ}
    (hc : (chains b)[(pairs b).length / T.nPairsPerChunk]? = some c) (key : K) (value : V) :
    Holds T ((t.setSlot c ((pairs b).length % T.nPairsPerChunk) key value).setSize b
        ((pairs b).length + 1)) chains free (Function.update pairs b (pairs b ++ [(key, value)])) := by
  have hbucket := h.bucket b hb
  have hnodup := (nodup_append.1 (h.nodup b)).1
  refine h.update_pairs hb ⟨?_, ?_, ?_⟩ (setSlot_nextOf _ _ _ _) rfl rfl ?_ ?_
  · simp
  · rw [setSize_nextOf, setSlot_nextOf, setSize_hashTable]
    exact hbucket.linked
  · intro p pair hp
    cases Nat.lt_or_ge p (pairs b).length with
    | inl hlt =>
      rw [List.getElem?_append_left hlt] at hp
      obtain ⟨c', hc', hslot⟩ := hbucket.slot p pair hp
      refine ⟨c', hc', setSlot_stores_of_ne _ _ ?_ hslot⟩
      intro hcc hmod
      subst hcc
      have heq := slot_inj hnodup hc hc' hmod.symm
      omega
    | inr hge =>
      have hlen := (List.getElem?_eq_some_iff.1 hp).1
      rw [length_append, length_singleton] at hlen
      have heq : p = (pairs b).length := by omega
      subst heq
      simp only [List.getElem?_append_right (le_refl _), Nat.sub_self, List.getElem?_cons_zero,
        Option.some.injEq] at hp
      subst hp
      exact ⟨c, hc, setSlot_stores_self _ _ _ _⟩
  · intro b' hne
    rw [setSize_hashTable_of_ne _ hne]
    rfl
  · intro c' hc'
    refine setSlot_heap_of_ne _ _ _ ?_
    intro heq
    exact hc' (heq ▸ mem_of_getElem? hc)

theorem shrink_holds (h : Holds T t chains free pairs) (hb : b < T.hashTableSize) :
    Holds T (t.setSize b ((pairs b).length - 1)) chains free (Function.update pairs b (pairs b).dropLast) := by
  have hbucket := h.bucket b hb
  refine h.update_pairs hb ⟨?_, ?_, ?_⟩ rfl rfl rfl ?_ (fun _ _ => rfl)
  · simp
  · rw [setSize_nextOf, setSize_hashTable]
    exact hbucket.linked
  · intro p pair hp
    rw [List.getElem?_dropLast] at hp
    split at hp
    · exact hbucket.slot p pair hp
    · simp at hp
  · intro b' hne
    exact setSize_hashTable_of_ne _ hne

theorem release_holds (h : Holds T t chains free pairs) (hb : b < T.hashTableSize) {as : List ℕ}
    {a c : ℕ} (hchain : chains b = as ++ [a] ++ [c])
    (hempty : (pairs b).length ≤ (as.length + 1) * T.nPairsPerChunk) :
    Holds T (t.releaseChunk (some a) c) (Function.update chains b (as ++ [a])) (c :: free) pairs := by
  rw [← Function.update_eq_self b pairs]
  have hbucket := h.bucket b hb
  have hnodup := h.nodup b
  have hmem : ∀ x, x ∈ as ++ [a] ++ c :: free ↔ x ∈ chains b ++ free := by
    intro x
    rw [hchain]
    simp
  rw [hchain] at hnodup
  obtain ⟨hchain_nodup, hfree_nodup, hsep⟩ := nodup_append.1 hnodup
  obtain ⟨has_nodup, -, hc⟩ := nodup_append.1 hchain_nodup
  have ha : ∀ x ∈ as, x ≠ a := fun x hx =>
    (nodup_append.1 has_nodup).2.2 x hx a mem_cons_self
  have hxc : ∀ x ∈ as ++ [a], x ≠ c := fun x hx => hc x hx c mem_cons_self
  have hac : a ≠ c := hxc a (by simp)
  refine h.update hb ⟨hbucket.size_eq, ?_, ?_⟩ ?_ ⟨?_, ?_, ?_, le_rfl, fun _ _ => rfl, ?_⟩
  · have hlinked := hbucket.linked
    rw [hchain] at hlinked
    refine hlinked.dropLast ?_ ?_
    · intro x hx
      have hx' := hxc x (by simp [hx])
      show (((t.setNext a none).setNext c t.chunkFreeList).nextOf x) = t.nextOf x
      rw [nextOf_setNext_of_ne _ hx', nextOf_setNext_of_ne _ (ha x hx)]
    · show (((t.setNext a none).setNext c t.chunkFreeList).nextOf a) = none
      rw [nextOf_setNext_of_ne _ hac, nextOf_setNext_self]
  · intro p pair hp
    obtain ⟨c', hc', hslot⟩ := hbucket.slot p pair hp
    have hlt : p / T.nPairsPerChunk < (as ++ [a]).length := by
      rw [length_append, length_singleton]
      have hp' := (List.getElem?_eq_some_iff.1 hp).1
      exact Nat.div_lt_of_lt_mul (by rw [Nat.mul_comm]; omega)
    rw [hchain, List.getElem?_append_left hlt] at hc'
    refine ⟨c', hc', ?_⟩
    show (((t.setNext a none).setNext c t.chunkFreeList).heap c').Stores _ _
    rw [setNext_stores, setNext_stores]
    exact hslot
  · refine chain_cons.2 ⟨rfl, ?_⟩
    show Chain ((t.setNext a none).setNext c t.chunkFreeList).nextOf
      (((t.setNext a none).setNext c t.chunkFreeList).nextOf c) free
    rw [nextOf_setNext_self]
    refine h.freeList.congr fun x hx => ?_
    have hxa : x ≠ a := fun heq => hsep a (by simp) x hx heq.symm
    have hxc' : x ≠ c := fun heq => hsep c (by simp) x hx heq.symm
    rw [nextOf_setNext_of_ne _ hxc', nextOf_setNext_of_ne _ hxa]
  · simpa using hnodup
  · intro x hx
    exact Or.inl ((hmem x).1 hx)
  · intro x hx
    exact h.allocated b x ((hmem x).1 hx)
  · intro x _ hx
    have hx' : x ∉ as ++ [a] ++ c :: free := fun hin => hx ((hmem x).1 hin)
    show ((t.setNext a none).setNext c t.chunkFreeList).heap x = t.heap x
    rw [setNext_heap_of_ne, setNext_heap_of_ne]
    · intro heq
      exact hx' (by simp [heq])
    · intro heq
      exact hx' (by simp [heq])

end ScoreP.FastHashtab
