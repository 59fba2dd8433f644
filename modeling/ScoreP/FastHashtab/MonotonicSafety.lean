import ScoreP.FastHashtab.MonotonicSteps

/-!
# Every interleaving is safe

The invariant of the whole table puts the buckets, the threads and the history of the returned calls
together: at most one thread holds the lock of a bucket, every returned call found its pair
published, and every published pair has one call that inserted it, which has returned or is about
to. `Inv.step` preserves it, `inv_of_reachable` is the invariant of every run, and `reachable_safe`
draws the conclusions.
-/

namespace ScoreP.FastHashtab.Monotonic

open Function List

variable {K V I : Type} {T : Template K} {c c' : Shared K V} {b : ℕ} {chain : List ℕ}
  {pairs : List (K × V)} {key : K}

/-! ## The whole table -/

/-- The places only `prefix_get_and_insert` reaches. -/
def Loc.inserting : Loc K V → Bool
  | .load | .search .get _ _ _ _ | .reload _ _ _ _ | .readValue _ _ | .returnGet _ | .fault => false
  | _ => true

def Call.inserts : Call K → Bool
  | .get _ => false
  | .getAndInsert _ => true

theorem act_inserting {loc loc' : Loc K V} {call : Call K} {input : Input K V}
    (hact : c.act T call loc input = some (c', loc')) (h : loc.inserting = true → call.inserts = true) :
    loc'.inserting = true → call.inserts = true := by
  cases hloc : loc.inserting with
  | true => exact fun _ => h hloc
  | false =>
    cases loc with
    | load =>
      cases input <;> simp only [Shared.act, Option.some.injEq, Prod.mk.injEq, reduceCtorEq] at hact
      obtain ⟨-, rfl⟩ := hact
      simp [Loc.inserting]
    | search phase i j currentSize chunk =>
      cases phase with
      | wait => simp [Loc.inserting] at hloc
      | locked => simp [Loc.inserting] at hloc
      | get =>
        cases input <;> simp only [Shared.act, reduceCtorEq, if_false] at hact
        split at hact
        · split at hact
          all_goals
            simp only [Option.some.injEq, Prod.mk.injEq] at hact
            obtain ⟨-, rfl⟩ := hact
            simp [Loc.inserting]
        · simp only [Option.some.injEq, Prod.mk.injEq] at hact
          obtain ⟨-, rfl⟩ := hact
          simp [Loc.inserting]
    | reload i j oldSize chunk =>
      cases call with
      | getAndInsert key => exact fun _ => rfl
      | get key =>
        cases input <;> simp only [Shared.act, reduceCtorEq] at hact
        split at hact
        all_goals
          simp only [Option.some.injEq, Prod.mk.injEq] at hact
          obtain ⟨-, rfl⟩ := hact
          simp [Loc.inserting]
    | readValue j chunk =>
      cases call with
      | getAndInsert key => exact fun _ => rfl
      | get key =>
        cases input <;> simp only [Shared.act, reduceCtorEq] at hact
        split at hact
        all_goals
          simp_all only [Option.some.injEq, Prod.mk.injEq, reduceCtorEq]
          try obtain ⟨-, rfl⟩ := hact
          try simp [Loc.inserting]
    | returnGet value => cases input <;> simp [Shared.act] at hact
    | fault => cases input <;> simp [Shared.act] at hact
    | trylock | loadWait | loadLocked | unlockFound | newChunk | nextNull | writeKey | valueCtor
    | writeValue | storeSize | unlock | readInserted | returnInsert =>
      simp [Loc.inserting] at hloc

def Missed (T : Template K) (history : List (Event K V)) (key : K) : Prop :=
  ∀ key' value inserted, .getAndInsert key' value inserted ∈ history → T.equals key key' = false

def Apart (T : Template K) : Event K V → Event K V → Prop
  | .getAndInsert key _ true, .getAndInsert key' _ true => T.equals key key' = false
  | _, _ => True

structure ThreadInv (T : Template K) (s : State K V I) (chain : List ℕ) (pairs : List (K × V))
    (call : Call K) (started : ℕ) (loc : Loc K V) : Prop where
  knows : LocInv T s.shared chain pairs call.key loc
  held : loc.locked = true → s.shared.insertLock (T.bucketIdx call.key) = true
  inserts : loc.inserting = true → call.inserts = true
  started_le : started ≤ s.history.length
  missed : loc = .returnGet none → Missed T (s.history.take started) call.key

structure Inv (T : Template K) (s : State K V I) (chains : ℕ → List ℕ)
    (pairs : ℕ → List (K × V)) : Prop where
  bucket : ∀ b, BucketInv T s.shared b (chains b) (pairs b)
  disjoint : ∀ b b', b ≠ b' → (chains b).Disjoint (chains b')
  thread : ∀ i call started loc, s.threads i = .active call started loc →
    ThreadInv T s (chains (T.bucketIdx call.key)) (pairs (T.bucketIdx call.key)) call started loc
  exclusive : ∀ i i' call call' started started' loc loc', s.threads i = .active call started loc →
    s.threads i' = .active call' started' loc' → loc.locked = true → loc'.locked = true →
    T.bucketIdx call.key = T.bucketIdx call'.key → i = i'
  returned : ∀ key value inserted, .getAndInsert key value inserted ∈ s.history →
    ∃ pair ∈ pairs (T.bucketIdx key), T.equals key pair.1 = true ∧ pair.2 = value
  gets : ∀ key started, .get key started none ∈ s.history →
    Missed T (s.history.take started) key ∧ started ≤ s.history.length
  apart : s.history.Pairwise (Apart T)
  apart_thread : ∀ i call started loc key value, s.threads i = .active call started loc →
    loc.stored = true → .getAndInsert key value true ∈ s.history → T.equals key call.key = false
  apart_threads : ∀ i i' call call' started started' loc loc', i ≠ i' →
    s.threads i = .active call started loc → s.threads i' = .active call' started' loc' →
    loc.stored = true → loc'.stored = true → T.equals call.key call'.key = false
  inserter : ∀ b, ∀ pair ∈ pairs b,
    (∃ key value, .getAndInsert key value true ∈ s.history ∧ T.equals key pair.1 = true) ∨
      ∃ i call started loc, s.threads i = .active call started loc ∧ loc.stored = true ∧
        T.equals call.key pair.1 = true

theorem init_inv (T : Template K) : Inv T (State.init : State K V I) (fun _ => []) (fun _ => []) where
  bucket := fun b =>
    { size_eq := rfl, head_eq := rfl, next_eq := by simp, slot := by simp, nodup := by simp
      lt_allocated := by simp, tight := by simp [Tight], distinct := by simp, bucketIdx := by simp }
  disjoint := by simp
  thread := by simp [State.init]
  exclusive := by simp [State.init]
  returned := by simp [State.init]
  gets := by simp [State.init]
  apart := by simp [State.init]
  apart_thread := by simp [State.init]
  apart_threads := by simp [State.init]
  inserter := by simp

theorem BucketInv.congr (h : BucketInv T c b chain pairs) (hsize : c'.size b = c.size b)
    (hchunk : c'.bucketChunk b = c.bucketChunk b) (hlock : c'.insertLock b = c.insertLock b)
    (hheap : ∀ p ∈ chain, c'.heap p = c.heap p) (hle : c.allocated ≤ c'.allocated) :
    BucketInv T c' b chain pairs where
  size_eq := hsize.trans h.size_eq
  head_eq := hchunk.trans h.head_eq
  next_eq := by
    intro q p p' hp hp'
    rw [hheap p (mem_of_getElem? hp)]
    exact h.next_eq q p p' hp hp'
  slot := by
    intro i pair hi
    obtain ⟨p, hp, hslot⟩ := h.slot i pair hi
    exact ⟨p, hp, (hheap p (mem_of_getElem? hp)).symm ▸ hslot⟩
  nodup := h.nodup
  lt_allocated := fun p hp => Nat.lt_of_lt_of_le (h.lt_allocated p hp) hle
  tight := fun hopen => h.tight (hlock ▸ hopen)
  distinct := h.distinct
  bucketIdx := h.bucketIdx

theorem LocInv.published {loc : Loc K V} (h : LocInv T c chain pairs key loc)
    (hstored : loc.stored = true) : ∃ pair ∈ pairs, T.equals key pair.1 = true := by
  cases loc with
  | unlock j chunk =>
    obtain ⟨⟨q, i, pair, -, -, -, hget, heq⟩, -⟩ := h
    exact ⟨pair, mem_of_getElem? hget, heq⟩
  | readInserted j chunk =>
    obtain ⟨q, i, pair, -, -, -, hget, heq⟩ := h
    exact ⟨pair, mem_of_getElem? hget, heq⟩
  | returnInsert value inserted =>
    obtain ⟨pair, hmem, heq, -⟩ := h
    exact ⟨pair, hmem, heq⟩
  | _ => simp [Loc.stored] at hstored

section Run

variable {s t : State K V I} {chains : ℕ → List ℕ} {pairs : ℕ → List (K × V)}

theorem Inv.missed_of_fresh (h : Inv T s chains pairs) (hT : T.Lawful) {key : K}
    (hfresh : Fresh T key (pairs (T.bucketIdx key))) : Missed T s.history key := by
  intro key' value inserted hmem
  by_contra hne
  have heq := eq_true_of_ne_false hne
  obtain ⟨pair, hpair, heq', -⟩ := h.returned key' value inserted hmem
  rw [← hT.bucketIdx_eq _ _ heq] at hpair
  have hsame := hT.trans _ _ _ heq heq'
  rw [hfresh pair hpair] at hsame
  exact Bool.noConfusion hsame

theorem Missed.take {history : List (Event K V)} {key : K} (h : Missed T history key) (n : ℕ) :
    Missed T (history.take n) key :=
  fun key' value inserted hmem => h key' value inserted (mem_of_mem_take hmem)

theorem equals_false_symm {key key' : K} (hT : T.Lawful) (h : T.equals key key' = false) :
    T.equals key' key = false := by
  by_contra hne
  rw [hT.symm _ _ (eq_true_of_ne_false hne)] at h
  exact Bool.noConfusion h

variable [DecidableEq I]

/-- A step inside a call. -/
theorem Inv.act (h : Inv T s chains pairs) (hT : T.Lawful) {i : I} {call : Call K} {started : ℕ}
    {loc loc' : Loc K V} {c' : Shared K V} {input : Input K V}
    (hi : s.threads i = .active call started loc) (hinput : input.Legal T call)
    (hact : s.shared.act T call loc input = some (c', loc')) :
    ∃ chains' pairs', (∀ b, pairs b <+: pairs' b) ∧ (∀ b, chains b <+: chains' b) ∧
      Inv T { s with
        shared := c'
        threads := update s.threads i (.active call started loc') } chains' pairs' := by
  have hthread := h.thread i call started loc hi
  obtain ⟨chain', pairs', he⟩ :=
    act_effect hT (h.bucket _) hthread.knows hthread.held hinput hact
  generalize hb : T.bucketIdx call.key = b at he
  have hheap : ∀ b', b' ≠ b → ∀ p ∈ chains b', c'.heap p = s.shared.heap p := by
    intro b' hne p hp
    exact he.heap_other p ((h.bucket b').lt_allocated p hp) (h.disjoint b' b hne hp)
  have hpairs : ∀ b', pairs b' <+: update pairs b pairs' b' := by
    intro b'
    by_cases heq : b' = b
    · subst heq
      simpa using he.pairs_extends
    · rw [update_of_ne heq]
  have hchains : ∀ b', chains b' <+: update chains b chain' b' := by
    intro b'
    by_cases heq : b' = b
    · subst heq
      simpa using he.chain_extends
    · rw [update_of_ne heq]
  -- a thread that is active after the step
  have hcases : ∀ i' call' started' loc₁,
      update s.threads i (.active call started loc') i' = .active call' started' loc₁ →
      (i' = i ∧ call' = call ∧ started' = started ∧ loc₁ = loc') ∨
        i' ≠ i ∧ s.threads i' = .active call' started' loc₁ := by
    intro i' call' started' loc₁ hi'
    by_cases heq : i' = i
    · subst heq
      rw [update_self] at hi'
      cases hi'
      exact Or.inl ⟨rfl, rfl, rfl, rfl⟩
    · rw [update_of_ne heq] at hi'
      exact Or.inr ⟨heq, hi'⟩
  have hpublished : loc'.stored = true → loc.stored = true ∨
      loc.stored = false ∧ Fresh T call.key (pairs b) := by
    intro hstored
    cases he.published with
    | inl hsame => exact Or.inl (hsame.2 ▸ hstored)
    | inr hnew => exact Or.inr ⟨hnew.1, hnew.2.2.1⟩
  refine ⟨update chains b chain', update pairs b pairs', hpairs, hchains, ?_⟩
  constructor
  · intro b'
    by_cases heq : b' = b
    · subst heq
      simpa using he.bucket
    · rw [update_of_ne heq, update_of_ne heq]
      exact (h.bucket b').congr (he.size_other b' heq) (he.bucketChunk_other b' heq)
        (he.insertLock_other b' heq) (hheap b' heq) he.allocated_le
  · have hnew : ∀ b', b' ≠ b → ∀ p ∈ chain', p ∉ chains b' := by
      intro b' hne p hp hp'
      cases he.mem_chain p hp with
      | inl hold => exact h.disjoint b' b hne hp' hold
      | inr hge =>
        have hlt := (h.bucket b').lt_allocated p hp'
        omega
    intro b₁ b₂ hne
    by_cases heq₁ : b₁ = b
    · subst heq₁
      rw [update_self, update_of_ne hne.symm]
      exact fun p hp hp' => hnew b₂ hne.symm p hp hp'
    · rw [update_of_ne heq₁]
      by_cases heq₂ : b₂ = b
      · subst heq₂
        rw [update_self]
        exact fun p hp hp' => hnew b₁ hne p hp' hp
      · rw [update_of_ne heq₂]
        exact h.disjoint b₁ b₂ hne
  · intro i' call' started' loc₁ hi'
    cases hcases i' call' started' loc₁ hi' with
    | inl hself =>
      obtain ⟨rfl, rfl, rfl, rfl⟩ := hself
      rw [hb, update_self, update_self]
      refine ⟨he.knows, fun hl => hb ▸ he.held hl, act_inserting hact hthread.inserts,
        hthread.started_le, fun hret => ?_⟩
      have hfresh := he.missed hret
      rw [← hb] at hfresh
      exact (h.missed_of_fresh hT hfresh).take started'
    | inr hother =>
      obtain ⟨hne, hi'⟩ := hother
      have hthread' := h.thread i' call' started' loc₁ hi'
      refine ⟨?_, ?_, hthread'.inserts, hthread'.started_le, hthread'.missed⟩
      · by_cases hb' : T.bucketIdx call'.key = b
        · rw [hb', update_self, update_self]
          have hknows := hthread'.knows
          rw [hb'] at hknows
          cases hlocked : loc₁.locked with
          | false => exact hknows.mono hlocked he.chain_extends he.pairs_extends
          | true =>
            have hfree : loc.locked = false := by
              by_contra hl
              exact hne (h.exclusive i' i _ _ _ _ _ _ hi' hi hlocked (eq_true_of_ne_false hl)
                (hb'.trans hb.symm))
            obtain ⟨hquiet, hchain, hpair⟩ := he.quiet hfree
            rw [hchain, hpair]
            exact hknows.congr fun p _ => by rw [hquiet]
        · rw [update_of_ne hb', update_of_ne hb']
          exact hthread'.knows.congr (hheap _ hb')
      · intro hlocked
        have hheld := hthread'.held hlocked
        show c'.insertLock _ = true
        by_cases hb' : T.bucketIdx call'.key = b
        · have hfree : loc.locked = false := by
            by_contra hl
            exact hne (h.exclusive i' i _ _ _ _ _ _ hi' hi hlocked (eq_true_of_ne_false hl)
              (hb'.trans hb.symm))
          rw [hb'] at hheld ⊢
          exact he.release hfree hheld
        · rw [he.insertLock_other _ hb']
          exact hheld
  · -- the lock is taken only where it is free
    have hself : ∀ i' call' started' loc₁, s.threads i' = .active call' started' loc₁ →
        loc'.locked = true → loc₁.locked = true → T.bucketIdx call'.key = b → i' = i := by
      intro i' call' started' loc₁ hi' hl' hl₁ hb'
      cases hl : loc.locked with
      | true => exact h.exclusive i' i _ _ _ _ _ _ hi' hi hl₁ hl (hb'.trans hb.symm)
      | false =>
        have hopen := he.acquire hl' hl
        have hheld := (h.thread i' call' started' loc₁ hi').held hl₁
        rw [hb', hopen] at hheld
        exact Bool.noConfusion hheld
    intro i₁ i₂ call₁ call₂ started₁ started₂ loc₁ loc₂ h₁ h₂ hl₁ hl₂ hbb
    cases hcases _ _ _ _ h₁ with
    | inl hself₁ =>
      obtain ⟨rfl, rfl, rfl, rfl⟩ := hself₁
      cases hcases _ _ _ _ h₂ with
      | inl hself₂ => exact hself₂.1.symm
      | inr hother₂ =>
        exact (hself i₂ _ _ _ hother₂.2 hl₁ hl₂ (hbb.symm.trans hb)).symm
    | inr hother₁ =>
      cases hcases _ _ _ _ h₂ with
      | inl hself₂ =>
        obtain ⟨rfl, rfl, rfl, rfl⟩ := hself₂
        exact hself i₁ _ _ _ hother₁.2 hl₂ hl₁ (hbb.trans hb)
      | inr hother₂ => exact h.exclusive _ _ _ _ _ _ _ _ hother₁.2 hother₂.2 hl₁ hl₂ hbb
  · intro key value inserted hmem
    obtain ⟨pair, hpair, heq⟩ := h.returned key value inserted hmem
    exact ⟨pair, (hpairs _).subset hpair, heq⟩
  · exact h.gets
  · exact h.apart
  · intro i' call' started' loc₁ key value hi' hstored hmem
    cases hcases _ _ _ _ hi' with
    | inr hother => exact h.apart_thread i' call' started' loc₁ key value hother.2 hstored hmem
    | inl hself =>
      obtain ⟨rfl, rfl, rfl, rfl⟩ := hself
      cases hpublished hstored with
      | inl hold => exact h.apart_thread _ _ _ _ key value hi hold hmem
      | inr hnew =>
        rw [← hb] at hnew
        exact equals_false_symm hT (h.missed_of_fresh hT hnew.2 key value true hmem)
  · have hself : ∀ i' call' started' loc₁, i' ≠ i → s.threads i' = .active call' started' loc₁ →
        loc'.stored = true → loc₁.stored = true → T.equals call.key call'.key = false := by
      intro i' call' started' loc₁ hne hi' hstored hstored'
      cases hpublished hstored with
      | inl hold => exact h.apart_threads i i' _ _ _ _ _ _ hne.symm hi hi' hold hstored'
      | inr hnew =>
        obtain ⟨pair, hpair, heq⟩ := (h.thread i' _ _ _ hi').knows.published hstored'
        by_contra hsame
        have hsame := eq_true_of_ne_false hsame
        rw [← hT.bucketIdx_eq _ _ hsame, hb] at hpair
        have hfound := hT.trans _ _ _ hsame heq
        rw [hnew.2 pair hpair] at hfound
        exact Bool.noConfusion hfound
    intro i₁ i₂ call₁ call₂ started₁ started₂ loc₁ loc₂ hne h₁ h₂ hs₁ hs₂
    cases hcases _ _ _ _ h₁ with
    | inl hself₁ =>
      obtain ⟨rfl, rfl, rfl, rfl⟩ := hself₁
      cases hcases _ _ _ _ h₂ with
      | inl hself₂ => exact absurd hself₂.1.symm hne
      | inr hother₂ => exact hself i₂ _ _ _ hother₂.1 hother₂.2 hs₁ hs₂
    | inr hother₁ =>
      cases hcases _ _ _ _ h₂ with
      | inl hself₂ =>
        obtain ⟨rfl, rfl, rfl, rfl⟩ := hself₂
        exact equals_false_symm hT (hself i₁ _ _ _ hother₁.1 hother₁.2 hs₂ hs₁)
      | inr hother₂ =>
        exact h.apart_threads _ _ _ _ _ _ _ _ hne hother₁.2 hother₂.2 hs₁ hs₂
  · have hold : ∀ b', ∀ pair ∈ pairs b',
        (∃ key value, .getAndInsert key value true ∈ s.history ∧ T.equals key pair.1 = true) ∨
          ∃ i' call' started' loc₁, update s.threads i (.active call started loc') i' =
              .active call' started' loc₁ ∧
            loc₁.stored = true ∧ T.equals call'.key pair.1 = true := by
      intro b' pair hpair
      refine (h.inserter b' pair hpair).imp_right fun hex => ?_
      obtain ⟨i', call', started', loc₁, hi', hstored, heq⟩ := hex
      by_cases hii : i' = i
      · subst hii
        rw [hi] at hi'
        cases hi'
        refine ⟨i', call, started, loc', by simp, ?_, heq⟩
        cases he.published with
        | inl hsame => rw [hsame.2, hstored]
        | inr hnew => exact hnew.2.1
      · exact ⟨i', call', started', loc₁, by rw [update_of_ne hii]; exact hi', hstored, heq⟩
    intro b' pair hpair
    by_cases heq : b' = b
    · subst heq
      rw [update_self] at hpair
      cases he.published with
      | inl hsame =>
        rw [hsame.1] at hpair
        exact hold b' pair hpair
      | inr hnew =>
        obtain ⟨-, hstored, -, pair', hpairs', heq'⟩ := hnew
        rw [hpairs'] at hpair
        cases mem_append.1 hpair with
        | inl hmem => exact hold b' pair hmem
        | inr hmem =>
          rw [mem_singleton.1 hmem]
          exact Or.inr ⟨i, call, started, loc', by simp, hstored, heq'⟩
    · rw [update_of_ne heq] at hpair
      exact hold b' pair hpair

theorem next_cases {i : I} {input : Input K V} (h : s.next T i input = some t) : (∃ call, s.threads i = .idle ∧
      t = { s with threads := update s.threads i (.active call s.history.length
          (if T.bucketIdx call.key < T.hashTableSize then .load else .fault)) }) ∨
    (∃ key started value, s.threads i = .active (.get key) started (.returnGet value) ∧
      t = { s with
        threads := update s.threads i .idle
        history := s.history ++ [.get key started value] }) ∨
    (∃ key started value inserted,
      s.threads i = .active (.getAndInsert key) started (.returnInsert value inserted) ∧
      t = { s with
        threads := update s.threads i .idle
        history := s.history ++ [.getAndInsert key value inserted] }) ∨
    ∃ call started loc r, s.threads i = .active call started loc ∧ s.shared.act T call loc input = some r ∧
      t = { s with
        shared := r.1
        threads := update s.threads i (.active call started r.2) } := by
  unfold State.next at h
  split at h
  · next call hi =>
    cases h
    exact Or.inl ⟨call, hi, rfl⟩
  · next key started value hi =>
    cases h
    exact Or.inr (Or.inl ⟨key, started, value, hi, rfl⟩)
  · next key started value inserted hi =>
    cases h
    exact Or.inr (Or.inr (Or.inl ⟨key, started, value, inserted, hi, rfl⟩))
  · next hi _ _ =>
    obtain ⟨r, hact, rfl⟩ := Option.map_eq_some_iff.1 h
    exact Or.inr (Or.inr (Or.inr ⟨_, _, _, r, hi, hact, rfl⟩))
  · cases h

theorem Inv.begin (h : Inv T s chains pairs) (hT : T.Lawful) {i : I} (hi : s.threads i = .idle)
    (call : Call K) : Inv T { s with threads := update s.threads i (.active call s.history.length
        (if T.bucketIdx call.key < T.hashTableSize then .load else .fault)) } chains pairs := by
  rw [if_pos (hT.bucketIdx_lt call.key)]
  have hcases : ∀ i' call' started' loc',
      update s.threads i (.active call s.history.length .load) i' = .active call' started' loc' →
      (call' = call ∧ started' = s.history.length ∧ loc' = .load) ∨
        s.threads i' = .active call' started' loc' := by
    intro i' call' started' loc' hi'
    by_cases heq : i' = i
    · subst heq
      rw [update_self] at hi'
      cases hi'
      exact Or.inl ⟨rfl, rfl, rfl⟩
    · rw [update_of_ne heq] at hi'
      exact Or.inr hi'
  refine { h with thread := ?_, exclusive := ?_, apart_thread := ?_, apart_threads := ?_, inserter := ?_ }
  · intro i' call' started' loc' hi'
    cases hcases _ _ _ _ hi' with
    | inl hnew =>
      obtain ⟨rfl, rfl, rfl⟩ := hnew
      exact ⟨trivial, by simp [Loc.locked], by simp [Loc.inserting], le_rfl, by simp⟩
    | inr hold =>
      have hthread := h.thread i' call' started' loc' hold
      exact ⟨hthread.knows, hthread.held, hthread.inserts, hthread.started_le, hthread.missed⟩
  · intro i₁ i₂ call₁ call₂ started₁ started₂ loc₁ loc₂ h₁ h₂ hl₁ hl₂ hbb
    cases hcases _ _ _ _ h₁ with
    | inl hnew => simp [hnew.2.2, Loc.locked] at hl₁
    | inr hold₁ =>
      cases hcases _ _ _ _ h₂ with
      | inl hnew => simp [hnew.2.2, Loc.locked] at hl₂
      | inr hold₂ => exact h.exclusive _ _ _ _ _ _ _ _ hold₁ hold₂ hl₁ hl₂ hbb
  · intro i' call' started' loc' key value hi' hstored hmem
    cases hcases _ _ _ _ hi' with
    | inl hnew => simp [hnew.2.2, Loc.stored] at hstored
    | inr hold => exact h.apart_thread _ _ _ _ key value hold hstored hmem
  · intro i₁ i₂ call₁ call₂ started₁ started₂ loc₁ loc₂ hne h₁ h₂ hs₁ hs₂
    cases hcases _ _ _ _ h₁ with
    | inl hnew => simp [hnew.2.2, Loc.stored] at hs₁
    | inr hold₁ =>
      cases hcases _ _ _ _ h₂ with
      | inl hnew => simp [hnew.2.2, Loc.stored] at hs₂
      | inr hold₂ => exact h.apart_threads _ _ _ _ _ _ _ _ hne hold₁ hold₂ hs₁ hs₂
  · intro b pair hpair
    refine (h.inserter b pair hpair).imp_right fun hex => ?_
    obtain ⟨i', call', started', loc', hi', hrest⟩ := hex
    have hne : i' ≠ i := by
      intro heq
      subst heq
      rw [hi] at hi'
      cases hi'
    exact ⟨i', call', started', loc', (update_of_ne hne _ _).trans hi', hrest⟩

theorem Inv.finish (h : Inv T s chains pairs) {i : I} {call : Call K} {started : ℕ}
    {loc : Loc K V} (hi : s.threads i = .active call started loc) {event : Event K V}
    (hget : ∀ key started', event = .get key started' none →
      call = .get key ∧ started' = started ∧ loc = .returnGet none)
    (hinsert : ∀ key value inserted, event = .getAndInsert key value inserted →
      call = .getAndInsert key ∧ loc = .returnInsert value inserted)
    (hstored : loc.stored = true → ∃ key value, event = .getAndInsert key value true) : Inv T { s with
      threads := update s.threads i .idle, history := s.history ++ [event] } chains
      pairs := by
  have hthread := h.thread i call started loc hi
  have hactive : ∀ i' call' started' loc', update s.threads i .idle i' = .active call' started' loc' →
      i' ≠ i ∧ s.threads i' = .active call' started' loc' := by
    intro i' call' started' loc' hi'
    by_cases heq : i' = i
    · subst heq
      rw [update_self] at hi'
      cases hi'
    · rw [update_of_ne heq] at hi'
      exact ⟨heq, hi'⟩
  have hmem : ∀ event', event' ∈ s.history ++ [event] → event' ∈ s.history ∨ event' = event := by
    intro event' hevent'
    simpa using hevent'
  have htake : ∀ n ≤ s.history.length, (s.history ++ [event]).take n = s.history.take n :=
    fun n hn => take_append_of_le_length hn
  refine ⟨h.bucket, h.disjoint, ?_, ?_, ?_, ?_, ?_, ?_, ?_, ?_⟩
  · intro i' call' started' loc' hi'
    obtain ⟨-, hi'⟩ := hactive _ _ _ _ hi'
    have hthread' := h.thread i' call' started' loc' hi'
    refine ⟨hthread'.knows, hthread'.held, hthread'.inserts, ?_, ?_⟩
    · have hle := hthread'.started_le
      simp only [length_append]
      omega
    · intro hret
      show Missed T ((s.history ++ [event]).take started') call'.key
      rw [htake started' hthread'.started_le]
      exact hthread'.missed hret
  · intro i₁ i₂ call₁ call₂ started₁ started₂ loc₁ loc₂ h₁ h₂
    exact h.exclusive _ _ _ _ _ _ _ _ (hactive _ _ _ _ h₁).2 (hactive _ _ _ _ h₂).2
  · intro key value inserted hevent
    cases hmem _ hevent with
    | inl hold => exact h.returned key value inserted hold
    | inr hnew =>
      obtain ⟨rfl, rfl⟩ := hinsert key value inserted hnew.symm
      exact hthread.knows
  · intro key started' hevent
    cases hmem _ hevent with
    | inl hold =>
      obtain ⟨hmissed, hle⟩ := h.gets key started' hold
      refine ⟨?_, ?_⟩
      · show Missed T ((s.history ++ [event]).take started') key
        rw [htake started' hle]
        exact hmissed
      · simp only [length_append]
        omega
    | inr hnew =>
      obtain ⟨rfl, rfl, hret⟩ := hget key started' hnew.symm
      have hle := hthread.started_le
      refine ⟨?_, ?_⟩
      · show Missed T ((s.history ++ [event]).take started') key
        rw [htake started' hle]
        exact hthread.missed hret
      · simp only [length_append]
        omega
  · refine pairwise_append.2 ⟨h.apart, pairwise_singleton _ _, ?_⟩
    intro old hold new hnew
    rw [mem_singleton.1 hnew]
    cases old with
    | get key started' value => trivial
    | getAndInsert key value inserted =>
      cases inserted with
      | false => trivial
      | true =>
        cases event with
        | get key' started' value' => trivial
        | getAndInsert key' value' inserted' =>
          cases inserted' with
          | false => trivial
          | true =>
            obtain ⟨rfl, rfl⟩ := hinsert key' value' true rfl
            exact h.apart_thread i _ _ _ key value hi rfl hold
  · intro i' call' started' loc' key value hi' hstored' hevent
    obtain ⟨hne, hi'⟩ := hactive _ _ _ _ hi'
    cases hmem _ hevent with
    | inl hold => exact h.apart_thread i' _ _ _ key value hi' hstored' hold
    | inr hnew =>
      obtain ⟨rfl, rfl⟩ := hinsert key value true hnew.symm
      exact h.apart_threads i i' _ _ _ _ _ _ hne.symm hi hi' rfl hstored'
  · intro i₁ i₂ call₁ call₂ started₁ started₂ loc₁ loc₂ hne h₁ h₂
    exact h.apart_threads _ _ _ _ _ _ _ _ hne (hactive _ _ _ _ h₁).2 (hactive _ _ _ _ h₂).2
  · intro b pair hpair
    cases h.inserter b pair hpair with
    | inl hold =>
      obtain ⟨key, value, hevent, heq⟩ := hold
      exact Or.inl ⟨key, value, mem_append_left _ hevent, heq⟩
    | inr hex =>
      obtain ⟨i', call', started', loc', hi', hstored', heq⟩ := hex
      by_cases hii : i' = i
      · subst hii
        rw [hi] at hi'
        cases hi'
        obtain ⟨key, value, hevent⟩ := hstored hstored'
        obtain ⟨rfl, -⟩ := hinsert key value true hevent
        exact Or.inl ⟨key, value, by simp [hevent], heq⟩
      · exact Or.inr ⟨i', call', started', loc', (update_of_ne hii _ _).trans hi', hstored', heq⟩

theorem Inv.step (h : Inv T s chains pairs) (hT : T.Lawful) {a : I × Input K V} (hstep : step T s a t) :
    ∃ chains' pairs', (∀ b, pairs b <+: pairs' b) ∧ (∀ b, chains b <+: chains' b) ∧ Inv T t chains' pairs' := by
  obtain ⟨hlegal, hnext⟩ := hstep
  have hextends : (∀ b, pairs b <+: pairs b) ∧ (∀ b, chains b <+: chains b) :=
    ⟨fun _ => prefix_rfl, fun _ => prefix_rfl⟩
  obtain ⟨call, hi, rfl⟩ | ⟨key, started, value, hi, rfl⟩ |
    ⟨key, started, value, inserted, hi, rfl⟩ | ⟨call, started, loc, r, hi, hact, rfl⟩ :=
    next_cases hnext
  · exact ⟨chains, pairs, hextends.1, hextends.2, h.begin hT hi call⟩
  · refine ⟨chains, pairs, hextends.1, hextends.2, h.finish hi ?_ (by simp) (by simp [Loc.stored])⟩
    intro key' started' heq
    cases heq
    exact ⟨rfl, rfl, rfl⟩
  · refine ⟨chains, pairs, hextends.1, hextends.2, h.finish hi (by simp) ?_ ?_⟩
    · intro key' value' inserted' heq
      cases heq
      exact ⟨rfl, rfl⟩
    · intro hstored
      cases inserted with
      | false => simp [Loc.stored] at hstored
      | true => exact ⟨key, value, rfl⟩
  · exact h.act hT hi (hlegal call started loc hi) hact

theorem inv_of_reachable (hT : T.Lawful) (h : Reachable T s) : ∃ chains pairs, Inv T s chains pairs := by
  refine Foundations.Reachable.invariant (P := fun s => ∃ chains pairs, Inv T s chains pairs) ?_ ?_ h
  · intro s hs
    subst hs
    exact ⟨_, _, init_inv T⟩
  · intro s a t hinv hstep
    obtain ⟨chains, pairs, hinv⟩ := hinv
    obtain ⟨chains', pairs', -, -, hinv'⟩ := hinv.step hT hstep
    exact ⟨chains', pairs', hinv'⟩

end Run

/-! ## Safety -/

theorem BucketInv.chunkAt (h : BucketInv T c b chain pairs) {q : ℕ} {p : ℕ}
    (hp : chain[q]? = some p) : c.chunkAt b q = some p := by
  induction q generalizing p with
  | zero => exact h.head_eq.trans hp
  | succ q ih =>
    have hlt := (List.getElem?_eq_some_iff.1 hp).1
    have hprev : chain[q]? = some chain[q] := getElem?_eq_getElem (by omega)
    simp [Shared.chunkAt, ih hprev, h.next_eq q _ p hprev hp]

theorem BucketInv.slotAt (h : BucketInv T c b chain pairs) {i : ℕ} {pair : K × V}
    (hi : pairs[i]? = some pair) : c.slotAt T b i = some pair := by
  obtain ⟨p, hp, hkey, hvalue⟩ := h.slot i pair hi
  simp [Shared.slotAt, h.chunkAt hp, hkey, hvalue]

/-- What holds in every state. -/
structure Safe (T : Template K) (s : State K V I) : Prop where
  no_fault : ∀ i call started, s.threads i ≠ .active call started .fault
  slots_written : ∀ b p, p < s.shared.size b → (s.shared.slotAt T b p).isSome = true
  slots_distinct : ∀ b p p' pair pair', p < s.shared.size b → p' < s.shared.size b → p ≠ p' →
    s.shared.slotAt T b p = some pair → s.shared.slotAt T b p' = some pair' →
    T.equals pair.1 pair'.1 = false
  returned_stored : ∀ key value inserted, .getAndInsert key value inserted ∈ s.history →
    ∃ p < s.shared.size (T.bucketIdx key), ∃ stored,
      s.shared.slotAt T (T.bucketIdx key) p = some (stored, value) ∧ T.equals key stored = true
  inserted_once : s.history.Pairwise (Apart T)
  inserted : ∀ key value inserted, .getAndInsert key value inserted ∈ s.history →
    (∃ key' value', .getAndInsert key' value' true ∈ s.history ∧ T.equals key key' = true) ∨
      ∃ i key' started loc, s.threads i = .active (.getAndInsert key') started loc ∧
        loc.stored = true ∧ T.equals key key' = true
  exactly_one : (∀ i, s.threads i = .idle) → ∀ key value inserted,
    .getAndInsert key value inserted ∈ s.history →
      ∃! q : ℕ, ∃ key' value', s.history[q]? = some (.getAndInsert key' value' true) ∧
        T.equals key key' = true
  get_finds : ∀ key started, .get key started none ∈ s.history → Missed T (s.history.take started) key

def SlotsKept (T : Template K) (s t : State K V I) : Prop :=
  ∀ b p, p < s.shared.size b → p < t.shared.size b ∧ t.shared.slotAt T b p = s.shared.slotAt T b p

theorem Loc.stored_inserting {loc : Loc K V} (h : loc.stored = true) : loc.inserting = true := by
  cases loc with
  | unlock | readInserted | returnInsert => rfl
  | _ => simp [Loc.stored] at h

theorem apart_unique (hT : T.Lawful) {history : List (Event K V)} (h : history.Pairwise (Apart T))
    {key key₁ key₂ : K} {value₁ value₂ : V} {q₁ q₂ : ℕ}
    (h₁ : history[q₁]? = some (.getAndInsert key₁ value₁ true))
    (h₂ : history[q₂]? = some (.getAndInsert key₂ value₂ true))
    (heq₁ : T.equals key key₁ = true) (heq₂ : T.equals key key₂ = true) : q₁ = q₂ := by
  obtain ⟨hlt₁, hget₁⟩ := List.getElem?_eq_some_iff.1 h₁
  obtain ⟨hlt₂, hget₂⟩ := List.getElem?_eq_some_iff.1 h₂
  have hsame := hT.trans _ _ _ (hT.symm _ _ heq₁) heq₂
  have hpairwise := pairwise_iff_getElem.1 h
  by_contra hne
  cases Nat.lt_or_gt_of_ne hne with
  | inl hlt =>
    have hapart := hpairwise q₁ q₂ hlt₁ hlt₂ hlt
    rw [hget₁, hget₂] at hapart
    rw [show T.equals key₁ key₂ = false from hapart] at hsame
    exact Bool.noConfusion hsame
  | inr hgt =>
    have hapart := hpairwise q₂ q₁ hlt₂ hlt₁ hgt
    rw [hget₁, hget₂] at hapart
    rw [equals_false_symm hT (show T.equals key₂ key₁ = false from hapart)] at hsame
    exact Bool.noConfusion hsame

theorem Inv.inserted {s : State K V I} {chains : ℕ → List ℕ} {pairs : ℕ → List (K × V)}
    (h : Inv T s chains pairs) (hT : T.Lawful) {key : K} {value : V} {inserted : Bool}
    (hmem : .getAndInsert key value inserted ∈ s.history) :
    (∃ key' value', .getAndInsert key' value' true ∈ s.history ∧ T.equals key key' = true) ∨
      ∃ i key' started loc, s.threads i = .active (.getAndInsert key') started loc ∧
        loc.stored = true ∧ T.equals key key' = true := by
  obtain ⟨pair, hpair, heq, -⟩ := h.returned key value inserted hmem
  cases h.inserter _ pair hpair with
  | inl hevent =>
    obtain ⟨key', value', hmem', heq'⟩ := hevent
    exact Or.inl ⟨key', value', hmem', hT.trans _ _ _ heq (hT.symm _ _ heq')⟩
  | inr hex =>
    obtain ⟨i, call, started, loc, hi, hstored, heq'⟩ := hex
    have hinserts := (h.thread i call started loc hi).inserts (Loc.stored_inserting hstored)
    cases call with
    | get key' => simp [Call.inserts] at hinserts
    | getAndInsert key' =>
      exact Or.inr ⟨i, key', started, loc, hi, hstored, hT.trans _ _ _ heq (hT.symm _ _ heq')⟩

theorem Inv.safe {s : State K V I} {chains : ℕ → List ℕ} {pairs : ℕ → List (K × V)}
    (h : Inv T s chains pairs) (hT : T.Lawful) : Safe T s where
  no_fault := fun i call started hi => (h.thread i call started .fault hi).knows
  slots_written := by
    intro b p hp
    rw [(h.bucket b).size_eq] at hp
    rw [(h.bucket b).slotAt (getElem?_eq_getElem hp)]
    rfl
  slots_distinct := by
    intro b p p' pair pair' hp hp' hne hslot hslot'
    rw [(h.bucket b).size_eq] at hp hp'
    rw [(h.bucket b).slotAt (getElem?_eq_getElem hp), Option.some.injEq] at hslot
    rw [(h.bucket b).slotAt (getElem?_eq_getElem hp'), Option.some.injEq] at hslot'
    subst hslot hslot'
    have hdistinct := pairwise_iff_getElem.1 (h.bucket b).distinct
    cases Nat.lt_or_gt_of_ne hne with
    | inl hlt => exact hdistinct p p' hp hp' hlt
    | inr hgt => exact equals_false_symm hT (hdistinct p' p hp' hp hgt)
  returned_stored := by
    intro key value inserted hmem
    obtain ⟨pair, hpair, heq, rfl⟩ := h.returned key value inserted hmem
    obtain ⟨p, hp, hget⟩ := mem_iff_getElem.1 hpair
    refine ⟨p, by rw [(h.bucket _).size_eq]; exact hp, pair.1, ?_, heq⟩
    exact (h.bucket _).slotAt (hget ▸ getElem?_eq_getElem hp)
  inserted_once := h.apart
  inserted := fun _ _ _ hmem => h.inserted hT hmem
  exactly_one := by
    intro hidle key value inserted hmem
    cases h.inserted hT hmem with
    | inr hex =>
      obtain ⟨i, key', started, loc, hi, -⟩ := hex
      rw [hidle i] at hi
      cases hi
    | inl hevent =>
      obtain ⟨key', value', hmem', heq⟩ := hevent
      obtain ⟨q, hq⟩ := getElem?_of_mem hmem'
      refine ⟨q, ⟨key', value', hq, heq⟩, ?_⟩
      intro q' hq'
      obtain ⟨key'', value'', hq', heq'⟩ := hq'
      exact apart_unique hT h.apart hq' hq heq' heq
  get_finds := fun key started hmem => (h.gets key started hmem).1

theorem slotsKept_of_inv {s t : State K V I} {chains chains' : ℕ → List ℕ}
    {pairs pairs' : ℕ → List (K × V)} (h : Inv T s chains pairs) (h' : Inv T t chains' pairs')
    (hpairs : ∀ b, pairs b <+: pairs' b) : SlotsKept T s t := by
  intro b p hp
  rw [(h.bucket b).size_eq] at hp
  have hget : (pairs b)[p]? = some (pairs b)[p] := getElem?_eq_getElem hp
  rw [(h'.bucket b).size_eq, (h.bucket b).slotAt hget,
    (h'.bucket b).slotAt (getElem?_of_isPrefix (hpairs b) hget)]
  exact ⟨Nat.lt_of_lt_of_le hp (hpairs b).length_le, rfl⟩

section Claims

variable [DecidableEq I] {s : State K V I}

theorem run_slotsKept (hT : T.Lawful) (hs : Reachable T s) {as : List (I × Input K V)}
    {t : State K V I} (hrun : Foundations.Steps (step T) s as t) : SlotsKept T s t := by
  obtain ⟨chains, pairs, hinv⟩ := inv_of_reachable hT hs
  have hkept : ∃ chains' pairs', Inv T t chains' pairs' ∧ ∀ b, pairs b <+: pairs' b := by
    refine hrun.invariant
      (P := fun t => ∃ chains' pairs', Inv T t chains' pairs' ∧ ∀ b, pairs b <+: pairs' b) ?_
      ⟨chains, pairs, hinv, fun _ => prefix_rfl⟩
    intro u a v hu hstep
    obtain ⟨chains', pairs', hinv', hextends⟩ := hu
    obtain ⟨chains'', pairs'', hpairs, -, hinv''⟩ := hinv'.step hT hstep
    exact ⟨chains'', pairs'', hinv'', fun b => (hextends b).trans (hpairs b)⟩
  obtain ⟨chains', pairs', hinv', hextends⟩ := hkept
  exact slotsKept_of_inv hinv hinv' hextends

/-- Every state of every interleaving is safe, and slots are never changed once published. -/
theorem reachable_safe (hT : T.Lawful) (h : Reachable T s) :
    Safe T s ∧ ∀ as t, Foundations.Steps (step T) s as t → SlotsKept T s t := by
  obtain ⟨chains, pairs, hinv⟩ := inv_of_reachable hT h
  exact ⟨hinv.safe hT, fun as t hrun => run_slotsKept hT h hrun⟩

end Claims

def single : Template Unit where
  nPairsPerChunk := 1
  hashTableSize := 1
  bucketIdx := fun _ => 0
  equals := fun _ _ => true

theorem single_lawful : single.Lawful :=
  ⟨le_rfl, by simp [single], by simp [single], by simp [single], by simp [single], by simp [single]⟩

theorem single_legal (call : Call Unit) (input : Input Unit ℕ) : input.Legal single call := by
  cases input with
  | ctor stored value => rfl
  | _ => trivial

theorem steps_of_run {T : Template K} [DecidableEq I]
    (hlegal : ∀ (call : Call K) (input : Input K V), input.Legal T call) {s t : State K V I}
    {as : List (I × Input K V)} (h : s.run T as = some t) : Foundations.Steps (step T) s as t := by
  induction as generalizing s with
  | nil =>
    cases h
    exact .nil _
  | cons a as ih =>
    unfold State.run at h
    rw [foldlM_cons] at h
    obtain ⟨u, hnext, hrest⟩ := Option.bind_eq_some_iff.1 h
    exact .cons ⟨fun call _ _ _ => hlegal call a.2, hnext⟩ (ih hrest)

/-- Two threads insert the key; the first one has returned, the other one waits for the lock. -/
theorem reachable_safe_inserted : ∃ s : State Unit ℕ (Fin 2),
    s.history = [.getAndInsert () 7 true] ∧ Reachable single s ∧ Safe single s ∧
      ∀ as t, Foundations.Steps (step single) s as t → SlotsKept single s t := by
  have hhistory : ((State.init : State Unit ℕ (Fin 2)).run single
      [(0, .call (.getAndInsert ())), (1, .call (.getAndInsert ())), (0, .run), (0, .run),
        (0, .run), (1, .run), (0, .run), (1, .run), (0, .run), (1, .run), (0, .run), (1, .run),
        (0, .run), (0, .run), (0, .run), (0, .ctor () 7), (0, .run), (0, .run), (0, .run),
        (0, .run), (0, .run)]).map State.history = some [.getAndInsert () 7 true] := rfl
  obtain ⟨s, hrun, hs⟩ := Option.map_eq_some_iff.1 hhistory
  have hreachable : Reachable single s := ⟨_, _, rfl, steps_of_run single_legal hrun⟩
  exact ⟨s, hs, hreachable, reachable_safe single_lawful hreachable⟩

end ScoreP.FastHashtab.Monotonic
