import ScoreP.Addr2line.Lookups

/-!
# Safety of the lookups

`Inv` is the invariant of every run. A run is `Fine` when each container is obtained for an address that
does not need more room than the overlaps counted so far provide, when no lookup without the reader lock is
overtaken by the insertion of an object it looks for, and when no token is asked for whose object is just
inserted or removed. `lookups_of_fine` says that then no lookup fails and each finds what it has to find.
-/

namespace ScoreP.Addr2line

open Foundations Function List

/-! ## The run-time objects -/

def Linker.objects : Linker → List RtObject
  | .idle => []
  | .tracked _ => []
  | .unlinked remove => [remove]

def Linker.tokens : Linker → List ℕ
  | .idle => []
  | .tracked new => [new.token]
  | .unlinked remove => [remove.token]

namespace Registry

variable {r : Registry} {new removed : RtObject} {segments : Segments} {cookie : ℕ}

def tokens (r : Registry) : List ℕ :=
  r.linker.tokens ++ r.rtObjects.map fun obj => obj.token

structure Consistent (r : Registry) : Prop where
  covers : ∀ obj ∈ r.rtObjects, r.rtRange.Covers obj.range
  count : r.rtObjectCount = r.rtObjects.length + r.linker.objects.length
  nodup : r.tokens.Nodup
  bounded : ∀ token ∈ r.tokens, token ≤ r.rtObjopenCallsTracked
  loaded : ∀ token, bitsetTest r.rtObjectsLoaded token = true ↔ token ∈ r.tokens

theorem tokens_idle (h : r.linker = .idle) : r.tokens = r.rtObjects.map fun obj => obj.token := by
  rw [tokens, h]
  rfl

theorem Consistent.track (h : r.Consistent) (hlinker : r.linker = .idle) : (r.track segments cookie).Consistent := by
  have htokens : (r.track segments cookie).tokens = (r.rtObjopenCallsTracked + 1) :: r.tokens := by
    rw [tokens_idle hlinker]
    rfl
  have hcount := h.count
  rw [hlinker] at hcount
  constructor
  · exact h.covers
  · exact hcount
  · rw [htokens, nodup_cons]
    exact ⟨fun hmem => absurd (h.bounded _ hmem) (Nat.not_succ_le_self _), h.nodup⟩
  · rw [htokens]
    intro token htoken
    rcases mem_cons.1 htoken with rfl | hold
    · exact Nat.le_refl _
    · exact Nat.le_succ_of_le (h.bounded token hold)
  · intro token
    rw [htokens, mem_cons, ← h.loaded token]
    dsimp only [Registry.track]
    rw [bitsetTest_set, Bool.or_eq_true, decide_eq_true_iff]

theorem Consistent.insert (h : r.Consistent) (hlinker : r.linker = .tracked new) : (r.insert new).Consistent := by
  have htokens : (r.insert new).tokens = r.tokens := by
    rw [tokens, tokens, hlinker]
    rfl
  have hcount := h.count
  rw [hlinker] at hcount
  constructor
  · intro obj hobj
    rcases mem_cons.1 hobj with rfl | hold
    · exact Span.covers_widen
    · exact (h.covers obj hold).widen
  · exact congrArg (· + 1) hcount
  · rw [htokens]
    exact h.nodup
  · rw [htokens]
    exact h.bounded
  · rw [htokens]
    exact h.loaded

theorem unlink_split (hfind : r.findCookie cookie = some removed) :
    ∃ pre post, r.rtObjects = pre ++ removed :: post ∧ (r.unlink cookie removed).rtObjects = pre ++ post := by
  obtain ⟨hcookie, pre, post, hsplit, hpre⟩ := find?_eq_some_iff_append.1 hfind
  refine ⟨pre, post, hsplit, ?_⟩
  have hpre' : ∀ obj ∈ pre, ¬decide (obj.auditCookie = cookie) = true := by
    intro obj hobj
    have hnot := hpre obj hobj
    rw [Bool.not_eq_true'] at hnot
    exact Bool.eq_false_iff.1 hnot
  rw [unlink]
  dsimp only
  rw [hsplit, eraseP_append_right _ hpre']
  exact congrArg (pre ++ ·) (eraseP_cons_of_pos hcookie)

theorem unlink_sublist (hfind : r.findCookie cookie = some removed) :
    ((r.unlink cookie removed).rtObjects).Sublist r.rtObjects :=
  eraseP_sublist

theorem Consistent.unlink (h : r.Consistent) (hlinker : r.linker = .idle)
    (hfind : r.findCookie cookie = some removed) : (r.unlink cookie removed).Consistent := by
  obtain ⟨pre, post, hsplit, hafter⟩ := unlink_split hfind
  have htokens : ((r.unlink cookie removed).tokens).Perm r.tokens := by
    have hlinked : (r.unlink cookie removed).linker.tokens = [removed.token] := rfl
    rw [tokens_idle hlinker, tokens, hlinked, hafter, hsplit, map_append, map_append, map_cons,
      singleton_append]
    exact perm_middle.symm
  constructor
  · intro obj hobj
    exact h.covers obj ((unlink_sublist hfind).subset hobj)
  · have hcount := h.count
    rw [hlinker, hsplit, length_append, length_cons] at hcount
    rw [hafter, length_append]
    exact hcount
  · exact htokens.nodup_iff.2 h.nodup
  · exact fun token htoken => h.bounded token (htokens.mem_iff.1 htoken)
  · exact fun token => (h.loaded token).trans htokens.mem_iff.symm

theorem Consistent.remove (h : r.Consistent) (hlinker : r.linker = .unlinked removed) :
    (r.remove removed).Consistent := by
  have htokens : r.tokens = removed.token :: (r.remove removed).tokens := by
    rw [tokens, tokens, hlinker]
    rfl
  have hcount := h.count
  rw [hlinker] at hcount
  have hnodup := h.nodup
  rw [htokens, nodup_cons] at hnodup
  constructor
  · exact shrink_covers h.covers
  · exact Nat.sub_eq_of_eq_add hcount
  · exact hnodup.2
  · intro token htoken
    apply h.bounded
    rw [htokens]
    exact mem_cons_of_mem _ htoken
  · intro token
    have hloaded := h.loaded token
    rw [htokens, mem_cons] at hloaded
    dsimp only [Registry.remove]
    rw [bitsetTest_clear, Bool.and_eq_true, hloaded, Bool.not_eq_true', decide_eq_false_iff_not]
    constructor
    · intro hcases
      exact hcases.2.resolve_left hcases.1
    · intro hmem
      exact ⟨fun heq => hnodup.1 (heq ▸ hmem), Or.inr hmem⟩

end Registry

/-! ## The containers -/

inductive Place (T : Type)
  | pool
  | freed
  | lookup (p : T)
  deriving DecidableEq

theorem Place.pool_ne_freed {T : Type} : (Place.pool : Place T) ≠ .freed := by
  intro h
  cases h

theorem Place.lookup_ne_pool {T : Type} (p : T) : Place.lookup p ≠ .pool := by
  intro h
  cases h

def Lookup.held : Lookup → List ℕ
  | .obtained _ container => [container]
  | .matched _ container => [container]
  | .unlocked container => [container]
  | _ => []

def held {T : Type} (freeList freed : List ℕ) (lookups : T → Lookup) : Place T → List ℕ
  | .pool => freeList
  | .freed => freed
  | .lookup p => (lookups p).held

def Kept {T : Type} (pool : Pool) (lookups : T → Lookup) : Prop :=
  Accounted (held pool.freeList pool.freed lookups) pool.allocated

theorem Pool.take_capacity (pool : Pool) (neededCapacity : ℕ) (unlock : Bool) :
    neededCapacity ≤ ((pool.take neededCapacity unlock).2.containers
        (pool.take neededCapacity unlock).1).capacity ∧
      ((pool.take neededCapacity unlock).2.containers (pool.take neededCapacity unlock).1).unlock = unlock := by
  rw [Pool.take]
  split
  · dsimp only [Pool.alloc]
    rw [update_self]
    exact ⟨Nat.le_refl _, rfl⟩
  · split
    · dsimp only [Pool.alloc]
      rw [update_self]
      exact ⟨Nat.le_refl _, rfl⟩
    · next hlarge =>
      dsimp only
      rw [update_self]
      exact ⟨Nat.not_lt.1 hlarge, rfl⟩

theorem Pool.store_same (pool : Pool) (container : ℕ) (found : List SharedObject) (c : ℕ) :
    ((pool.store container found).containers c).unlock = (pool.containers c).unlock ∧
      ((pool.store container found).containers c).capacity = (pool.containers c).capacity := by
  rw [Pool.store]
  dsimp only
  by_cases hc : c = container
  · subst hc
    rw [update_self]
    exact ⟨rfl, rfl⟩
  · rw [update_of_ne hc]
    exact ⟨rfl, rfl⟩

section Kept

variable {T : Type} [DecidableEq T] {pool : Pool} {lookups : T → Lookup} {freeList freed : List ℕ} {p : T}
  {place : Lookup} {container : ℕ}

theorem held_goOn : held freeList freed (update lookups p place) =
    update (held freeList freed lookups) (.lookup p) place.held := by
  funext where'
  cases where' with
  | pool => rfl
  | freed => rfl
  | lookup q =>
    by_cases hq : q = p
    · subst hq
      rw [held, update_self, update_self]
    · have hne : Place.lookup q ≠ Place.lookup p := fun h => hq (Place.lookup.inj h)
      rw [held, update_of_ne hq, update_of_ne hne, held]

theorem held_freeList {freeList' : List ℕ} : held freeList' freed lookups =
    update (held freeList freed lookups) .pool freeList' := by
  funext where'
  cases where' <;> rfl

theorem held_freed {freed' : List ℕ} : held freeList freed' lookups =
    update (held freeList freed lookups) .freed freed' := by
  funext where'
  cases where' <;> rfl

theorem Kept.goOn (h : Kept pool lookups) (hplace : place.held = (lookups p).held) :
    Kept pool (update lookups p place) := by
  rw [Kept, held_goOn, hplace]
  have hself : update (held pool.freeList pool.freed lookups) (.lookup p) (lookups p).held =
      held pool.freeList pool.freed lookups := update_eq_self (Place.lookup p) _
  rw [hself]
  exact h

theorem Kept.create (h : Kept pool lookups) (hp : (lookups p).held = []) {neededCapacity : ℕ} {unlock : Bool}
    (hplace : place.held = [pool.allocated]) :
    Kept (pool.alloc neededCapacity unlock) (update lookups p place) := by
  have hcreate := Accounted.create (i := Place.lookup p) h
  rw [held, hp, ← hplace, ← held_goOn] at hcreate
  exact hcreate

theorem Kept.take (h : Kept pool lookups) (hp : (lookups p).held = []) {neededCapacity : ℕ} {unlock : Bool}
    (hplace : place.held = [(pool.take neededCapacity unlock).1]) :
    Kept (pool.take neededCapacity unlock).2 (update lookups p place) := by
  cases hfree : pool.freeList with
  | nil =>
    rw [Pool.take, hfree] at hplace ⊢
    exact h.create hp hplace
  | cons container rest =>
    have hkept : Accounted (held pool.freeList pool.freed lookups) pool.allocated := h
    rw [Pool.take, hfree] at hplace ⊢
    dsimp only at hplace ⊢
    split
    · next hsmall =>
      rw [if_pos hsmall] at hplace
      have hfreed : Kept { pool with freeList := rest, freed := container :: pool.freed } lookups := by
        have hmove := Accounted.move (i := Place.pool) (j := Place.freed) hkept hfree Place.pool_ne_freed
        rw [← held_freeList, held, ← held_freed] at hmove
        exact hmove
      exact hfreed.create hp hplace
    · next hlarge =>
      rw [if_neg hlarge] at hplace
      have hmove := Accounted.move (i := Place.pool) (j := Place.lookup p) hkept hfree (Place.lookup_ne_pool p).symm
      rw [← held_freeList, held, hp, ← hplace, ← held_goOn] at hmove
      exact hmove

theorem Kept.give (h : Kept pool lookups) (hp : (lookups p).held = [container]) (hplace : place.held = []) :
    Kept (pool.give container) (update lookups p place) := by
  have hkept : Accounted (held pool.freeList pool.freed lookups) pool.allocated := h
  have hmove := Accounted.move (i := Place.lookup p) (j := Place.pool) hkept hp (Place.lookup_ne_pool p)
  rw [← hplace, ← held_goOn, held, ← held_freeList] at hmove
  exact hmove

end Kept

/-! ## The lookups -/

def Lookup.Reading (containers : ℕ → Container) : Lookup → Prop
  | .entered _ unlock => unlock = true
  | .sized _ unlock _ => unlock = true
  | .obtained _ container => (containers container).unlock = true
  | .matched _ container => (containers container).unlock = true
  | _ => False

def Lookup.Fits (lt : LoadTime) (rtObjects : List RtObject) (containers : ℕ → Container) : Lookup → Prop
  | .sized addr unlock neededCapacity => (matching lt rtObjects addr unlock).length ≤ neededCapacity
  | .obtained addr container =>
    (matching lt rtObjects addr (containers container).unlock).length ≤ (containers container).capacity
  | .bug => False
  | _ => True

section Lookup

variable {lt : LoadTime} {rtObjects rtObjects' : List RtObject} {containers containers' : ℕ → Container}
  {place : Lookup}

theorem Lookup.reading_congr (hsame : ∀ c ∈ place.held, (containers' c).unlock = (containers c).unlock) :
    place.Reading containers' ↔ place.Reading containers := by
  cases place with
  | obtained addr container => rw [Reading, Reading, hsame container mem_cons_self]
  | matched addr container => rw [Reading, Reading, hsame container mem_cons_self]
  | entered => exact Iff.rfl
  | sized => exact Iff.rfl
  | idle => exact Iff.rfl
  | waiting => exact Iff.rfl
  | bug => exact Iff.rfl
  | unlocked => exact Iff.rfl

theorem Lookup.Fits.congr (hsame : ∀ c ∈ place.held, (containers' c).unlock = (containers c).unlock ∧
    (containers' c).capacity = (containers c).capacity) (h : place.Fits lt rtObjects containers) :
    place.Fits lt rtObjects containers' := by
  cases place with
  | obtained addr container =>
    obtain ⟨hunlock, hcapacity⟩ := hsame container mem_cons_self
    rw [Fits, hunlock, hcapacity]
    exact h
  | sized => exact h
  | entered => exact h
  | matched => exact h
  | idle => exact h
  | waiting => exact h
  | bug => exact h
  | unlocked => exact h

theorem Lookup.Fits.of_not_reading (h : place.Fits lt rtObjects containers) (hreading : ¬place.Reading containers) :
    place.Fits lt rtObjects' containers := by
  cases place with
  | sized addr unlock neededCapacity =>
    cases unlock with
    | false => exact h
    | true => exact absurd rfl hreading
  | obtained addr container =>
    have hunlock : (containers container).unlock = false := Bool.eq_false_iff.2 hreading
    rw [Fits, hunlock] at h ⊢
    exact h
  | entered => exact h
  | matched => exact h
  | idle => exact h
  | waiting => exact h
  | bug => exact h
  | unlocked => exact h

end Lookup

variable {T : Type} [DecidableEq T]

structure Inv (s : State T) : Prop where
  collected : s.lt.Collected
  consistent : s.registry.Consistent
  kept : Kept s.pool s.lookups
  nodup : s.readers.Nodup
  reading : ∀ p, (s.lookups p).Reading s.pool.containers ↔ p ∈ s.readers
  fits : ∀ p, (s.lookups p).Fits s.lt s.registry.rtObjects s.pool.containers

def Fine (s : State T) : Action T → Prop
  | .size p => ∀ addr unlock, s.lookups p = .entered addr unlock →
    (matching s.lt s.registry.rtObjects addr unlock).length ≤ s.registry.nOverlappingAddressRanges.toNat + 1
  | .search p => ∀ addr container, s.lookups p = .obtained addr container → p ∉ s.readers →
    ∀ obj ∈ s.registry.rtObjects, ¬obj.range.Contains addr
  | .stillLoaded token _ => ∀ obj, s.registry.linker = .tracked obj ∨ s.registry.linker = .unlinked obj →
    obj.token ≠ token
  | _ => True

namespace Inv

variable {s t : State T} {p : T} {place : Lookup} {a : Action T}

theorem initial (infos : List PhdrInfo) : Inv (initial T infos) := by
  have hheld : held [] [] (Addr2line.initial T infos).lookups = fun _ => [] := by
    funext where'
    cases where' <;> rfl
  constructor
  · exact addr2lineInitialize_collected infos
  · constructor
    · exact fun obj hobj => absurd hobj not_mem_nil
    · rfl
    · exact nodup_nil
    · exact fun token htoken => absurd htoken not_mem_nil
    · intro token
      constructor
      · intro hloaded
        rw [bitsetTest_eq] at hloaded
        exact absurd hloaded (by rw [Addr2line.initial, BitVec.ofNat_eq_ofNat, BitVec.getLsbD_zero]; exact Bool.false_ne_true)
      · exact fun htoken => absurd htoken not_mem_nil
  · change Accounted (held [] [] (Addr2line.initial T infos).lookups) 0
    rw [hheld]
    exact accounted_nil
  · exact nodup_nil
  · exact fun p => ⟨fun hreading => hreading.elim, fun hmem => absurd hmem not_mem_nil⟩
  · exact fun p => trivial

theorem linker (h : Inv s) {r : Registry} (hr : r.Consistent)
    (hobjects : s.readers = [] ∨ r.rtObjects = s.registry.rtObjects) : Inv { s with registry := r } := by
  refine ⟨h.collected, hr, h.kept, h.nodup, h.reading, fun p => ?_⟩
  rcases hobjects with hreaders | hsame
  · have hnot : ¬(s.lookups p).Reading s.pool.containers := by
      intro hreading
      have hmem := (h.reading p).1 hreading
      rw [hreaders] at hmem
      exact absurd hmem not_mem_nil
    exact (h.fits p).of_not_reading hnot
  · dsimp only
    rw [hsame]
    exact h.fits p

theorem lookup (h : Inv s) {pool : Pool} {readers : List T} (hkept : Kept pool (s.goOn p place))
    (hnodup : readers.Nodup) (hreaders : ∀ q, q ≠ p → (q ∈ readers ↔ q ∈ s.readers))
    (hsame : ∀ q, q ≠ p → ∀ c ∈ (s.lookups q).held, (pool.containers c).unlock = (s.pool.containers c).unlock ∧
        (pool.containers c).capacity = (s.pool.containers c).capacity)
    (hreading : place.Reading pool.containers ↔ p ∈ readers)
    (hfits : place.Fits s.lt s.registry.rtObjects pool.containers) :
    Inv { s with pool := pool, readers := readers, lookups := s.goOn p place } := by
  refine ⟨h.collected, h.consistent, hkept, hnodup, fun q => ?_, fun q => ?_⟩
  · dsimp only [State.goOn]
    by_cases hq : q = p
    · subst hq
      rw [update_self]
      exact hreading
    · rw [update_of_ne hq, hreaders q hq, ← h.reading q]
      exact Lookup.reading_congr fun c hc => (hsame q hq c hc).1
  · dsimp only [State.goOn]
    by_cases hq : q = p
    · subst hq
      rw [update_self]
      exact hfits
    · rw [update_of_ne hq]
      exact (h.fits q).congr (hsame q hq)

theorem own_step (h : Inv s) (hheld : place.held = (s.lookups p).held)
    (hreading : place.Reading s.pool.containers ↔ (s.lookups p).Reading s.pool.containers)
    (hfits : place.Fits s.lt s.registry.rtObjects s.pool.containers) :
    Inv { s with lookups := s.goOn p place } :=
  h.lookup (h.kept.goOn hheld) h.nodup (fun _ _ => Iff.rfl) (fun _ _ _ _ => ⟨rfl, rfl⟩)
    (hreading.trans (h.reading p)) hfits

theorem take_same (h : Inv s) {neededCapacity : ℕ} {unlock : Bool} {c : ℕ} (hc : c ∈ (s.lookups p).held) :
    (s.pool.take neededCapacity unlock).2.containers c = s.pool.containers c := by
  have hcreated : c < s.pool.allocated := (h.kept.kept c).1 ⟨.lookup p, hc⟩
  have hnew : c ≠ s.pool.allocated := Nat.ne_of_lt hcreated
  cases hfree : s.pool.freeList with
  | nil =>
    rw [Pool.take, hfree]
    exact update_of_ne hnew _ _
  | cons container rest =>
    have hpool : c ≠ container := by
      intro heq
      have hmem : c ∈ held s.pool.freeList s.pool.freed s.lookups .pool := by
        rw [held, hfree, heq]
        exact mem_cons_self
      exact Place.lookup_ne_pool p (h.kept.apart.unique hc hmem)
    rw [Pool.take, hfree]
    dsimp only
    split
    · exact update_of_ne hnew _ _
    · exact update_of_ne hpool _ _

theorem search_eq (h : Inv s) {addr : Address} {container : ℕ} (hp : s.lookups p = .obtained addr container) :
    s.search addr container =
      some (matching s.lt s.registry.rtObjects addr (s.pool.containers container).unlock) := by
  have hfits := h.fits p
  rw [hp] at hfits
  exact lookupSo_eq h.collected.covers h.consistent.covers hfits

theorem step (h : Inv s) (hfine : Fine s a) (hstep : Step s a t) : Inv t := by
  cases hstep with
  | objopenIgnored => exact h
  | objopen infos name cookie segments hlinker => exact h.linker (h.consistent.track hlinker) (Or.inr rfl)
  | insert new hlinker hlock => exact h.linker (h.consistent.insert hlinker) (Or.inl hlock)
  | objcloseIgnored => exact h
  | objcloseUnknown => exact h
  | objclose cookie remove hlinker _ hlock hfind =>
    exact h.linker (h.consistent.unlink hlinker hfind) (Or.inl hlock)
  | remove remove hlinker => exact h.linker (h.consistent.remove hlinker) (Or.inr rfl)
  | start p addr hp =>
    apply h.own_step
    · rw [hp]
      split <;> rfl
    · rw [hp]
      split
      · exact Iff.rfl
      · exact ⟨fun heq => absurd heq Bool.false_ne_true, False.elim⟩
    · split <;> exact trivial
  | enter p addr hp =>
    have hout : p ∉ s.readers := by
      rw [← h.reading p, hp]
      exact not_false
    apply h.lookup
    · exact h.kept.goOn (by rw [hp]; rfl)
    · exact nodup_cons.2 ⟨hout, h.nodup⟩
    · intro q hq
      rw [mem_cons]
      exact or_iff_right hq
    · exact fun _ _ _ _ => ⟨rfl, rfl⟩
    · exact ⟨fun _ => mem_cons_self, fun _ => rfl⟩
    · exact trivial
  | size p addr unlock hp =>
    apply h.own_step
    · rw [hp]
      rfl
    · rw [hp]
      exact Iff.rfl
    · exact hfine addr unlock hp
  | obtain p addr unlock neededCapacity hp =>
    have hreading := h.reading p
    have hfits := h.fits p
    rw [hp] at hreading hfits
    obtain ⟨hcapacity, hunlock⟩ := s.pool.take_capacity neededCapacity unlock
    apply h.lookup
    · exact h.kept.take (by rw [hp]; rfl) rfl
    · exact h.nodup
    · exact fun _ _ => Iff.rfl
    · intro q _ c hc
      rw [h.take_same hc]
      exact ⟨rfl, rfl⟩
    · rw [Lookup.Reading, hunlock]
      exact hreading
    · rw [Lookup.Fits, hunlock]
      exact Nat.le_trans hfits hcapacity
  | search p addr container found hp =>
    have hreading := h.reading p
    rw [hp] at hreading
    apply h.lookup
    · exact h.kept.goOn (by rw [hp]; rfl)
    · exact h.nodup
    · exact fun _ _ => Iff.rfl
    · exact fun q _ c _ => s.pool.store_same container found c
    · rw [Lookup.Reading, (s.pool.store_same container found container).1]
      exact hreading
    · exact trivial
  | searchBug p addr container hp hsearch =>
    rw [h.search_eq hp] at hsearch
    exact absurd hsearch (Option.some_ne_none _)
  | unlock p addr container hp =>
    have hreading := h.reading p
    rw [hp] at hreading
    have hout : p ∉ s.readersWithout p container := by
      rw [State.readersWithout]
      split
      · exact h.nodup.not_mem_erase
      · next hunlock => exact fun hmem => hunlock (hreading.2 hmem)
    apply h.lookup
    · exact h.kept.goOn (by rw [hp]; rfl)
    · rw [State.readersWithout]
      split
      · exact h.nodup.erase p
      · exact h.nodup
    · intro q hq
      rw [State.readersWithout]
      split
      · exact mem_erase_of_ne hq
      · exact Iff.rfl
    · exact fun _ _ _ _ => ⟨rfl, rfl⟩
    · exact ⟨False.elim, fun hmem => hout hmem⟩
    · exact trivial
  | release p container hp =>
    have hreading := h.reading p
    rw [hp] at hreading
    apply h.lookup
    · exact h.kept.give (by rw [hp]; rfl) rfl
    · exact h.nodup
    · exact fun _ _ => Iff.rfl
    · exact fun _ _ _ _ => ⟨rfl, rfl⟩
    · exact hreading
    · exact trivial
  | stillLoaded => exact h

end Inv

/-! ## Runs -/

def State.live (s : State T) (addr : Address) : List SharedObject :=
  matching s.lt s.registry.rtObjects addr true

/-- The step is right: a search does not fail and finds the live objects, and a token is loaded when its
object is in the list. -/
def Right (s : State T) : Action T → State T → Prop
  | .search p, t => ∀ addr container, s.lookups p = .obtained addr container →
    t.lookups p = .matched addr container ∧ (t.pool.containers container).objects = s.live addr
  | .stillLoaded token loaded, _ => loaded = true ↔ ∃ obj ∈ s.registry.rtObjects, obj.token = token
  | _, _ => True

structure Safe (s : State T) : Prop where
  noBug : ∀ p, s.lookups p ≠ .bug
  covers : ∀ obj ∈ s.registry.rtObjects, s.registry.rtRange.Covers obj.range
  kept : Kept s.pool s.lookups

theorem Inv.safe {s : State T} (h : Inv s) : Safe s := by
  refine ⟨fun p hbug => ?_, h.consistent.covers, h.kept⟩
  have hfits := h.fits p
  rw [hbug] at hfits
  exact hfits

theorem Inv.right {s t : State T} {a : Action T} (h : Inv s) (hfine : Fine s a) (hstep : Step s a t) :
    Right s a t := by
  cases hstep with
  | search p addr container found hp hsearch =>
    intro addr' container' hp'
    obtain ⟨rfl, rfl⟩ := Lookup.obtained.inj (hp.symm.trans hp')
    rw [h.search_eq hp] at hsearch
    have hreading := h.reading p
    rw [hp] at hreading
    refine ⟨update_self _ _ _, ?_⟩
    dsimp only [Pool.store]
    rw [update_self, ← Option.some.inj hsearch, State.live]
    cases hunlock : (s.pool.containers container).unlock with
    | true => rfl
    | false =>
      -- no run-time object contains the address, so nothing is missed
      have hout : p ∉ s.readers := fun hmem => Bool.false_ne_true (hunlock.symm.trans (hreading.2 hmem))
      have hnone : containing SharedObject.range (s.registry.rtObjects.map RtObject.toSharedObject) addr = [] := by
        apply filter_eq_nil_iff.2
        intro obj hobj hcontains
        obtain ⟨rt, hrt, rfl⟩ := mem_map.1 hobj
        exact hfine addr container hp hout rt hrt (of_decide_eq_true hcontains)
      rw [matching, matching, if_pos rfl, hnone, if_neg Bool.false_ne_true]
  | searchBug p addr container hp hsearch =>
    rw [h.search_eq hp] at hsearch
    exact absurd hsearch (Option.some_ne_none _)
  | stillLoaded token =>
    rw [Right, h.consistent.loaded token, Registry.tokens, mem_append, mem_map]
    apply or_iff_right
    intro hlinker
    cases hcase : s.registry.linker with
    | idle =>
      rw [hcase] at hlinker
      exact absurd hlinker not_mem_nil
    | tracked new =>
      rw [hcase] at hlinker
      exact hfine new (Or.inl hcase) (mem_singleton.1 hlinker).symm
    | unlinked removed =>
      rw [hcase] at hlinker
      exact hfine removed (Or.inr hcase) (mem_singleton.1 hlinker).symm
  | _ => trivial

/-- In a run of fine steps no lookup fails, each finds the live objects, and the tokens of the live objects
are the ones that are loaded. -/
theorem lookups_of_fine {infos : List PhdrInfo} {as : List (Action T)} {s : State T}
    (hrun : Steps (fun s a t => Fine s a ∧ Step s a t) (initial T infos) as s) :
    Safe s ∧ ∀ a t, Fine s a → Step s a t → Right s a t := by
  have hinv : Inv s := hrun.invariant_of_guard (fun _ _ _ h hfine hstep => h.step hfine hstep) (Inv.initial infos)
  exact ⟨hinv.safe, fun _ _ hfine hstep => hinv.right hfine hstep⟩

/-! ## An address of a load-time and of a run-time object -/

def loadedInfos : List PhdrInfo := [⟨['a'], true, some ⟨['a'], 0, 16, 31⟩⟩]

def openedSegments : Segments := ⟨['b'], 0, 24, 47⟩

def entered (addr : Address) : State Unit :=
  let s := initial Unit loadedInfos
  { s with
    registry := (s.registry.track openedSegments 7).insert (rtObject openedSegments 1 7)
    readers := [()]
    lookups := update (update s.lookups () (.waiting addr)) () (.entered addr true) }

theorem steps_entered (addr : Address) : Steps (fun s a t => Fine s a ∧ Step s a t) (initial Unit loadedInfos)
      [.objopen (loadedInfos ++ [⟨['b'], true, some openedSegments⟩]) ['b'] 7, .insert, .start () addr, .enter ()]
      (entered addr) := by
  refine .cons ⟨trivial, .objopen _ _ _ openedSegments rfl rfl (by decide)⟩ ?_
  refine .cons ⟨trivial, .insert (rtObject openedSegments 1 7) rfl rfl⟩ ?_
  refine .cons ⟨trivial, .start () addr rfl⟩ ?_
  refine .cons ⟨trivial, .enter () addr rfl fun _ h => Linker.noConfusion h⟩ ?_
  exact .nil _

/-- An address of the run-time object alone is found. -/
theorem lookups_of_fine_entered :
    ∃ as s, Steps (fun s a t => Fine s a ∧ Step s a t) (initial Unit loadedInfos) as s ∧
      (∀ a t, Fine s a → Step s a t → Right s a t) ∧ s.lookups () = .obtained 40 0 := by
  have hsize : Fine (entered 40) (.size ()) := by
    intro addr unlock h
    obtain ⟨rfl, rfl⟩ := Lookup.entered.inj h
    decide +kernel
  have hobtain : ∀ s : State Unit, Fine s (.obtain ()) := fun _ => trivial
  have hrun := (steps_entered 40).append (.cons ⟨hsize, .size () 40 true rfl⟩
    (.cons ⟨hobtain _, .obtain () 40 true 1 rfl⟩ (.nil _)))
  exact ⟨_, _, hrun, (lookups_of_fine hrun).2, rfl⟩

/-- The load-time and the run-time object both contain the address 24, the container has room for one. -/
theorem not_safe_entered : ¬ ∀ (infos : List PhdrInfo) (as : List (Action Unit)) (s : State Unit),
      Steps Step (initial Unit infos) as s → Safe s := by
  intro hall
  have hentered := (steps_entered 24).mono fun _ _ _ h => h.2
  have hrun := hentered.append (.cons (.size () 24 true rfl) (.cons (.obtain () 24 true 1 rfl)
    (.cons (.searchBug () 24 0 rfl rfl) (.nil _))))
  exact (hall loadedInfos _ _ hrun).noBug () rfl

end ScoreP.Addr2line
