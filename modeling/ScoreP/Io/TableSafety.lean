import ScoreP.Foundations.Transition
import ScoreP.Io.HandleTable

/-!
# The hash table refines a finite map

`getHandleRef_spec` says where the search ends: at the place of the pointer to the mapped definition, or at
the end of the chain. An entry is taken out by `Stores.unmap` and put in by `Stores.push`; what these do to
the other places is what a thread reads that has left the mutex section of `SCOREP_IoMgmt_GetIoHandle` before.

From the step theorem `RefinesDirectory.step` it follows by induction that a run of fine calls meets the map
(`meetsDirectory_of_fine`).
-/

namespace ScoreP.Io

open Foundations Function Option

variable {T N : Type} {jenkinsHash : N → UInt32} {p p' : Paradigm T N}
  {dir dir' : Directory T N} {chains : UInt32 → List ℕ} {ref : Ref UInt32 ℕ} {n : N} {d h : ℕ} {t : T}

/-! ## Search -/

theorem Stores.mem_unique (hstores : Stores jenkinsHash p dir chains) {i : UInt32} (hmem : h ∈ chains i)
    (hnative : p.native h = n) : dir.map n = some h := by
  obtain ⟨n', hnative', hmap, -⟩ := hstores.chained i h hmem
  obtain ⟨heq, -, -⟩ := hstores.payload h n' hnative'
  rwa [heq.symm.trans hnative] at hmap

theorem Stores.length_le (hstores : Stores jenkinsHash p dir chains) (i : UInt32) :
    (chains i).length ≤ p.defined := by
  apply length_le_of_bounded (hstores.holds.apart.nodup i)
  intro h hmem
  obtain ⟨n, hnative, -, -⟩ := hstores.chained i h hmem
  exact (hstores.payload h n hnative).2.2

variable [DecidableEq N]

theorem Stores.find?_eq (hstores : Stores jenkinsHash p dir chains) (n : N) :
    (chains (handleIndex jenkinsHash n)).find?
      (fun entry => decide (p.hash entry = jenkinsHash n ∧ p.native entry = n)) = dir.map n := by
  cases hmap : dir.map n with
  | none =>
    apply List.find?_eq_none.2
    intro h hmem hfound
    have hnative := (of_decide_eq_true hfound).2
    rw [hstores.mem_unique hmem hnative] at hmap
    cases hmap
  | some d =>
    obtain ⟨hnative, hmem⟩ := hstores.mapped n d hmap
    obtain ⟨hpayload, hhash, -⟩ := hstores.payload d n hnative
    cases hfind : (chains (handleIndex jenkinsHash n)).find?
        (fun entry => decide (p.hash entry = jenkinsHash n ∧ p.native entry = n)) with
    | none => exact absurd (decide_eq_true ⟨hhash, hpayload⟩) (List.find?_eq_none.1 hfind d hmem)
    | some h =>
      have hfound := List.find?_some hfind
      simp only [decide_eq_true_eq] at hfound
      rw [← hmap]
      exact (hstores.mem_unique (List.mem_of_find?_eq_some hfind) hfound.2).symm

theorem getHandleRef_spec (hstores : Stores jenkinsHash p dir chains) (hash : UInt32)
    (hhash : hash = 0 ∨ hash = jenkinsHash n) :
    ∃ ref, p.getHandleRef jenkinsHash n hash = some ref ∧ p.links.read ref = dir.map n ∧
      (ref = .root (handleIndex jenkinsHash n) ∨ ∃ a ∈ chains (handleIndex jenkinsHash n), ref = .next a) := by
  have heq : (if hash = 0 then jenkinsHash n else hash) = jenkinsHash n := by
    by_cases hzero : hash = 0
    · rw [if_pos hzero]
    · rw [if_neg hzero]
      exact hhash.resolve_left hzero
  have hchain := hstores.holds.chain (handleIndex jenkinsHash n)
  have hroot : Chain p.links.next (p.links.read (.root (handleIndex jenkinsHash n)))
      (chains (handleIndex jenkinsHash n)) := hchain
  rw [Paradigm.getHandleRef, heq]
  rw [← hstores.find?_eq n]
  exact Links.find_spec hroot (Nat.lt_succ_of_le (hstores.length_le _))

/-! ## Taking out and putting in -/

def Directory.unmap (dir : Directory T N) (ioHandle : N) : Directory T N :=
  { dir with map := update dir.map ioHandle none }

theorem Directory.map_unmap : (dir.unmap n).map n = none := by
  simp [Directory.unmap]

theorem Directory.map_unmap_eq_some {n' : N} :
    (dir.unmap n).map n' = some h ↔ n' ≠ n ∧ dir.map n' = some h := by
  by_cases hn : n' = n
  · subst hn
    simp [Directory.map_unmap]
  · simp [Directory.unmap, hn]

theorem Stores.unmap (hstores : Stores jenkinsHash p dir chains) (hmap : dir.map n = some d)
    (hread : p.links.read ref = some d) (hplace : ref = .root (handleIndex jenkinsHash n) ∨
      ∃ a ∈ chains (handleIndex jenkinsHash n), ref = .next a) :
    ∃ chains', Stores jenkinsHash { p with links := p.links.unlink ref d } (dir.unmap n) chains' ∧
      chains' (handleIndex jenkinsHash n) = (chains (handleIndex jenkinsHash n)).erase d ∧
      Unheld chains' d ∧ ∀ h, Unheld chains h → Unheld chains' h := by
  obtain ⟨hnative, hmem⟩ := hstores.mapped n d hmap
  obtain ⟨hholds, hunheld⟩ := hstores.holds.unlink hplace hread
  have hsub : ∀ j h, h ∈ update chains (handleIndex jenkinsHash n)
      ((chains (handleIndex jenkinsHash n)).erase d) j → h ∈ chains j := by
    intro j h hh
    by_cases hj : j = handleIndex jenkinsHash n
    · subst hj
      rw [update_self] at hh
      exact List.mem_of_mem_erase hh
    · rwa [update_of_ne hj] at hh
  have hkeeps : ∀ h, Unheld chains h → Unheld (update chains (handleIndex jenkinsHash n)
      ((chains (handleIndex jenkinsHash n)).erase d)) h :=
    fun h hh j hj => hh j (hsub j h hj)
  refine ⟨_, ⟨hholds, ?_, ?_, hstores.payload, hstores.incomplete, ?_⟩, update_self _ _ _, hunheld, hkeeps⟩
  · intro j h hh
    obtain ⟨n', hnative', hmap', hindex⟩ := hstores.chained j h (hsub j h hh)
    refine ⟨n', hnative', Directory.map_unmap_eq_some.2 ⟨?_, hmap'⟩, hindex⟩
    rintro rfl
    rw [hmap, some.injEq] at hmap'
    subst hmap'
    exact hunheld j hh
  · intro n' h hmap'
    obtain ⟨hne, hmap'⟩ := Directory.map_unmap_eq_some.1 hmap'
    obtain ⟨hnative', hmem'⟩ := hstores.mapped n' h hmap'
    refine ⟨hnative', ?_⟩
    by_cases hj : handleIndex jenkinsHash n' = handleIndex jenkinsHash n
    · rw [hj] at hmem' ⊢
      rw [update_self]
      apply (List.mem_erase_of_ne ?_).2 hmem'
      rintro rfl
      rw [hnative, some.injEq] at hnative'
      exact hne hnative'.symm
    · rw [update_of_ne hj]
      exact hmem'
  · intro h hremoved
    obtain ⟨hsome, hfree, hnext⟩ := hstores.removed h hremoved
    refine ⟨hsome, hkeeps h hfree, ?_⟩
    have hread' : (p.links.unlink ref d).read (.next h) = p.links.read (.next h) := by
      apply Links.read_unlink (.next h)
      · rcases hplace with rfl | ⟨a, ha, rfl⟩
        · simp
        · have hne : h ≠ a := by
            rintro rfl
            exact hfree _ ha
          simpa using hne
      · have hne : h ≠ d := by
          rintro rfl
          exact hfree _ hmem
        simpa using hne
    exact hread'.trans hnext

theorem Stores.push (hstores : Stores jenkinsHash p dir chains) (hnative : dir.native h = some n)
    (hfree : Unheld chains h) (hmap : dir.map n = none) :
    ∃ chains', Stores jenkinsHash (p.pushHandle h) (dir.insert h n) chains' := by
  obtain ⟨-, hhash, -⟩ := hstores.payload h n hnative
  have hindex : p.hash h &&& handleHashtableMask = handleIndex jenkinsHash n := by
    rw [hhash]
    rfl
  rw [Paradigm.pushHandle, hindex]
  have hcases : ∀ j a, a ∈ update chains (handleIndex jenkinsHash n)
      (h :: chains (handleIndex jenkinsHash n)) j → (a = h ∧ j = handleIndex jenkinsHash n) ∨ a ∈ chains j := by
    intro j a ha
    by_cases hj : j = handleIndex jenkinsHash n
    · subst hj
      rw [update_self] at ha
      rcases List.mem_cons.1 ha with heq | ha
      · exact Or.inl ⟨heq, rfl⟩
      · exact Or.inr ha
    · rw [update_of_ne hj] at ha
      exact Or.inr ha
  refine ⟨_, ⟨hstores.holds.pushFront hfree, ?_, ?_, hstores.payload, hstores.incomplete, ?_⟩⟩
  · intro j a ha
    rcases hcases j a ha with ⟨rfl, rfl⟩ | ha
    · exact ⟨n, hnative, dir.map_insert a n, rfl⟩
    · obtain ⟨n', hnative', hmap', hindex'⟩ := hstores.chained j a ha
      have hne : n' ≠ n := by
        rintro rfl
        rw [hmap] at hmap'
        cases hmap'
      refine ⟨n', hnative', ?_, hindex'⟩
      rwa [Directory.map_insert_of_ne dir h hne]
  · intro n' a hmap'
    by_cases hn : n' = n
    · subst hn
      rw [Directory.map_insert, some.injEq] at hmap'
      subst hmap'
      refine ⟨hnative, ?_⟩
      rw [update_self]
      exact List.mem_cons_self
    · rw [Directory.map_insert_of_ne dir h hn] at hmap'
      obtain ⟨hnative', hmem⟩ := hstores.mapped n' a hmap'
      refine ⟨hnative', ?_⟩
      by_cases hj : handleIndex jenkinsHash n' = handleIndex jenkinsHash n
      · rw [hj] at hmem ⊢
        rw [update_self]
        exact List.mem_cons_of_mem h hmem
      · rwa [update_of_ne hj]
  · intro a hremoved
    have hne : a ≠ h := by
      rintro rfl
      rw [Directory.removed_insert] at hremoved
      cases hremoved
    rw [Directory.removed_insert_of_ne dir hne] at hremoved
    obtain ⟨hsome, hunheld, hnext⟩ := hstores.removed a hremoved
    refine ⟨hsome, ?_, ?_⟩
    · intro j ha
      rcases hcases j a ha with ⟨heq, -⟩ | ha
      · exact hne heq
      · exact hunheld j ha
    · have hread : (p.links.pushFront (handleIndex jenkinsHash n) h).read (.next a) =
          p.links.read (.next a) :=
        Links.read_pushFront _ (by simp) (by simpa using hne)
      exact hread.trans hnext

omit [DecidableEq N] in
theorem dropDuplicate_some (hread : p.links.read ref = some d) :
    p.dropDuplicate ref = { p with links := p.links.unlink ref d } := by
  rw [Paradigm.dropDuplicate, hread]

omit [DecidableEq N] in
theorem dropDuplicate_none (hread : p.links.read ref = none) : p.dropDuplicate ref = p := by
  rw [Paradigm.dropDuplicate, hread]

omit [DecidableEq N] in
theorem read_unlink_of_not_changed {ref' : Ref UInt32 ℕ} (hmap : dir.map n = some d)
    (hread : p.links.read ref = some d) (hnot : ¬ChangedByDrop p dir n ref') :
    (p.links.unlink ref d).read ref' = p.links.read ref' := by
  have href : ref' ≠ ref := by
    rintro rfl
    exact hnot ⟨d, hmap, Or.inl hread⟩
  by_cases hnext : ref' = .next d
  · subst hnext
    have hnone : p.links.next d = none := by
      by_contra hne
      exact hnot ⟨d, hmap, Or.inr ⟨rfl, hne⟩⟩
    rw [Links.unlink, Links.read_write]
    exact hnone.symm
  · exact Links.read_unlink ref' href hnext

def Headed (p : Paradigm T N) (dir : Directory T N) (jenkinsHash : N → UInt32) (n : N) : Prop :=
  ∃ first, p.links.root (handleIndex jenkinsHash n) = some first ∧
    (dir.map n = some first → p.links.next first ≠ none)

theorem insert_spec (hstores : Stores jenkinsHash p dir chains) (hnative : dir.native h = some n)
    (hfree : Unheld chains h) : ∃ p' chains', p.insertHandle jenkinsHash h (p.native h) (p.hash h) = some p' ∧
      Stores jenkinsHash p' (dir.insert h n) chains' ∧ p'.handleIterator = p.handleIterator ∧
      ∀ ref, ref ≠ .root (handleIndex jenkinsHash n) → ¬ChangedByDrop p dir n ref →
        (ref = .next h → p.links.next h = none ∧ ¬Headed p dir jenkinsHash n) →
        p'.links.read ref = p.links.read ref := by
  obtain ⟨hpayload, hhash, -⟩ := hstores.payload h n hnative
  have hindex : p.hash h &&& handleHashtableMask = handleIndex jenkinsHash n := by
    rw [hhash]
    rfl
  obtain ⟨place, hfind, hread, hplace⟩ := getHandleRef_spec hstores (p.hash h) (Or.inr hhash)
  rw [Paradigm.insertHandle, hpayload, hfind]
  cases hmap : dir.map n with
  | none =>
    rw [hmap] at hread
    obtain ⟨chains', hpush⟩ := hstores.push hnative hfree hmap
    refine ⟨p.pushHandle h, chains', ?_, hpush, rfl, ?_⟩
    · rw [bind_eq_bind, bind_some, dropDuplicate_none hread]
      rfl
    · intro ref hroot _ hnext
      rw [Paradigm.pushHandle, hindex]
      by_cases hself : ref = .next h
      · subst hself
        obtain ⟨hnone, hnot⟩ := hnext rfl
        have hempty : p.links.root (handleIndex jenkinsHash n) = none := by
          cases hfirst : p.links.root (handleIndex jenkinsHash n) with
          | none => rfl
          | some first =>
            refine absurd ⟨first, hfirst, fun heq => ?_⟩ hnot
            rw [hmap] at heq
            cases heq
        rw [Links.pushFront, Links.read_write_of_ne (by simp), Links.read_write, hempty]
        exact hnone.symm
      · exact Links.read_pushFront ref hroot hself
  | some d =>
    rw [hmap] at hread
    obtain ⟨chains₁, hunmap, hlist, -, hkeeps⟩ := hstores.unmap hmap hread hplace
    obtain ⟨chains', hpush⟩ := hunmap.push hnative (hkeeps h hfree) Directory.map_unmap
    refine ⟨Paradigm.pushHandle { p with links := p.links.unlink place d } h, chains', ?_, ?_, rfl, ?_⟩
    · rw [bind_eq_bind, bind_some, dropDuplicate_some hread]
      rfl
    · have hdir : (dir.unmap n).insert h n = dir.insert h n := by
        rw [Directory.unmap, Directory.insert, Directory.insert, update_idem]
      rwa [hdir] at hpush
    · intro ref hroot hnot hnext
      change ((p.links.unlink place d).pushFront (p.hash h &&& handleHashtableMask) h).read ref = _
      rw [hindex]
      by_cases hself : ref = .next h
      · subst hself
        obtain ⟨hnone, hheaded⟩ := hnext rfl
        have hempty : (p.links.unlink place d).root (handleIndex jenkinsHash n) = none := by
          have hchain := hunmap.holds.chain (handleIndex jenkinsHash n)
          rw [hlist] at hchain
          rw [← hchain.eq_nil_iff]
          have hold := hstores.holds.chain (handleIndex jenkinsHash n)
          have hmem := (hstores.mapped n d hmap).2
          cases hcase : chains (handleIndex jenkinsHash n) with
          | nil => rfl
          | cons first rest =>
            rw [hcase] at hold hmem
            obtain ⟨hfirst, htail⟩ := chain_cons.1 hold
            have hsame : dir.map n = some first ∧ p.links.next first = none := by
              by_contra hne
              apply hheaded
              refine ⟨first, hfirst, fun heq hnil => hne ⟨heq, hnil⟩⟩
            rw [hmap, some.injEq] at hsame
            rw [hsame.2] at htail
            rw [hsame.1, List.erase_cons_head]
            exact htail.eq_nil_iff.2 rfl
        rw [Links.pushFront, Links.read_write_of_ne (by simp), Links.read_write, hempty]
        exact hnone.symm
      · rw [Links.read_pushFront ref hroot hself]
        exact read_unlink_of_not_changed hmap hread hnot

/-! ## Definitions -/

omit [DecidableEq N] in
theorem Stores.newIoHandle (hstores : Stores jenkinsHash p dir chains) (hash : UInt32) :
    Stores jenkinsHash (p.newIoHandle hash) dir chains ∧ dir.native p.defined = none ∧
      Unheld chains p.defined ∧ ∀ ref, ref ≠ .next p.defined →
        (p.newIoHandle hash).links.read ref = p.links.read ref := by
  have hnone : dir.native p.defined = none := by
    cases hnative : dir.native p.defined with
    | none => rfl
    | some n => exact absurd (hstores.payload _ n hnative).2.2 (Nat.lt_irrefl _)
  have hfree : Unheld chains p.defined := by
    intro i hmem
    obtain ⟨n, hnative, -, -⟩ := hstores.chained i _ hmem
    rw [hnone] at hnative
    cases hnative
  have hread : ∀ ref, ref ≠ .next p.defined → (p.newIoHandle hash).links.read ref = p.links.read ref :=
    fun ref hne => Links.read_write_of_ne hne
  refine ⟨⟨⟨hstores.holds.apart, ?_⟩, hstores.chained, hstores.mapped, ?_, ?_, ?_⟩, hnone, hfree, hread⟩
  · intro i
    apply (hstores.holds.chain i).congr
    intro h hmem
    apply hread (.next h)
    have hne : h ≠ p.defined := by
      rintro rfl
      exact hfree i hmem
    simpa using hne
  · intro h n hnative
    obtain ⟨hpayload, hhash, hlt⟩ := hstores.payload h n hnative
    refine ⟨hpayload, ?_, Nat.lt_succ_of_lt hlt⟩
    simp only [Paradigm.newIoHandle, update_of_ne (Nat.ne_of_lt hlt)]
    exact hhash
  · intro h hincomplete
    exact ⟨(hstores.incomplete h hincomplete).1, Nat.lt_succ_of_lt (hstores.incomplete h hincomplete).2⟩
  · intro h hremoved
    obtain ⟨hsome, hunheld, hnext⟩ := hstores.removed h hremoved
    refine ⟨hsome, hunheld, ?_⟩
    have hne : h ≠ p.defined := by
      rintro rfl
      exact hsome hnone
    exact (hread (.next h) (by simpa using hne)).trans hnext

omit [DecidableEq N] in
theorem Stores.begin (hstores : Stores jenkinsHash p dir chains) (hnative : dir.native h = none)
    (hlt : h < p.defined) : Stores jenkinsHash p (dir.begin h) chains where
  holds := hstores.holds
  chained := hstores.chained
  mapped := hstores.mapped
  payload := hstores.payload
  incomplete := by
    intro a hincomplete
    by_cases ha : a = h
    · rw [ha]
      exact ⟨hnative, hlt⟩
    · apply hstores.incomplete a
      simpa only [Directory.begin, update_of_ne ha] using hincomplete
  removed := hstores.removed

omit [DecidableEq N] in
theorem Stores.setNative (hstores : Stores jenkinsHash p dir chains) (hnative : dir.native h = none)
    (hlt : h < p.defined) (n : N) :
    Stores jenkinsHash (p.setNative jenkinsHash h n) (dir.setNative h n) chains ∧ Unheld chains h := by
  have hother : ∀ a n', dir.native a = some n' → a ≠ h := by
    rintro a n' ha rfl
    rw [hnative] at ha
    cases ha
  have hkeeps : ∀ a n', dir.native a = some n' → (dir.setNative h n).native a = some n' := by
    intro a n' ha
    simpa only [Directory.setNative, update_of_ne (hother a n' ha)] using ha
  refine ⟨⟨hstores.holds, ?_, ?_, ?_, ?_, ?_⟩, ?_⟩
  · intro i a hmem
    obtain ⟨n', ha, hmap, hindex⟩ := hstores.chained i a hmem
    exact ⟨n', hkeeps a n' ha, hmap, hindex⟩
  · intro n' a hmap
    obtain ⟨ha, hmem⟩ := hstores.mapped n' a hmap
    exact ⟨hkeeps a n' ha, hmem⟩
  · intro a n' ha
    by_cases hah : a = h
    · subst hah
      simp only [Directory.setNative, update_self, some.injEq] at ha
      subst ha
      simp only [Paradigm.setNative, update_self]
      exact ⟨trivial, trivial, hlt⟩
    · simp only [Directory.setNative, update_of_ne hah] at ha
      simp only [Paradigm.setNative, update_of_ne hah]
      exact hstores.payload a n' ha
  · intro a hincomplete
    have hah : a ≠ h := by
      rintro rfl
      simp only [Directory.setNative, update_self] at hincomplete
      cases hincomplete
    simp only [Directory.setNative, update_of_ne hah] at hincomplete ⊢
    exact hstores.incomplete a hincomplete
  · intro a hremoved
    obtain ⟨hsome, hunheld, hnext⟩ := hstores.removed a hremoved
    refine ⟨?_, hunheld, hnext⟩
    obtain ⟨n', ha⟩ := ne_none_iff_exists'.1 hsome
    rw [hkeeps a n' ha]
    simp
  · intro i hmem
    obtain ⟨n', ha, -, -⟩ := hstores.chained i h hmem
    exact hother h n' ha rfl

/-! ## Lookups under way -/

variable [DecidableEq T]

omit [DecidableEq T] [DecidableEq N] in
theorem Answers.of_reads (hanswers : Answers p dir) (hiterator : p'.handleIterator = p.handleIterator)
    (hread : ∀ t ref, p.handleIterator t = some ref → p'.links.read ref = p.links.read ref)
    (hsame : dir'.answers = dir.answers) (hnative : ∀ h, dir.native h ≠ none → dir'.native h ≠ none) :
    Answers p' dir' where
  read := by
    intro t
    rw [hsame, hiterator, hanswers.read t]
    cases hplace : p.handleIterator t with
    | none => rfl
    | some ref => rw [map_some, map_some, hread t ref hplace]
  place := by
    intro t h hplace
    rw [hiterator] at hplace
    exact hnative h (hanswers.place t h hplace)

omit [DecidableEq T] [DecidableEq N] in
theorem native_setNative (hsome : dir.native d ≠ none) : (dir.setNative h n).native d ≠ none := by
  by_cases hd : d = h
  · subst hd
    simp [Directory.setNative]
  · simpa only [Directory.setNative, update_of_ne hd] using hsome

omit [DecidableEq T] [DecidableEq N] in
theorem Answers.ne_next (hanswers : Answers p dir) (hnative : dir.native h = none)
    (hplace : p.handleIterator t = some ref) : ref ≠ .next h := by
  rintro rfl
  exact hanswers.place t h hplace hnative

omit [DecidableEq T] in
theorem completeHandle_spec (hstores : Stores jenkinsHash p dir chains) (hanswers : Answers p dir)
    (hincomplete : dir.incomplete h = true) (n : N) (hfine : ∀ t ref, p.handleIterator t = some ref →
      ¬(ref = .root (handleIndex jenkinsHash n) ∨ ChangedByDrop p dir n ref)) :
    ∃ p', p.completeHandle jenkinsHash h n = some p' ∧
      RefinesDirectory jenkinsHash p' ((dir.setNative h n).insert h n) := by
  obtain ⟨hnative, hlt⟩ := hstores.incomplete h hincomplete
  obtain ⟨hset, hfree⟩ := hstores.setNative hnative hlt n
  have hself : (dir.setNative h n).native h = some n := by
    simp [Directory.setNative]
  obtain ⟨p', chains', hinsert, hstores', hiterator, hread⟩ := insert_spec hset hself hfree
  refine ⟨p', hinsert, chains', hstores', ?_⟩
  apply hanswers.of_reads hiterator
  · intro t ref hplace
    apply hread ref
    · exact fun hroot => hfine t ref hplace (Or.inl hroot)
    · exact fun hchanged => hfine t ref hplace (Or.inr hchanged)
    · exact fun hnext => absurd hnext (hanswers.ne_next hnative hplace)
  · rfl
  · intro d hsome
    exact native_setNative hsome

omit [DecidableEq T] in
theorem createPreCreatedHandle_spec (hstores : Stores jenkinsHash p dir chains) (hanswers : Answers p dir)
    (n : N) (hmap : dir.map n = none)
    (hfine : ∀ t ref, p.handleIterator t = some ref → ref ≠ .root (handleIndex jenkinsHash n)) :
    ∃ h p', p.createPreCreatedHandle jenkinsHash n none = some (h, p') ∧ dir.native h = none ∧
      RefinesDirectory jenkinsHash p' ((dir.setNative h n).insert h n) := by
  obtain ⟨hnew, hnative, -, hreadNew⟩ := hstores.newIoHandle 0
  obtain ⟨hset, hfree⟩ := hnew.setNative hnative (Nat.lt_succ_self _) n
  have hself : (dir.setNative p.defined n).native p.defined = some n := by
    simp [Directory.setNative]
  obtain ⟨chains', hpush⟩ := hset.push hself hfree hmap
  refine ⟨_, _, rfl, hnative, chains', hpush, ?_⟩
  apply hanswers.of_reads
  · rfl
  · intro t ref hplace
    have hne := hanswers.ne_next hnative hplace
    have hindex : ((p.newIoHandle 0).setNative jenkinsHash p.defined n).hash p.defined &&& handleHashtableMask =
        handleIndex jenkinsHash n := by
      simp only [Paradigm.setNative, update_self]
      rfl
    rw [Paradigm.pushHandle, hindex]
    dsimp only
    rw [Links.read_pushFront ref (hfine t ref hplace) hne]
    exact hreadNew ref hne
  · rfl
  · intro d hsome
    exact native_setNative hsome

omit [DecidableEq T] in
theorem removeHandle_spec (hstores : Stores jenkinsHash p dir chains) (hanswers : Answers p dir) (n : N)
    (hfine : ∀ t ref, p.handleIterator t = some ref → ¬ChangedByDrop p dir n ref) :
    ∃ p', p.removeHandle jenkinsHash n = some (dir.map n, p') ∧
      RefinesDirectory jenkinsHash p' (dir.remove n) := by
  obtain ⟨place, hfind, hread, hplace⟩ := getHandleRef_spec hstores (n := n) 0 (Or.inl rfl)
  rw [Paradigm.removeHandle, hfind, bind_eq_bind, bind_some]
  cases hmap : dir.map n with
  | none =>
    rw [hmap] at hread
    have hsame : dir.remove n = dir := by
      rw [Directory.remove, ← hmap, update_eq_self]
      simp [hmap]
    rw [hread, hsame]
    exact ⟨p, rfl, chains, hstores, hanswers⟩
  | some d =>
    rw [hmap] at hread
    obtain ⟨chains', hunmap, -, hunheld, -⟩ := hstores.unmap hmap hread hplace
    rw [hread]
    refine ⟨_, rfl, chains', ⟨hunmap.holds, hunmap.chained, hunmap.mapped, hunmap.payload,
      hunmap.incomplete, ?_⟩, ?_⟩
    · intro h hremoved
      by_cases hd : d = h
      · subst hd
        refine ⟨?_, hunheld, Links.read_write (.next d)⟩
        rw [show (dir.remove n).native d = dir.native d from rfl, (hstores.mapped n d hmap).1]
        simp
      · have hold : dir.removed h = true := by
          simpa [Directory.remove, hmap, hd] using hremoved
        exact hunmap.removed h hold
    · apply hanswers.of_reads
      · rfl
      · intro t ref href
        exact read_unlink_of_not_changed hmap hread (hfine t ref href)
      · rfl
      · exact fun _ hsome => hsome

omit [DecidableEq T] in
theorem reinsertHandle_spec (hstores : Stores jenkinsHash p dir chains) (hanswers : Answers p dir)
    (hremoved : dir.removed h = true) (hnative : dir.native h = some n) (hhash : jenkinsHash n ≠ 0)
    (hfine : ∀ t ref, p.handleIterator t = some ref →
      ¬(ref = .root (handleIndex jenkinsHash n) ∨ ChangedByDrop p dir n ref ∨
        ref = .next h ∧ Headed p dir jenkinsHash n)) :
    ∃ p', p.reinsertHandle jenkinsHash h = some p' ∧ RefinesDirectory jenkinsHash p' (dir.insert h n) := by
  obtain ⟨-, hfree, hnext⟩ := hstores.removed h hremoved
  obtain ⟨p', chains', hinsert, hstores', hiterator, hread⟩ := insert_spec hstores hnative hfree
  have hzero : p.hash h ≠ 0 := by
    rw [(hstores.payload h n hnative).2.1]
    exact hhash
  refine ⟨p', ?_, chains', hstores', ?_⟩
  · rw [Paradigm.reinsertHandle, if_neg hzero]
    exact hinsert
  · apply hanswers.of_reads hiterator
    · intro t ref hplace
      apply hread ref
      · exact fun hroot => hfine t ref hplace (Or.inl hroot)
      · exact fun hchanged => hfine t ref hplace (Or.inr (Or.inl hchanged))
      · exact fun heq => ⟨hnext, fun hheaded => hfine t ref hplace (Or.inr (Or.inr ⟨heq, hheaded⟩))⟩
    · rfl
    · exact fun _ hsome => hsome

theorem getIoHandle_spec (hstores : Stores jenkinsHash p dir chains) (hanswers : Answers p dir) (t : T)
    (n : N) : ∃ p', p.getIoHandle jenkinsHash t n = some p' ∧
      RefinesDirectory jenkinsHash p' (dir.setAnswer t (some (dir.map n))) := by
  obtain ⟨place, hfind, hread, hplace⟩ := getHandleRef_spec hstores (n := n) 0 (Or.inl rfl)
  rw [Paradigm.getIoHandle, hfind]
  refine ⟨_, rfl, chains, ⟨hstores.holds, hstores.chained, hstores.mapped, hstores.payload,
    hstores.incomplete, hstores.removed⟩, ?_, ?_⟩
  · intro t'
    by_cases ht : t' = t
    · subst ht
      simp [Directory.setAnswer, hread]
    · simp only [Directory.setAnswer, update_of_ne ht]
      exact hanswers.read t'
  · intro t' h hat
    by_cases ht : t' = t
    · subst ht
      simp only [update_self, some.injEq] at hat
      rcases hplace with heq | ⟨a, ha, heq⟩
      · rw [hat] at heq
        cases heq
      · rw [hat] at heq
        cases heq
        obtain ⟨n', hnative, -, -⟩ := hstores.chained _ _ ha
        rw [show (dir.setAnswer t' (some (dir.map n))).native = dir.native from rfl, hnative]
        simp
    · simp only [update_of_ne ht] at hat
      exact hanswers.place t' h hat

omit [DecidableEq N] in
theorem returnHandle_spec (hstores : Stores jenkinsHash p dir chains) (hanswers : Answers p dir)
    (hwaits : dir.answers t ≠ none) :
    ∃ result p', p.returnHandle t = some (result, p') ∧ dir.answers t = some result ∧
      RefinesDirectory jenkinsHash p' (dir.setAnswer t none) := by
  have hread := hanswers.read t
  cases hplace : p.handleIterator t with
  | none =>
    rw [hplace] at hread
    exact absurd hread hwaits
  | some ref =>
    rw [hplace] at hread
    rw [Paradigm.returnHandle, hplace]
    refine ⟨_, _, rfl, hread, chains, ⟨hstores.holds, hstores.chained, hstores.mapped, hstores.payload,
      hstores.incomplete, hstores.removed⟩, ?_, ?_⟩
    · intro t'
      by_cases ht : t' = t
      · subst ht
        simp [Directory.setAnswer]
      · simp only [Directory.setAnswer, update_of_ne ht]
        exact hanswers.read t'
    · intro t' h hat
      by_cases ht : t' = t
      · subst ht
        simp only [update_self] at hat
        cases hat
      · simp only [update_of_ne ht] at hat
        exact hanswers.place t' h hat

/-! ## Runs -/

variable {call : TableCall T N}

theorem RefinesDirectory.step (hrefines : RefinesDirectory jenkinsHash p dir)
    (hlegal : dir.Legal call) (hfine : FineCall jenkinsHash p dir call) :
    ∃ result p', call.run jenkinsHash p = some (result, p') ∧ dir.Right call result ∧
      RefinesDirectory jenkinsHash p' (dir.after call result) := by
  obtain ⟨chains, hstores, hanswers⟩ := hrefines
  have hunchanged := hfine.unchanged
  cases call with
  | beginHandle t =>
    obtain ⟨hnew, hnative, -, hread⟩ := hstores.newIoHandle 0
    refine ⟨some p.defined, _, rfl, ⟨p.defined, rfl, hnative⟩, chains,
      hnew.begin hnative (Nat.lt_succ_self _), ?_⟩
    apply hanswers.of_reads
    · rfl
    · intro t ref hplace
      exact hread ref (hanswers.ne_next hnative hplace)
    · rfl
    · exact fun _ hsome => hsome
  | createPreCreatedHandle t n existing =>
    obtain ⟨rfl, hmap⟩ := hfine.preCreated t n existing rfl
    obtain ⟨h, p', hrun, hnative, hnext⟩ := createPreCreatedHandle_spec hstores hanswers n hmap hunchanged
    refine ⟨some h, p', ?_, ⟨h, rfl, hnative⟩, hnext⟩
    rw [TableCall.run, hrun]
    rfl
  | completeHandle t h n =>
    obtain ⟨p', hrun, hnext⟩ := completeHandle_spec hstores hanswers hlegal.2 n hunchanged
    refine ⟨some h, p', ?_, rfl, hnext⟩
    rw [TableCall.run, hrun]
    rfl
  | removeHandle t n =>
    obtain ⟨p', hrun, hnext⟩ := removeHandle_spec hstores hanswers n hunchanged
    exact ⟨dir.map n, p', hrun, rfl, hnext⟩
  | reinsertHandle t h =>
    obtain ⟨n, hnative⟩ := ne_none_iff_exists'.1 (hstores.removed h hlegal.2).1
    obtain ⟨p', hrun, hnext⟩ := reinsertHandle_spec hstores hanswers hlegal.2 hnative
      (hfine.reinserted t h rfl n hnative) fun t' ref hplace hchanged =>
        hunchanged t' ref hplace ⟨n, hnative, hchanged⟩
    refine ⟨none, p', ?_, rfl, ?_⟩
    · rw [TableCall.run, hrun]
      rfl
    · rw [Directory.after, hnative]
      exact hnext
  | getIoHandle t n =>
    obtain ⟨p', hrun, hnext⟩ := getIoHandle_spec hstores hanswers t n
    refine ⟨none, p', ?_, rfl, hnext⟩
    rw [TableCall.run, hrun]
    rfl
  | returnHandle t =>
    obtain ⟨result, p', hrun, hright, hnext⟩ := returnHandle_spec hstores hanswers hlegal
    exact ⟨result, p', hrun, hright, hnext⟩

variable {calls : List (TableCall T N)}

theorem RefinesDirectory.meets (hrefines : RefinesDirectory jenkinsHash p dir)
    (hlegal : LegalTableCalls jenkinsHash p dir calls) (hfine : FineTableCalls jenkinsHash p dir calls) :
    MeetsDirectory jenkinsHash p dir calls := by
  induction calls generalizing p dir with
  | nil => exact hrefines
  | cons call calls ih =>
    obtain ⟨result, p', hrun, hright, hnext⟩ := hrefines.step hlegal.1 hfine.1
    exact ⟨hrefines, result, p', hrun, hright, ih hnext (hlegal.2 result p' hrun) (hfine.2 result p' hrun)⟩

theorem legalTableCalls_cons {result : Option ℕ} (hlegal : dir.Legal call)
    (hrun : call.run jenkinsHash p = some (result, p'))
    (hnext : LegalTableCalls jenkinsHash p' (dir.after call result) calls) :
    LegalTableCalls jenkinsHash p dir (call :: calls) := by
  refine ⟨hlegal, ?_⟩
  intro result' p'' hrun'
  cases hrun.symm.trans hrun'
  exact hnext

theorem fineTableCalls_cons {result : Option ℕ} (hfine : FineCall jenkinsHash p dir call)
    (hrun : call.run jenkinsHash p = some (result, p'))
    (hnext : FineTableCalls jenkinsHash p' (dir.after call result) calls) :
    FineTableCalls jenkinsHash p dir (call :: calls) := by
  refine ⟨hfine, ?_⟩
  intro result' p'' hrun'
  cases hrun.symm.trans hrun'
  exact hnext

omit [DecidableEq T] [DecidableEq N] in
theorem refinesDirectory_registered (next : ℕ → Option ℕ) (hash : ℕ → UInt32) (native : ℕ → N) :
    RefinesDirectory jenkinsHash (Paradigm.registered next hash native : Paradigm T N) .empty := by
  refine ⟨fun _ => [], ⟨⟨apart_nil, fun _ => rfl⟩, ?_, ?_, ?_, ?_, ?_⟩, fun _ => rfl, ?_⟩
  · intro i h hmem
    exact absurd hmem List.not_mem_nil
  · intro n h hmap
    cases hmap
  · intro h n hnative
    cases hnative
  · intro h hincomplete
    cases hincomplete
  · intro h hremoved
    cases hremoved
  · intro t h hplace
    cases hplace

/-- In a run of fine calls the table refines the finite map, for any hash function and any threads. -/
theorem meetsDirectory_of_fine (jenkinsHash : N → UInt32) (next : ℕ → Option ℕ) (hash : ℕ → UInt32)
    (native : ℕ → N) (calls : List (TableCall T N))
    (hlegal : LegalTableCalls jenkinsHash (.registered next hash native) .empty calls)
    (hfine : FineTableCalls jenkinsHash (.registered next hash native) .empty calls) :
    MeetsDirectory jenkinsHash (.registered next hash native) .empty calls :=
  (refinesDirectory_registered next hash native).meets hlegal hfine

def sharedCalls : List (TableCall Bool ℕ) :=
  [.beginHandle false, .completeHandle false 0 7, .getIoHandle true 7, .returnHandle true,
    .removeHandle false 7, .reinsertHandle false 0]

theorem meetsDirectory_of_fine_shared :
    MeetsDirectory UInt32.ofNat (.registered (fun _ => none) (fun _ => 0) fun _ => 0) .empty sharedCalls := by
  apply meetsDirectory_of_fine
  · refine legalTableCalls_cons rfl rfl ?_
    refine legalTableCalls_cons ⟨rfl, rfl⟩ rfl ?_
    refine legalTableCalls_cons rfl rfl ?_
    refine legalTableCalls_cons (by simp [Directory.Legal, Directory.after, Directory.setAnswer]) rfl ?_
    refine legalTableCalls_cons rfl rfl ?_
    exact legalTableCalls_cons ⟨rfl, rfl⟩ rfl trivial
  · refine fineTableCalls_cons ⟨nofun, nofun, nofun⟩ rfl ?_
    refine fineTableCalls_cons ⟨nofun, nofun, nofun⟩ rfl ?_
    refine fineTableCalls_cons ⟨nofun, nofun, nofun⟩ rfl ?_
    refine fineTableCalls_cons ⟨nofun, nofun, fun _ _ _ => id⟩ rfl ?_
    refine fineTableCalls_cons ⟨nofun, nofun, ?_⟩ rfl ?_
    · rintro (_ | _) ref hplace
      · cases hplace
      · cases hplace
    refine fineTableCalls_cons ⟨nofun, ?_, ?_⟩ rfl trivial
    · intro t h hcall n hnative
      cases hcall
      cases hnative
      decide
    · rintro (_ | _) ref hplace
      · cases hplace
      · cases hplace

/-- A handle whose hash value is 0 cannot be reinserted. -/
theorem not_meetsDirectory_zero : ¬∀ (jenkinsHash : ℕ → UInt32) (calls : List (TableCall Bool ℕ)),
    LegalTableCalls jenkinsHash (.registered (fun _ => none) (fun _ => 0) fun _ => 0) .empty calls →
      MeetsDirectory jenkinsHash (.registered (fun _ => none) (fun _ => 0) fun _ => 0) .empty calls := by
  intro hall
  have hlegal : LegalTableCalls (fun _ : ℕ => 0)
      (.registered (fun _ => none) (fun _ => 0) fun _ => 0) .empty
      [.beginHandle false, .completeHandle false 0 7, .removeHandle false 7, .reinsertHandle false 0] := by
    refine legalTableCalls_cons rfl rfl ?_
    refine legalTableCalls_cons ⟨rfl, rfl⟩ rfl ?_
    refine legalTableCalls_cons rfl rfl ?_
    refine ⟨⟨rfl, rfl⟩, ?_⟩
    intro result p' hrun
    cases hrun
  obtain ⟨-, result, p', hrun, -, h⟩ := hall _ _ hlegal
  cases hrun
  obtain ⟨-, result, p', hrun, -, h⟩ := h
  cases hrun
  obtain ⟨-, result, p', hrun, -, h⟩ := h
  cases hrun
  obtain ⟨-, result, p', hrun, -, -⟩ := h
  cases hrun

end ScoreP.Io
