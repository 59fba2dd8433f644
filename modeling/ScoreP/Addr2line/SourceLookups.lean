import ScoreP.Addr2line.Objects

/-!
# Source locations of addresses

Source: `src/services/addr2line/SCOREP_Addr2line.c`. The lookups fill one record through pointers to their
OUT parameters. They are loops over the objects that `lookup_so` finds.

`lookups_agree` compares them. A lookup of a range passes over an object in which it does not find the end,
so there it relies on what the source assumes: an address is found once (`FoundOnce`).
-/

namespace ScoreP.Addr2line

open List

structure Section where
  /-- `SEC_ALLOC` -/
  alloc : Bool
  vma : Address
  size : Address
  deriving DecidableEq

structure SourceLocation where
  fileName : Text
  functionName : Text
  lineNo : ℕ
  deriving DecidableEq

/-- `bfd_find_nearest_line` and then `bfd_find_inliner_info` until it fails. -/
structure Bfd where
  sections : SharedObject → List Section
  nearestLine : SharedObject → Section → Address → Option SourceLocation
  missed : SharedObject → Section → Address → SourceLocation → SourceLocation

/-- `lookup_bfd_t` -/
structure LookupBfd where
  foundBegin : Bool
  foundEnd : Bool
  source : SourceLocation
  endLineNo : ℕ

structure Outputs where
  soHandle : Option SharedObject
  soFileName : Text
  soBaseAddr : Address
  soToken : ℕ
  sclFoundBegin : Bool
  sclFoundEnd : Bool
  source : SourceLocation
  endLineNo : ℕ
  deriving DecidableEq

/-- `SCOREP_ADDR2LINE_SO_OBJECT_INVALID_TOKEN` -/
def invalidToken : ℕ := 0

variable (bfd : Bfd)

def sectionIterator (handle : SharedObject) (beginAddr endAddr : Address) (data : LookupBfd)
    (section_ : Section) : LookupBfd :=
  let vma := section_.vma
  if data.foundBegin then data
  else if section_.alloc = false then data
  else if beginAddr < vma ∨ endAddr ≠ 0 ∧ endAddr < vma then data
  else if vma + section_.size ≤ beginAddr ∨ endAddr ≠ 0 ∧ vma + section_.size ≤ endAddr then data
  else
    match bfd.nearestLine handle section_ (beginAddr - vma) with
    | none => { data with source := bfd.missed handle section_ (beginAddr - vma) data.source }
    | some source =>
      let data := { data with foundBegin := true, source := source }
      if endAddr = 0 then data
      else
        match bfd.nearestLine handle section_ (endAddr - vma) with
        | none =>
          let unused := bfd.missed handle section_ (endAddr - vma) { source with lineNo := data.endLineNo }
          { data with foundEnd := false, endLineNo := unused.lineNo }
        | some unused => { data with foundEnd := true, endLineNo := unused.lineNo }

def mapOverSections (handle : SharedObject) (beginAddr endAddr : Address) (data : LookupBfd) : LookupBfd :=
  (bfd.sections handle).foldl (sectionIterator bfd handle beginAddr endAddr) data

def addr2lineLookupAddr (addr : Address) : List SharedObject → Outputs → Outputs
  | [], out => { out with soHandle := none, soToken := invalidToken, sclFoundBegin := false }
  | handle :: objects, out =>
    let data := mapOverSections bfd handle (addr - handle.baseAddr) 0 ⟨false, false, out.source, out.endLineNo⟩
    let out := { out with sclFoundBegin := data.foundBegin, source := data.source }
    if data.foundBegin then
      { out with
        soHandle := some handle, soFileName := handle.name, soBaseAddr := handle.baseAddr
        soToken := handle.token }
    else addr2lineLookupAddr addr objects out

/-- `scl_file_name` of the record points to `soFileName`. -/
def addr2lineLookupSo (addr : Address) : List SharedObject → Outputs → Outputs
  | [], out => { out with soHandle := none, soToken := invalidToken }
  | handle :: objects, out =>
    let data := mapOverSections bfd handle (addr - handle.baseAddr) 0
      ⟨false, false, { out.source with fileName := handle.name }, out.endLineNo⟩
    let out := { out with
      soFileName := data.source.fileName, soBaseAddr := handle.baseAddr, soToken := handle.token }
    if data.foundBegin then { out with soHandle := some handle } else addr2lineLookupSo addr objects out

/-- `none` when its `UTILS_BUG_ON` fires. -/
def addr2lineSoLookupAddr (stillLoaded : ℕ → Bool) (offset : Address) (soHandle : SharedObject) (soToken : ℕ)
    (out : Outputs) : Option Outputs :=
  if soToken ≠ ltObjectToken ∧ stillLoaded soToken = false then some { out with sclFoundBegin := false }
  else if soHandle.token ≠ soToken then none
  else
    let data := mapOverSections bfd soHandle offset 0 ⟨false, false, out.source, out.endLineNo⟩
    some { out with soFileName := soHandle.name, sclFoundBegin := data.foundBegin, source := data.source }

def addr2lineLookupAddrRange (beginAddr endAddr : Address) : List SharedObject → Outputs → Outputs
  | [], out =>
    { out with soHandle := none, soToken := invalidToken, sclFoundBegin := false, sclFoundEnd := false }
  | handle :: objects, out =>
    let data := mapOverSections bfd handle (beginAddr - handle.baseAddr) (endAddr - handle.baseAddr)
      ⟨false, false, out.source, out.endLineNo⟩
    let out := { out with
      sclFoundBegin := data.foundBegin, sclFoundEnd := data.foundEnd, source := data.source
      endLineNo := data.endLineNo }
    if data.foundBegin ∧ data.foundEnd then
      { out with
        soHandle := some handle, soFileName := handle.name, soBaseAddr := handle.baseAddr
        soToken := handle.token }
    else addr2lineLookupAddrRange beginAddr endAddr objects out

/-- `SCOREP_Addr2line_SoLookupAddr` for the object that `SCOREP_Addr2line_LookupSo` has found. -/
def lookupSoAndAddr (stillLoaded : ℕ → Bool) (addr : Address) (objects : List SharedObject) (out : Outputs) :
    Option Outputs :=
  let out := addr2lineLookupSo bfd addr objects out
  match out.soHandle with
  | none => some out
  | some handle => addr2lineSoLookupAddr bfd stillLoaded (addr - out.soBaseAddr) handle out.soToken out

/-! ## Answers -/

def answer (handle : SharedObject) (addr : Address) (section_ : Section) : Option SourceLocation :=
  if section_.alloc ∧ section_.vma ≤ addr ∧ addr < section_.vma + section_.size then
    bfd.nearestLine handle section_ (addr - section_.vma)
  else none

def firstAnswer (addr : Address) (handle : SharedObject) : Option SourceLocation :=
  (bfd.sections handle).findSome? (answer bfd handle (addr - handle.baseAddr))

/-- An address is found in one section of one object only. -/
def FoundOnce (addr : Address) (objects : List SharedObject) : Prop :=
  ∀ o ∈ objects, ∀ s ∈ bfd.sections o, ∀ o' ∈ objects, ∀ s' ∈ bfd.sections o',
    answer bfd o (addr - o.baseAddr) s ≠ none → answer bfd o' (addr - o'.baseAddr) s' ≠ none → o = o' ∧ s = s'

/-- The outputs that describe an object and a source location in it. -/
structure Outputs.Describes (out : Outputs) (o : SharedObject) (source : SourceLocation) : Prop where
  soHandle : out.soHandle = some o
  soFileName : out.soFileName = o.name
  soBaseAddr : out.soBaseAddr = o.baseAddr
  soToken : out.soToken = o.token
  sclFoundBegin : out.sclFoundBegin = true
  source : out.source = source

structure Outputs.IsEmpty (out : Outputs) : Prop where
  soHandle : out.soHandle = none
  soToken : out.soToken = invalidToken

variable {bfd} {handle o : SharedObject} {objects : List SharedObject} {addr beginAddr endAddr : Address}
  {data : LookupBfd} {s : Section} {sections : List Section} {out out' : Outputs} {source : SourceLocation}
  {stillLoaded : ℕ → Bool}

theorem sectionIterator_cases (h : data.foundBegin = false) :
    (sectionIterator bfd handle beginAddr endAddr data s).foundBegin = false ∧
        (endAddr = 0 → answer bfd handle beginAddr s = none) ∨
      (sectionIterator bfd handle beginAddr endAddr data s).foundBegin = true ∧
        answer bfd handle beginAddr s = some (sectionIterator bfd handle beginAddr endAddr data s).source := by
  unfold sectionIterator answer
  by_cases hin : s.alloc ∧ s.vma ≤ beginAddr ∧ beginAddr < s.vma + s.size
  · obtain ⟨halloc, hvma, hsize⟩ := hin
    simp only [h, halloc, hvma, hsize, not_lt.2 hvma, not_le.2 hsize]
    cases hline : bfd.nearestLine handle s (beginAddr - s.vma) with
    | none => grind
    | some source =>
      by_cases hend : endAddr = 0
      · simp [hend]
      · cases bfd.nearestLine handle s (endAddr - s.vma) <;> grind
  · rw [if_neg hin]
    left
    grind

theorem foldl_of_found (h : data.foundBegin = true) :
    sections.foldl (sectionIterator bfd handle beginAddr endAddr) data = data := by
  induction sections with
  | nil => rfl
  | cons s sections ih =>
    rw [foldl_cons, sectionIterator, if_pos h]
    exact ih

theorem foldl_spec (h : data.foundBegin = false) :
    let result := sections.foldl (sectionIterator bfd handle beginAddr endAddr) data
    (result.foundBegin = true → ∃ s ∈ sections, answer bfd handle beginAddr s = some result.source) ∧
      (endAddr = 0 → sections.findSome? (answer bfd handle beginAddr) =
        if result.foundBegin then some result.source else none) := by
  induction sections generalizing data with
  | nil => simp [h]
  | cons s sections ih =>
    rw [foldl_cons, findSome?_cons]
    obtain ⟨hnext, hnone⟩ | ⟨hnext, hsome⟩ := @sectionIterator_cases bfd handle beginAddr endAddr data s h
    · obtain ⟨hfound, hfirst⟩ := ih hnext
      refine ⟨fun hrest => ?_, fun hend => by rw [hnone hend]; exact hfirst hend⟩
      obtain ⟨s', hs', hanswer⟩ := hfound hrest
      exact ⟨s', mem_cons_of_mem s hs', hanswer⟩
    · rw [foldl_of_found hnext, hsome]
      exact ⟨fun _ => ⟨s, mem_cons_self, hsome⟩, fun _ => (if_pos hnext).symm⟩

theorem firstAnswer_eq (h : data.foundBegin = false) : firstAnswer bfd addr handle =
    if (mapOverSections bfd handle (addr - handle.baseAddr) 0 data).foundBegin then
      some (mapOverSections bfd handle (addr - handle.baseAddr) 0 data).source else none :=
  (foldl_spec h).2 rfl

/-! ## Lookups -/

theorem lookups_cases :
    (∀ o ∈ objects, firstAnswer bfd addr o = none) ∧ (addr2lineLookupAddr bfd addr objects out).IsEmpty ∧
        (addr2lineLookupAddr bfd addr objects out).sclFoundBegin = false ∧
        (addr2lineLookupSo bfd addr objects out').IsEmpty ∨
      ∃ o ∈ objects, ∃ source, firstAnswer bfd addr o = some source ∧
        (addr2lineLookupAddr bfd addr objects out).Describes o source ∧
        (addr2lineLookupSo bfd addr objects out').soHandle = some o ∧
        (addr2lineLookupSo bfd addr objects out').soBaseAddr = o.baseAddr ∧
        (addr2lineLookupSo bfd addr objects out').soToken = o.token := by
  induction objects generalizing out out' with
  | nil => exact .inl ⟨nofun, ⟨rfl, rfl⟩, rfl, rfl, rfl⟩
  | cons handle objects ih =>
    rw [addr2lineLookupAddr, addr2lineLookupSo]
    have haddr := @firstAnswer_eq bfd handle addr ⟨false, false, out.source, out.endLineNo⟩ rfl
    have hso := @firstAnswer_eq bfd handle addr
      ⟨false, false, { out'.source with fileName := handle.name }, out'.endLineNo⟩ rfl
    cases hfirst : firstAnswer bfd addr handle with
    | none =>
      rw [hfirst] at haddr hso
      simp only [right_eq_ite_iff, reduceCtorEq, imp_false, Bool.not_eq_true] at haddr hso
      simp only [haddr, hso]
      obtain ⟨hnone, hempty⟩ | ⟨o, ho, hrest⟩ := ih
      · exact .inl ⟨forall_mem_cons.2 ⟨hfirst, hnone⟩, hempty⟩
      · exact .inr ⟨o, mem_cons_of_mem handle ho, hrest⟩
    | some source =>
      rw [hfirst] at haddr hso
      obtain ⟨hfound, heq⟩ := Option.ite_none_right_eq_some.1 haddr.symm
      obtain ⟨hfound', -⟩ := Option.ite_none_right_eq_some.1 hso.symm
      simp only [hfound, hfound']
      have hsame := Option.some.inj heq
      exact .inr ⟨handle, mem_cons_self, source, hfirst, ⟨rfl, rfl, rfl, rfl, rfl, hsame⟩, rfl, rfl, rfl⟩

theorem lookupAddrRange_found
    (h : (addr2lineLookupAddrRange bfd beginAddr endAddr objects out).sclFoundBegin = true) :
    ∃ o ∈ objects, ∃ s ∈ bfd.sections o, ∃ source, answer bfd o (beginAddr - o.baseAddr) s = some source ∧
      (addr2lineLookupAddrRange bfd beginAddr endAddr objects out).Describes o source := by
  induction objects generalizing out with
  | nil => cases h
  | cons handle objects ih =>
    rw [addr2lineLookupAddrRange] at h ⊢
    dsimp only at h ⊢
    split at h
    · next hfound =>
      rw [if_pos hfound]
      obtain ⟨s, hs, hanswer⟩ := (foldl_spec rfl).1 hfound.1
      exact ⟨handle, mem_cons_self, s, hs, _, hanswer, rfl, rfl, rfl, rfl, hfound.1, rfl⟩
    · next hfound =>
      rw [if_neg hfound]
      obtain ⟨o, ho, hrest⟩ := ih h
      exact ⟨o, mem_cons_of_mem handle ho, hrest⟩

/-- The lookups of an address agree, and the lookup of a range agrees with them where the address is found
once. -/
theorem lookups_agree (hloaded : ∀ o ∈ objects, o.token ≠ ltObjectToken → stillLoaded o.token = true) :
    (∃ both, lookupSoAndAddr bfd stillLoaded addr objects out' = some both ∧
      ((addr2lineLookupAddr bfd addr objects out).IsEmpty ∧
          (addr2lineLookupAddr bfd addr objects out).sclFoundBegin = false ∧ both.IsEmpty ∨
        ∃ o source, (addr2lineLookupAddr bfd addr objects out).Describes o source ∧ both.Describes o source)) ∧
    (FoundOnce bfd addr objects → ∀ endAddr,
      (addr2lineLookupAddrRange bfd addr endAddr objects out').sclFoundBegin = true →
        ∃ o source, (addr2lineLookupAddr bfd addr objects out).Describes o source ∧
          (addr2lineLookupAddrRange bfd addr endAddr objects out').Describes o source) := by
  rw [lookupSoAndAddr]
  obtain ⟨hnone, hempty, hfalse, hso⟩ | ⟨o, ho, source, hfirst, hdescribes, hhandle, hbase, htoken⟩ :=
    @lookups_cases bfd objects addr out out'
  · refine ⟨?_, fun _ endAddr hrange => ?_⟩
    · rw [hso.soHandle]
      exact ⟨_, rfl, .inl ⟨hempty, hfalse, hso⟩⟩
    · obtain ⟨o, ho, s, hs, source, hanswer, -⟩ := lookupAddrRange_found hrange
      have hno := findSome?_eq_none_iff.1 (hnone o ho) s hs
      cases hno.symm.trans hanswer
  · refine ⟨?_, fun honce endAddr hrange => ?_⟩
    · have hvalid : ¬(o.token ≠ ltObjectToken ∧ stillLoaded o.token = false) := fun ⟨hne, hfalse⟩ =>
        Bool.false_ne_true (hfalse.symm.trans (hloaded o ho hne))
      simp only [hhandle, hbase, htoken]
      rw [addr2lineSoLookupAddr, if_neg hvalid, if_neg (not_not_intro rfl)]
      have hanswer := @firstAnswer_eq bfd o addr ⟨false, false,
        (addr2lineLookupSo bfd addr objects out').source,
        (addr2lineLookupSo bfd addr objects out').endLineNo⟩ rfl
      obtain ⟨hfound, heq⟩ := Option.ite_none_right_eq_some.1 (hanswer.symm.trans hfirst)
      exact ⟨_, rfl, .inr ⟨o, source, hdescribes, hhandle, rfl, hbase, htoken, hfound, Option.some.inj heq⟩⟩
    · obtain ⟨o', ho', s', hs', source', hanswer', hdescribes'⟩ := lookupAddrRange_found hrange
      obtain ⟨s, hs, hanswer⟩ := exists_of_findSome?_eq_some hfirst
      obtain ⟨rfl, rfl⟩ := honce o ho s hs o' ho' s' hs' (hanswer ▸ nofun) (hanswer' ▸ nofun)
      cases hanswer.symm.trans hanswer'
      exact ⟨o, source, hdescribes, hdescribes'⟩

def libFirst : SharedObject := ⟨['a'], 0, 0, 64, ltObjectToken⟩

def libSecond : SharedObject := { libFirst with name := ['b'] }

/-- Only the first bytes of `libFirst` have lines. -/
def partLines : Bfd where
  sections _ := [⟨true, 0, 64⟩]
  nearestLine o _ addr := if o.name = ['a'] ∧ 8 ≤ addr then none else some ⟨o.name, ['f'], 1⟩
  missed _ _ _ source := source

def noOutputs : Outputs := ⟨none, [], 0, 0, false, false, ⟨[], [], 0⟩, 0⟩

theorem lookups_agree_single : ∃ o source,
    (addr2lineLookupAddr partLines 5 [libSecond] noOutputs).Describes o source ∧
      (addr2lineLookupAddrRange partLines 5 9 [libSecond] noOutputs).Describes o source :=
  (@lookups_agree partLines [libSecond] 5 noOutputs noOutputs (fun _ => true) fun _ _ _ => rfl).2
    (by simp [FoundOnce, partLines]) 9 (by decide)

/-- When nothing is found `SCOREP_Addr2line_LookupSo` has written outputs that `SCOREP_Addr2line_LookupAddr`
leaves alone, and the lookup of a range passes over an object in which the end is not found. -/
theorem lookups_differ :
    (¬ ∀ bfd addr objects out,
      lookupSoAndAddr bfd (fun _ => true) addr objects out = some (addr2lineLookupAddr bfd addr objects out)) ∧
    ¬ ∀ bfd objects addr endAddr out,
      (addr2lineLookupAddrRange bfd addr endAddr objects out).sclFoundBegin = true →
        (addr2lineLookupAddr bfd addr objects out).soHandle =
          (addr2lineLookupAddrRange bfd addr endAddr objects out).soHandle := by
  constructor
  · intro h
    exact absurd (h partLines 9 [libFirst] noOutputs) (by decide)
  · intro h
    exact absurd (h partLines [libFirst, libSecond] 5 9 noOutputs (by decide)) (by decide)

end ScoreP.Addr2line
