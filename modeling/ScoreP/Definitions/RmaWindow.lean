import Mathlib.Data.List.Nodup
import ScoreP.Definitions.Hypercube

/-!
# RMA window definitions

Source: `scorep_definitions_rma_window.c`, with `SCOREP_CopyDefinitionsToUnified` and the order of
`unify_mpp_hierarchical`. A handle is the place of a definition in its manager. Strings stand for the
definitions of strings, and a communicator for the definitions that are unified into one. A hash chain is
searched as one list, which has a key at most once (`DistinctKeys`); the creation counters do not wrap.
`find_unified` tells whose name a window has after the unification.
-/

namespace ScoreP.Definitions

open Foundations Function List

structure RmaWindowDef (Comm : Type) where
  /-- `none` is `SCOREP_INVALID_STRING`. -/
  name : Option String
  communicator : Comm
  creationId : ℕ
  hasDefaultName : Bool
  flags : ℕ
deriving DecidableEq

def RmaWindowDef.key {Comm : Type} (window : RmaWindowDef Comm) : Comm × ℕ :=
  (window.communicator, window.creationId)

structure RmaWindows (Comm : Type) where
  hasHashTable : Bool
  definitions : List (RmaWindowDef Comm)

section

variable {Comm : Type} [DecidableEq Comm]

def takeName (existing : RmaWindowDef Comm) (name : Option String) : RmaWindowDef Comm :=
  if existing.hasDefaultName = true ∧ name ≠ none then
    { existing with name := name, hasDefaultName := false }
  else existing

def defineRmaWindow (rmaWindows : RmaWindows Comm) (name : Option String) (communicator : Comm)
    (creationId flags : ℕ) : RmaWindows Comm × ℕ :=
  let newDefinition : RmaWindowDef Comm := ⟨name, communicator, creationId, true, flags⟩
  let duplicate :=
    if rmaWindows.hasHashTable then
      rmaWindows.definitions.findIdx? fun existing => existing.key = newDefinition.key
    else none
  match duplicate with
  | some handle =>
    ({ rmaWindows with definitions := rmaWindows.definitions.modify handle (takeName · name) }, handle)
  | none =>
    ({ rmaWindows with definitions := rmaWindows.definitions ++ [newDefinition] },
      rmaWindows.definitions.length)

/-! ## The local manager -/

structure LocalManager (Comm : Type) where
  rmaWindows : RmaWindows Comm
  rmaWindowCreationCounter : Comm → ℕ

def LocalManager.empty : LocalManager Comm :=
  ⟨⟨false, []⟩, fun _ => 0⟩

def newRmaWindow (manager : LocalManager Comm) (name : Option String) (communicator : Comm)
    (flags : ℕ) : LocalManager Comm × ℕ :=
  let creationId := manager.rmaWindowCreationCounter communicator
  let (rmaWindows, handle) := defineRmaWindow manager.rmaWindows name communicator creationId flags
  (⟨rmaWindows, update manager.rmaWindowCreationCounter communicator (creationId + 1)⟩, handle)

/-- `SCOREP_RmaWindowHandle_SetName`, which stops on a handle that is not valid. -/
def setName (manager : LocalManager Comm) (handle : ℕ) (name : Option String) : Option (LocalManager Comm) :=
  match manager.rmaWindows.definitions[handle]? with
  | none => none
  | some definition =>
    if definition.hasDefaultName then
      let named := { definition with name := some (name.getD ""), hasDefaultName := false }
      some { manager with rmaWindows :=
        { manager.rmaWindows with definitions := manager.rmaWindows.definitions.set handle named } }
    else some manager

inductive LocalCall (Comm : Type) where
  | newRmaWindow (name : Option String) (communicator : Comm) (flags : ℕ)
  | setName (handle : ℕ) (name : Option String)

def LocalManager.call (manager : LocalManager Comm) : LocalCall Comm → Option (LocalManager Comm)
  | .newRmaWindow name communicator flags =>
    some (Definitions.newRmaWindow manager name communicator flags).1
  | .setName handle name => Definitions.setName manager handle name

def LocalManager.run (manager : LocalManager Comm) (calls : List (LocalCall Comm)) :
    Option (LocalManager Comm) :=
  calls.foldlM LocalManager.call manager

def unifyRmaWindow (unified : RmaWindows Comm) (definition : RmaWindowDef Comm) : RmaWindows Comm :=
  (defineRmaWindow unified definition.name definition.communicator definition.creationId definition.flags).1

def copyDefinitionsToUnified (unified source : RmaWindows Comm) : RmaWindows Comm :=
  source.definitions.foldl unifyRmaWindow unified

def unifyLocally (manager : LocalManager Comm) : RmaWindows Comm :=
  copyDefinitionsToUnified ⟨true, []⟩ manager.rmaWindows

def unified {P : Type} (managers : P → LocalManager Comm) (tree : Gathering P) : RmaWindows Comm :=
  tree.gather (fun process => unifyLocally (managers process)) copyDefinitionsToUnified

namespace RmaWindows

def find (rmaWindows : RmaWindows Comm) (key : Comm × ℕ) : Option (RmaWindowDef Comm) :=
  rmaWindows.definitions.find? fun definition => definition.key = key

def DistinctKeys (rmaWindows : RmaWindows Comm) : Prop :=
  (rmaWindows.definitions.map RmaWindowDef.key).Nodup

end RmaWindows

omit [DecidableEq Comm] in
@[simp] theorem takeName_key (existing : RmaWindowDef Comm) (name : Option String) :
    (takeName existing name).key = existing.key := by
  rw [takeName]
  split_ifs <;> rfl

def copied (existing : Option (RmaWindowDef Comm)) (definition : RmaWindowDef Comm) : RmaWindowDef Comm :=
  match existing with
  | some existing => takeName existing definition.name
  | none => { definition with hasDefaultName := true }

theorem find_modify {change : RmaWindowDef Comm → RmaWindowDef Comm}
    (hchange : ∀ existing, (change existing).key = existing.key) (newKey key : Comm × ℕ)
    (definitions : List (RmaWindowDef Comm)) (handle : ℕ)
    (h : definitions.findIdx? (fun existing => existing.key = newKey) = some handle) :
    ∃ existing, definitions.find? (fun definition => definition.key = newKey) = some existing ∧
      (definitions.modify handle change).find? (fun definition => definition.key = key) =
        if newKey = key then some (change existing)
        else definitions.find? fun definition => definition.key = key := by
  induction definitions generalizing handle with
  | nil => simp at h
  | cons definition definitions ih =>
    rw [findIdx?_cons] at h
    by_cases hkey : definition.key = newKey
    · have hhandle : handle = 0 := by simpa [hkey] using h.symm
      subst hhandle
      refine ⟨definition, by simp [hkey], ?_⟩
      by_cases hnew : newKey = key
      · simp [List.modify, hchange, hkey, hnew]
      · simp [List.modify, hchange, hkey, hnew]
    · simp only [hkey, decide_false, Bool.false_eq_true, if_false, Option.map_eq_some_iff] at h
      rcases h with ⟨rest, hrest, rfl⟩
      rcases ih rest hrest with ⟨existing, hexisting, hfind⟩
      refine ⟨existing, by simp [hkey, hexisting], ?_⟩
      rw [modify_succ_cons]
      by_cases hthis : definition.key = key
      · have hnew : newKey ≠ key := fun heq => hkey (hthis.trans heq.symm)
        simp [hthis, hnew]
      · simp [hthis, hfind]

variable {rmaWindows : RmaWindows Comm}

theorem find_unifyRmaWindow (hhash : rmaWindows.hasHashTable = true)
    (definition : RmaWindowDef Comm) (key : Comm × ℕ) : (unifyRmaWindow rmaWindows definition).find key =
      if definition.key = key then some (copied (rmaWindows.find key) definition) else rmaWindows.find key := by
  rw [unifyRmaWindow, defineRmaWindow, hhash]
  have hkey : (⟨definition.name, definition.communicator, definition.creationId, true,
      definition.flags⟩ : RmaWindowDef Comm).key = definition.key := rfl
  simp only [if_true, hkey]
  cases hduplicate : rmaWindows.definitions.findIdx? fun existing => existing.key = definition.key with
  | none =>
    have hnone : rmaWindows.find definition.key = none := by
      rw [findIdx?_eq_none_iff] at hduplicate
      exact find?_eq_none.mpr fun existing hexisting => by
        simpa using hduplicate existing hexisting
    rw [RmaWindows.find, find?_append]
    by_cases hnew : definition.key = key
    · subst hnew
      rw [RmaWindows.find] at hnone
      rw [if_pos rfl, hnone, RmaWindows.find, hnone]
      simp [copied, hkey]
    · rw [if_neg hnew]
      simp [RmaWindows.find, hkey, hnew]
  | some handle =>
    rcases find_modify (fun existing => takeName_key existing definition.name) definition.key key _ _
      hduplicate with ⟨existing, hexisting, hfind⟩
    rw [RmaWindows.find, hfind]
    by_cases hnew : definition.key = key
    · subst hnew
      rw [if_pos rfl, if_pos rfl, RmaWindows.find, hexisting]
      rfl
    · rw [if_neg hnew, if_neg hnew]
      rfl

@[simp] theorem defineRmaWindow_hasHashTable (rmaWindows : RmaWindows Comm) (name : Option String)
    (communicator : Comm) (creationId flags : ℕ) :
    (defineRmaWindow rmaWindows name communicator creationId flags).1.hasHashTable =
      rmaWindows.hasHashTable := by
  rw [defineRmaWindow]
  split <;> rfl

theorem copy_hasHashTable (rmaWindows : RmaWindows Comm) (definitions : List (RmaWindowDef Comm)) :
    (definitions.foldl unifyRmaWindow rmaWindows).hasHashTable = rmaWindows.hasHashTable := by
  induction definitions generalizing rmaWindows with
  | nil => rfl
  | cons definition definitions ih =>
    rw [foldl_cons, ih]
    exact defineRmaWindow_hasHashTable _ _ _ _ _

def merged (existing definition : Option (RmaWindowDef Comm)) : Option (RmaWindowDef Comm) :=
  match definition with
  | none => existing
  | some definition => some (copied existing definition)

theorem find_copy (hhash : rmaWindows.hasHashTable = true) (definitions : List (RmaWindowDef Comm))
    (hkeys : (definitions.map RmaWindowDef.key).Nodup) (key : Comm × ℕ) :
    (definitions.foldl unifyRmaWindow rmaWindows).find key =
      merged (rmaWindows.find key) (definitions.find? fun definition => definition.key = key) := by
  induction definitions generalizing rmaWindows with
  | nil => rfl
  | cons definition definitions ih =>
    rw [map_cons, nodup_cons] at hkeys
    have hhash' : (unifyRmaWindow rmaWindows definition).hasHashTable = true :=
      (defineRmaWindow_hasHashTable _ _ _ _ _).trans hhash
    rw [foldl_cons, ih hhash' hkeys.2, find_unifyRmaWindow hhash]
    by_cases hkey : definition.key = key
    · have hrest : definitions.find? (fun definition => definition.key = key) = none := by
        apply find?_eq_none.mpr
        intro other hother
        have hne : other.key ≠ key := by
          rintro rfl
          exact hkeys.1 (mem_map.mpr ⟨other, hother, hkey.symm⟩)
        simpa using hne
      simp [hkey, hrest, merged]
    · simp [hkey]

theorem distinctKeys_unifyRmaWindow (hhash : rmaWindows.hasHashTable = true)
    (hkeys : rmaWindows.DistinctKeys) (definition : RmaWindowDef Comm) :
    (unifyRmaWindow rmaWindows definition).DistinctKeys := by
  have hsame : ∀ (definitions : List (RmaWindowDef Comm)) (handle : ℕ),
      (definitions.modify handle (takeName · definition.name)).map RmaWindowDef.key =
        definitions.map RmaWindowDef.key := by
    intro definitions
    induction definitions with
    | nil => simp
    | cons first definitions ih =>
      intro handle
      cases handle with
      | zero => simp [List.modify]
      | succ handle => simp [modify_succ_cons, ih]
  rw [unifyRmaWindow, defineRmaWindow, hhash, RmaWindows.DistinctKeys]
  simp only [if_true]
  cases hduplicate : rmaWindows.definitions.findIdx? fun existing =>
      existing.key = (⟨definition.name, definition.communicator, definition.creationId, true,
        definition.flags⟩ : RmaWindowDef Comm).key with
  | none =>
    rw [findIdx?_eq_none_iff] at hduplicate
    simp only [map_append, map_singleton]
    apply nodup_append.mpr
    refine ⟨hkeys, nodup_singleton _, ?_⟩
    intro key hkey key' hkey' heq
    rcases mem_map.mp hkey with ⟨existing, hexisting, rfl⟩
    have hne := hduplicate existing hexisting
    rw [mem_singleton] at hkey'
    rw [heq, hkey'] at hne
    simp at hne
  | some handle =>
    simp only [hsame]
    exact hkeys

theorem distinctKeys_copy (hhash : rmaWindows.hasHashTable = true) (hkeys : rmaWindows.DistinctKeys)
    (definitions : List (RmaWindowDef Comm)) : (definitions.foldl unifyRmaWindow rmaWindows).DistinctKeys := by
  induction definitions generalizing rmaWindows with
  | nil => exact hkeys
  | cons definition definitions ih =>
    exact ih ((defineRmaWindow_hasHashTable _ _ _ _ _).trans hhash)
      (distinctKeys_unifyRmaWindow hhash hkeys definition)

/-! ## Runs of a process -/

structure LocalManager.Numbered (manager : LocalManager Comm) : Prop where
  hasHashTable_eq : manager.rmaWindows.hasHashTable = false
  distinctKeys : manager.rmaWindows.DistinctKeys
  creationId_lt : ∀ definition ∈ manager.rmaWindows.definitions,
    definition.creationId < manager.rmaWindowCreationCounter definition.communicator

omit [DecidableEq Comm] in
theorem numbered_empty : (LocalManager.empty : LocalManager Comm).Numbered :=
  ⟨rfl, nodup_nil, by simp [LocalManager.empty]⟩

theorem numbered_newRmaWindow {manager : LocalManager Comm} (h : manager.Numbered)
    (name : Option String) (communicator : Comm) (flags : ℕ) :
    (newRmaWindow manager name communicator flags).1.Numbered := by
  have hdefinitions : (newRmaWindow manager name communicator flags).1.rmaWindows.definitions =
      manager.rmaWindows.definitions ++
        [⟨name, communicator, manager.rmaWindowCreationCounter communicator, true, flags⟩] := by
    simp [newRmaWindow, defineRmaWindow, h.hasHashTable_eq]
  have hcounter : (newRmaWindow manager name communicator flags).1.rmaWindowCreationCounter =
      update manager.rmaWindowCreationCounter communicator
        (manager.rmaWindowCreationCounter communicator + 1) := rfl
  refine ⟨?_, ?_, ?_⟩
  · rw [← h.hasHashTable_eq]
    exact defineRmaWindow_hasHashTable _ _ _ _ _
  · rw [RmaWindows.DistinctKeys, hdefinitions, map_append, map_singleton]
    apply nodup_append.mpr
    refine ⟨h.distinctKeys, nodup_singleton _, ?_⟩
    intro key hkey key' hkey' heq
    rcases mem_map.mp hkey with ⟨existing, hexisting, rfl⟩
    rw [mem_singleton] at hkey'
    subst hkey'
    have hlt := h.creationId_lt existing hexisting
    rw [RmaWindowDef.key, RmaWindowDef.key, Prod.mk.injEq] at heq
    rw [heq.1, heq.2] at hlt
    exact lt_irrefl _ hlt
  · intro definition hdefinition
    rw [hcounter, update_apply]
    rw [hdefinitions, mem_append, mem_singleton] at hdefinition
    rcases hdefinition with hold | rfl
    · have hlt := h.creationId_lt definition hold
      split_ifs with hsame
      · rw [hsame] at hlt
        exact Nat.lt_succ_of_lt hlt
      · exact hlt
    · simp

omit [DecidableEq Comm] in
theorem numbered_setName {manager manager' : LocalManager Comm} (h : manager.Numbered) {handle : ℕ}
    {name : Option String} (hset : setName manager handle name = some manager') : manager'.Numbered := by
  rw [setName] at hset
  cases hdefinition : manager.rmaWindows.definitions[handle]? with
  | none => simp [hdefinition] at hset
  | some definition =>
    simp only [hdefinition] at hset
    split_ifs at hset with hdefault
    · cases hset
      obtain ⟨hlt, hget⟩ := List.getElem?_eq_some_iff.mp hdefinition
      have hmem : definition ∈ manager.rmaWindows.definitions := hget ▸ getElem_mem hlt
      refine ⟨h.hasHashTable_eq, ?_, ?_⟩
      · have hkeys := h.distinctKeys
        rw [RmaWindows.DistinctKeys] at hkeys ⊢
        rw [map_set]
        have hsame : ((manager.rmaWindows.definitions.map RmaWindowDef.key).set handle definition.key) =
            manager.rmaWindows.definitions.map RmaWindowDef.key := by
          rw [← map_set, ← hget, set_getElem_self]
        change ((manager.rmaWindows.definitions.map RmaWindowDef.key).set handle definition.key).Nodup
        rw [hsame]
        exact hkeys
      · intro other hother
        rcases mem_or_eq_of_mem_set hother with hold | rfl
        · exact h.creationId_lt other hold
        · exact h.creationId_lt definition hmem
    · cases hset
      exact h

theorem numbered_run {manager manager' : LocalManager Comm} (h : manager.Numbered)
    {calls : List (LocalCall Comm)} (hrun : manager.run calls = some manager') : manager'.Numbered := by
  induction calls generalizing manager with
  | nil =>
    cases hrun
    exact h
  | cons call calls ih =>
    rw [LocalManager.run, foldlM_cons, Option.bind_eq_bind, Option.bind_eq_some_iff] at hrun
    rcases hrun with ⟨next, hcall, hrest⟩
    have hnext : next.Numbered := by
      cases call with
      | newRmaWindow name communicator flags =>
        cases hcall
        exact numbered_newRmaWindow h name communicator flags
      | setName handle name => exact numbered_setName h hcall
    exact ih hnext hrest

/-! ## Names -/

def localName (manager : LocalManager Comm) (key : Comm × ℕ) : Option (Option String) :=
  (manager.rmaWindows.find key).map RmaWindowDef.name

def userName (manager : LocalManager Comm) (key : Comm × ℕ) : Option String :=
  (manager.rmaWindows.find key).bind fun definition =>
    if definition.hasDefaultName then none else definition.name

/-- The process whose name stays, and whether it is the first one: of the parts that a process merges,
its own and those of its children, the second one with a name wins, and the first one if it is alone. -/
def survivor {P : Type} (localName : P → Option (Option String)) : Gathering P → Option (P × Bool)
  | .own process => if (localName process).isSome then some (process, true) else none
  | .receive into source =>
    match survivor localName into, survivor localName source with
    | first, none => first
    | none, some (process, _) => some (process, true)
    | some (process, alone), some (later, _) =>
      if alone = true ∧ localName later ≠ some none then some (later, false) else some (process, alone)

variable {P : Type}

theorem unified_hasHashTable (managers : P → LocalManager Comm) (tree : Gathering P) :
    (unified managers tree).hasHashTable = true := by
  induction tree with
  | own process => exact copy_hasHashTable _ _
  | receive into source hinto hsource => exact (copy_hasHashTable _ _).trans hinto

theorem unified_distinctKeys (managers : P → LocalManager Comm) (tree : Gathering P) :
    (unified managers tree).DistinctKeys := by
  induction tree with
  | own process =>
    have hempty : (⟨true, []⟩ : RmaWindows Comm).DistinctKeys := nodup_nil
    exact distinctKeys_copy rfl hempty _
  | receive into source hinto hsource =>
    exact distinctKeys_copy (unified_hasHashTable managers into) hinto _

theorem find_unified (managers : P → LocalManager Comm) (tree : Gathering P)
    (h : ∀ process ∈ tree.members, (managers process).Numbered) (key : Comm × ℕ) :
    match survivor (fun process => localName (managers process) key) tree with
    | none => (unified managers tree).find key = none
    | some (process, alone) => ∃ window, (unified managers tree).find key = some window ∧
        localName (managers process) key = some window.name ∧ window.hasDefaultName = alone := by
  induction tree with
  | own process =>
    have hfind : (unified managers (.own process)).find key =
        merged none ((managers process).rmaWindows.find key) :=
      find_copy rfl _ (h process (by simp [Gathering.members])).distinctKeys key
    rw [hfind, survivor]
    cases hlocal : (managers process).rmaWindows.find key with
    | none => simp [localName, hlocal, merged]
    | some window =>
      simp only [localName, hlocal, Option.map_some, Option.isSome_some, if_true]
      exact ⟨_, rfl, rfl, rfl⟩
  | receive into source hinto hsource =>
    have hinto := hinto fun process hprocess => h process (mem_append_left _ hprocess)
    have hsource := hsource fun process hprocess => h process (mem_append_right _ hprocess)
    have hfind : (unified managers (.receive into source)).find key =
        merged ((unified managers into).find key) ((unified managers source).find key) :=
      find_copy (unified_hasHashTable managers into) _ (unified_distinctKeys managers source) key
    rw [hfind, survivor]
    cases hs : survivor (fun process => localName (managers process) key) source with
    | none =>
      rw [hs] at hsource
      rw [hsource]
      cases hi : survivor (fun process => localName (managers process) key) into with
      | none =>
        rw [hi] at hinto
        exact hinto
      | some kept =>
        rw [hi] at hinto
        exact hinto
    | some later =>
      rw [hs] at hsource
      rcases hsource with ⟨window, hwindow, hname, -⟩
      rw [hwindow]
      cases hi : survivor (fun process => localName (managers process) key) into with
      | none =>
        rw [hi] at hinto
        rw [hinto]
        exact ⟨_, rfl, hname, rfl⟩
      | some kept =>
        rw [hi] at hinto
        rcases hinto with ⟨existing, hexisting, hkept, halone⟩
        rw [hexisting]
        have hvalid : localName (managers later.1) key ≠ some none ↔ window.name ≠ none := by
          rw [hname]
          simp
        by_cases hreplaced : kept.2 = true ∧ localName (managers later.1) key ≠ some none
        · have htakes : existing.hasDefaultName = true ∧ window.name ≠ none :=
            ⟨halone.trans hreplaced.1, hvalid.mp hreplaced.2⟩
          simp only [if_pos hreplaced]
          refine ⟨copied (some existing) window, rfl, ?_, ?_⟩
          · rw [copied, takeName, if_pos htakes]
            exact hname
          · rw [copied, takeName, if_pos htakes]
        · have hkeeps : ¬ (existing.hasDefaultName = true ∧ window.name ≠ none) := by
            rw [halone, ← hvalid]
            exact hreplaced
          simp only [if_neg hreplaced]
          refine ⟨existing, ?_, hkept, halone⟩
          rw [merged, copied, takeName, if_neg hkeeps]

def firstName (managers : P → LocalManager Comm) (tree : Gathering P) (key : Comm × ℕ)
    (default : Option String) : Option String :=
  (tree.members.findSome? fun process => userName (managers process) key).or default

def NamedByFirst (managers : P → LocalManager Comm) (tree : Gathering P) (key : Comm × ℕ)
    (default : Option String) : Prop :=
  ∀ window, (unified managers tree).find key = some window → window.name = firstName managers tree key default

end

/-! ## Two ranks with one window -/

def haloCalls (named : ℕ) (rank : ℕ) : List (LocalCall Unit) :=
  .newRmaWindow (some "MPI Window") () 0 :: if rank = named then [.setName 0 (some "halo")] else []

def haloManager (named rank : ℕ) : LocalManager Unit :=
  ⟨⟨false, [if rank = named then ⟨some "halo", (), 0, false, 0⟩
    else ⟨some "MPI Window", (), 0, true, 0⟩]⟩, update (fun _ => 0) () 1⟩

theorem run_haloCalls (named rank : ℕ) :
    LocalManager.empty.run (haloCalls named rank) = some (haloManager named rank) := by
  by_cases h : rank = named
  · simp only [haloCalls, haloManager, h, if_true]
    rfl
  · simp only [haloCalls, haloManager, h, if_false]
    rfl

/-- A window has the first name just when the process whose name stays has it. -/
theorem namedByFirst_iff {Comm P : Type} [DecidableEq Comm] (tree : Gathering P) (calls : P → List (LocalCall Comm))
    (managers : P → LocalManager Comm)
    (hrun : ∀ process, LocalManager.empty.run (calls process) = some (managers process))
    (key : Comm × ℕ) (default : Option String) : NamedByFirst managers tree key default ↔
      ∀ process alone, survivor (fun process => localName (managers process) key) tree = some (process, alone) →
        localName (managers process) key = some (firstName managers tree key default) := by
  have hfind := find_unified managers tree (fun process _ => numbered_run numbered_empty (hrun process)) key
  cases hsurvivor : survivor (fun process => localName (managers process) key) tree with
  | none =>
    rw [hsurvivor] at hfind
    simp [NamedByFirst, hfind]
  | some kept =>
    rw [hsurvivor] at hfind
    rcases hfind with ⟨window, hwindow, hname, -⟩
    rw [NamedByFirst, hwindow]
    simp only [Option.some.injEq, forall_eq']
    constructor
    · rintro heq process alone hkept
      rw [hkept] at hname
      rw [hname, heq]
    · intro h
      have hlocal := h kept.1 kept.2 rfl
      rw [hname] at hlocal
      exact Option.some.inj hlocal

theorem namedByFirst_iff_second : NamedByFirst (haloManager 1) (hypercube 2) ((), 0) (some "MPI Window") := by
  apply (namedByFirst_iff (hypercube 2) (haloCalls 1) (haloManager 1) (run_haloCalls 1) ((), 0) _).mpr
  intro process alone hsurvivor
  have hsecond : survivor (fun process => localName (haloManager 1 process) ((), 0)) (hypercube 2) =
      some (1, false) := rfl
  rw [hsecond] at hsurvivor
  cases hsurvivor
  rfl

/-- The process that names a window loses its name to the default name of the other one. -/
theorem not_namedByFirst : ¬ ∀ (size : ℕ) (calls : ℕ → List (LocalCall Unit))
    (managers : ℕ → LocalManager Unit) (key : Unit × ℕ) (default : Option String),
    (∀ process, LocalManager.empty.run (calls process) = some (managers process)) →
    (∀ process name communicator flags,
      LocalCall.newRmaWindow name communicator flags ∈ calls process → name = default) →
    NamedByFirst managers (hypercube size) key default := by
  intro h
  have hnamed := h 2 (haloCalls 0) (haloManager 0) ((), 0) (some "MPI Window") (run_haloCalls 0) (by
    intro process name communicator flags hcall
    simp only [haloCalls, mem_cons] at hcall
    rcases hcall with hcall | hcall
    · cases hcall
      rfl
    · split_ifs at hcall <;> simp at hcall)
  have hname := hnamed ⟨some "MPI Window", (), 0, false, 0⟩ rfl
  exact absurd hname (by decide)

end ScoreP.Definitions
