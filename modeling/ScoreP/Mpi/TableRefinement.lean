import ScoreP.Foundations.BoundedMap
import ScoreP.Mpi.Tables

/-!
# The tables are bounded maps

`Maps.step` says what a call should do to four bounded maps; `behaves_of_allSound`: it is what the tables
do, in every run whose calls meet `Sound`. Outside of it a create on a full table of windows or epochs writes
behind the array, a free of a window or communicator that is not tracked drops the last entry, and so
does the end of an epoch that is not open.
-/

namespace ScoreP.Mpi

open Foundations Function

variable {Win Comm Group Handle : Type} [DecidableEq Win] [DecidableEq Comm] [DecidableEq Group]

/-! ## What the tables are for -/

structure Maps (Win Comm Group Handle : Type) (windows comms groups epochs : ℕ) where
  windows : BoundedMap Win Handle windows
  comms : BoundedMap Comm Handle comms
  groups : BoundedMap Group (Handle × ℤ) groups
  epochs : BoundedMap (Win × EpochType) Handle epochs

structure Outcome (Handle : Type) where
  value : Option Handle
  errors : List MpiError

section Spec

variable {K V : Type} [DecidableEq K] {capacity : ℕ}

def add (m : BoundedMap K V capacity) (k : K) (v : V) (full : MpiError) :
    BoundedMap K V capacity × List MpiError :=
  if h : m.keys.card < capacity then (m.insert k v (.inr h), []) else (m, [full])

def remove (m : BoundedMap K V capacity) (k : K) (missing : MpiError) :
    BoundedMap K V capacity × List MpiError :=
  if k ∈ m.keys then (m.erase k, []) else (m, [missing])

def get (m : BoundedMap K V capacity) (k : K) (missing : MpiError) : Option V × List MpiError :=
  match m.lookup k with
  | some v => (some v, [])
  | none => (none, [missing])

def reference (m : BoundedMap K (V × ℤ) capacity) (k : K) (v : V) (full : MpiError) :
    BoundedMap K (V × ℤ) capacity × List MpiError :=
  match h : m.lookup k with
  | some (v, refcnt) => (m.insert k (v, refcnt + 1) (.inl (BoundedMap.mem_of_lookup h)), [])
  | none => add m k (v, 1) full

def dereference (m : BoundedMap K (V × ℤ) capacity) (k : K) (missing : MpiError) :
    BoundedMap K (V × ℤ) capacity × List MpiError :=
  match h : m.lookup k with
  | some (v, refcnt) =>
    if refcnt = 1 then (m.erase k, [])
    else (m.insert k (v, refcnt - 1) (.inl (BoundedMap.mem_of_lookup h)), [])
  | none => (m, [missing])

variable {m : BoundedMap K (V × ℤ) capacity}

theorem reference_some {k : K} {v' : V} {refcnt : ℤ} (h : m.lookup k = some (v', refcnt)) (v : V)
    (full : MpiError) :
    reference m k v full = (m.insert k (v', refcnt + 1) (.inl (BoundedMap.mem_of_lookup h)), []) := by
  unfold reference
  split
  · rename_i h'
    rw [h] at h'
    cases h'
    rfl
  · rename_i h'
    rw [h] at h'
    cases h'

theorem reference_none {k : K} (h : m.lookup k = none) (v : V) (full : MpiError) :
    reference m k v full = add m k (v, 1) full := by
  unfold reference
  split
  · rename_i h'
    rw [h] at h'
    cases h'
  · rfl

theorem dereference_some {k : K} {v : V} {refcnt : ℤ} (h : m.lookup k = some (v, refcnt)) (missing : MpiError) :
    dereference m k missing = if refcnt = 1 then (m.erase k, [])
      else (m.insert k (v, refcnt - 1) (.inl (BoundedMap.mem_of_lookup h)), []) := by
  unfold dereference
  split
  · rename_i h'
    rw [h] at h'
    cases h'
    rfl
  · rename_i h'
    rw [h] at h'
    cases h'

theorem dereference_none {k : K} (h : m.lookup k = none) (missing : MpiError) :
    dereference m k missing = (m, [missing]) := by
  unfold dereference
  split
  · rename_i h'
    rw [h] at h'
    cases h'
  · rfl

def Referenced (m : BoundedMap K (V × ℤ) capacity) : Prop :=
  ∀ k v, m.lookup k = some v → 1 ≤ v.2

theorem Referenced.insert (hm : Referenced m) {k : K} {v : V × ℤ} (hv : 1 ≤ v.2)
    (h : k ∈ m.keys ∨ m.keys.card < capacity) : Referenced (m.insert k v h) := by
  intro k' v' hlookup
  by_cases hk : k' = k
  · subst hk
    rw [BoundedMap.lookup_insert, update_self, Option.some.injEq] at hlookup
    rw [← hlookup]
    exact hv
  · rw [BoundedMap.lookup_insert, update_of_ne hk] at hlookup
    exact hm k' v' hlookup

theorem Referenced.erase (hm : Referenced m) (k : K) : Referenced (m.erase k) := by
  intro k' v' hlookup
  by_cases hk : k' = k
  · subst hk
    simp at hlookup
  · rw [BoundedMap.lookup_erase, update_of_ne hk] at hlookup
    exact hm k' v' hlookup

end Spec

variable {windows comms groups epochs : ℕ}

/-- The handle of a communicator; that of `MPI_COMM_WORLD` is not in the table. -/
def Maps.comm (setting : Setting Comm Handle) (comm : Comm)
    (m : Maps Win Comm Group Handle windows comms groups epochs) : Option Handle × List MpiError :=
  if comm = setting.commWorld then (some setting.worldHandle, []) else get m.comms comm .noComm

def Maps.group (group : Group) (m : Maps Win Comm Group Handle windows comms groups epochs) :
    Option Handle × List MpiError :=
  ((get m.groups group .noGroup).1.map Prod.fst, (get m.groups group .noGroup).2)

def Maps.step (setting : Setting Comm Handle) (m : Maps Win Comm Group Handle windows comms groups epochs) :
    Call Win Comm Group Handle → Outcome Handle × Maps Win Comm Group Handle windows comms groups epochs
  | .winCreate win comm handle =>
    let (windows, errors) := add m.windows win handle .tooManyWindows
    (⟨if errors = [] then some handle else none, errors ++ (m.comm setting comm).2⟩,
      { m with windows := windows })
  | .winFree win =>
    let (windows, errors) := remove m.windows win .noWindow
    (⟨none, errors⟩, { m with windows := windows })
  | .winHandle win =>
    let (value, errors) := get m.windows win .noWindow
    (⟨value, errors⟩, m)
  | .commCreate comm handle =>
    let (comms, errors) := add m.comms comm handle .tooManyComms
    (⟨if errors = [] then some handle else none, errors⟩, { m with comms := comms })
  | .commFree comm =>
    let (comms, errors) := remove m.comms comm .noComm
    (⟨none, errors⟩, { m with comms := comms })
  | .commHandle comm =>
    let (value, errors) := get m.comms comm .noComm
    (⟨value, errors⟩, m)
  | .groupCreate group handle =>
    let (groups, errors) := reference m.groups group handle .tooManyGroups
    (⟨none, errors⟩, { m with groups := groups })
  | .groupFree group =>
    let (groups, errors) := dereference m.groups group .noGroup
    (⟨none, errors⟩, { m with groups := groups })
  | .groupHandle group => (⟨(m.group group).1, (m.group group).2⟩, m)
  | .epochStart win group epochType =>
    let (epochs, errors) := add m.epochs (win, epochType)
      ((m.group group).1.getD setting.invalidGroup) .tooManyEpochs
    (⟨none, errors ++ (m.group group).2⟩, { m with epochs := epochs })
  | .epochEnd win epochType =>
    let (epochs, errors) := remove m.epochs (win, epochType) .noEpoch
    (⟨none, errors⟩, { m with epochs := epochs })
  | .epochGetGroupHandle win epochType =>
    let (value, errors) := get m.epochs (win, epochType) .noEpoch
    (⟨value, errors⟩, m)

def Maps.run (setting : Setting Comm Handle) :
    List (Call Win Comm Group Handle) → Maps Win Comm Group Handle windows comms groups epochs →
      List (Outcome Handle) × Maps Win Comm Group Handle windows comms groups epochs
  | [], m => ([], m)
  | call :: calls, m =>
    let (outcome, m) := m.step setting call
    let (outcomes, m) := Maps.run setting calls m
    (outcome :: outcomes, m)

def Maps.empty : Maps Win Comm Group Handle windows comms groups epochs :=
  ⟨.empty, .empty, .empty, .empty⟩

/-! ## When the calls do it -/

section Tracked

variable {K V : Type} [DecidableEq K]

def Table.Tracks (t : Table K V) (k : K) : Prop :=
  ∃ i : ℕ, i < t.last ∧ (t.slots i).1 = k

def Table.HasRoom (t : Table K V) : Prop :=
  t.last < t.capacity ∧ t.last < 2147483647

end Tracked

def Sound (setting : Setting Comm Handle) (s : State Win Comm Group Handle) : Call Win Comm Group Handle → Prop
  | .winCreate win _ _ => s.windows.HasRoom ∧ ¬ s.windows.Tracks win
  | .winFree win => s.windows.Tracks win ∨ s.windows.last ≤ 1
  | .winHandle _ => True
  | .commCreate comm _ => s.comms.last = s.comms.capacity ∨ s.comms.HasRoom ∧ ¬ s.comms.Tracks comm
  | .commFree comm => s.comms.Tracks comm ∨ s.comms.last ≤ 1
  | .commHandle comm => s.comms.Tracks comm ∨ comm ≠ setting.commWorld
  | .groupCreate group _ =>
      (∀ i : ℕ, i < s.groups.last → (s.groups.slots i).1 = group → (s.groups.slots i).2.2 < 2147483647) ∧
      (s.groups.Tracks group ∨ s.groups.last = s.groups.capacity ∨ s.groups.HasRoom)
  | .groupFree _ => True
  | .groupHandle _ => True
  | .epochStart win _ epochType => s.epochs.HasRoom ∧ ¬ s.epochs.Tracks (win, epochType)
  | .epochEnd win epochType | .epochGetGroupHandle win epochType =>
      s.epochs.Tracks (win, epochType) ∨
        s.epochs.last < s.epochs.capacity ∧ (s.epochs.slots s.epochs.last.toNat).1 = (win, epochType)

def AllSound (setting : Setting Comm Handle) :
    List (Call Win Comm Group Handle) → State Win Comm Group Handle → Prop
  | [], _ => True
  | call :: calls, s => Sound setting s call ∧
      ∀ answer s', call.step setting s = some (answer, s') → AllSound setting calls s'

def Report.code : Report → Option MpiError
  | .error code _ => some code
  | .warning _ => none

def Answer.Meets (answer : Answer Handle) (outcome : Outcome Handle) : Prop :=
  answer.reports.filterMap Report.code = outcome.errors ∧ ∀ v, outcome.value = some v → answer.value = some v

/-! ## One table -/

structure Table.Holds {K V : Type} {capacity : ℕ} (t : Table K V) (m : BoundedMap K V capacity) :
    Prop where
  capacity_eq : t.capacity = capacity
  last_eq : t.last = m.keys.card
  last_le : t.last ≤ 2147483647
  slots : Represents t.slots m.keys.card m

namespace Table.Holds

variable {K V : Type} [DecidableEq K] {capacity : ℕ} {t : Table K V} {m : BoundedMap K V capacity}
  {k : K} {v : V} {i : ℕ}

omit [DecidableEq K] in
theorem read_eq (h : t.Holds m) (hi : i < m.keys.card) : t.read i = some (t.slots i) := by
  have hle := m.card_le
  have hcapacity := h.capacity_eq
  rw [Table.read, if_pos (by omega)]
  rfl

omit [DecidableEq K] in
theorem write_eq_of_last (h : t.Holds m) (hi : i < m.keys.card) (last : ℤ) (slot : K × V) :
    Table.write { t with last := last } i slot =
      some { t with slots := update t.slots i slot, last := last } := by
  have hle := m.card_le
  have hcapacity := h.capacity_eq
  have hbounds : (0 : ℤ) ≤ i ∧ (i : ℤ) < t.capacity := by omega
  exact if_pos hbounds

omit [DecidableEq K] in
theorem write_eq (h : t.Holds m) (hi : i < m.keys.card) (slot : K × V) :
    t.write i slot = some { t with slots := update t.slots i slot } :=
  h.write_eq_of_last hi t.last slot

omit [DecidableEq K] in
theorem mem_keys_iff (h : t.Holds m) : k ∈ m.keys ↔ ∃ i < m.keys.card, (t.slots i).1 = k := by
  constructor
  · intro hk
    rcases Option.isSome_iff_exists.mp ((m.mem_keys k).mp hk) with ⟨v, hv⟩
    rcases (h.slots.lookup_iff k v).mp hv with ⟨i, hi, hslot⟩
    exact ⟨i, hi, by rw [hslot]⟩
  · rintro ⟨i, hi, hk⟩
    exact BoundedMap.mem_of_lookup (h.slots.lookup_of_key hi hk)

omit [DecidableEq K] in
theorem tracks_iff (h : t.Holds m) : t.Tracks k ↔ k ∈ m.keys := by
  have hlast := h.last_eq
  rw [h.mem_keys_iff]
  constructor
  · rintro ⟨i, hi, hk⟩
    exact ⟨i, by omega, hk⟩
  · rintro ⟨i, hi, hk⟩
    exact ⟨i, by omega, hk⟩

omit [DecidableEq K] in
theorem isFull_iff (h : t.Holds m) : t.isFull = true ↔ m.keys.card = capacity := by
  have hle := m.card_le
  have hlast := h.last_eq
  have hmax := h.last_le
  have hcapacity := h.capacity_eq
  have hmod : t.last % 2 ^ 64 = t.last := by
    apply Int.emod_eq_of_lt
    · omega
    · omega
  rw [Table.isFull, hmod, decide_eq_true_eq]
  omega

theorem scanFrom_eq (h : t.Holds m) (rounds i : ℕ) (hi : i + rounds ≤ m.keys.card) :
    ∃ j, t.scanFrom k rounds i = some j ∧ i ≤ j ∧ j ≤ i + rounds ∧
      (∀ a, i ≤ a → a < j → (t.slots a).1 ≠ k) ∧ (j < i + rounds → (t.slots j).1 = k) := by
  induction rounds generalizing i with
  | zero => exact ⟨i, rfl, le_rfl, by omega, by omega, by omega⟩
  | succ rounds ih =>
    have hread := @read_eq K V capacity t m i h (by omega)
    by_cases hk : (t.slots i).1 = k
    · refine ⟨i, ?_, le_rfl, by omega, by omega, fun _ => hk⟩
      simp [Table.scanFrom, hread, hk]
    · rcases ih (i + 1) (by omega) with ⟨j, hscan, hij, hj, hbefore, hfound⟩
      refine ⟨j, ?_, by omega, by omega, ?_, fun hlt => hfound (by omega)⟩
      · simp [Table.scanFrom, hread, hk, hscan]
      · intro a ha haj
        by_cases hai : a = i
        · subst hai
          exact hk
        · exact hbefore a (by omega) haj

theorem search_cases (h : t.Holds m) (k : K) : (∃ i < m.keys.card, t.search k = some i ∧ (t.slots i).1 = k ∧
      m.lookup k = some (t.slots i).2) ∨ t.search k = some m.keys.card ∧ m.lookup k = none := by
  have hlast : t.last.toNat = m.keys.card := by
    rw [h.last_eq]
    rfl
  rcases @scanFrom_eq K V _ capacity t m k h m.keys.card 0 (by omega) with
    ⟨j, hscan, -, hj, hbefore, hfound⟩
  have hsearch : t.search k = some j := by rw [Table.search, hlast, hscan]
  by_cases hlt : j < m.keys.card
  · have hk := hfound (by omega)
    exact .inl ⟨j, hlt, hsearch, hk, h.slots.lookup_of_key hlt hk⟩
  · have hend : j = m.keys.card := by omega
    subst hend
    exact .inr ⟨hsearch, h.slots.lookup_none fun i hi => hbefore i (by omega) hi⟩

theorem enter_spec (h : t.Holds m) (hroom : t.HasRoom) (hnew : ¬ t.Tracks k) (v : V) (full : MpiError) :
    ∃ t', t.enter (k, v) = some t' ∧ (add m k v full).2 = [] ∧ t'.Holds (add m k v full).1 := by
  have hlast := h.last_eq
  have hcapacity := h.capacity_eq
  have hspace : m.keys.card < capacity := by
    have hlt := hroom.1
    omega
  have hfresh : k ∉ m.keys := fun hk => hnew (h.tracks_iff.mpr hk)
  have hadd : add m k v full = (m.insert k v (.inr hspace), []) := dif_pos hspace
  refine ⟨{ t with slots := update t.slots m.keys.card (k, v), last := t.last + 1 }, ?_, ?_, ?_⟩
  · have hindex : t.last.toNat = m.keys.card := by
      rw [hlast]
      rfl
    have hmax := hroom.2
    have hlt := hroom.1
    simp [Table.enter, Table.write, increment, hindex, hmax, hlt, show (0 : ℤ) ≤ t.last by omega]
  · rw [hadd]
  · have hcard : (m.insert k v (.inr hspace)).keys.card = m.keys.card + 1 := by
      rw [BoundedMap.keys_insert, Finset.card_insert_of_notMem hfresh]
    rw [hadd]
    refine ⟨hcapacity, ?_, ?_, ?_⟩
    · rw [hcard, hlast]
      push_cast
      rfl
    · have hmax := hroom.2
      show t.last + 1 ≤ 2147483647
      omega
    · rw [hcard]
      exact h.slots.append hfresh hspace

theorem swapRemove (h : t.Holds m) (hi : i < m.keys.card) (hk : (t.slots i).1 = k) :
    Table.Holds { t with slots := update t.slots i (t.slots (m.keys.card - 1)), last := t.last - 1 }
      (m.erase k) := by
  have hlast := h.last_eq
  have hmax := h.last_le
  have hmem : k ∈ m.keys := h.mem_keys_iff.mpr ⟨i, hi, hk⟩
  have hcard : (m.erase k).keys.card = m.keys.card - 1 := by
    rw [BoundedMap.keys_erase, Finset.card_erase_of_mem hmem]
  refine ⟨h.capacity_eq, ?_, ?_, ?_⟩
  · rw [hcard]
    show t.last - 1 = _
    omega
  · show t.last - 1 ≤ 2147483647
    omega
  · rw [hcard]
    exact h.slots.swapRemove hi hk

theorem clear (h : t.Holds m) (hone : m.keys.card = 1) (hk : (t.slots 0).1 = k) :
    Table.Holds { t with last := 0 } (m.erase k) := by
  have hremoved := h.swapRemove (i := 0) (by omega) hk
  have hlast := h.last_eq
  have hzero : t.last - 1 = 0 := by omega
  simpa [hone, hzero] using hremoved

theorem onlyHas_eq (h : t.Holds m) (k : K) :
    t.onlyHas k = some (decide (m.keys.card = 1 ∧ (t.slots 0).1 = k)) := by
  have hlast := h.last_eq
  unfold Table.onlyHas
  by_cases hone : m.keys.card = 1
  · have hread : t.read (0 : ℤ) = some (t.slots 0) := h.read_eq (i := 0) (by omega)
    rw [if_pos (by omega), hread]
    simp [hone]
  · rw [if_neg (by omega)]
    simp [hone]

theorem update (h : t.Holds m) (hi : i < m.keys.card) (hk : (t.slots i).1 = k) (v : V) (hmem : k ∈ m.keys) :
    Table.Holds { t with slots := update t.slots i (k, v) } (m.insert k v (.inl hmem)) := by
  have hcard : (m.insert k v (.inl hmem)).keys.card = m.keys.card := by
    rw [BoundedMap.keys_insert, Finset.insert_eq_of_mem hmem]
  refine ⟨h.capacity_eq, ?_, h.last_le, ?_⟩
  · rw [hcard]
    exact h.last_eq
  · rw [hcard]
    exact h.slots.update hi hk hmem

omit [DecidableEq K] in
theorem decrement_eq (h : t.Holds m) : decrement t.last = some (t.last - 1) := by
  have hlast := h.last_eq
  rw [decrement, if_pos (by omega)]

omit [DecidableEq K] in
theorem read_last (h : t.Holds m) (hpos : 0 < m.keys.card) :
    t.read (t.last - 1) = some (t.slots (m.keys.card - 1)) := by
  have hlast := h.last_eq
  have hindex : t.last - 1 = ((m.keys.card - 1 : ℕ) : ℤ) := by omega
  rw [hindex]
  exact h.read_eq (by omega)

theorem free_spec (h : t.Holds m) (hsound : t.Tracks k ∨ t.last ≤ 1) (notFound empty : Report)
    {e : MpiError} (hnotFound : notFound.code = some e) (hempty : empty.code = some e) :
    ∃ t' reports, t.free k notFound empty = some (t', reports) ∧
      reports.filterMap Report.code = (remove m k e).2 ∧ t'.Holds (remove m k e).1 := by
  have hlast := h.last_eq
  have hmax := h.last_le
  have honly := h.onlyHas_eq k
  by_cases hone : m.keys.card = 1 ∧ (t.slots 0).1 = k
  · have hmem : k ∈ m.keys := h.mem_keys_iff.mpr ⟨0, by omega, hone.2⟩
    refine ⟨{ t with last := 0 }, [], ?_, ?_, ?_⟩
    · rw [Table.free, honly]
      simp [hone]
    · simp [remove, hmem]
    · rw [remove, if_pos hmem]
      exact h.clear hone.1 hone.2
  · rw [decide_eq_false hone] at honly
    by_cases hmany : 1 < t.last
    · -- the key is tracked, so the decrement is right
      have hmem : k ∈ m.keys := by
        rcases hsound with htracks | hle
        · exact h.tracks_iff.mp htracks
        · omega
      rcases h.search_cases k with ⟨i, hi, hsearch, hk, -⟩ | ⟨-, hnone⟩
      · have hfound : (i : ℤ) < t.last := by omega
        refine ⟨{ t with
            slots := Function.update t.slots i (t.slots (m.keys.card - 1)), last := t.last - 1 },
          [], ?_, ?_, ?_⟩
        · have hread : Table.read { t with last := t.last - 1 } (t.last - 1) =
              some (t.slots (m.keys.card - 1)) := h.read_last (by omega)
          have hwrite := h.write_eq_of_last hi (t.last - 1) (t.slots (m.keys.card - 1))
          rw [Table.free, honly]
          simp [hmany, hsearch, hfound, h.decrement_eq, hread, hwrite]
        · simp [remove, hmem]
        · rw [remove, if_pos hmem]
          exact h.swapRemove hi hk
      · exact absurd hmem (BoundedMap.lookup_eq_none.mp hnone)
    · have hmem : k ∉ m.keys := by
        intro hmem
        rcases h.mem_keys_iff.mp hmem with ⟨i, hi, hk⟩
        have hzero : i = 0 := by omega
        subst hzero
        exact hone ⟨by omega, hk⟩
      refine ⟨t, [empty], ?_, ?_, ?_⟩
      · rw [Table.free, honly]
        simp [hmany]
      · simp [remove, hmem, hempty]
      · rw [remove, if_neg hmem]
        exact h

theorem scanFrom_extend (t : Table K V) (k : K) (rounds i j : ℕ) (h : t.scanFrom k rounds i = some j) :
    t.scanFrom k (rounds + 1) i = if j < i + rounds then some j else (t.read (i + rounds : ℕ)).map fun slot =>
        if slot.1 = k then i + rounds else i + rounds + 1 := by
  induction rounds generalizing i with
  | zero =>
    have hij : i = j := Option.some.inj h
    subst hij
    cases hread : t.read (i : ℤ) with
    | none => simp [Table.scanFrom, hread]
    | some slot =>
      by_cases hk : slot.1 = k
      · simp [Table.scanFrom, hread, hk]
      · simp [Table.scanFrom, hread, hk]
  | succ rounds ih =>
    rw [Table.scanFrom] at h ⊢
    cases hread : t.read (i : ℤ) with
    | none => simp [hread] at h
    | some slot =>
      simp only [hread, Option.bind_eq_bind, Option.bind_some] at h ⊢
      by_cases hk : slot.1 = k
      · rw [if_pos hk] at h ⊢
        cases h
        rw [if_pos (by omega)]
      · rw [if_neg hk] at h ⊢
        rw [ih (i + 1) h, show i + 1 + rounds = i + (rounds + 1) by omega]

theorem searchBeyond_cases (h : t.Holds m)
    (hsound : t.Tracks k ∨ t.last < t.capacity ∧ (t.slots t.last.toNat).1 = k) :
    (∃ i < m.keys.card, t.searchBeyond k = some i ∧ (t.slots i).1 = k ∧ m.lookup k = some (t.slots i).2) ∨
    t.searchBeyond k = some m.keys.card ∧ m.lookup k = none := by
  have hlast := h.last_eq
  have hcapacity := h.capacity_eq
  have hrounds : (t.last + 1).toNat = m.keys.card + 1 := by omega
  have hindex : t.last.toNat = m.keys.card := by omega
  rcases h.search_cases k with ⟨i, hi, hsearch, hk, hlookup⟩ | ⟨hsearch, hnone⟩
  · rw [Table.search, hindex] at hsearch
    refine .inl ⟨i, hi, ?_, hk, hlookup⟩
    rw [Table.searchBeyond, hrounds, scanFrom_extend t k m.keys.card 0 i hsearch, if_pos (by omega)]
  · have hstale : t.last < t.capacity ∧ (t.slots t.last.toNat).1 = k := by
      rcases hsound with htracks | hstale
      · exact absurd (h.tracks_iff.mp htracks) (BoundedMap.lookup_eq_none.mp hnone)
      · exact hstale
    have hread : t.read (0 + m.keys.card : ℕ) = some (t.slots m.keys.card) := by
      have hbounds : (0 : ℤ) ≤ (0 + m.keys.card : ℕ) ∧ ((0 + m.keys.card : ℕ) : ℤ) < t.capacity := by
        omega
      rw [Table.read, if_pos hbounds, Nat.zero_add]
      rfl
    rw [Table.search, hindex] at hsearch
    refine .inr ⟨?_, hnone⟩
    rw [Table.searchBeyond, hrounds, scanFrom_extend t k m.keys.card 0 _ hsearch, if_neg (by omega),
      hread, Option.map_some, if_pos (by rw [← hindex]; exact hstale.2), Nat.zero_add]

end Table.Holds

/-! ## All tables -/

structure State.Holds (s : State Win Comm Group Handle)
    (m : Maps Win Comm Group Handle windows comms groups epochs) : Prop where
  windows : s.windows.Holds m.windows
  comms : s.comms.Holds m.comms
  groups : s.groups.Holds m.groups
  epochs : s.epochs.Holds m.epochs
  references : Referenced m.groups
  initialized : s.commInitialized = true

def Refines (setting : Setting Comm Handle) (s : State Win Comm Group Handle)
    (m : Maps Win Comm Group Handle windows comms groups epochs) (call : Call Win Comm Group Handle) : Prop :=
  ∃ answer s', call.step setting s = some (answer, s') ∧ answer.Meets (m.step setting call).1 ∧
    s'.Holds (m.step setting call).2

variable {setting : Setting Comm Handle} {s : State Win Comm Group Handle}
  {m : Maps Win Comm Group Handle windows comms groups epochs}

theorem commHandle_spec (setting : Setting Comm Handle) (h : s.Holds m) {comm : Comm} (hcomm : comm ≠ setting.commWorld) :
    ∃ answer, commHandle setting comm s = some (answer, s) ∧
      answer.Meets ⟨(get m.comms comm .noComm).1, (get m.comms comm .noComm).2⟩ := by
  have hlast := h.comms.last_eq
  rcases h.comms.search_cases comm with ⟨i, hi, hsearch, hk, hlookup⟩ | ⟨hsearch, hnone⟩
  · have hne : (i : ℤ) ≠ s.comms.last := by omega
    refine ⟨⟨some (s.comms.slots i).2, []⟩, ?_, ?_⟩
    · simp [commHandle, hsearch, hne, h.comms.read_eq hi]
    · simp [Answer.Meets, get, hlookup]
  · have heq : ((m.comms.keys.card : ℕ) : ℤ) = s.comms.last := hlast.symm
    by_cases hnull : comm = setting.commNull
    · refine ⟨⟨some setting.invalidCommunicator, [.error .noComm nullCommText]⟩, ?_, ?_⟩
      · simp only [commHandle, hsearch, Option.bind_eq_bind, Option.bind_some, heq, ne_eq,
          not_true_eq_false, ↓reduceIte, hcomm]
        rw [if_pos hnull]
      · simp [Answer.Meets, get, hnone, Report.code]
    · refine ⟨⟨some setting.invalidCommunicator, [.error .noComm usedCommText]⟩, ?_, ?_⟩
      · simp only [commHandle, hsearch, Option.bind_eq_bind, Option.bind_some, heq, ne_eq,
          not_true_eq_false, ↓reduceIte, hcomm, hnull]
      · simp [Answer.Meets, get, hnone, Report.code]

theorem mpiCommHandle_spec (setting : Setting Comm Handle) (h : s.Holds m) (comm : Comm) :
    ∃ answer, mpiCommHandle setting comm s = some (answer, s) ∧
      answer.reports.filterMap Report.code = (m.comm setting comm).2 := by
  unfold mpiCommHandle Maps.comm
  by_cases hworld : comm = setting.commWorld
  · exact ⟨⟨some setting.worldHandle, []⟩, by rw [if_pos hworld], by rw [if_pos hworld]; rfl⟩
  · rcases commHandle_spec setting h hworld with ⟨answer, hcall, hmeets, -⟩
    exact ⟨answer, by rw [if_neg hworld, hcall], by rw [if_neg hworld]; exact hmeets⟩

theorem groupHandle_spec (setting : Setting Comm Handle) (h : s.Holds m) (group : Group) :
    ∃ answer, groupHandle setting group s = some (answer, s) ∧
      answer.Meets ⟨(m.group group).1, (m.group group).2⟩ ∧
      answer.value.getD setting.invalidGroup = (m.group group).1.getD setting.invalidGroup := by
  have hlast := h.groups.last_eq
  rcases h.groups.search_cases group with ⟨i, hi, hsearch, hk, hlookup⟩ | ⟨hsearch, hnone⟩
  · have hne : (i : ℤ) ≠ s.groups.last := by omega
    refine ⟨⟨some (s.groups.slots i).2.1, []⟩, ?_, ?_, ?_⟩
    · simp [groupHandle, hsearch, hne, h.groups.read_eq hi]
    · simp [Answer.Meets, Maps.group, get, hlookup]
    · simp [Maps.group, get, hlookup]
  · refine ⟨⟨some setting.invalidGroup, [.error .noGroup ""]⟩, ?_, ?_, ?_⟩
    · simp [groupHandle, hsearch, hlast]
    · simp [Answer.Meets, Maps.group, get, hnone, Report.code]
    · simp [Maps.group, get, hnone]

theorem groupSearch_cases (h : s.Holds m) (group : Group) :
    (∃ i < m.groups.keys.card, groupSearch group s = some (some i) ∧ (s.groups.slots i).1 = group ∧
      m.groups.lookup group = some (s.groups.slots i).2) ∨
    groupSearch group s = some none ∧ m.groups.lookup group = none := by
  have hlast := h.groups.last_eq
  rcases h.groups.search_cases group with ⟨i, hi, hsearch, hk, hlookup⟩ | ⟨hsearch, hnone⟩
  · have hne : (i : ℤ) ≠ s.groups.last := by omega
    exact .inl ⟨i, hi, by simp [groupSearch, hsearch, hne], hk, hlookup⟩
  · exact .inr ⟨by simp [groupSearch, hsearch, hlast], hnone⟩

theorem winCreate_refines (h : s.Holds m) (win : Win) (comm : Comm) (handle : Handle)
    (hsound : Sound setting s (.winCreate win comm handle)) :
    Refines setting s m (.winCreate win comm handle) := by
  rcases mpiCommHandle_spec setting h comm with ⟨answer, hcomm, hreports⟩
  rcases h.windows.enter_spec hsound.1 hsound.2 handle .tooManyWindows with
    ⟨t, henter, herrors, hholds⟩
  have hnotFull : s.windows.isFull = false := by
    have hlt := hsound.1.1
    have hcapacity := h.windows.capacity_eq
    have hlast := h.windows.last_eq
    rw [Bool.eq_false_iff, ne_eq, h.windows.isFull_iff]
    omega
  refine ⟨⟨some handle, answer.reports⟩, { s with windows := t }, ?_, ⟨?_, ?_⟩, ?_⟩
  · simp [Call.step, winCreate, hnotFull, hcomm, henter]
  · simp [Maps.step, herrors, hreports]
  · simp [Maps.step, herrors]
  · exact ⟨hholds, h.comms, h.groups, h.epochs, h.references, h.initialized⟩

theorem winFree_refines (h : s.Holds m) (win : Win) (hsound : Sound setting s (.winFree win)) :
    Refines setting s m (.winFree win) := by
  rcases h.windows.free_spec hsound (.error .noWindow "") (.error .noWindow "") rfl rfl with ⟨t, reports, hfree, hreports, hholds⟩
  refine ⟨⟨none, reports⟩, { s with windows := t }, ?_, ⟨hreports, ?_⟩, ?_⟩
  · simp [Call.step, winFree, hfree]
  · simp [Maps.step]
  · exact ⟨hholds, h.comms, h.groups, h.epochs, h.references, h.initialized⟩

theorem winHandle_refines (h : s.Holds m) (win : Win) : Refines setting s m (.winHandle win) := by
  have hlast := h.windows.last_eq
  rcases h.windows.search_cases win with ⟨i, hi, hsearch, hk, hlookup⟩ | ⟨hsearch, hnone⟩
  · have hne : (i : ℤ) ≠ s.windows.last := by omega
    refine ⟨⟨some (s.windows.slots i).2, []⟩, s, ?_, ?_, h⟩
    · simp [Call.step, winHandle, hsearch, hne, h.windows.read_eq hi]
    · simp [Maps.step, Answer.Meets, get, hlookup]
  · refine ⟨⟨some setting.invalidWindow, [.error .noWindow usedWindowText]⟩, s, ?_, ?_, h⟩
    · simp [Call.step, winHandle, hsearch, hlast]
    · simp [Maps.step, Answer.Meets, get, hnone, Report.code]

theorem commCreate_refines (h : s.Holds m) (comm : Comm) (handle : Handle)
    (hsound : Sound setting s (.commCreate comm handle)) : Refines setting s m (.commCreate comm handle) := by
  have hcapacity := h.comms.capacity_eq
  have hlast := h.comms.last_eq
  cases hfull : s.comms.isFull with
  | true =>
    have hcard := h.comms.isFull_iff.mp hfull
    refine ⟨⟨some setting.invalidCommunicator, [.error .tooManyComms
      "Hint: Increase SCOREP_MPI_MAX_COMMUNICATORS configuration variable"]⟩, s, ?_, ?_, ?_⟩
    · simp [Call.step, commCreateFinalize, hfull]
    · simp [Maps.step, Answer.Meets, add, hcard, Report.code]
    · have hadd : (add m.comms comm handle .tooManyComms).1 = m.comms := by simp [add, hcard]
      refine ⟨h.windows, ?_, h.groups, h.epochs, h.references, h.initialized⟩
      simpa [Maps.step, hadd] using h.comms
  | false =>
    have hroom : s.comms.HasRoom ∧ ¬ s.comms.Tracks comm := by
      rcases hsound with hend | hroom
      · have hcard : m.comms.keys.card = comms := by omega
        rw [h.comms.isFull_iff.mpr hcard] at hfull
        cases hfull
      · exact hroom
    rcases h.comms.enter_spec hroom.1 hroom.2 handle .tooManyComms with
      ⟨t, henter, herrors, hholds⟩
    refine ⟨⟨some handle, []⟩, { s with comms := t }, ?_, ⟨?_, ?_⟩, ?_⟩
    · simp [Call.step, commCreateFinalize, hfull, henter]
    · simp [Maps.step, herrors]
    · simp [Maps.step, herrors]
    · exact ⟨h.windows, hholds, h.groups, h.epochs, h.references, h.initialized⟩

theorem commFree_refines (h : s.Holds m) (comm : Comm) (hsound : Sound setting s (.commFree comm)) :
    Refines setting s m (.commFree comm) := by
  rcases h.comms.free_spec hsound (.error .noComm ("scorep_mpi_comm_free1 " ++ freedCommText))
    (.error .noComm ("scorep_mpi_comm_free2 " ++ freedCommText)) rfl rfl with
    ⟨t, reports, hfree, hreports, hholds⟩
  refine ⟨⟨none, reports⟩, { s with comms := t }, ?_, ⟨hreports, ?_⟩, ?_⟩
  · simp only [Call.step, commFree, h.initialized, hfree]
    rfl
  · simp [Maps.step]
  · exact ⟨h.windows, hholds, h.groups, h.epochs, h.references, h.initialized⟩

theorem commHandle_refines (h : s.Holds m) (comm : Comm) (hsound : Sound setting s (.commHandle comm)) :
    Refines setting s m (.commHandle comm) := by
  by_cases hworld : comm = setting.commWorld
  · have htracks : s.comms.Tracks comm := by
      rcases hsound with htracks | hne
      · exact htracks
      · exact absurd hworld hne
    have hlast := h.comms.last_eq
    rcases h.comms.search_cases comm with ⟨i, hi, hsearch, hk, hlookup⟩ | ⟨hsearch, hnone⟩
    · have hne : (i : ℤ) ≠ s.comms.last := by omega
      refine ⟨⟨some (s.comms.slots i).2, []⟩, s, ?_, ?_, h⟩
      · simp [Call.step, commHandle, hsearch, hne, h.comms.read_eq hi]
      · simp [Maps.step, Answer.Meets, get, hlookup]
    · exact absurd (h.comms.tracks_iff.mp htracks) (BoundedMap.lookup_eq_none.mp hnone)
  · rcases commHandle_spec setting h hworld with ⟨answer, hcall, hmeets⟩
    exact ⟨answer, s, hcall, hmeets, h⟩

theorem groupCreate_refines (h : s.Holds m) (group : Group) (handle : Handle)
    (hsound : Sound setting s (.groupCreate group handle)) :
    Refines setting s m (.groupCreate group handle) := by
  have hcapacity := h.groups.capacity_eq
  have hlast := h.groups.last_eq
  rcases groupSearch_cases h group with ⟨i, hi, hsearch, hk, hlookup⟩ | ⟨hsearch, hnone⟩
  · -- one more reference
    have hmem := BoundedMap.mem_of_lookup hlookup
    have hmax := hsound.1 i (by omega) hk
    have hincrement : increment (s.groups.slots i).2.2 = some ((s.groups.slots i).2.2 + 1) := by
      rw [increment, if_pos hmax]
    have hreference := reference_some hlookup handle .tooManyGroups
    have hwrite := h.groups.write_eq hi (group, ((s.groups.slots i).2.1, (s.groups.slots i).2.2 + 1))
    have hone := h.references _ _ hlookup
    let slots := update s.groups.slots i
      (group, ((s.groups.slots i).2.1, (s.groups.slots i).2.2 + 1))
    refine ⟨⟨none, []⟩, { s with groups := { s.groups with slots := slots } }, ?_, ⟨?_, ?_⟩, ?_⟩
    · simp [Call.step, groupCreate, h.initialized, hsearch, h.groups.read_eq hi, hincrement, hk, hwrite,
        slots]
    · simp [Maps.step, hreference]
    · simp [Maps.step]
    · simp only [Maps.step, hreference]
      refine ⟨h.windows, h.comms, h.groups.update hi hk _ hmem, h.epochs, ?_, h.initialized⟩
      exact h.references.insert (show 1 ≤ (s.groups.slots i).2.2 + 1 by omega) (.inl hmem)
  · have hreference := reference_none hnone handle .tooManyGroups
    have hnew : ¬ s.groups.Tracks group := by
      rw [h.groups.tracks_iff]
      exact BoundedMap.lookup_eq_none.mp hnone
    cases hfull : s.groups.isFull with
    | true =>
      have hcard := h.groups.isFull_iff.mp hfull
      have hadd : add m.groups group (handle, 1) .tooManyGroups = (m.groups, [.tooManyGroups]) := by
        simp [add, hcard]
      refine ⟨⟨none, [.error .tooManyGroups
        "Hint: Increase SCOREP_MPI_MAX_GROUPS configuration variable."]⟩, s, ?_, ⟨?_, ?_⟩, ?_⟩
      · simp [Call.step, groupCreate, h.initialized, hsearch, hfull]
      · simp [Maps.step, hreference, hadd, Report.code]
      · simp [Maps.step]
      · simpa [Maps.step, hreference, hadd] using h
    | false =>
      have hroom : s.groups.HasRoom := by
        rcases hsound.2 with htracks | hend | hroom
        · exact absurd htracks hnew
        · have hcard : m.groups.keys.card = groups := by omega
          rw [h.groups.isFull_iff.mpr hcard] at hfull
          cases hfull
        · exact hroom
      rcases h.groups.enter_spec hroom hnew (handle, 1) .tooManyGroups with
        ⟨t, henter, herrors, hholds⟩
      refine ⟨⟨none, []⟩, { s with groups := t }, ?_, ⟨?_, ?_⟩, ?_⟩
      · simp [Call.step, groupCreate, h.initialized, hsearch, hfull, henter]
      · simp [Maps.step, hreference, herrors]
      · simp [Maps.step]
      · simp only [Maps.step, hreference]
        refine ⟨h.windows, h.comms, hholds, h.epochs, ?_, h.initialized⟩
        unfold add
        split
        · rename_i hspace
          exact h.references.insert le_rfl (.inr hspace)
        · exact h.references

theorem groupFree_entry (h : s.Holds m) {group : Group} {i : ℕ} {handle : Handle} {refcnt : ℤ}
    (hi : i < m.groups.keys.card) (hslot : s.groups.slots i = (group, (handle, refcnt)))
    (hsearch : groupSearch group s = some (some i)) : Refines setting s m (.groupFree group) := by
  have hlast := h.groups.last_eq
  have honly := h.groups.onlyHas_eq group
  have hk : (s.groups.slots i).1 = group := by rw [hslot]
  have hlookup : m.groups.lookup group = some (handle, refcnt) := by
    rw [h.groups.slots.lookup_of_key hi hk, hslot]
  have hmem := BoundedMap.mem_of_lookup hlookup
  have hrefs : 1 ≤ refcnt := h.references _ _ hlookup
  have hspec := dereference_some hlookup .noGroup
  have hread : s.groups.read i = some (group, (handle, refcnt)) := by rw [h.groups.read_eq hi, hslot]
  obtain ⟨left, hleft⟩ : ∃ left, left = refcnt - 1 := ⟨_, rfl⟩
  rw [← hleft] at hspec
  have hdecrement : decrement refcnt = some left := by
    rw [decrement, if_pos (by omega), hleft]
  have hupdated := h.groups.update hi hk (handle, left) hmem
  have hwrite := h.groups.write_eq hi (group, (handle, left))
  have hcard : (m.groups.insert group (handle, left) (.inl hmem)).keys.card = m.groups.keys.card := by
    rw [BoundedMap.keys_insert, Finset.insert_eq_of_mem hmem]
  generalize hgroups' : { s.groups with
    slots := update s.groups.slots i (group, (handle, left)) } = groups' at hupdated hwrite
  have hkey : (groups'.slots i).1 = group := by simp [← hgroups']
  have hlastGoes := hupdated.decrement_eq
  have hlast' : groups'.last = s.groups.last := by rw [← hgroups']
  by_cases hone : m.groups.keys.card = 1 ∧ (s.groups.slots 0).1 = group
  · -- the only entry is at 0
    have hzero : i = 0 := by omega
    subst hzero
    rw [decide_eq_true hone] at honly
    have hreadZero : s.groups.read (0 : ℤ) = some (group, (handle, refcnt)) := hread
    have hwriteZero : s.groups.write (0 : ℤ) (group, (handle, left)) = some groups' := hwrite
    by_cases hnone : left = 0
    · have hlastReference : refcnt = 1 := by omega
      have hcleared := hupdated.clear (by omega) hkey
      rw [BoundedMap.erase_insert] at hcleared
      rw [show groups'.last - 1 = 0 by omega] at hlastGoes
      refine ⟨⟨none, []⟩, { s with groups := { groups' with last := 0 } }, ?_, ⟨?_, ?_⟩, ?_⟩
      · subst hnone
        simp [Call.step, groupFree, h.initialized, honly, hreadZero, hdecrement, hwriteZero, hlastGoes]
      · simp [Maps.step, hspec, hlastReference]
      · simp [Maps.step]
      · simp only [Maps.step, hspec, hlastReference, ↓reduceIte]
        exact ⟨h.windows, h.comms, hcleared, h.epochs, h.references.erase group, h.initialized⟩
    · have hlastReference : refcnt ≠ 1 := by omega
      refine ⟨⟨none, []⟩, { s with groups := groups' }, ?_, ⟨?_, ?_⟩, ?_⟩
      · simp [Call.step, groupFree, h.initialized, honly, hreadZero, hdecrement, hwriteZero, hnone]
      · simp [Maps.step, hspec, hlastReference]
      · simp [Maps.step]
      · simp only [Maps.step, hspec, hlastReference, ↓reduceIte]
        exact ⟨h.windows, h.comms, hupdated, h.epochs,
          h.references.insert (show 1 ≤ left by omega) (.inl hmem), h.initialized⟩
  · have hmany : 1 < s.groups.last := by
      by_contra hle
      have hzero : i = 0 := by omega
      subst hzero
      exact hone ⟨by omega, hk⟩
    rw [decide_eq_false hone] at honly
    by_cases hnone : left = 0
    · have hlastReference : refcnt = 1 := by omega
      have hmoved := hupdated.swapRemove (i := i) (by omega) hkey
      have hreadLast := hupdated.read_last (by omega)
      have hwriteLast := hupdated.write_eq (i := i) (by omega) (groups'.slots (m.groups.keys.card - 1))
      rw [BoundedMap.erase_insert, hcard] at hmoved
      rw [hcard] at hreadLast
      refine ⟨⟨none, []⟩, { s with groups := { groups' with
        slots := update groups'.slots i (groups'.slots (m.groups.keys.card - 1)),
        last := groups'.last - 1 } }, ?_, ⟨?_, ?_⟩, ?_⟩
      · subst hnone
        simp [Call.step, groupFree, h.initialized, honly, hmany, hsearch, hread, hdecrement, hwrite,
          hlastGoes, hreadLast, hwriteLast]
      · simp [Maps.step, hspec, hlastReference]
      · simp [Maps.step]
      · simp only [Maps.step, hspec, hlastReference, ↓reduceIte]
        exact ⟨h.windows, h.comms, hmoved, h.epochs, h.references.erase group, h.initialized⟩
    · have hlastReference : refcnt ≠ 1 := by omega
      refine ⟨⟨none, []⟩, { s with groups := groups' }, ?_, ⟨?_, ?_⟩, ?_⟩
      · simp [Call.step, groupFree, h.initialized, honly, hmany, hsearch, hread, hdecrement, hwrite, hnone]
      · simp [Maps.step, hspec, hlastReference]
      · simp [Maps.step]
      · simp only [Maps.step, hspec, hlastReference, ↓reduceIte]
        exact ⟨h.windows, h.comms, hupdated, h.epochs,
          h.references.insert (show 1 ≤ left by omega) (.inl hmem), h.initialized⟩

theorem groupFree_refines (h : s.Holds m) (group : Group) : Refines setting s m (.groupFree group) := by
  rcases groupSearch_cases h group with ⟨i, hi, hsearch, hk, hlookup⟩ | ⟨hsearch, hnone⟩
  · exact groupFree_entry h hi (by rw [← hk]) hsearch
  · have hnot : ¬ (m.groups.keys.card = 1 ∧ (s.groups.slots 0).1 = group) := by
      rintro ⟨hone, hk⟩
      exact BoundedMap.lookup_eq_none.mp hnone (h.groups.mem_keys_iff.mpr ⟨0, by omega, hk⟩)
    have honly := h.groups.onlyHas_eq group
    rw [decide_eq_false hnot] at honly
    have hdereference := dereference_none hnone .noGroup
    refine ⟨⟨none, [.error .noGroup ""]⟩, s, ?_, ⟨?_, ?_⟩, ?_⟩
    · by_cases hmany : 1 < s.groups.last
      · simp [Call.step, groupFree, h.initialized, honly, hmany, hsearch]
      · simp [Call.step, groupFree, h.initialized, honly, hmany]
    · simp [Maps.step, hdereference, Report.code]
    · simp [Maps.step]
    · simpa [Maps.step, hdereference] using h

theorem epochStart_refines (h : s.Holds m) (win : Win) (group : Group) (epochType : EpochType)
    (hsound : Sound setting s (.epochStart win group epochType)) :
    Refines setting s m (.epochStart win group epochType) := by
  rcases groupHandle_spec setting h group with ⟨answer, hgroup, hmeets, hvalue⟩
  rcases h.epochs.enter_spec hsound.1 hsound.2 ((m.group group).1.getD setting.invalidGroup)
    .tooManyEpochs with ⟨t, henter, herrors, hholds⟩
  have hnotFull : s.epochs.isFull = false := by
    have hlt := hsound.1.1
    have hcapacity := h.epochs.capacity_eq
    have hlast := h.epochs.last_eq
    rw [Bool.eq_false_iff, ne_eq, h.epochs.isFull_iff]
    omega
  refine ⟨⟨none, answer.reports⟩, { s with epochs := t }, ?_, ⟨?_, ?_⟩, ?_⟩
  · simp [Call.step, epochStart, hnotFull, hgroup, hvalue, henter]
  · simp [Maps.step, herrors, hmeets.1]
  · simp [Maps.step]
  · exact ⟨h.windows, h.comms, h.groups, hholds, h.references, h.initialized⟩

theorem epochEnd_refines (h : s.Holds m) (win : Win) (epochType : EpochType)
    (hsound : Sound setting s (.epochEnd win epochType)) : Refines setting s m (.epochEnd win epochType) := by
  have hlast := h.epochs.last_eq
  have honly := h.epochs.onlyHas_eq (win, epochType)
  have hgoes := h.epochs.decrement_eq
  by_cases hone : m.epochs.keys.card = 1 ∧ (s.epochs.slots 0).1 = (win, epochType)
  · have hmem : (win, epochType) ∈ m.epochs.keys := h.epochs.mem_keys_iff.mpr ⟨0, by omega, hone.2⟩
    rw [decide_eq_true hone] at honly
    rw [show s.epochs.last - 1 = 0 by omega] at hgoes
    refine ⟨⟨none, []⟩, { s with epochs := { s.epochs with last := 0 } }, ?_, ⟨?_, ?_⟩, ?_⟩
    · simp [Call.step, epochEnd, honly, hgoes]
    · simp [Maps.step, remove, hmem]
    · simp [Maps.step]
    · refine ⟨h.windows, h.comms, h.groups, ?_, h.references, h.initialized⟩
      simpa [Maps.step, remove, hmem] using h.epochs.clear hone.1 hone.2
  · rw [decide_eq_false hone] at honly
    rcases h.epochs.searchBeyond_cases hsound with ⟨i, hi, hsearch, hk, hlookup⟩ | ⟨hsearch, hnone⟩
    · have hmem := BoundedMap.mem_of_lookup hlookup
      have hne : (i : ℤ) ≠ s.epochs.last := by omega
      have hreadLast := h.epochs.read_last (by omega)
      have hwrite := h.epochs.write_eq hi (s.epochs.slots (m.epochs.keys.card - 1))
      refine ⟨⟨none, []⟩, { s with epochs := { s.epochs with
        slots := update s.epochs.slots i (s.epochs.slots (m.epochs.keys.card - 1)),
        last := s.epochs.last - 1 } }, ?_, ⟨?_, ?_⟩, ?_⟩
      · simp [Call.step, epochEnd, honly, hsearch, hne, hgoes, hreadLast, hwrite]
      · simp [Maps.step, remove, hmem]
      · simp [Maps.step]
      · refine ⟨h.windows, h.comms, h.groups, ?_, h.references, h.initialized⟩
        simpa [Maps.step, remove, hmem] using h.epochs.swapRemove hi hk
    · have hmem := BoundedMap.lookup_eq_none.mp hnone
      refine ⟨⟨none, [.error .noEpoch ""]⟩, s, ?_, ⟨?_, ?_⟩, ?_⟩
      · simp [Call.step, epochEnd, honly, hsearch, hlast]
      · simp [Maps.step, remove, hmem, Report.code]
      · simp [Maps.step]
      · simpa [Maps.step, remove, hmem] using h

theorem epochGetGroupHandle_refines (h : s.Holds m) (win : Win) (epochType : EpochType)
    (hsound : Sound setting s (.epochGetGroupHandle win epochType)) :
    Refines setting s m (.epochGetGroupHandle win epochType) := by
  have hlast := h.epochs.last_eq
  rcases h.epochs.searchBeyond_cases hsound with ⟨i, hi, hsearch, hk, hlookup⟩ | ⟨hsearch, hnone⟩
  · have hne : (i : ℤ) ≠ s.epochs.last := by omega
    refine ⟨⟨some (s.epochs.slots i).2, []⟩, s, ?_, ?_, h⟩
    · simp [Call.step, epochGetGroupHandle, hsearch, hne, h.epochs.read_eq hi]
    · simp [Maps.step, Answer.Meets, get, hlookup]
  · refine ⟨⟨some setting.invalidGroup, [.error .noEpoch ""]⟩, s, ?_, ?_, h⟩
    · simp [Call.step, epochGetGroupHandle, hsearch, hlast]
    · simp [Maps.step, Answer.Meets, get, hnone, Report.code]

theorem groupHandle_refines (h : s.Holds m) (group : Group) : Refines setting s m (.groupHandle group) := by
  rcases groupHandle_spec setting h group with ⟨answer, hcall, hmeets, -⟩
  exact ⟨answer, s, hcall, hmeets, h⟩

theorem step_refines (h : s.Holds m) (call : Call Win Comm Group Handle)
    (hsound : Sound setting s call) : Refines setting s m call := by
  cases call with
  | winCreate win comm handle => exact winCreate_refines h win comm handle hsound
  | winFree win => exact winFree_refines h win hsound
  | winHandle win => exact winHandle_refines h win
  | commCreate comm handle => exact commCreate_refines h comm handle hsound
  | commFree comm => exact commFree_refines h comm hsound
  | commHandle comm => exact commHandle_refines h comm hsound
  | groupCreate group handle => exact groupCreate_refines h group handle hsound
  | groupFree group => exact groupFree_refines h group
  | groupHandle group => exact groupHandle_refines h group
  | epochStart win group epochType => exact epochStart_refines h win group epochType hsound
  | epochEnd win epochType => exact epochEnd_refines h win epochType hsound
  | epochGetGroupHandle win epochType => exact epochGetGroupHandle_refines h win epochType hsound

theorem run_of_holds (calls : List (Call Win Comm Group Handle)) (h : s.Holds m)
    (hsound : AllSound setting calls s) : ∃ answers s', run setting calls s = some (answers, s') ∧
      List.Forall₂ Answer.Meets answers (Maps.run setting calls m).1 ∧
      s'.Holds (Maps.run setting calls m).2 := by
  induction calls generalizing s m with
  | nil => exact ⟨[], s, rfl, .nil, h⟩
  | cons call calls ih =>
    rcases step_refines h call hsound.1 with ⟨answer, s1, hstep, hmeets, hholds⟩
    rcases ih hholds (hsound.2 answer s1 hstep) with ⟨answers, s', hrun, hall, hend⟩
    refine ⟨answer :: answers, s', ?_, .cons hmeets hall, hend⟩
    simp [run, hstep, hrun]

theorem Table.holds_empty {K V : Type} (t : Table K V) :
    Table.Holds { t with last := 0 } (BoundedMap.empty : BoundedMap K V t.capacity) :=
  ⟨rfl, rfl, show (0 : ℤ) ≤ 2147483647 by decide, Represents.empty _⟩

def Table.InBounds {K V : Type} (t : Table K V) : Prop :=
  0 ≤ t.last ∧ t.last ≤ t.capacity

theorem Table.Holds.inBounds {K V : Type} {capacity : ℕ} {t : Table K V} {m : BoundedMap K V capacity}
    (h : t.Holds m) : t.InBounds := by
  have hle := m.card_le
  have hlast := h.last_eq
  have hcapacity := h.capacity_eq
  unfold Table.InBounds
  omega

def Behaves (setting : Setting Comm Handle) (windows : Table Win Handle) (comms : Table Comm Handle)
    (groups : Table Group (Handle × ℤ)) (epochs : Table (Win × EpochType) Handle)
    (calls : List (Call Win Comm Group Handle)) : Prop :=
  ∃ answers s', run setting calls (start windows comms groups epochs) = some (answers, s') ∧
    let spec := Maps.run setting calls (Maps.empty : Maps Win Comm Group Handle windows.capacity
      comms.capacity groups.capacity epochs.capacity)
    List.Forall₂ Answer.Meets answers spec.1 ∧ s'.Holds spec.2 ∧
      s'.windows.InBounds ∧ s'.comms.InBounds ∧ s'.groups.InBounds ∧ s'.epochs.InBounds

/-- The tables of every run in which all calls meet their condition are bounded maps. -/
theorem behaves_of_allSound (setting : Setting Comm Handle) (windows : Table Win Handle)
    (comms : Table Comm Handle) (groups : Table Group (Handle × ℤ))
    (epochs : Table (Win × EpochType) Handle) (calls : List (Call Win Comm Group Handle))
    (hsound : AllSound setting calls (start windows comms groups epochs)) :
    Behaves setting windows comms groups epochs calls := by
  have hstart : (start windows comms groups epochs).Holds (Maps.empty : Maps Win Comm Group Handle
      windows.capacity comms.capacity groups.capacity epochs.capacity) :=
    ⟨windows.holds_empty, comms.holds_empty, groups.holds_empty, epochs.holds_empty,
      (fun _ _ h => nomatch h), rfl⟩
  rcases run_of_holds calls hstart hsound with ⟨answers, s', hrun, hall, hholds⟩
  exact ⟨answers, s', hrun, hall, hholds, hholds.windows.inBounds, hholds.comms.inBounds,
    hholds.groups.inBounds, hholds.epochs.inBounds⟩

def twoSlots (K V : Type) [Inhabited K] [Inhabited V] : Table K V :=
  ⟨2, fun _ => (default, default), 0⟩

instance : Inhabited EpochType := ⟨.access⟩

def smallSetting : Setting ℕ ℕ := ⟨0, 1, 50, 0, 0, 0⟩

theorem behaves_window : Behaves smallSetting (twoSlots ℕ ℕ) (twoSlots ℕ ℕ) (twoSlots ℕ (ℕ × ℤ))
    (twoSlots (ℕ × EpochType) ℕ) ([.winCreate 7 0 100, .winHandle 7] : List (Call ℕ ℕ ℕ ℕ)) := by
  apply behaves_of_allSound
  have hroom : (start (twoSlots ℕ ℕ) (twoSlots ℕ ℕ) (twoSlots ℕ (ℕ × ℤ))
      (twoSlots (ℕ × EpochType) ℕ) : State ℕ ℕ ℕ ℕ).windows.HasRoom :=
    ⟨show (0 : ℤ) < 2 by decide, show (0 : ℤ) < 2147483647 by decide⟩
  refine ⟨⟨hroom, ?_⟩, fun answer s' _ => ⟨trivial, fun _ _ _ => trivial⟩⟩
  rintro ⟨i, hi, -⟩
  change (i : ℤ) < 0 at hi
  omega

/-- The free of a window that was never created drops the last one of two. -/
theorem not_behaves_free : ¬ ∀ (windows : Table ℕ ℕ) (comms : Table ℕ ℕ) (groups : Table ℕ (ℕ × ℤ))
      (epochs : Table (ℕ × EpochType) ℕ) (calls : List (Call ℕ ℕ ℕ ℕ)),
      Behaves smallSetting windows comms groups epochs calls := by
  intro h
  rcases h (twoSlots ℕ ℕ) (twoSlots ℕ ℕ) (twoSlots ℕ (ℕ × ℤ)) (twoSlots (ℕ × EpochType) ℕ)
    [.winCreate 7 0 100, .winCreate 8 0 101, .winFree 9] with ⟨answers, s', hrun, -, hholds, -⟩
  cases hrun
  have hlast := hholds.windows.last_eq
  exact absurd hlast (by decide)

end ScoreP.Mpi
