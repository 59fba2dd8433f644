import ScoreP.Foundations.Chain
import ScoreP.Foundations.Holdings

/-!
# Chains addressed by references

Several chains lie in one heap: `root i` points to the first node of the chain `i`, and `next a` to the node
behind `a`. A reference is the place of one of these pointers. A search walks from reference to reference and
ends at the place of the pointer to the node it looked for, or of the null pointer (`find_spec`). Through
the reference the node is unlinked (`Holds.unlink`); a node is put in front of a chain at its root
(`Holds.pushFront`). All other places keep their pointers.
-/

namespace Foundations

open Function List

universe u v

inductive Ref (ι : Type u) (α : Type v) where
  | root (i : ι)
  | next (a : α)
deriving DecidableEq

structure Links (ι : Type u) (α : Type v) where
  root : ι → Option α
  next : α → Option α

namespace Links

variable {ι : Type u} {α : Type v} (m : Links ι α)

def read : Ref ι α → Option α
  | .root i => m.root i
  | .next a => m.next a

/-- The search ends where `found` accepts the node or there is none, `fuel` bounds the length of the walk. -/
def find (found : α → Bool) : ℕ → Ref ι α → Option (Ref ι α)
  | 0, _ => none
  | fuel + 1, ref =>
    match m.read ref with
    | none => some ref
    | some a => if found a then some ref else find found fuel (.next a)

variable [DecidableEq ι] [DecidableEq α]

def write : Ref ι α → Option α → Links ι α
  | .root i, p => { m with root := update m.root i p }
  | .next a, p => { m with next := update m.next a p }

def unlink (ref : Ref ι α) (a : α) : Links ι α :=
  (m.write ref (m.next a)).write (.next a) none

def pushFront (i : ι) (a : α) : Links ι α :=
  (m.write (.next a) (m.root i)).write (.root i) (some a)

variable {m}

@[simp] theorem read_write (ref : Ref ι α) {p : Option α} : (m.write ref p).read ref = p := by
  cases ref with
  | root i => simp only [read, write, update_self]
  | next a => simp only [read, write, update_self]

theorem read_write_of_ne {ref ref' : Ref ι α} {p : Option α} (h : ref' ≠ ref) :
    (m.write ref p).read ref' = m.read ref' := by
  cases ref with
  | root i =>
    cases ref' with
    | root j =>
      have hne : j ≠ i := fun heq => h (congrArg Ref.root heq)
      simp only [read, write, update_of_ne hne]
    | next b => rfl
  | next a =>
    cases ref' with
    | root j => rfl
    | next b =>
      have hne : b ≠ a := fun heq => h (congrArg Ref.next heq)
      simp only [read, write, update_of_ne hne]

theorem read_unlink (ref' : Ref ι α) {ref : Ref ι α} {a : α} (href : ref' ≠ ref) (hnext : ref' ≠ .next a) :
    (m.unlink ref a).read ref' = m.read ref' := by
  rw [unlink, read_write_of_ne hnext, read_write_of_ne href]

theorem read_pushFront (ref : Ref ι α) {i : ι} {a : α} (hroot : ref ≠ .root i) (hnext : ref ≠ .next a) :
    (m.pushFront i a).read ref = m.read ref := by
  rw [pushFront, read_write_of_ne hroot, read_write_of_ne hnext]

omit [DecidableEq ι] [DecidableEq α] in
theorem find_spec {found : α → Bool} {as : List α} {fuel : ℕ} {ref : Ref ι α}
    (h : Chain m.next (m.read ref) as) (hfuel : as.length < fuel) :
    ∃ ref', m.find found fuel ref = some ref' ∧ m.read ref' = as.find? found ∧
      (ref' = ref ∨ ∃ a ∈ as, ref' = .next a) := by
  induction as generalizing fuel ref with
  | nil =>
    obtain ⟨fuel, rfl⟩ := Nat.exists_eq_succ_of_ne_zero (Nat.ne_of_gt hfuel)
    rw [chain_nil] at h
    exact ⟨ref, by rw [find, h], h, Or.inl rfl⟩
  | cons a as ih =>
    obtain ⟨fuel, rfl⟩ := Nat.exists_eq_succ_of_ne_zero (Nat.ne_of_gt (Nat.lt_of_le_of_lt (Nat.zero_le _) hfuel))
    obtain ⟨hread, htail⟩ := chain_cons.1 h
    rw [find, hread]
    dsimp only
    by_cases hfound : found a = true
    · rw [if_pos hfound, find?_cons_of_pos hfound]
      exact ⟨ref, rfl, hread, Or.inl rfl⟩
    · rw [if_neg hfound, find?_cons_of_neg hfound]
      have htail' : Chain m.next (m.read (.next a)) as := htail
      obtain ⟨ref', hfind, hresult, hplace⟩ := ih htail' (Nat.lt_of_succ_lt_succ hfuel)
      refine ⟨ref', hfind, hresult, Or.inr ?_⟩
      rcases hplace with rfl | ⟨b, hb, rfl⟩
      · exact ⟨a, mem_cons_self, rfl⟩
      · exact ⟨b, mem_cons_of_mem a hb, rfl⟩

/-! ## Families of chains -/

structure Holds (m : Links ι α) (chains : ι → List α) : Prop where
  apart : Apart chains
  chain : ∀ i, Chain m.next (m.root i) (chains i)

variable {chains : ι → List α} {i : ι} {a d : α} {ref : Ref ι α}

theorem Holds.place (h : m.Holds chains) (href : ref = .root i ∨ ∃ a ∈ chains i, ref = .next a)
    (hread : m.read ref = some d) :
    (ref = .root i ∧ ∃ bs, chains i = d :: bs) ∨ ∃ as a bs, ref = .next a ∧ chains i = as ++ [a] ++ d :: bs := by
  have hchain := h.chain i
  rcases href with rfl | ⟨a, ha, rfl⟩
  · left
    rw [show m.root i = some d from hread] at hchain
    cases hlist : chains i with
    | nil =>
      rw [hlist, chain_nil] at hchain
      cases hchain
    | cons b bs =>
      rw [hlist] at hchain
      cases (chain_cons.1 hchain).1
      exact ⟨rfl, bs, rfl⟩
  · right
    obtain ⟨as, bs, hlist⟩ := append_of_mem ha
    rw [hlist] at hchain
    obtain ⟨p, -, -, htail⟩ := segment_append.1 hchain
    rw [show m.next a = some d from hread] at htail
    cases bs with
    | nil => cases htail
    | cons b bs =>
      cases htail.1
      exact ⟨as, a, bs, rfl, by rw [hlist, append_assoc]; rfl⟩

theorem Holds.unlink (h : m.Holds chains) (href : ref = .root i ∨ ∃ a ∈ chains i, ref = .next a)
    (hread : m.read ref = some d) : (m.unlink ref d).Holds (update chains i ((chains i).erase d)) ∧
      Unheld (update chains i ((chains i).erase d)) d := by
  have hnodup := h.apart.nodup i
  have hmem : d ∈ chains i := by
    rcases h.place href hread with ⟨-, bs, hlist⟩ | ⟨as, a, bs, -, hlist⟩
    · rw [hlist]
      exact mem_cons_self
    · rw [hlist]
      exact mem_append_right _ mem_cons_self
  obtain ⟨hapart, hunheld⟩ := h.apart.erase hmem
  refine ⟨⟨hapart, ?_⟩, hunheld⟩
  intro j
  by_cases hj : j = i
  · subst hj
    rw [update_self]
    rcases h.place href hread with ⟨rfl, bs, hlist⟩ | ⟨as, a, bs, rfl, hlist⟩
    · have hchain := h.chain j
      rw [hlist] at hchain hnodup ⊢
      rw [erase_cons_head]
      have hroot : (m.unlink (.root j) d).root j = m.next d := by
        change (m.unlink (.root j) d).read (.root j) = _
        rw [Links.unlink, read_write_of_ne (by simp), read_write]
      rw [hroot]
      apply (chain_cons.1 hchain).2.congr
      intro b hb
      have hne : b ≠ d := by
        rintro rfl
        exact hnodup.notMem hb
      exact read_unlink (m := m) (.next b) (by simp) (by simpa using hne)
    · have hchain := h.chain j
      rw [hlist] at hchain hnodup ⊢
      have hd : d ∉ as ++ [a] := by
        intro hmem'
        exact disjoint_of_nodup_append hnodup hmem' mem_cons_self
      have hda : a ≠ d := by
        rintro rfl
        exact hd (mem_append_right as mem_cons_self)
      rw [erase_append_right _ hd, erase_cons_head]
      have hroot : (m.unlink (.next a) d).root j = m.root j := rfl
      rw [hroot]
      apply hchain.remove
      · intro b hb
        have hbd : b ≠ d := by
          rintro rfl
          exact hd (mem_append_left [a] hb)
        have hba : b ≠ a := by
          rintro rfl
          rw [append_assoc, singleton_append] at hnodup
          exact disjoint_of_nodup_append hnodup hb mem_cons_self
        exact read_unlink (m := m) (.next b) (by simpa using hba) (by simpa using hbd)
      · change (m.unlink (.next a) d).read (.next a) = _
        rw [Links.unlink, read_write_of_ne (by simpa using hda), read_write]
      · intro b hb
        have hbd : b ≠ d := by
          rintro rfl
          exact ((nodup_append.1 hnodup).2.1).notMem hb
        have hba : b ≠ a := by
          rintro rfl
          exact disjoint_of_nodup_append hnodup (mem_append_right as mem_cons_self)
            (mem_cons_of_mem d hb)
        exact read_unlink (m := m) (.next b) (by simpa using hba) (by simpa using hbd)
  · rw [update_of_ne hj]
    have hroot : (m.unlink ref d).root j = m.root j := by
      apply read_unlink (.root j)
      · rcases href with rfl | ⟨a, -, rfl⟩
        · simpa using hj
        · simp
      · simp
    rw [hroot]
    apply (h.chain j).congr
    intro b hb
    apply read_unlink (.next b)
    · rcases href with rfl | ⟨a, ha, rfl⟩
      · simp
      · have hne : b ≠ a := by
          rintro rfl
          exact h.apart.notMem ha (fun heq => hj heq.symm) hb
        simpa using hne
    · have hne : b ≠ d := by
        rintro rfl
        exact h.apart.notMem hmem (fun heq => hj heq.symm) hb
      simpa using hne

theorem Holds.pushFront (h : m.Holds chains) (hd : Unheld chains d) :
    (m.pushFront i d).Holds (update chains i (d :: chains i)) := by
  have hnext : ∀ j, ∀ b ∈ chains j, (m.pushFront i d).next b = m.next b := by
    intro j b hb
    have hne : b ≠ d := by
      rintro rfl
      exact hd j hb
    exact read_pushFront (m := m) (.next b) (by simp) (by simpa using hne)
  refine ⟨h.apart.push hd, ?_⟩
  intro j
  by_cases hj : j = i
  · subst hj
    rw [update_self]
    refine chain_cons.2 ⟨?_, ?_⟩
    · exact read_write (m := m.write (.next d) (m.root j)) (.root j)
    · have hlink : (m.pushFront j d).next d = m.root j := by
        change (m.pushFront j d).read (.next d) = _
        rw [Links.pushFront, read_write_of_ne (by simp), read_write]
      rw [hlink]
      exact (h.chain j).congr (hnext j)
  · rw [update_of_ne hj]
    have hroot : (m.pushFront i d).root j = m.root j := by
      exact read_pushFront (m := m) (.root j) (by simpa using hj) (by simp)
    rw [hroot]
    exact (h.chain j).congr (hnext j)

end Links

end Foundations
