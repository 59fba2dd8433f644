import ScoreP.Memory.Bitset

/-!
# What the page bitset promises

`Contract` is the contract of the range operations and searches of `scorep_bitset.h` on a memory that
was prepared with `bitset_mark_invalid` (`markInvalid_marked`): a range operation changes exactly the
bits of its range, and the searches find the least position or report the number of members.

`bitset_next_used` lacks the test of its offset that `bitset_next_free` makes first. `contract_iff`:
the contract holds exactly for the offsets up to the number of members, and for the one behind the
last word; for the others `bitset_next_used` answers with one of the positions behind the last member
(`nextUsed_behind`) or reads behind the memory (`nextUsed_outside`).
-/

namespace ScoreP.Memory.Bitset

open Foundations

variable {words words' : ℕ → Word} {numberOfMembers : ℕ} {b : Bool}

theorem markInvalid_marked (words : ℕ → Word) (numberOfMembers : ℕ) :
    Marked (markInvalid words numberOfMembers) numberOfMembers := by
  unfold markInvalid
  intro pos hlo hhi
  by_cases hfull : numberOfMembers % 64 = 0
  · have hwords : nWords numberOfMembers = numberOfMembers / 64 := by
      rw [nWords, if_neg (by simpa using hfull), Nat.add_zero]
    omega
  · have hwords : nWords numberOfMembers = numberOfMembers / 64 + 1 := by
      rw [nWords, if_pos hfull]
    rw [if_neg hfull, bit_update, if_pos (by omega), mask_neg _ (by omega), decide_eq_true_eq]
    omega

/-! ## Ranges -/

/-- The contract of a range operation: it succeeds on every range whose bits are all to be changed,
and whenever it comes to its end, it has changed exactly the range. -/
def RangeContract (b : Bool) (words : ℕ → Word) (numberOfMembers offset length : ℕ)
    (result : Option (ℕ → Word)) : Prop :=
  (0 < length ∧ offset + length ≤ numberOfMembers ∧
      AllBits (!b) words offset (offset + length) → result.isSome) ∧
    ∀ words', result = some words' → Assigns b words words' offset (offset + length)

theorem onRange_contract {atMask : (ℕ → Word) → ℕ → Word → Option (ℕ → Word)}
    {atWord : (ℕ → Word) → ℕ → Option (ℕ → Word)} (hmask : ChangesMask b atMask)
    (hword : ChangesWord b atWord) (words : ℕ → Word) (numberOfMembers offset length : ℕ) :
    RangeContract b words numberOfMembers offset length
      (onRange words numberOfMembers atMask atWord offset length) := by
  by_cases hasserts : offset < numberOfMembers ∧ 0 < length ∧ length ≤ numberOfMembers ∧
      offset + length ≤ numberOfMembers
  · have hchanges := onRange_changes hmask hword words hasserts
    exact ⟨fun h => hchanges.1 h.2.2, hchanges.2⟩
  · rw [onRange, if_neg hasserts]
    exact ⟨fun h => absurd (by omega) hasserts, nofun⟩

/-! ## Searches -/

/-- The contract of a search: the least position from `offset` on whose bit is `v`, and the number of
members where there is none. -/
def NextContract (v : Bool) (words : ℕ → Word) (numberOfMembers offset : ℕ) (result : Option ℕ) : Prop :=
  ∃ r, result = some r ∧ (r < numberOfMembers ∧ Least v words offset r ∨
      r = numberOfMembers ∧ AllBits (!v) words offset numberOfMembers)

theorem nextFree_contract (hmarked : Marked words numberOfMembers) (offset : ℕ) :
    NextContract false words numberOfMembers offset (nextFree words numberOfMembers offset) := by
  by_cases hoffset : offset ≤ numberOfMembers
  · obtain ⟨r, hr, hlo, hhi, hbits, hbit⟩ := nextFree_spec hmarked hoffset
    refine ⟨r, hr, ?_⟩
    by_cases hlt : r < numberOfMembers
    · exact .inl ⟨hlt, hlo, hbit hlt, hbits⟩
    · have heq : r = numberOfMembers := by omega
      exact .inr ⟨heq, heq ▸ hbits⟩
  · refine ⟨numberOfMembers, ?_, .inr ⟨rfl, ?_⟩⟩
    · rw [nextFree, if_pos (by omega)]
    · intro pos hlo hhi
      omega

variable {offset : ℕ}

theorem nextUsed_contract (hmarked : Marked words numberOfMembers) (hoffset : offset < numberOfMembers) :
    NextContract true words numberOfMembers offset (nextUsed words numberOfMembers offset) := by
  obtain ⟨r, hr, hlo, hhi, hbits, hbit⟩ := nextUsed_spec hmarked hoffset
  refine ⟨r, hr, ?_⟩
  by_cases hlt : r < numberOfMembers
  · exact .inl ⟨hlt, hlo, hbit hlt, hbits⟩
  · have heq : r = numberOfMembers := by omega
    exact .inr ⟨heq, heq ▸ hbits⟩

theorem nextUsed_behind (hmarked : Marked words numberOfMembers)
    (hbehind : numberOfMembers ≤ offset) (hwords : offset < 64 * nWords numberOfMembers) :
    nextUsed words numberOfMembers offset = some offset := by
  have hused : bit words offset = true := hmarked offset hbehind hwords
  unfold nextUsed
  cases nextBit_spec finds_set (fun word j hj => getLsbD_masked_and hj) hwords with
  | inl hnone =>
    have hclear := hnone.2 offset (Nat.le_refl _) hwords
    rw [hused] at hclear
    cases hclear
  | inr hsome =>
    obtain ⟨r, hr, -, hle, -, hbits⟩ := hsome
    have heq : r = offset := by
      by_contra hne
      have hclear := hbits offset (Nat.le_refl _) (by omega)
      rw [hused] at hclear
      cases hclear
    rw [hr, heq]

theorem nextUsed_end : nextUsed words numberOfMembers (64 * nWords numberOfMembers) = some numberOfMembers := by
  have haligned : ¬(64 * nWords numberOfMembers % 64 ≠ 0) := by omega
  have hword : 64 * nWords numberOfMembers / 64 = nWords numberOfMembers := by omega
  rw [nextUsed, nextBit, if_neg haligned, hword, nextInWords, Nat.sub_self]
  exact if_pos rfl

theorem nextUsed_outside (houtside : 64 * nWords numberOfMembers < offset) :
    nextUsed words numberOfMembers offset = none := by
  unfold nextUsed nextBit
  by_cases hfirst : offset % 64 ≠ 0
  · have hread : readWord words numberOfMembers (offset / 64) = none := if_neg (by omega)
    rw [if_pos hfirst, hread]
    rfl
  · have hcount : nWords numberOfMembers - offset / 64 = 0 := by omega
    have hread : readWord words numberOfMembers (offset / 64) = none := if_neg (by omega)
    have hbehind : offset / 64 ≠ nWords numberOfMembers := by omega
    rw [if_neg hfirst, nextInWords, hcount]
    simp [firstWord, hbehind, hread]

theorem NextContract.eq_members {v : Bool} {result : Option ℕ}
    (h : NextContract v words numberOfMembers offset result) (hbehind : numberOfMembers ≤ offset) :
    result = some numberOfMembers := by
  obtain ⟨r, hr, hleast | hnone⟩ := h
  · have hle := hleast.2.1
    omega
  · rw [hr, hnone.1]

/-- The contract of the search for a run: the lowest one is set, and without one the memory stays as
it is. -/
def FindContract (words : ℕ → Word) (numberOfMembers rangeLength : ℕ)
    (result : Option (ℕ × (ℕ → Word))) : Prop :=
  ∃ r words', result = some (r, words') ∧ (∀ start < r, ¬Run words numberOfMembers rangeLength start) ∧
    (Run words numberOfMembers rangeLength r ∧ Assigns true words words' r (r + rangeLength) ∨
      (∀ start, ¬Run words numberOfMembers rangeLength start) ∧ r = numberOfMembers ∧ words' = words)

theorem findAndSetRange_contract (hmarked : Marked words numberOfMembers) {rangeLength : ℕ}
    (hlength : 0 < rangeLength) :
    FindContract words numberOfMembers rangeLength (findAndSetRange words numberOfMembers rangeLength) := by
  obtain ⟨r, words', hfind, hbelow, hcases⟩ := findAndSetRange_spec hmarked hlength
  refine ⟨r, words', hfind, hbelow, ?_⟩
  cases hcases with
  | inl hfound => exact .inl hfound.2
  | inr hnone =>
    refine .inr ⟨fun start hrun => ?_, hnone⟩
    have hmembers := hrun.1
    exact hbelow start (by omega) hrun

/-! ## The contract -/

structure Contract (words : ℕ → Word) (numberOfMembers offset length : ℕ) : Prop where
  setRange : RangeContract true words numberOfMembers offset length
    (setRange words numberOfMembers offset length)
  clearRange : RangeContract false words numberOfMembers offset length
    (clearRange words numberOfMembers offset length)
  nextFree : NextContract false words numberOfMembers offset (nextFree words numberOfMembers offset)
  nextUsed : NextContract true words numberOfMembers offset (nextUsed words numberOfMembers offset)
  findAndSetRange : 0 < length →
    FindContract words numberOfMembers length (findAndSetRange words numberOfMembers length)

theorem contract_iff (hmarked : Marked words numberOfMembers) (offset length : ℕ) :
    Contract words numberOfMembers offset length ↔
      offset ≤ numberOfMembers ∨ offset = 64 * nWords numberOfMembers := by
  have hmembers := le_nWords (n := numberOfMembers)
  constructor
  · intro hcontract
    by_contra hoffset
    have hend := hcontract.nextUsed.eq_members (by omega)
    by_cases hwords : offset < 64 * nWords numberOfMembers
    · rw [nextUsed_behind hmarked (by omega) hwords, Option.some.injEq] at hend
      omega
    · rw [nextUsed_outside (by omega)] at hend
      cases hend
  · intro hoffset
    refine ⟨onRange_contract setMask_changes setWord_changes words numberOfMembers offset length,
      onRange_contract clearMask_changes clearWord_changes words numberOfMembers offset length,
      nextFree_contract hmarked offset, ?_, findAndSetRange_contract hmarked⟩
    by_cases hlt : offset < numberOfMembers
    · exact nextUsed_contract hmarked hlt
    · have hend : Bitset.nextUsed words numberOfMembers offset = some numberOfMembers := by
        by_cases hlast : offset = 64 * nWords numberOfMembers
        · rw [hlast]
          exact nextUsed_end
        · have heq : offset = numberOfMembers := by omega
          have hbehind := nextUsed_behind hmarked (Nat.le_refl _)
            (by omega : numberOfMembers < 64 * nWords numberOfMembers)
          rw [heq]
          exact hbehind
      refine ⟨numberOfMembers, hend, .inr ⟨rfl, fun pos hlo hhi => ?_⟩⟩
      omega

theorem contract_iff_three : Contract (markInvalid (fun _ => 0) 3) 3 2 1 :=
  (contract_iff (markInvalid_marked _ 3) 2 1).mpr (.inl (by decide))

/-- The search from behind the last member ends behind it. -/
theorem not_contract_behind : ¬Contract (markInvalid (fun _ => 0) 3) 3 5 1 := by
  intro hcontract
  obtain ⟨r, hr, hend⟩ := hcontract.nextUsed
  have hbehind : nextUsed (markInvalid (fun _ => 0) 3) 3 5 = some 5 := by decide +kernel
  rw [hbehind, Option.some.injEq] at hr
  subst hr
  omega

end ScoreP.Memory.Bitset
