import ScoreP.Foundations.Words

/-!
# The page bitset

Source: `src/utils/memory/scorep_bitset.h`. The memory of a bitset is a map from indices to 64-bit
words. A failing `assert` and a read behind the last word are answered with `none`.

`onRange_changes` says which bits change; `nextFree_spec` and `nextUsed_spec` say
that the searches find the least position; `findAndSetRange_spec` says that the lowest run of clear
bits is set. The searches rely on the bits behind the last member, which `markInvalid` sets.
-/

namespace ScoreP.Memory.Bitset

open Foundations Function

variable (words : ℕ → Word) (numberOfMembers : ℕ)

def markInvalid : ℕ → Word :=
  if numberOfMembers % 64 = 0 then words
  else update words (numberOfMembers / 64) (-((1 : Word) <<< (numberOfMembers % 64)))

/-! ## Ranges -/

/-- `assert( ( words[ i ] & mask ) == 0 )` and `words[ i ] |= mask`. -/
def setMask (i : ℕ) (mask : Word) : Option (ℕ → Word) :=
  if words i &&& mask = 0 then some (update words i (words i ||| mask)) else none

/-- `assert( ( words[ i ] & mask ) == mask )` and `words[ i ] &= ~mask`. -/
def clearMask (i : ℕ) (mask : Word) : Option (ℕ → Word) :=
  if words i &&& mask = mask then some (update words i (words i &&& ~~~mask)) else none

/-- `assert( ( words[ i ] & ~zero ) == 0 )` and `words[ i ] = ~zero`. -/
def setWord (i : ℕ) : Option (ℕ → Word) :=
  if words i &&& ~~~(0 : Word) = 0 then some (update words i (~~~(0 : Word))) else none

/-- `words[ i ] = zero`. -/
def clearWord (i : ℕ) : Option (ℕ → Word) :=
  some (update words i 0)

/-- The loop over the full words, the given number of them from `i` on. -/
def fullWords (atWord : (ℕ → Word) → ℕ → Option (ℕ → Word)) : ℕ → ℕ → (ℕ → Word) → Option (ℕ → Word)
  | 0, _, words => some words
  | n + 1, i, words => do
    let words ← atWord words i
    fullWords atWord n (i + 1) words

def firstPartial (atMask : (ℕ → Word) → ℕ → Word → Option (ℕ → Word))
    (firstWord firstBitPos lastWord lastBitPos : ℕ) : Option (ℕ → Word) :=
  if firstBitPos ≠ 0 then
    let mask := -((1 : Word) <<< firstBitPos)
    atMask words firstWord (if firstWord = lastWord ∧ lastBitPos ≠ 0 then
      mask &&& (((1 : Word) <<< lastBitPos) - 1) else mask)
  else some words

def lastPartial (atMask : (ℕ → Word) → ℕ → Word → Option (ℕ → Word))
    (firstWord firstBitPos lastWord lastBitPos : ℕ) : Option (ℕ → Word) :=
  if lastBitPos ≠ 0 ∧ ¬(firstWord = lastWord ∧ firstBitPos ≠ 0) then
    atMask words lastWord (((1 : Word) <<< lastBitPos) - 1)
  else some words

/-- What `bitset_set_range` and `bitset_clear_range` share. -/
def onRange (atMask : (ℕ → Word) → ℕ → Word → Option (ℕ → Word))
    (atWord : (ℕ → Word) → ℕ → Option (ℕ → Word)) (offset length : ℕ) : Option (ℕ → Word) :=
  if offset < numberOfMembers ∧ 0 < length ∧ length ≤ numberOfMembers ∧
      offset + length ≤ numberOfMembers then do
    let firstWord := offset / 64
    let firstBitPos := offset % 64
    let lastWord := (offset + length) / 64
    let lastBitPos := (offset + length) % 64
    let words ← firstPartial words atMask firstWord firstBitPos lastWord lastBitPos
    let i := if firstBitPos ≠ 0 then firstWord + 1 else firstWord
    let words ← fullWords atWord (lastWord - i) i words
    lastPartial words atMask firstWord firstBitPos lastWord lastBitPos
  else none

def setRange (offset length : ℕ) : Option (ℕ → Word) :=
  onRange words numberOfMembers setMask setWord offset length

def clearRange (offset length : ℕ) : Option (ℕ → Word) :=
  onRange words numberOfMembers clearMask clearWord offset length

/-! ## Searches -/

/-- `while ( word ) { word >>= 1; pos++; }`. -/
def countShifts : ℕ → Word → ℕ → Option ℕ
  | 0, _, _ => none
  | fuel + 1, word, pos =>
    if word = 0 then some pos else countShifts fuel (word >>> 1) (pos + 1)

def findFirstZero (word : Word) : Option ℕ :=
  countShifts 64 ((~~~word ^^^ (~~~word - 1)) >>> 1) 0

def findFirstSet (word : Word) : Option ℕ :=
  findFirstZero (~~~word)

/-- The index at which the loop over the given number of words from `i` on stops: the first one that
`found` accepts, or the one behind them. -/
def firstWord (found : Word → Bool) : ℕ → ℕ → ℕ
  | 0, i => i
  | n + 1, i => if found (words i) then i else firstWord found n (i + 1)

def nWords : ℕ :=
  numberOfMembers / 64 + if numberOfMembers % 64 ≠ 0 then 1 else 0

/-- `words[ i ]`. There is nothing to read behind the last word. -/
def readWord (i : ℕ) : Option Word :=
  if i < nWords numberOfMembers then some (words i) else none

/-- The search from the word at `i` on. -/
def nextInWords (found : Word → Bool) (find : Word → Option ℕ) (i : ℕ) : Option ℕ :=
  let i := firstWord words found (nWords numberOfMembers - i) i
  if i = nWords numberOfMembers then some numberOfMembers
  else do
    let word ← readWord words numberOfMembers i
    let pos ← find word
    return i * 64 + pos

/-- What `bitset_next_free` and `bitset_next_used` share; `ignore` takes the bits before `offset` out
of the first word. -/
def nextBit (found : Word → Bool) (find : Word → Option ℕ) (ignore : Word → Word) (offset : ℕ) : Option ℕ :=
  if offset % 64 ≠ 0 then do
    let word ← readWord words numberOfMembers (offset / 64)
    if found (ignore word) then do
      let pos ← find (ignore word)
      return offset / 64 * 64 + pos
    else nextInWords words numberOfMembers found find (offset / 64 + 1)
  else nextInWords words numberOfMembers found find (offset / 64)

def nextFree (offset : ℕ) : Option ℕ :=
  if numberOfMembers ≤ offset then some numberOfMembers
  else nextBit words numberOfMembers (fun word => decide (~~~word ≠ 0)) findFirstZero
    (fun word => word ||| (((1 : Word) <<< (offset % 64)) - 1)) offset

def nextUsed (offset : ℕ) : Option ℕ :=
  nextBit words numberOfMembers (fun word => decide (word ≠ 0)) findFirstSet
    (fun word => word &&& ~~~(((1 : Word) <<< (offset % 64)) - 1)) offset

/-- The loop of `bitset_find_and_set_range`. -/
def findAndSetRangeFrom (rangeLength : ℕ) : ℕ → ℕ → Option (ℕ × (ℕ → Word))
  | 0, _ => none
  | fuel + 1, pos =>
    if pos < numberOfMembers then do
      let used ← nextUsed words numberOfMembers pos
      let length := used - pos
      if rangeLength ≤ length then
        let words ← setRange words numberOfMembers pos rangeLength
        return (pos, words)
      else
        let pos ← nextFree words numberOfMembers (pos + length)
        findAndSetRangeFrom rangeLength fuel pos
    else some (numberOfMembers, words)

def findAndSetRange (rangeLength : ℕ) : Option (ℕ × (ℕ → Word)) := do
  let pos ← nextFree words numberOfMembers 0
  findAndSetRangeFrom words numberOfMembers rangeLength (numberOfMembers + 1) pos

/-! ## What changes -/

variable {words numberOfMembers} {words' : ℕ → Word} {b : Bool}

def Changes (b : Bool) (words : ℕ → Word) (lo hi : ℕ) (result : Option (ℕ → Word)) : Prop :=
  (AllBits (!b) words lo hi → result.isSome) ∧ ∀ words', result = some words' → Assigns b words words' lo hi

variable {lo mid hi : ℕ} {result : Option (ℕ → Word)}

theorem Changes.some (h : Assigns b words words' lo hi) : Changes b words lo hi (some words') :=
  ⟨fun _ => rfl, fun _ hwords => Option.some.inj hwords ▸ h⟩

theorem Changes.ite {p : Prop} [Decidable p] (hp : AllBits (!b) words lo hi → p)
    (h : Assigns b words words' lo hi) : Changes b words lo hi (if p then Option.some words' else none) := by
  constructor
  · intro hbits
    rw [if_pos (hp hbits)]
    rfl
  · intro words'' hresult
    obtain ⟨-, hwords⟩ := Option.ite_none_right_eq_some.1 hresult
    exact Option.some.inj hwords ▸ h

theorem Changes.bind {next : (ℕ → Word) → Option (ℕ → Word)} (h : Changes b words lo mid result)
    (h' : ∀ words, Changes b words mid hi (next words)) (hlo : lo ≤ mid) (hhi : mid ≤ hi) :
    Changes b words lo hi (result.bind next) := by
  constructor
  · intro hbits
    obtain ⟨words₁, hsome⟩ := Option.isSome_iff_exists.1 (h.1 (hbits.mono (Nat.le_refl _) hhi))
    rw [hsome, Option.bind_some]
    exact (h' words₁).1 ((h.2 words₁ hsome).allBits_above (hbits.mono hlo (Nat.le_refl _)))
  · intro words' hresult
    obtain ⟨words₁, hsome, hnext⟩ := Option.bind_eq_some_iff.1 hresult
    exact (h.2 words₁ hsome).trans ((h' words₁).2 words' hnext) hlo hhi

def ChangesMask (b : Bool) (atMask : (ℕ → Word) → ℕ → Word → Option (ℕ → Word)) : Prop :=
  ∀ words i mask lo hi, Mask mask lo hi → hi ≤ 64 →
    Changes b words (64 * i + lo) (64 * i + hi) (atMask words i mask)

def ChangesWord (b : Bool) (atWord : (ℕ → Word) → ℕ → Option (ℕ → Word)) : Prop :=
  ∀ words i, Changes b words (64 * i) (64 * (i + 1)) (atWord words i)

theorem setMask_changes : ChangesMask true setMask := by
  intro words i mask lo hi hmask hhi
  exact .ite (and_mask hmask) (assigns_or hmask hhi)

theorem clearMask_changes : ChangesMask false clearMask := by
  intro words i mask lo hi hmask hhi
  exact .ite (and_mask hmask) (assigns_and_not hmask hhi)

theorem setWord_changes : ChangesWord true setWord := by
  intro words i
  refine show Changes true words (64 * i + 0) (64 * i + 64) _ from
    .ite (and_mask mask_allOnes) (assigns_update (Nat.le_refl 64) fun j hj => ?_)
  rw [mask_allOnes j hj, if_pos ⟨Nat.zero_le j, hj⟩]
  simp [hj]

theorem clearWord_changes : ChangesWord false clearWord := by
  intro words i
  apply Changes.some
  refine show Assigns _ words _ (64 * i + 0) (64 * i + 64) from
    assigns_update (Nat.le_refl 64) fun j hj => ?_
  rw [if_pos ⟨Nat.zero_le j, hj⟩]
  exact BitVec.getLsbD_zero

variable {atMask : (ℕ → Word) → ℕ → Word → Option (ℕ → Word)}
  {atWord : (ℕ → Word) → ℕ → Option (ℕ → Word)} {offset length : ℕ}

theorem fullWords_changes (hword : ChangesWord b atWord) (words : ℕ → Word) (n i : ℕ) :
    Changes b words (64 * i) (64 * (i + n)) (fullWords atWord n i words) := by
  induction n generalizing i words with
  | zero => exact .some (Assigns.refl (Nat.le_refl _))
  | succ n ih =>
    have hall := (hword words i).bind (fun words => ih words (i + 1)) (by omega) (by omega)
    rwa [Nat.add_right_comm] at hall

theorem onRange_changes (hmask : ChangesMask b atMask) (hword : ChangesWord b atWord)
    (words : ℕ → Word) (hasserts : offset < numberOfMembers ∧ 0 < length ∧ length ≤ numberOfMembers ∧
      offset + length ≤ numberOfMembers) : Changes b words offset (offset + length)
      (onRange words numberOfMembers atMask atWord offset length) := by
  unfold onRange
  rw [if_pos hasserts]
  have hlo : 64 * (offset / 64) + offset % 64 = offset := by omega
  have hhi : 64 * ((offset + length) / 64) + (offset + length) % 64 = offset + length := by omega
  by_cases hone : offset / 64 = (offset + length) / 64 ∧ offset % 64 ≠ 0
  · -- the range is inside of one word
    obtain ⟨hword₁, hfirst⟩ := hone
    have hlast : (offset + length) % 64 ≠ 0 := by omega
    have hrange := (mask_neg (n := offset % 64)).and (mask_sub_one (n := (offset + length) % 64))
    rw [Nat.max_eq_left (Nat.zero_le _), Nat.min_eq_right (by omega)] at hrange
    have hchanges := hmask words (offset / 64) _ _ _ hrange (by omega)
    rw [hlo, hword₁, hhi] at hchanges
    simpa [firstPartial, lastPartial, hfirst, hword₁, hlast, fullWords] using hchanges
  · obtain ⟨i, hi⟩ : ∃ i, i = if offset % 64 ≠ 0 then offset / 64 + 1 else offset / 64 := ⟨_, rfl⟩
    have hle : offset ≤ 64 * i ∧ 64 * i ≤ offset + length := by
      rw [hi]
      split <;> omega
    have hfirst : Changes b words offset (64 * i) (firstPartial words atMask (offset / 64) (offset % 64)
        ((offset + length) / 64) ((offset + length) % 64)) := by
      by_cases hzero : offset % 64 ≠ 0
      · have hchanges := hmask words (offset / 64) _ _ _ (mask_neg (n := offset % 64)) (Nat.le_refl 64)
        rw [hlo] at hchanges
        rw [hi, if_pos hzero, firstPartial, if_pos hzero]
        dsimp only
        rw [if_neg (by omega)]
        exact hchanges
      · rw [hi, if_neg hzero, firstPartial, if_neg hzero]
        exact .some (Assigns.refl (by omega))
    have hfull := fun words => fullWords_changes hword words ((offset + length) / 64 - i) i
    rw [show i + ((offset + length) / 64 - i) = (offset + length) / 64 by omega] at hfull
    have hlast : ∀ words, Changes b words (64 * ((offset + length) / 64)) (offset + length)
        (lastPartial words atMask (offset / 64) (offset % 64) ((offset + length) / 64)
          ((offset + length) % 64)) := by
      intro words
      by_cases hzero : (offset + length) % 64 ≠ 0
      · have hchanges := hmask words ((offset + length) / 64) _ _ _ mask_sub_one
          (Nat.le_of_lt (Nat.mod_lt (offset + length) (by decide)))
        rw [hhi] at hchanges
        rw [lastPartial, if_pos ⟨hzero, hone⟩]
        exact hchanges
      · rw [lastPartial, if_neg fun hboth => hzero hboth.1]
        exact .some (Assigns.refl (by omega))
    have hall := hfirst.bind (fun words => (hfull words).bind hlast (by omega) (by omega)) hle.1 hle.2
    rw [hi] at hall
    exact hall

theorem Changes.succeeds (h : Changes b words lo hi result) (hbits : AllBits (!b) words lo hi) :
    ∃ words', result = Option.some words' ∧ Assigns b words words' lo hi := by
  obtain ⟨words', hsome⟩ := Option.isSome_iff_exists.1 (h.1 hbits)
  exact ⟨words', hsome, h.2 words' hsome⟩

/-! ## What is found -/

variable {word : Word}

theorem countShifts_spec {fuel k pos : ℕ} (hmask : Mask word 0 k) (hk : k < 64) (hfuel : k < fuel) :
    countShifts fuel word pos = some (pos + k) := by
  induction k generalizing fuel word pos with
  | zero =>
    obtain ⟨fuel, rfl⟩ : ∃ n, fuel = n + 1 := ⟨fuel - 1, by omega⟩
    have hzero : word = 0 := BitVec.eq_of_getLsbD_eq fun j hj => by
      rw [hmask j hj]
      simp
    simp [countShifts, hzero]
  | succ k ih =>
    obtain ⟨fuel, rfl⟩ : ∃ n, fuel = n + 1 := ⟨fuel - 1, by omega⟩
    have hne : word ≠ 0 := ne_zero_iff.2 ⟨0, by omega, by rw [hmask 0 (by omega)]; simp⟩
    have hshift : Mask (word >>> 1) 0 k := by
      intro j hj
      rw [BitVec.getLsbD_ushiftRight, Bool.eq_iff_iff]
      by_cases hlast : 1 + j < 64
      · rw [hmask (1 + j) hlast]
        simp only [decide_eq_true_eq]
        exact ⟨fun h => ⟨Nat.zero_le j, by omega⟩, fun h => ⟨Nat.zero_le _, by omega⟩⟩
      · rw [BitVec.getLsbD_of_ge word (1 + j) (by omega)]
        simp only [Bool.false_eq_true, decide_eq_true_eq]
        exact ⟨False.elim, fun h => by omega⟩
    rw [countShifts, if_neg hne, ih hshift (by omega) (by omega), Nat.add_assoc, Nat.add_comm 1 k]

theorem findFirstZero_spec {k : ℕ} (h : Lowest false word k) : findFirstZero word = some k := by
  have hmask := getLsbD_xor_sub_one h.not
  have hshift : Mask ((~~~word ^^^ (~~~word - 1)) >>> 1) 0 k := by
    intro j hj
    have hk := h.1
    rw [BitVec.getLsbD_ushiftRight, Bool.eq_iff_iff]
    by_cases hlast : 1 + j < 64
    · rw [hmask (1 + j) hlast]
      simp only [decide_eq_true_eq]
      exact ⟨fun h => ⟨Nat.zero_le j, by omega⟩, fun h => ⟨Nat.zero_le _, by omega⟩⟩
    · rw [BitVec.getLsbD_of_ge _ (1 + j) (by omega)]
      simp only [Bool.false_eq_true, decide_eq_true_eq]
      exact ⟨False.elim, fun h => by omega⟩
  rw [findFirstZero, countShifts_spec hshift h.1 h.1, Nat.zero_add]

theorem findFirstSet_spec {k : ℕ} (h : Lowest true word k) : findFirstSet word = some k :=
  findFirstZero_spec h.not

/-- `found` and `find` look for the lowest bit that is `v`. -/
structure Finds (v : Bool) (found : Word → Bool) (find : Word → Option ℕ) : Prop where
  found_iff : ∀ word, found word = true ↔ ∃ j < 64, word.getLsbD j = v
  find_eq : ∀ word k, Lowest v word k → find word = some k

theorem finds_zero : Finds false (fun word => decide (~~~word ≠ 0)) findFirstZero where
  found_iff := by
    intro word
    rw [decide_eq_true_eq, ne_zero_iff]
    refine exists_congr fun j => and_congr_right fun hj => ?_
    simp [hj]
  find_eq := fun _ _ h => findFirstZero_spec h

theorem finds_set : Finds true (fun word => decide (word ≠ 0)) findFirstSet where
  found_iff := by
    intro word
    rw [decide_eq_true_eq, ne_zero_iff]
  find_eq := fun _ _ h => findFirstSet_spec h

/-- `r` is the least position from `offset` on whose bit is `v`. -/
def Least (v : Bool) (words : ℕ → Word) (offset r : ℕ) : Prop :=
  offset ≤ r ∧ bit words r = v ∧ AllBits (!v) words offset r

variable {find : Word → Option ℕ} {found : Word → Bool}

theorem firstWord_spec (words : ℕ → Word) {v : Bool} (hfinds : Finds v found find) (n i : ℕ) :
    i ≤ firstWord words found n i ∧ firstWord words found n i ≤ i + n ∧
      (firstWord words found n i < i + n → found (words (firstWord words found n i)) = true) ∧
      AllBits (!v) words (64 * i) (64 * firstWord words found n i) := by
  induction n generalizing i with
  | zero => exact ⟨Nat.le_refl i, Nat.le_refl i, fun h => absurd h (Nat.lt_irrefl i),
      fun pos hlo hhi => absurd hlo (Nat.not_le.mpr hhi)⟩
  | succ n ih =>
    by_cases hfound : found (words i) = true
    · rw [firstWord, if_pos hfound]
      exact ⟨Nat.le_refl i, by omega, fun _ => hfound, fun pos hlo hhi => absurd hlo (Nat.not_le.mpr hhi)⟩
    · have hword : AllBits (!v) words (64 * i) (64 * (i + 1)) := by
        intro pos hlo hhi
        rw [hfinds.found_iff] at hfound
        have hdiv : pos / 64 = i := by omega
        have hbit : bit words pos ≠ v := fun h =>
          hfound ⟨pos % 64, by omega, by rw [← hdiv]; exact h⟩
        exact Bool.eq_not_of_ne hbit
      obtain ⟨hlo, hhi, hfoundk, hrest⟩ := ih (i + 1)
      rw [firstWord, if_neg hfound]
      refine ⟨by omega, by omega, fun hlt => hfoundk (by omega), ?_⟩
      intro pos hpos hend
      by_cases hin : pos < 64 * (i + 1)
      · exact hword pos hpos hin
      · exact hrest pos (by omega) hend

theorem least_in_word {v : Bool} {offset i k : ℕ} (h : Lowest v (words i) k)
    (hbits : AllBits (!v) words offset (64 * i)) (hoffset : offset ≤ 64 * i) :
    Least v words offset (i * 64 + k) := by
  obtain ⟨hk, hbit, hbelow⟩ := h
  rw [Nat.mul_comm i 64]
  refine ⟨by omega, by rw [bit_add hk, hbit], fun pos hlo hhi => ?_⟩
  by_cases hpos : pos < 64 * i
  · exact hbits pos hlo hpos
  · have hj : pos = 64 * i + (pos - 64 * i) := by omega
    rw [hj, bit_add (by omega)]
    exact Bool.eq_not_of_ne (hbelow _ (by omega))

theorem le_nWords {n : ℕ} : n ≤ 64 * nWords n := by
  unfold nWords
  split <;> omega

theorem nextInWords_spec {v : Bool} (hfinds : Finds v found find) {offset i : ℕ}
    (hi : i ≤ nWords numberOfMembers) (hoffset : offset ≤ 64 * i)
    (hbefore : AllBits (!v) words offset (64 * i)) :
    (nextInWords words numberOfMembers found find i = some numberOfMembers ∧
        AllBits (!v) words offset (64 * nWords numberOfMembers)) ∨
      ∃ r, nextInWords words numberOfMembers found find i = some r ∧
        r < 64 * nWords numberOfMembers ∧ Least v words offset r := by
  unfold nextInWords
  obtain ⟨hlo, hhi, hfound, hrest⟩ :=
    firstWord_spec words hfinds (nWords numberOfMembers - i) i
  generalize firstWord words found (nWords numberOfMembers - i) i = k at hlo hhi hfound hrest ⊢
  have hclear : AllBits (!v) words offset (64 * k) := by
    intro pos hpos hend
    by_cases hin : pos < 64 * i
    · exact hbefore pos hpos hin
    · exact hrest pos (by omega) hend
  dsimp only
  by_cases hlast : k = nWords numberOfMembers
  · rw [if_pos hlast, ← hlast]
    exact Or.inl ⟨rfl, hclear⟩
  · rw [if_neg hlast]
    obtain ⟨j, hj⟩ := exists_lowest ((hfinds.found_iff (words k)).1 (hfound (by omega)))
    have hj64 := hj.1
    have hread : readWord words numberOfMembers k = some (words k) := if_pos (by omega)
    refine Or.inr ⟨k * 64 + j, by simp [hread, hfinds.find_eq (words k) j hj], by omega, ?_⟩
    exact least_in_word hj hclear (by omega)

theorem nextBit_spec {v : Bool} (hfinds : Finds v found find) {ignore : Word → Word} {offset : ℕ}
    (hignore : ∀ word, ∀ j < 64, (ignore word).getLsbD j = if offset % 64 ≤ j then word.getLsbD j else !v)
    (hoffset : offset < 64 * nWords numberOfMembers) :
    (nextBit words numberOfMembers found find ignore offset = some numberOfMembers ∧
        AllBits (!v) words offset (64 * nWords numberOfMembers)) ∨
      ∃ r, nextBit words numberOfMembers found find ignore offset = some r ∧
        r < 64 * nWords numberOfMembers ∧ Least v words offset r := by
  have hread : readWord words numberOfMembers (offset / 64) = some (words (offset / 64)) :=
    if_pos (by omega)
  unfold nextBit
  by_cases hfirst : offset % 64 ≠ 0
  · rw [if_pos hfirst, hread, Option.bind_eq_bind, Option.bind_some]
    by_cases hfound : found (ignore (words (offset / 64))) = true
    · rw [if_pos hfound]
      obtain ⟨k, hk⟩ := exists_lowest ((hfinds.found_iff _).1 hfound)
      refine Or.inr ⟨offset / 64 * 64 + k, by rw [hfinds.find_eq _ k hk]; rfl, ?_⟩
      obtain ⟨hk64, hbit, hbelow⟩ := hk
      rw [hignore _ k hk64] at hbit
      have hle : offset % 64 ≤ k := by
        by_contra hlt
        rw [if_neg hlt] at hbit
        cases v <;> cases hbit
      rw [if_pos hle] at hbit
      rw [Nat.mul_comm]
      refine ⟨by omega, by omega, by rw [bit_add hk64, hbit], fun pos hlo hhi => ?_⟩
      have hpos : pos = 64 * (offset / 64) + (pos - 64 * (offset / 64)) := by omega
      rw [hpos, bit_add (by omega)]
      have hne := hbelow (pos - 64 * (offset / 64)) (by omega)
      rw [hignore _ _ (by omega), if_pos (by omega)] at hne
      exact Bool.eq_not_of_ne hne
    · rw [if_neg hfound]
      refine nextInWords_spec hfinds (by omega) (by omega) ?_
      intro pos hlo hhi
      rw [hfinds.found_iff] at hfound
      have hpos : pos = 64 * (offset / 64) + (pos - 64 * (offset / 64)) := by omega
      rw [hpos, bit_add (by omega)]
      refine Bool.eq_not_of_ne fun hv => hfound ⟨pos - 64 * (offset / 64), by omega, ?_⟩
      rw [hignore _ _ (by omega), if_pos (by omega), hv]
  · rw [if_neg hfirst]
    refine nextInWords_spec hfinds (by omega) (by omega) ?_
    intro pos hlo hhi
    omega

def Marked (words : ℕ → Word) (numberOfMembers : ℕ) : Prop :=
  AllBits true words numberOfMembers (64 * nWords numberOfMembers)

theorem getLsbD_masked_or {n j : ℕ} (hj : j < 64) :
    (word ||| (((1 : Word) <<< n) - 1)).getLsbD j = if n ≤ j then word.getLsbD j else !false := by
  rw [BitVec.getLsbD_or, mask_sub_one j hj]
  by_cases hn : n ≤ j
  · have hnot : ¬(0 ≤ j ∧ j < n) := by omega
    rw [if_pos hn, decide_eq_false hnot, Bool.or_false]
  · have hin : 0 ≤ j ∧ j < n := by omega
    rw [if_neg hn, decide_eq_true hin, Bool.or_true]
    rfl

theorem getLsbD_masked_and {n j : ℕ} (hj : j < 64) : (word &&& ~~~(((1 : Word) <<< n) - 1)).getLsbD j =
      if n ≤ j then word.getLsbD j else !true := by
  rw [BitVec.getLsbD_and, BitVec.getLsbD_not, mask_sub_one j hj, decide_eq_true hj, Bool.true_and]
  by_cases hn : n ≤ j
  · have hnot : ¬(0 ≤ j ∧ j < n) := by omega
    rw [if_pos hn, decide_eq_false hnot, Bool.not_false, Bool.and_true]
  · have hin : 0 ≤ j ∧ j < n := by omega
    rw [if_neg hn, decide_eq_true hin, Bool.not_true, Bool.and_false]

theorem nextFree_spec (hmarked : Marked words numberOfMembers) {offset : ℕ}
    (hoffset : offset ≤ numberOfMembers) :
    ∃ r, nextFree words numberOfMembers offset = some r ∧ offset ≤ r ∧ r ≤ numberOfMembers ∧
      AllBits true words offset r ∧ (r < numberOfMembers → bit words r = false) := by
  unfold nextFree
  by_cases hend : numberOfMembers ≤ offset
  · rw [if_pos hend]
    exact ⟨numberOfMembers, rfl, hoffset, Nat.le_refl _, fun pos hlo hhi => by omega,
      fun h => absurd h (Nat.lt_irrefl _)⟩
  · rw [if_neg hend]
    have hwords : offset < 64 * nWords numberOfMembers :=
      Nat.lt_of_lt_of_le (Nat.not_le.1 hend) le_nWords
    cases nextBit_spec finds_zero (fun word j hj => getLsbD_masked_or hj) hwords with
    | inl hnone =>
      exact ⟨numberOfMembers, hnone.1, hoffset, Nat.le_refl _,
        hnone.2.mono (Nat.le_refl _) le_nWords, fun h => absurd h (Nat.lt_irrefl _)⟩
    | inr hsome =>
      obtain ⟨r, hr, hlt, hle, hbit, hbits⟩ := hsome
      have hmembers : r ≤ numberOfMembers := by
        by_contra hbehind
        rw [hmarked r (by omega) hlt] at hbit
        cases hbit
      exact ⟨r, hr, hle, hmembers, hbits, fun _ => hbit⟩

theorem nextUsed_spec (hmarked : Marked words numberOfMembers) {offset : ℕ}
    (hoffset : offset < numberOfMembers) :
    ∃ r, nextUsed words numberOfMembers offset = some r ∧ offset ≤ r ∧ r ≤ numberOfMembers ∧
      AllBits false words offset r ∧ (r < numberOfMembers → bit words r = true) := by
  unfold nextUsed
  have hwords : offset < 64 * nWords numberOfMembers := Nat.lt_of_lt_of_le hoffset le_nWords
  cases nextBit_spec finds_set (fun word j hj => getLsbD_masked_and hj) hwords with
  | inl hnone =>
    exact ⟨numberOfMembers, hnone.1, Nat.le_of_lt hoffset, Nat.le_refl _,
      hnone.2.mono (Nat.le_refl _) le_nWords, fun h => absurd h (Nat.lt_irrefl _)⟩
  | inr hsome =>
    obtain ⟨r, hr, hlt, hle, hbit, hbits⟩ := hsome
    have hmembers : r ≤ numberOfMembers := by
      by_contra hbehind
      have hset := hmarked numberOfMembers (Nat.le_refl _) (by omega)
      rw [hbits numberOfMembers (by omega) (by omega)] at hset
      cases hset
    exact ⟨r, hr, hle, hmembers, hbits, fun _ => hbit⟩

/-- A run of clear bits at `start`. -/
def Run (words : ℕ → Word) (numberOfMembers rangeLength start : ℕ) : Prop :=
  start + rangeLength ≤ numberOfMembers ∧ AllBits false words start (start + rangeLength)

theorem findAndSetRangeFrom_spec (hmarked : Marked words numberOfMembers) {rangeLength : ℕ}
    (hlength : 0 < rangeLength) {fuel pos : ℕ} (hpos : pos ≤ numberOfMembers)
    (hfree : pos < numberOfMembers → bit words pos = false) (hfuel : numberOfMembers < fuel + pos)
    (hbelow : ∀ start < pos, ¬Run words numberOfMembers rangeLength start) :
    ∃ r words', findAndSetRangeFrom words numberOfMembers rangeLength fuel pos = some (r, words') ∧
      (∀ start < r, ¬Run words numberOfMembers rangeLength start) ∧
      (r < numberOfMembers ∧ Run words numberOfMembers rangeLength r ∧
          Assigns true words words' r (r + rangeLength) ∨ r = numberOfMembers ∧ words' = words) := by
  induction fuel generalizing pos with
  | zero => omega
  | succ fuel ih =>
    unfold findAndSetRangeFrom
    by_cases hlt : pos < numberOfMembers
    · obtain ⟨used, hused, hle, hmembers, hclear, hset⟩ := nextUsed_spec hmarked hlt
      have hgt : pos < used := by
        by_contra hge
        have heq : used = pos := by omega
        have hbit := hset (by omega)
        rw [heq, hfree hlt] at hbit
        cases hbit
      by_cases hfits : rangeLength ≤ used - pos
      · have hrun : Run words numberOfMembers rangeLength pos :=
          ⟨by omega, hclear.mono (Nat.le_refl _) (by omega)⟩
        have hchanges := onRange_changes setMask_changes setWord_changes words
          ⟨hlt, hlength, Nat.le_trans (Nat.le_add_left _ _) hrun.1, hrun.1⟩
        obtain ⟨words', hsetRange, hassigns⟩ := hchanges.succeeds hrun.2
        rw [← setRange] at hsetRange
        exact ⟨pos, words', by simp [hlt, hused, hfits, hsetRange], hbelow, Or.inl ⟨hlt, hrun, hassigns⟩⟩
      · obtain ⟨next, hnext, hle', hmembers', htaken, hfree'⟩ := nextFree_spec hmarked hmembers
        have hadd : pos + (used - pos) = used := by omega
        obtain ⟨r, words', hfind, hr⟩ := ih hmembers' hfree' (by omega) (by
          intro start hstart hrun
          obtain ⟨hend, hbits⟩ := hrun
          by_cases hbefore : start < pos
          · exact hbelow start hbefore ⟨hend, hbits⟩
          · by_cases hin : start < used
            · have hbit := hbits used (by omega) (by omega)
              rw [hset (by omega)] at hbit
              cases hbit
            · have hbit := hbits start (Nat.le_refl _) (by omega)
              rw [htaken start (by omega) hstart] at hbit
              cases hbit)
        exact ⟨r, words', by simp [hlt, hused, hfits, hadd, hnext, hfind], hr⟩
    · rw [if_neg hlt]
      have heq : pos = numberOfMembers := by omega
      exact ⟨numberOfMembers, words, rfl, heq ▸ hbelow, Or.inr ⟨rfl, rfl⟩⟩

theorem findAndSetRange_spec (hmarked : Marked words numberOfMembers) {rangeLength : ℕ}
    (hlength : 0 < rangeLength) :
    ∃ r words', findAndSetRange words numberOfMembers rangeLength = some (r, words') ∧
      (∀ start < r, ¬Run words numberOfMembers rangeLength start) ∧
      (r < numberOfMembers ∧ Run words numberOfMembers rangeLength r ∧
          Assigns true words words' r (r + rangeLength) ∨ r = numberOfMembers ∧ words' = words) := by
  obtain ⟨pos, hnext, -, hle, hused, hfree⟩ := nextFree_spec hmarked (Nat.zero_le _)
  obtain ⟨r, words', hfind, hr⟩ :=
    findAndSetRangeFrom_spec hmarked hlength hle hfree
      (show numberOfMembers < numberOfMembers + 1 + pos by omega) (by
        intro start hstart hrun
        have hbit := hrun.2 start (Nat.le_refl _) (by omega)
        rw [hused start (Nat.zero_le _) hstart] at hbit
        cases hbit)
  exact ⟨r, words', by simp [findAndSetRange, hnext, hfind], hr⟩

end ScoreP.Memory.Bitset
