import Mathlib.Data.List.Nodup
import ScoreP.Definitions.Hypercube

/-!
# The communication partners in the hypercube

Source: `calculate_comm_partners` of `scorep_unify_mpp_ipc.c` as its two loops. The first one counts the
children and finds the parent, the second one writes the list from its end. `commPartners_eq`: both stop
at the same bit, and the list is written completely. `parent_lt`, `mem_children`, `nodup_children`: the
results of all ranks are one tree.
-/

namespace ScoreP.Definitions

open List

/-- The results of `calculate_comm_partners`. An entry of the list that was not written is `none`. -/
structure Partners where
  parent : ℕ
  children : List (Option ℕ)
  numberOfChildren : ℕ
  deriving DecidableEq

/-- The first loop: where `d` stops, the parent, and the number of the children. The shift is one of 32
bits. -/
def countChildren (size sizePot me : ℕ) : ℕ → ℕ → ℕ → ℕ × ℕ × ℕ
  | 0, d, number => (d, me, number)
  | fuel + 1, d, number =>
    if d = 0 then (d, me, number)
    else if d > sizePot then (d, me, number)
    else if me &&& d ≠ 0 then (d, me ^^^ d, number)
    else
      countChildren size sizePot me fuel (d <<< 1 % 2 ^ 32) (if me ^^^ d < size then number + 1 else number)

/-- The second loop. A write in front of the list is `none`. -/
def fillChildren (size me : ℕ) : ℕ → ℕ → ℕ → List (Option ℕ) → Option (List (Option ℕ))
  | 0, _, _, children => some children
  | fuel + 1, d, child, children =>
    if d = 0 then some children
    else if me ^^^ d < size then
      if child = 0 then none
      else fillChildren size me fuel (d >>> 1) (child - 1) (children.set (child - 1) (some (me ^^^ d)))
    else fillChildren size me fuel (d >>> 1) child children

def commPartners (size me : ℕ) : Option Partners :=
  let (d, parent, number) := countChildren size (npot size) me 33 1 0
  (fillChildren size me 33 (d >>> 1) number (List.replicate number none)).map fun children =>
    { parent := parent, children := children, numberOfChildren := number }

/-! ## The two loops -/

def childrenBelow (size me bits : ℕ) : List ℕ :=
  (List.range bits).filterMap fun bit => if me ^^^ 2 ^ bit < size then some (me ^^^ 2 ^ bit) else none

theorem childrenBelow_succ (size me bits : ℕ) : childrenBelow size me (bits + 1) = childrenBelow size me bits ++
      if me ^^^ 2 ^ bits < size then [me ^^^ 2 ^ bits] else [] := by
  rw [childrenBelow, childrenBelow, range_succ, filterMap_append]
  congr 1
  by_cases h : me ^^^ 2 ^ bits < size
  · simp [h]
  · simp [h]

theorem and_two_pow_ne_zero (me bit : ℕ) : me &&& 2 ^ bit ≠ 0 ↔ me.testBit bit = true := by
  rw [Nat.and_two_pow]
  cases me.testBit bit with
  | true => simp
  | false => simp

theorem countChildren_eq {size : ℕ} (me : ℕ) (hsize : npot size ≤ 2 ^ 30) (fuel bit : ℕ)
    (hfuel : fuel + bit = 32) (hbit : bit = 0 ∨ 2 ^ (bit - 1) ≤ npot size) :
    countChildren size (npot size) me (fuel + 1) (2 ^ bit) (childrenBelow size me bit).length =
      (2 ^ (findParent (npot size) me fuel bit).1, (findParent (npot size) me fuel bit).2,
        (childrenBelow size me (findParent (npot size) me fuel bit).1).length) := by
  induction fuel generalizing bit with
  | zero =>
    have hfull : bit = 32 := by omega
    subst hfull
    exact absurd hbit (by omega)
  | succ fuel ih =>
    have hpos : 2 ^ bit ≠ 0 := (Nat.two_pow_pos bit).ne'
    rw [countChildren, findParent, if_neg hpos]
    by_cases hd : 2 ^ bit > npot size
    · simp [hd]
    · by_cases hset : me.testBit bit = true
      · have hand := (and_two_pow_ne_zero me bit).mpr hset
        simp only [hd, hset, if_true, if_false, if_pos hand]
      · have hand : ¬ (me &&& 2 ^ bit ≠ 0) := fun h => hset ((and_two_pow_ne_zero me bit).mp h)
        have hle : 2 ^ bit ≤ 2 ^ 30 := by omega
        have hle' : bit ≤ 30 := (Nat.pow_le_pow_iff_right (by omega)).mp hle
        have hshift : 2 ^ bit <<< 1 % 2 ^ 32 = 2 ^ (bit + 1) := by
          rw [Nat.shiftLeft_eq, pow_one, ← pow_succ]
          apply Nat.mod_eq_of_lt
          exact Nat.pow_lt_pow_right (by omega) (by omega)
        have hnumber : (if me ^^^ 2 ^ bit < size then (childrenBelow size me bit).length + 1
            else (childrenBelow size me bit).length) = (childrenBelow size me (bit + 1)).length := by
          rw [childrenBelow_succ, length_append]
          split_ifs
          · rfl
          · rfl
        simp only [hd, hset, if_false, if_neg hand, hshift, hnumber]
        apply ih (bit + 1) (by omega)
        exact .inr (by simpa using hd)

theorem fillChildren_eq (size me : ℕ) (bits fuel : ℕ) (written : List (Option ℕ)) (hfuel : bits < fuel) :
    fillChildren size me fuel (2 ^ bits >>> 1) (childrenBelow size me bits).length
      (List.replicate (childrenBelow size me bits).length none ++ written) =
        some ((childrenBelow size me bits).map some ++ written) := by
  induction bits generalizing fuel written with
  | zero =>
    obtain ⟨fuel, rfl⟩ := Nat.exists_eq_succ_of_ne_zero (show fuel ≠ 0 by omega)
    simp [fillChildren, childrenBelow]
  | succ bits ih =>
    obtain ⟨fuel, rfl⟩ := Nat.exists_eq_succ_of_ne_zero (show fuel ≠ 0 by omega)
    have hhalf : 2 ^ (bits + 1) >>> 1 = 2 ^ bits := by
      rw [Nat.shiftRight_eq_div_pow, pow_one, pow_succ, Nat.mul_div_cancel _ (by omega)]
    have hpos : 2 ^ bits ≠ 0 := (Nat.two_pow_pos bits).ne'
    rw [hhalf, fillChildren, if_neg hpos, childrenBelow_succ]
    by_cases hlt : me ^^^ 2 ^ bits < size
    · have hset : (List.replicate ((childrenBelow size me bits).length + 1) none ++ written).set
          (childrenBelow size me bits).length (some (me ^^^ 2 ^ bits)) =
            List.replicate (childrenBelow size me bits).length none ++ some (me ^^^ 2 ^ bits) :: written := by
        rw [replicate_succ', append_assoc, set_append_right _ _ (by simp)]
        simp
      simp only [hlt, if_true, length_append, length_singleton, Nat.add_eq_zero_iff, one_ne_zero,
        and_false, if_false, Nat.add_sub_cancel, hset]
      rw [ih fuel _ (by omega)]
      simp
    · simp only [hlt, if_false, append_nil]
      exact ih fuel written (by omega)

theorem commPartners_eq {size : ℕ} (me : ℕ) (hpos : 0 < size) (hsize : size ≤ 2 ^ 30) :
    commPartners size me = some
      { parent := (calculateCommPartners size me).1
        children := (calculateCommPartners size me).2.map some
        numberOfChildren := (calculateCommPartners size me).2.length } := by
  have hcount := countChildren_eq me (npot_le hpos hsize) 32 0 rfl (.inl rfl)
  have hzero : (childrenBelow size me 0).length = 0 := rfl
  rw [hzero, pow_zero] at hcount
  have hbits : levelOf size me < 33 := Nat.lt_succ_of_le (findParent_le (npot size) me 32 0)
  have hfill := fillChildren_eq size me (levelOf size me) 33 [] hbits
  rw [append_nil, append_nil] at hfill
  rw [commPartners, hcount]
  dsimp only
  rw [show (findParent (npot size) me 32 0).1 = levelOf size me from rfl, hfill]
  rfl

/-! ## The tree -/

def parentOf (size me : ℕ) : ℕ :=
  (calculateCommPartners size me).1

def childrenOf (size me : ℕ) : List ℕ :=
  (calculateCommPartners size me).2

theorem childrenOf_eq (size me : ℕ) : childrenOf size me = childrenBelow size me (levelOf size me) :=
  rfl

theorem findParent_snd (sizePot me fuel bit : ℕ) : (findParent sizePot me fuel bit).2 = me ∨
      me.testBit (findParent sizePot me fuel bit).1 = true ∧
        (findParent sizePot me fuel bit).2 = me ^^^ 2 ^ (findParent sizePot me fuel bit).1 := by
  induction fuel generalizing bit with
  | zero => exact .inl rfl
  | succ fuel ih =>
    rw [findParent]
    split_ifs with hd hset
    · exact .inl rfl
    · exact .inr ⟨hset, rfl⟩
    · exact ih (bit + 1)

theorem findParent_of_testBit {sizePot me fuel bit : ℕ} (hzero : me ≠ 0) (hfuel : fuel + bit = 32)
    (hlow : 2 ^ bit ∣ me) (hle : me ≤ sizePot) (hlt : me < 2 ^ 32) :
    (findParent sizePot me fuel bit).2 ≠ me := by
  induction fuel generalizing bit with
  | zero =>
    have hbit : bit = 32 := by omega
    subst hbit
    exact absurd (Nat.eq_zero_of_dvd_of_lt hlow hlt) hzero
  | succ fuel ih =>
    have hbitle : 2 ^ bit ≤ me := Nat.le_of_dvd (by omega) hlow
    rw [findParent, if_neg (by omega)]
    by_cases hset : me.testBit bit = true
    · rw [if_pos hset]
      intro hsame
      have hxor : 2 ^ bit = 0 := by
        have hboth := congrArg (me ^^^ ·) hsame
        simp at hboth
      exact absurd hxor (Nat.two_pow_pos bit).ne'
    · rw [if_neg hset]
      exact ih (by omega) (dvd_succ hlow (by simpa using hset))

theorem parentOf_zero (size : ℕ) : parentOf size 0 = 0 := by
  rcases findParent_snd (npot size) 0 32 0 with hsame | ⟨hset, -⟩
  · exact hsame
  · simp at hset

section Tree

variable {size : ℕ} (hsize : size ≤ 2 ^ 30)

include hsize

theorem parentOf_eq {me : ℕ} (hme : me < size) (hzero : me ≠ 0) :
    me.testBit (levelOf size me) = true ∧ parentOf size me + 2 ^ levelOf size me = me ∧
      2 ^ (levelOf size me + 1) ∣ parentOf size me := by
  have hne : parentOf size me ≠ me := by
    change (findParent (npot size) me 32 0).2 ≠ me
    apply findParent_of_testBit hzero rfl (by simp)
    · have := le_npot size
      omega
    · omega
  have hlevel := atLevel_levelOf hsize hme
  rcases findParent_snd (npot size) me 32 0 with hsame | ⟨hset, hparent⟩
  · exact absurd hsame hne
  · change me.testBit (levelOf size me) = true at hset
    change parentOf size me = me ^^^ 2 ^ levelOf size me at hparent
    have hdvd : 2 ^ (levelOf size me + 1) ∣ parentOf size me := by
      apply dvd_succ
      · rw [hparent]
        apply Nat.dvd_of_mod_eq_zero
        rw [Nat.xor_mod_two_pow, Nat.mod_eq_zero_of_dvd hlevel.dvd]
        simp
      · rw [hparent, Nat.testBit_xor, hset, Nat.testBit_two_pow_self]
        rfl
    have hback : parentOf size me ^^^ 2 ^ levelOf size me = me := by
      rw [hparent, Nat.xor_assoc, Nat.xor_self, Nat.xor_zero]
    rw [xor_two_pow hdvd] at hback
    exact ⟨hset, hback, hdvd⟩

theorem parentOf_lt {me : ℕ} (hme : me < size) (hzero : me ≠ 0) : parentOf size me < me := by
  have h := (parentOf_eq hsize hme hzero).2.1
  have hpos := Nat.two_pow_pos (levelOf size me)
  omega

theorem mem_childrenOf {p r : ℕ} (hp : p < size) :
    r ∈ childrenOf size p ↔ ∃ bit < levelOf size p, r = p + 2 ^ bit ∧ r < size := by
  have hlevel := atLevel_levelOf hsize hp
  rw [childrenOf_eq, childrenBelow, mem_filterMap]
  constructor
  · rintro ⟨bit, hbit, hr⟩
    rw [mem_range] at hbit
    rw [xor_two_pow ((pow_dvd_pow 2 hbit).trans hlevel.dvd)] at hr
    split_ifs at hr with hlt
    cases hr
    exact ⟨bit, hbit, rfl, hlt⟩
  · rintro ⟨bit, hbit, rfl, hlt⟩
    refine ⟨bit, mem_range.mpr hbit, ?_⟩
    rw [xor_two_pow ((pow_dvd_pow 2 hbit).trans hlevel.dvd), if_pos hlt]

theorem mem_childrenOf_iff {p r : ℕ} (hp : p < size) :
    r ∈ childrenOf size p ↔ r < size ∧ r ≠ p ∧ parentOf size r = p := by
  rw [mem_childrenOf hsize hp]
  constructor
  · rintro ⟨bit, hbit, rfl, hlt⟩
    have hchild := (atLevel_levelOf hsize hp).child hbit hlt
    have hlevel := hchild.1.eq_levelOf hsize hchild.2
    have hpos := Nat.two_pow_pos bit
    have hparent := (parentOf_eq hsize hlt (by omega)).2.1
    rw [hlevel] at hparent
    exact ⟨hlt, by omega, by omega⟩
  · rintro ⟨hr, hne, rfl⟩
    have hzero : r ≠ 0 := by
      rintro rfl
      exact hne (parentOf_zero size).symm
    rcases parentOf_eq hsize hr hzero with ⟨hset, hsum, hdvd⟩
    refine ⟨levelOf size r, ?_, hsum.symm, hr⟩
    rcases (atLevel_levelOf hsize hp).stops with ⟨hroot, hfull⟩ | hstop
    · by_contra hle
      have hpow : 2 ^ levelOf size (parentOf size r) ≤ 2 ^ levelOf size r :=
        Nat.pow_le_pow_right (by omega) (by omega)
      omega
    · by_contra hle
      have hclear := testBit_of_dvd ((pow_dvd_pow 2 (show levelOf size (parentOf size r) + 1 ≤
        levelOf size r + 1 by omega)).trans hdvd)
      rw [hclear] at hstop
      cases hstop

theorem nodup_childrenOf {p : ℕ} (hp : p < size) : (childrenOf size p).Nodup := by
  have hlevel := atLevel_levelOf hsize hp
  rw [childrenOf_eq]
  have hbelow : ∀ bits ≤ levelOf size p, (childrenBelow size p bits).Nodup ∧
      ∀ r ∈ childrenBelow size p bits, r < p + 2 ^ bits := by
    intro bits hbits
    induction bits with
    | zero => simp [childrenBelow]
    | succ bits ih =>
      rcases ih (by omega) with ⟨hnodup, hlt⟩
      have hxor := xor_two_pow ((pow_dvd_pow 2 hbits).trans hlevel.dvd)
      have hpos := Nat.two_pow_pos bits
      rw [childrenBelow_succ, hxor]
      split_ifs with hsmall
      · constructor
        · rw [nodup_append]
          refine ⟨hnodup, nodup_singleton _, ?_⟩
          intro a ha b hb
          rw [mem_singleton.mp hb]
          have := hlt a ha
          omega
        · intro r hr
          rcases mem_append.mp hr with hr | hr
          · have := hlt r hr
            omega
          · rw [mem_singleton.mp hr]
            omega
      · rw [append_nil]
        refine ⟨hnodup, fun r hr => ?_⟩
        have := hlt r hr
        omega
  exact (hbelow _ le_rfl).1

end Tree

end ScoreP.Definitions
