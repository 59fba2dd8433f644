import Mathlib.Algebra.GroupWithZero.Nat
import ScoreP.Filter.Rules
import ScoreP.Foundations.Glob

/-!
# Region names in a filter file

Source: `SCOREP_Score_Group.cpp`, `cleanName`. A name is cut at its blanks and comment marks by the filter
parser and then read by `fnmatch`; `units` are the characters that the latter sees.

`length_units_cleanName` says that a name has no more units than characters, and if it has as many then each
of its backslashes is followed by an escaped character (`Paired`). `pieces_units` and `strip_units` say what
the parser loses.
-/

namespace ScoreP.Score

open Foundations Foundations.Glob Filter List

/-! ## The encoding -/

/-- `std::regex_replace` of a character by itself behind a backslash. -/
def regexReplace (escaped : Char) (name : Text) : Text :=
  name.flatMap fun c => if c = escaped then ['\\', c] else [c]

def cleanName (name : Text) : Text :=
  let temp := regexReplace ' ' name
  let temp := regexReplace ']' temp
  let temp := regexReplace '[' temp
  let temp := regexReplace '*' temp
  regexReplace '!' temp

def escapedChars : Text := [' ', ']', '[', '*', '!']

inductive Paired (property : Char → Prop) : Text → Prop
  | nil : Paired property []
  | plain {c : Char} {name : Text} (hc : c ≠ '\\') (h : Paired property name) : Paired property (c :: name)
  | pair {c : Char} {name : Text} (hc : property c) (h : Paired property name) :
    Paired property ('\\' :: c :: name)

/-- The name is read as it is: nothing in it is special to the parser or to `fnmatch` but what `cleanName`
escapes. -/
structure Faithful (name : Text) : Prop where
  notKeyword : name ∉ keywords
  chars : ∀ c ∈ name, c ∉ ['?', '#', '\t', '\r']
  paired : Paired (· ∈ [' ', ']', '!']) name

variable {name text pre cur : Text} {c : Char} {quoted : Bool}

theorem regexReplace_cons (escaped : Char) : regexReplace escaped (c :: name) =
    (if c = escaped then ['\\', c] else [c]) ++ regexReplace escaped name :=
  flatMap_cons

theorem regexReplace_append (escaped : Char) (text : Text) :
    regexReplace escaped (name ++ text) = regexReplace escaped name ++ regexReplace escaped text :=
  flatMap_append

@[simp] theorem cleanName_nil : cleanName [] = [] := rfl

theorem cleanName_append (text : Text) : cleanName (name ++ text) = cleanName name ++ cleanName text := by
  simp [cleanName, regexReplace_append]

theorem cleanName_singleton : cleanName [c] = if c ∈ escapedChars then ['\\', c] else [c] := by
  by_cases hc : c ∈ escapedChars
  · rw [if_pos hc]
    simp only [escapedChars, mem_cons, not_mem_nil, or_false] at hc
    rcases hc with rfl | rfl | rfl | rfl | rfl <;> rfl
  · rw [if_neg hc]
    simp only [escapedChars, mem_cons, not_mem_nil, or_false, not_or] at hc
    obtain ⟨hspace, hclose, hopen, hstar, hbang⟩ := hc
    have hstep : ∀ escaped, c ≠ escaped → regexReplace escaped [c] = [c] := by
      intro escaped hne
      rw [regexReplace_cons, if_neg hne]
      rfl
    simp only [cleanName]
    rw [hstep _ hspace, hstep _ hclose, hstep _ hopen, hstep _ hstar, hstep _ hbang]

theorem cleanName_escaped (hc : c ∈ escapedChars) : cleanName (c :: name) = '\\' :: c :: cleanName name := by
  rw [← singleton_append, cleanName_append, cleanName_singleton, if_pos hc]
  rfl

theorem cleanName_plain (hc : c ∉ escapedChars) : cleanName (c :: name) = c :: cleanName name := by
  rw [← singleton_append, cleanName_append, cleanName_singleton, if_neg hc]
  rfl

theorem backslash_notMem : '\\' ∉ escapedChars := by decide

theorem ne_backslash (hc : c ∈ escapedChars) : c ≠ '\\' := fun h => backslash_notMem (h ▸ hc)

theorem mem_cleanName (h : c ∈ cleanName name) : c ∈ name ∨ c = '\\' := by
  induction name with
  | nil => exact absurd h not_mem_nil
  | cons d name ih =>
    by_cases hd : d ∈ escapedChars
    · rw [cleanName_escaped hd] at h
      rcases mem_cons.1 h with rfl | h
      · exact Or.inr rfl
      · rcases mem_cons.1 h with rfl | h
        · exact Or.inl mem_cons_self
        · exact (ih h).imp (mem_cons_of_mem d) id
    · rw [cleanName_plain hd] at h
      rcases mem_cons.1 h with rfl | h
      · exact Or.inl mem_cons_self
      · exact (ih h).imp (mem_cons_of_mem d) id

/-! ## The units of an encoded name -/

theorem units_escaped (hc : c ∈ escapedChars) :
    units false (cleanName (c :: name)) = (c, true) :: units false (cleanName name) := by
  rw [cleanName_escaped hc]
  rfl

theorem units_plain (hc : c ∉ escapedChars) (hne : c ≠ '\\') :
    units false (cleanName (c :: name)) = (c, false) :: units false (cleanName name) := by
  rw [cleanName_plain hc]
  exact if_neg hne

theorem units_backslash : units false (cleanName ('\\' :: name)) = units true (cleanName name) := by
  rw [cleanName_plain backslash_notMem]
  rfl

theorem units_quoted_escaped (hc : c ∈ escapedChars) :
    units true (cleanName (c :: name)) = ('\\', true) :: (c, false) :: units false (cleanName name) := by
  have hunits : units false (c :: cleanName name) = (c, false) :: units false (cleanName name) :=
    if_neg (ne_backslash hc)
  rw [cleanName_escaped hc, units, hunits]

theorem units_quoted_plain (hc : c ∉ escapedChars) :
    units true (cleanName (c :: name)) = (c, true) :: units false (cleanName name) := by
  rw [cleanName_plain hc]
  rfl

theorem length_units_cleanName : (units false (cleanName name)).length ≤ name.length ∧
    (units true (cleanName name)).length ≤ name.length + 1 := by
  induction name with
  | nil => exact ⟨Nat.le_refl _, Nat.zero_le _⟩
  | cons c name ih =>
    rw [length_cons]
    by_cases hc : c ∈ escapedChars
    · rw [units_escaped hc, units_quoted_escaped hc]
      simp only [length_cons]
      omega
    · have htrue : (units true (cleanName (c :: name))).length = (units false (cleanName name)).length + 1 := by
        rw [units_quoted_plain hc]
        rfl
      refine ⟨?_, by omega⟩
      by_cases hne : c = '\\'
      · rw [hne, units_backslash]
        exact ih.2
      · rw [units_plain hc hne, length_cons]
        omega

theorem paired_of_length (h : (units false (cleanName name)).length = name.length) :
    Paired (· ∈ escapedChars) name := by
  induction hlength : name.length using Nat.strong_induction_on generalizing name with
  | _ n ih =>
    cases name with
    | nil => exact .nil
    | cons c name =>
      rw [length_cons] at h hlength
      by_cases hc : c ∈ escapedChars
      · rw [units_escaped hc, length_cons] at h
        exact .plain (ne_backslash hc) (ih name.length (by omega) (by omega) rfl)
      · by_cases hne : c = '\\'
        · subst hne
          rw [units_backslash] at h
          cases name with
          | nil => exact absurd h (by decide)
          | cons d name =>
            rw [length_cons] at h hlength
            by_cases hd : d ∈ escapedChars
            · rw [units_quoted_escaped hd, length_cons, length_cons] at h
              exact .pair hd (ih name.length (by omega) (by omega) rfl)
            · have hle := (@length_units_cleanName name).1
              rw [units_quoted_plain hd, length_cons] at h
              omega
        · rw [units_plain hc hne, length_cons] at h
          exact .plain hne (ih name.length (by omega) (by omega) rfl)

theorem bracket_notMem_units (hfirst : quoted = true → name.head? ≠ some '[')
    (h : ∀ pre post, name ≠ pre ++ '\\' :: '[' :: post) : ('[', false) ∉ units quoted (cleanName name) := by
  induction name generalizing quoted with
  | nil => cases quoted <;> exact not_mem_nil
  | cons c name ih =>
    have hrest : ∀ pre post, name ≠ pre ++ '\\' :: '[' :: post := by
      intro pre post heq
      exact h (c :: pre) post (by rw [heq]; rfl)
    have hplain : ('[', false) ∉ units false (cleanName name) :=
      ih (fun hfalse => absurd hfalse Bool.false_ne_true) hrest
    intro hmem
    by_cases hc : c ∈ escapedChars
    · cases quoted with
      | false =>
        rw [units_escaped hc] at hmem
        rcases mem_cons.1 hmem with heq | hmem
        · exact Bool.false_ne_true (Prod.ext_iff.1 heq).2
        · exact hplain hmem
      | true =>
        rw [units_quoted_escaped hc] at hmem
        rcases mem_cons.1 hmem with heq | hmem
        · exact Bool.false_ne_true (Prod.ext_iff.1 heq).2
        · rcases mem_cons.1 hmem with heq | hmem
          · obtain rfl := (Prod.ext_iff.1 heq).1
            exact hfirst rfl rfl
          · exact hplain hmem
    · cases quoted with
      | false =>
        by_cases hne : c = '\\'
        · subst hne
          rw [units_backslash] at hmem
          refine ih (fun _ hhead => ?_) hrest hmem
          obtain ⟨rest, rfl⟩ := head?_eq_some_iff.1 hhead
          exact h [] rest rfl
        · rw [units_plain hc hne] at hmem
          rcases mem_cons.1 hmem with heq | hmem
          · obtain rfl := (Prod.ext_iff.1 heq).1
            exact hc (by decide)
          · exact hplain hmem
      | true =>
        rw [units_quoted_plain hc] at hmem
        rcases mem_cons.1 hmem with heq | hmem
        · exact Bool.false_ne_true (Prod.ext_iff.1 heq).2
        · exact hplain hmem

/-! ## What the parser loses -/

theorem quotedAfter_of_escapedAfter (h : escapedAfter isEscape false text = false) :
    quotedAfter false text = false := by
  rcases eq_nil_or_concat text with rfl | ⟨before, c, rfl⟩
  · rfl
  · rw [concat_eq_append] at h ⊢
    rw [escapedAfter_concat] at h
    exact quotedAfter_concat (beq_eq_false_iff_ne.1 h)

theorem ne_backslash_of_isBlank (hc : isBlank c = true) : c ≠ '\\' :=
  beq_eq_false_iff_ne.1 (isEscape_of_isBlank hc)

theorem pieces_units {e : Bool} (he : e = false → quotedAfter false cur = false) :
    ((pieces isBlank isEscape e cur text).map fun piece => (units false piece).length).sum +
        (pieces isBlank isEscape e cur text).length = (units false (cur ++ text)).length + 1 ∧
      ∀ piece ∈ pieces isBlank isEscape e cur text, ∀ unit ∈ units false piece,
        unit ∈ units false (cur ++ text) := by
  induction text generalizing e cur with
  | nil =>
    rw [pieces, append_nil]
    refine ⟨by simp, fun piece hpiece unit hunit => ?_⟩
    rwa [mem_singleton.1 hpiece] at hunit
  | cons c text ih =>
    rw [pieces]
    by_cases hsep : (isBlank c && !e) = true
    · obtain ⟨hblank, hescaped⟩ := Bool.and_eq_true_iff.1 hsep
      have hquoted : quotedAfter false cur = false := he (by rwa [Bool.not_eq_true'] at hescaped)
      have hunits : units false (cur ++ c :: text) = units false cur ++ (c, false) :: units false text := by
        rw [units_append, hquoted]
        exact congrArg (units false cur ++ ·) (if_neg (ne_backslash_of_isBlank hblank))
      rw [if_pos hsep, isEscape_of_isBlank hblank, hunits]
      obtain ⟨hsum, hmem⟩ := @ih [] false fun _ => rfl
      rw [nil_append] at hsum hmem
      constructor
      · simp only [map_cons, sum_cons, length_cons, length_append]
        omega
      · intro piece hpiece unit hunit
        rcases mem_cons.1 hpiece with rfl | hpiece
        · exact mem_append_left _ hunit
        · exact mem_append_right _ (mem_cons_of_mem _ (hmem piece hpiece unit hunit))
    · have hnext := @ih (cur ++ [c]) (isEscape c) fun hc => quotedAfter_concat (beq_eq_false_iff_ne.1 hc)
      rw [if_neg hsep]
      rw [append_assoc, singleton_append] at hnext
      exact hnext

theorem exists_mark {e : Bool} (h : upToMark isHash isEscape e text ≠ text) :
    ∃ rest, text = upToMark isHash isEscape e text ++ '#' :: rest ∧
      escapedAfter isEscape e (upToMark isHash isEscape e text) = false := by
  induction text generalizing e with
  | nil => exact absurd rfl h
  | cons c text ih =>
    rw [upToMark] at h ⊢
    by_cases hcut : (isHash c && !e) = true
    · obtain ⟨hmark, hescaped⟩ := Bool.and_eq_true_iff.1 hcut
      rw [if_pos hcut]
      exact ⟨text, by rw [beq_iff_eq.1 hmark]; rfl, by rwa [Bool.not_eq_true'] at hescaped⟩
    · rw [if_neg hcut] at h ⊢
      obtain ⟨rest, hsplit, hescaped⟩ := ih (e := isEscape c) fun heq => h (by rw [heq])
      exact ⟨rest, congrArg (c :: ·) hsplit, hescaped⟩

theorem strip_units : (∀ unit ∈ units false (stripComment text), unit ∈ units false text) ∧
    (units false (stripComment text)).length ≤ (units false text).length ∧
      ((units false (stripComment text)).length = (units false text).length → stripComment text = text) := by
  by_cases hwhole : stripComment text = text
  · rw [hwhole]
    exact ⟨fun _ h => h, Nat.le_refl _, fun _ => rfl⟩
  · obtain ⟨rest, hsplit, hescaped⟩ := exists_mark hwhole
    have hunits : units false text = units false (stripComment text) ++ ('#', false) :: units false rest := by
      have hquoted := quotedAfter_of_escapedAfter hescaped
      have happend := @units_append false (stripComment text) ('#' :: rest)
      rw [stripComment, ← hsplit, hquoted] at happend
      exact happend
    rw [hunits]
    refine ⟨fun unit h => mem_append_left _ h, ?_, fun h => ?_⟩
    · rw [length_append]
      exact Nat.le_add_right _ _
    · rw [length_append, length_cons] at h
      omega

section Paired

variable {property : Char → Prop}

theorem Paired.mono {property' : Char → Prop} (hsub : ∀ c, property c → property' c) (h : Paired property name) :
    Paired property' name := by
  induction h with
  | nil => exact .nil
  | plain hc _ ih => exact .plain hc ih
  | pair hc _ ih => exact .pair (hsub _ hc) ih

theorem Paired.cleanName_cases {motive : Text → Prop} (h : Paired (· ∈ escapedChars) name) (hnil : motive [])
    (hplain : ∀ c name, c ∉ escapedChars → c ≠ '\\' → motive name → motive (c :: name))
    (hescaped : ∀ c name, c ∈ escapedChars → motive name → motive (c :: name))
    (hpair : ∀ c name, c ∈ escapedChars → motive name → motive ('\\' :: c :: name)) : motive name := by
  induction h with
  | nil => exact hnil
  | @plain c name hne _ ih =>
    by_cases hc : c ∈ escapedChars
    · exact hescaped c name hc ih
    · exact hplain c name hc hne ih
  | @pair c name hc _ ih => exact hpair c name hc ih

theorem cleanName_pair (hc : c ∈ escapedChars) :
    cleanName ('\\' :: c :: name) = '\\' :: '\\' :: c :: cleanName name := by
  rw [cleanName_plain backslash_notMem, cleanName_escaped hc]

theorem isHash_of_escaped (hc : c ∈ escapedChars) : isHash c = false := by
  apply beq_eq_false_iff_ne.2
  intro h
  rw [h] at hc
  exact absurd hc (by decide)

theorem isEscape_of_escaped (hc : c ∈ escapedChars) : isEscape c = false :=
  beq_eq_false_iff_ne.2 (ne_backslash hc)

theorem hash_notMem (h : Paired (· ∈ escapedChars) name)
    (hwhole : upToMark isHash isEscape false (cleanName name) = cleanName name) : '#' ∉ name := by
  revert hwhole
  apply h.cleanName_cases (motive := fun name =>
    upToMark isHash isEscape false (cleanName name) = cleanName name → '#' ∉ name)
  · exact fun _ => not_mem_nil
  · intro c name hc hne ih hwhole
    rw [cleanName_plain hc, upToMark] at hwhole
    by_cases hmark : (isHash c && !false) = true
    · rw [if_pos hmark] at hwhole
      exact absurd hwhole.symm (cons_ne_nil _ _)
    · rw [if_neg hmark, show isEscape c = false from beq_eq_false_iff_ne.2 hne] at hwhole
      have hhash : '#' ≠ c := by
        intro heq
        rw [← heq] at hmark
        exact hmark rfl
      exact not_mem_cons_of_ne_of_not_mem hhash (ih (List.cons.inj hwhole).2)
  · intro c name hc ih hwhole
    rw [cleanName_escaped hc, upToMark, upToMark, isHash_of_escaped hc, isEscape_of_escaped hc] at hwhole
    have hhash : '#' ≠ c := fun heq => absurd (isHash_of_escaped hc) (by rw [← heq]; decide)
    exact not_mem_cons_of_ne_of_not_mem hhash (ih (List.cons.inj (List.cons.inj hwhole).2).2)
  · intro c name hc ih hwhole
    rw [cleanName_pair hc, upToMark, upToMark, upToMark, isHash_of_escaped hc, isEscape_of_escaped hc] at hwhole
    have hhash : '#' ≠ c := fun heq => absurd (isHash_of_escaped hc) (by rw [← heq]; decide)
    have hrest := (List.cons.inj (List.cons.inj (List.cons.inj hwhole).2).2).2
    exact not_mem_cons_of_ne_of_not_mem (by decide) (not_mem_cons_of_ne_of_not_mem hhash (ih hrest))

theorem eq_space_of_escaped (hc : c ∈ escapedChars) (hblank : isBlank c = true) : c = ' ' := by
  simp only [escapedChars, mem_cons, not_mem_nil, or_false] at hc
  rcases hc with rfl | rfl | rfl | rfl | rfl
  · rfl
  all_goals exact absurd hblank (by decide)

theorem pieces_pair {rest : Text} (hc : c ∈ escapedChars) {e : Bool} :
    pieces isBlank isEscape e cur ('\\' :: c :: rest) = pieces isBlank isEscape false (cur ++ ['\\', c]) rest := by
  have hblank : isBlank '\\' = false := by decide
  have hescape : isEscape '\\' = true := by decide
  rw [pieces, hblank, hescape, Bool.false_and, if_neg Bool.false_ne_true, pieces, Bool.not_true, Bool.and_false,
    if_neg Bool.false_ne_true, isEscape_of_escaped hc, append_assoc]
  rfl

theorem pieces_cleanName (h : Paired (· ∈ escapedChars) name) :
    (pieces isBlank isEscape false cur (cleanName name) = [cur ++ cleanName name] ∧
        ∀ c ∈ name, isBlank c = true → c = ' ') ∨
      1 < (pieces isBlank isEscape false cur (cleanName name)).length ∧ ∃ c ∈ name, isBlank c = true ∧ c ≠ ' ' := by
  revert cur
  apply h.cleanName_cases (motive := fun name => ∀ {cur : Text},
    (pieces isBlank isEscape false cur (cleanName name) = [cur ++ cleanName name] ∧
        ∀ c ∈ name, isBlank c = true → c = ' ') ∨
      1 < (pieces isBlank isEscape false cur (cleanName name)).length ∧ ∃ c ∈ name, isBlank c = true ∧ c ≠ ' ')
  · intro cur
    exact Or.inl ⟨by rw [cleanName_nil, append_nil]; rfl, fun c hc => absurd hc not_mem_nil⟩
  · intro c name hc hne ih cur
    have hnospace : c ≠ ' ' := fun heq => hc (by rw [heq]; decide)
    rw [cleanName_plain hc, pieces, show isEscape c = false from beq_eq_false_iff_ne.2 hne, Bool.not_false,
      Bool.and_true]
    by_cases hblank : isBlank c = true
    · have hpos := length_pos_iff.2 (@pieces_ne_nil _ isBlank isEscape false [] (cleanName name))
      rw [if_pos hblank]
      exact Or.inr ⟨by rw [length_cons]; omega, c, mem_cons_self, hblank, hnospace⟩
    · rw [if_neg hblank]
      have hnext := @ih (cur ++ [c])
      rw [append_assoc, singleton_append] at hnext
      refine hnext.imp (fun hone => ⟨hone.1, ?_⟩) fun hmany => ⟨hmany.1, ?_⟩
      · exact forall_mem_cons.2 ⟨fun h => absurd h hblank, hone.2⟩
      · obtain ⟨d, hd, hrest⟩ := hmany.2
        exact ⟨d, mem_cons_of_mem c hd, hrest⟩
  · intro c name hc ih cur
    rw [cleanName_escaped hc, pieces_pair hc]
    have hnext := @ih (cur ++ ['\\', c])
    rw [append_assoc] at hnext
    refine hnext.imp (fun hone => ⟨hone.1, ?_⟩) fun hmany => ⟨hmany.1, ?_⟩
    · exact forall_mem_cons.2 ⟨eq_space_of_escaped hc, hone.2⟩
    · obtain ⟨d, hd, hrest⟩ := hmany.2
      exact ⟨d, mem_cons_of_mem c hd, hrest⟩
  · intro c name hc ih cur
    have hfirst : pieces isBlank isEscape false cur ('\\' :: '\\' :: c :: cleanName name) =
        pieces isBlank isEscape true (cur ++ ['\\']) ('\\' :: c :: cleanName name) := rfl
    rw [cleanName_pair hc, hfirst, pieces_pair hc]
    have hnext := @ih (cur ++ ['\\'] ++ ['\\', c])
    rw [append_assoc, append_assoc] at hnext
    rw [append_assoc]
    refine hnext.imp (fun hone => ⟨hone.1, ?_⟩) fun hmany => ⟨hmany.1, ?_⟩
    · exact forall_mem_cons.2 ⟨fun h => absurd h (by decide),
        forall_mem_cons.2 ⟨eq_space_of_escaped hc, hone.2⟩⟩
    · obtain ⟨d, hd, hrest⟩ := hmany.2
      exact ⟨d, mem_cons_of_mem _ (mem_cons_of_mem c hd), hrest⟩

theorem escapedAfter_cleanName (h : Paired (· ∈ escapedChars) name) : escapedAfter isEscape false (cleanName name) = false := by
  apply h.cleanName_cases (motive := fun name => escapedAfter isEscape false (cleanName name) = false)
  · rfl
  · intro c name hc hne ih
    rwa [cleanName_plain hc, escapedAfter, show isEscape c = false from beq_eq_false_iff_ne.2 hne]
  · intro c name hc ih
    rwa [cleanName_escaped hc, escapedAfter, escapedAfter, isEscape_of_escaped hc]
  · intro c name hc ih
    rwa [cleanName_pair hc, escapedAfter, escapedAfter, escapedAfter, isEscape_of_escaped hc]

end Paired

/-! ## The elements of a faithful name -/

theorem unitElement_plain (hany : c ≠ '?') (hstar : c ≠ '*') : unitElement (c, false) = .char c := by
  rw [unitElement, if_neg hany, if_neg hstar]

theorem mem_escapedChars (hc : c ∈ [' ', ']', '!']) : c ∈ escapedChars := by
  simp only [mem_cons, not_mem_nil, or_false] at hc
  rcases hc with rfl | rfl | rfl <;> decide

theorem elements_cleanName (h : Paired (· ∈ [' ', ']', '!']) name) (hany : '?' ∉ name) :
    elements 0 (cleanName name) = some (name.map .char) := by
  have hunits : (units false (cleanName name)).map unitElement = name.map .char ∧
      ('[', false) ∉ units false (cleanName name) ∧ quotedAfter false (cleanName name) = false := by
    induction h with
    | nil => exact ⟨rfl, not_mem_nil, rfl⟩
    | @plain c name hne _ ih =>
      obtain ⟨hmap, hbracket, hafter⟩ := ih fun hmem => hany (mem_cons_of_mem c hmem)
      by_cases hc : c ∈ escapedChars
      · rw [units_escaped hc, cleanName_escaped hc]
        refine ⟨congrArg (Element.char c :: ·) hmap, ?_, hafter⟩
        exact not_mem_cons_of_ne_of_not_mem (fun heq => Bool.false_ne_true (Prod.ext_iff.1 heq).2) hbracket
      · have hnotany : c ≠ '?' := fun heq => hany (by rw [heq]; exact mem_cons_self)
        have hnotstar : c ≠ '*' := fun heq => hc (by rw [heq]; decide)
        have hnotbracket : c ≠ '[' := fun heq => hc (by rw [heq]; decide)
        rw [units_plain hc hne, cleanName_plain hc, map_cons, unitElement_plain hnotany hnotstar, hmap]
        refine ⟨rfl, ?_, ?_⟩
        · exact not_mem_cons_of_ne_of_not_mem (fun heq => hnotbracket (Prod.ext_iff.1 heq).1.symm) hbracket
        · rwa [quotedAfter, beq_eq_false_iff_ne.2 hne]
    | @pair c name hc _ ih =>
      obtain ⟨hmap, hbracket, hafter⟩ := ih fun hmem =>
        hany (mem_cons_of_mem _ (mem_cons_of_mem c hmem))
      have hescaped := mem_escapedChars hc
      have hspecial : c ≠ '?' ∧ c ≠ '*' ∧ c ≠ '[' := by
        simp only [mem_cons, not_mem_nil, or_false] at hc
        rcases hc with rfl | rfl | rfl <;> decide
      rw [units_backslash, units_quoted_escaped hescaped, cleanName_pair hescaped, map_cons, map_cons,
        unitElement_plain hspecial.1 hspecial.2.1, hmap]
      refine ⟨rfl, ?_, ?_⟩
      · apply not_mem_cons_of_ne_of_not_mem (fun heq => Bool.false_ne_true (Prod.ext_iff.1 heq).2)
        exact not_mem_cons_of_ne_of_not_mem (fun heq => hspecial.2.2 (Prod.ext_iff.1 heq).1.symm) hbracket
      · rw [quotedAfter, beq_iff_eq.2 rfl, quotedAfter, quotedAfter, beq_eq_false_iff_ne.2 (ne_backslash hescaped)]
        exact hafter
  obtain ⟨hmap, hbracket, hafter⟩ := hunits
  rw [elements_eq hbracket, hafter, if_neg Bool.false_ne_true, hmap]

theorem fnmatch_cleanName (h : Faithful name) : fnmatch (cleanName name) text = true ↔ text = name := by
  have hany : '?' ∉ name := fun hmem => h.chars '?' hmem mem_cons_self
  rw [fnmatch, elements_cleanName h.paired hany]
  exact accepts_literals

theorem Faithful.hash_notMem (h : Faithful name) : '#' ∉ name := fun hmem =>
  h.chars '#' hmem (by decide)

theorem Faithful.strip (h : Faithful name) : stripComment (cleanName name) = cleanName name := by
  refine upToMark_of_none fun c hc => beq_eq_false_iff_ne.2 fun heq => ?_
  rw [heq] at hc
  rcases mem_cleanName hc with hmem | hback
  · exact h.hash_notMem hmem
  · exact absurd hback (by decide)

theorem Faithful.pieces (h : Faithful name) (hline : '\n' ∉ name) :
    pieces isBlank isEscape false [] (cleanName name) = [cleanName name] := by
  rcases @pieces_cleanName name [] (h.paired.mono fun c => mem_escapedChars) with hone | hmany
  · exact hone.1
  · obtain ⟨-, c, hc, hblank, hspace⟩ := hmany
    rcases mem_cons.1 (contains_iff_mem.1 hblank) with hmem | hmem
    · exact absurd hmem hspace
    · have hchars := h.chars c hc
      simp only [mem_cons, not_mem_nil, or_false, not_or] at hmem hchars
      rcases hmem with htab | hbreak | hreturn
      · exact absurd htab hchars.2.2.1
      · rw [hbreak] at hc
        exact absurd hc hline
      · exact absurd hreturn hchars.2.2.2

theorem mem_units_cleanName (h : Paired (· ∈ escapedChars) name) :
    ('?' ∈ name → ('?', false) ∈ units false (cleanName name)) ∧
      (('*', false) ∉ units false (cleanName name) → ('[', false) ∉ units false (cleanName name) →
        Paired (· ∈ [' ', ']', '!']) name) := by
  apply h.cleanName_cases (motive := fun name =>
    ('?' ∈ name → ('?', false) ∈ units false (cleanName name)) ∧
      (('*', false) ∉ units false (cleanName name) → ('[', false) ∉ units false (cleanName name) →
        Paired (· ∈ [' ', ']', '!']) name))
  · exact ⟨fun hmem => absurd hmem not_mem_nil, fun _ _ => .nil⟩
  · intro c name hc hne ih
    rw [units_plain hc hne]
    constructor
    · intro hmem
      rcases mem_cons.1 hmem with rfl | hmem
      · exact mem_cons_self
      · exact mem_cons_of_mem _ (ih.1 hmem)
    · intro hstar hbracket
      exact .plain hne (ih.2 (not_mem_of_not_mem_cons hstar) (not_mem_of_not_mem_cons hbracket))
  · intro c name hc ih
    rw [units_escaped hc]
    constructor
    · intro hmem
      rcases mem_cons.1 hmem with rfl | hmem
      · exact absurd hc (by decide)
      · exact mem_cons_of_mem _ (ih.1 hmem)
    · intro hstar hbracket
      exact .plain (ne_backslash hc)
        (ih.2 (not_mem_of_not_mem_cons hstar) (not_mem_of_not_mem_cons hbracket))
  · intro c name hc ih
    rw [units_backslash, units_quoted_escaped hc]
    constructor
    · intro hmem
      rcases mem_cons.1 hmem with heq | hmem
      · exact absurd heq (by decide)
      · rcases mem_cons.1 hmem with rfl | hmem
        · exact absurd hc (by decide)
        · exact mem_cons_of_mem _ (mem_cons_of_mem _ (ih.1 hmem))
    · intro hstar hbracket
      have hstar' := not_mem_of_not_mem_cons hstar
      have hbracket' := not_mem_of_not_mem_cons hbracket
      have hspecial : c ∈ [' ', ']', '!'] := by
        simp only [escapedChars, mem_cons, not_mem_nil, or_false] at hc
        rcases hc with rfl | rfl | rfl | rfl | rfl
        · decide
        · decide
        · exact absurd mem_cons_self hbracket'
        · exact absurd mem_cons_self hstar'
        · decide
      exact .pair hspecial (ih.2 (not_mem_of_not_mem_cons hstar') (not_mem_of_not_mem_cons hbracket'))

end ScoreP.Score
