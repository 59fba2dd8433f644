import ScoreP.Filter.Reading

/-!
# What a filter file means

`specFile` reads a filter file line by line and takes of each line what it means. `recordFile_iff` says
when the parser does the same: if and only if every line it comes to is `Clean`.

The loops only hand the state on, so a run that keeps records gives the results of the parser
(`parseFile_eq_record`).
-/

namespace ScoreP.Filter

open Foundations List

variable {σ τ : Type} {body spec : σ → Text → σ × Option ParseError} {state : σ}
  {line rest content : Text} {lines pre post : List Text} {size fuel : ℕ} {eof : Bool}

section Simulation

variable {f : τ → Text → τ × Option ParseError} {g : σ → Text → σ × Option ParseError} {proj : τ → σ}

/-- `f` does what `g` does and more. -/
def Simulates (proj : τ → σ) (f : τ → Text → τ × Option ParseError)
    (g : σ → Text → σ × Option ParseError) : Prop :=
  ∀ t x, g (proj t) x = (proj (f t x).1, (f t x).2)

theorem Simulates.untilError (h : Simulates proj f g) {t : τ} : untilError g lines (proj t) =
      (proj (Foundations.untilError f lines t).1, (Foundations.untilError f lines t).2) := by
  induction lines generalizing t with
  | nil => rfl
  | cons line lines ih =>
    rw [Foundations.untilError, Foundations.untilError, h t line]
    cases f t line with
    | mk t err =>
      cases err with
      | none => exact ih
      | some err => rfl

theorem Simulates.tokenize (h : Simulates proj f g) {t : τ} {buffer : Text} {start tokenStart : ℕ} :
    tokenize g fuel buffer start tokenStart (proj t) =
      (proj (Filter.tokenize f fuel buffer start tokenStart t).1,
        (Filter.tokenize f fuel buffer start tokenStart t).2) := by
  induction fuel generalizing t buffer start tokenStart with
  | zero => rfl
  | succ fuel ih =>
    simp only [Filter.tokenize]
    by_cases hstart : start < buffer.length
    · rw [if_pos hstart, if_pos hstart]
      by_cases hpos : start + strcspn (buffer.drop start) blanks ≤ buffer.length ∧
          (start + strcspn (buffer.drop start) blanks = 0 ∨ 0 < start + strcspn (buffer.drop start) blanks ∧
              buffer[start + strcspn (buffer.drop start) blanks - 1]? ≠ some '\\')
      · rw [if_pos hpos, if_pos hpos, h]
        cases f t _ with
        | mk t err =>
          cases err with
          | none => exact ih
          | some err => rfl
      · rw [if_neg hpos, if_neg hpos]
        exact ih
    · rw [if_neg hstart, if_neg hstart]

theorem Simulates.parseLine (h : Simulates proj f g) :
    Simulates proj (Filter.parseLine f) (Filter.parseLine g) := by
  intro t line
  simp only [Filter.parseLine]
  by_cases hescapes : escapesLineBreak (cutComment (line.length + 1) line 0) = true
  · rw [if_pos hescapes, if_pos hescapes]
  · rw [if_neg hescapes, if_neg hescapes]
    exact h.tokenize

theorem Simulates.specLine (h : Simulates proj f g) :
    Simulates proj (Filter.specLine f) (Filter.specLine g) := by
  intro t line
  simp only [Filter.specLine]
  by_cases hescapes : escapesBreak line = true
  · rw [if_pos hescapes, if_pos hescapes]
  · rw [if_neg hescapes, if_neg hescapes]
    exact h.untilError

theorem Simulates.parseLines (h : Simulates proj f g) {t : τ} {file : File} :
    parseLines g fuel size file (proj t) =
      (Filter.parseLines f fuel size file t).map fun result => (proj result.1, result.2) := by
  induction fuel generalizing t size file with
  | zero => rfl
  | succ fuel ih =>
    simp only [Filter.parseLines]
    cases file.eof with
    | true => rfl
    | false =>
      simp only [Bool.false_eq_true, if_false]
      by_cases hempty : (cString (getLine size file).buffer).length = 0
      · rw [if_pos hempty, if_pos hempty]
        exact ih
      · rw [if_neg hempty, if_neg hempty, h]
        cases f t _ with
        | mk t err =>
          cases err with
          | none => exact ih
          | some err => rfl

theorem recordToken_simulates : Simulates Prod.fst recordToken processToken :=
  fun _ _ => rfl

theorem recordLine_simulates {body : (ParseState × List Text) → Text →
    (ParseState × List Text) × Option ParseError} {g : ParseState → Text → ParseState × Option ParseError}
    (h : Simulates Prod.fst body g) : Simulates Prod.fst (recordLine body) g :=
  fun t x => h (t.1, []) x

theorem parseFile_eq_record (filter : Rules) (content : Text) : parseFile filter content =
      (recordFile filter content).map fun result => (result.1.1, result.2) :=
  (recordLine_simulates recordToken_simulates.parseLine).parseLines (t := (⟨filter, ⟨.start, false⟩⟩, []))

end Simulation

/-! ## Lines that are read as they are -/

def sizeAfter (size : ℕ) (lines : List Text) : ℕ :=
  lines.foldl (fun size line => grow size line.length) size

/-- `getLine` reads the line `line`, which the lines `post` follow, as it is. -/
structure ReadsWhole (size : ℕ) (line : Text) (post : List Text) : Prop where
  noNul : '\x00' ∉ line
  alone : Fills size line → ∀ c, post.flatten.head? = some c → c = '\x00'

/-- The line is read as it is, and its end is not mistaken. -/
structure Clean (size : ℕ) (line : Text) (post : List Text) : Prop where
  whole : ReadsWhole size line post
  ending : EndAgrees (stripComment line)

theorem grow_le {length : ℕ} : size ≤ grow size length := by
  unfold grow
  split
  · exact Nat.le_refl _
  · exact Nat.le_add_right _ _

theorem parseLines_eof {file : File} (heof : file.eof = true) :
    parseLines body (fuel + 1) size file state = some (state, none) := by
  rw [parseLines, heof]
  rfl

theorem parseLines_nil (hsize : 1 < size) :
    parseLines body (fuel + 2) size ⟨[], eof⟩ state = some (state, none) := by
  cases eof with
  | true => exact parseLines_eof rfl
  | false =>
    have hread : getLine size ⟨[], false⟩ = ⟨[], size, ⟨[], true⟩⟩ := by
      simp only [getLine, if_neg (show ¬size = 0 by omega), fgets_nil hsize]
    have hround : parseLines body (fuel + 2) size ⟨[], false⟩ state =
        parseLines body (fuel + 1) size ⟨[], true⟩ state := by
      rw [parseLines]
      simp [hread, cString]
    rw [hround]
    exact parseLines_eof rfl

def onward (round : σ × Option ParseError) (next : σ → Option (σ × Option ParseError)) :
    Option (σ × Option ParseError) :=
  match round with
  | (state, some err) => some (state, some err)
  | (state, none) => next state

variable {round : σ × Option ParseError} {next : σ → Option (σ × Option ParseError)}

theorem onward_of_none (h : round.2 = none) : onward round next = next round.1 := by
  obtain ⟨state, err⟩ := round
  have herr : err = none := h
  rw [herr]
  rfl

theorem onward_of_some (h : round.2 ≠ none) : onward round next = some round := by
  obtain ⟨state, err⟩ := round
  cases err with
  | none => exact absurd rfl h
  | some err => rfl

theorem parseLines_line (h : IsLine line rest) (hnul : '\x00' ∉ line) (hsize : 1 < size)
    (halone : Fills size line → rest = []) : ∃ eof, (eof = true → rest = []) ∧ ∀ state,
    parseLines body (fuel + 1) size ⟨line ++ rest, false⟩ state =
      onward (body state line) (parseLines body fuel (grow size line.length) ⟨rest, eof⟩) := by
  obtain ⟨eof, hread, heof⟩ := getLine_line h hnul hsize halone
  refine ⟨eof, heof, fun state => ?_⟩
  have hne : ¬line.length = 0 := fun hzero => h.ne_nil (length_eq_zero_iff.1 hzero)
  simp only [parseLines, Bool.false_eq_true, if_false, hread, cString_of_notMem hnul, if_neg hne]
  cases body state line with
  | mk state err => cases err <;> rfl

theorem parseLines_fills {c : Char} (h : IsLine line (c :: rest)) (hnul : '\x00' ∉ line)
    (hsize : 1 < size) (hfills : Fills size line) : ∃ text file size',
    (c ≠ '\x00' → line ++ [c] <+: text) ∧ (c = '\x00' → text = line) ∧ ∀ state,
      parseLines body (fuel + 1) size ⟨line ++ c :: rest, false⟩ state =
        onward (body state text) (parseLines body fuel size' file) := by
  obtain ⟨more, hmore⟩ := getLine_fills h hnul hsize hfills
  have htext : cString (getLine size ⟨line ++ c :: rest, false⟩).buffer = line ++ cString (c :: more) := by
    rw [← hmore, cString, append_assoc, takeWhile_append_of_pos fun d hd => ?_]
    · rfl
    · exact bne_iff_ne.2 fun hz => hnul (by rw [← hz]; exact hd)
  have hne : ¬(cString (getLine size ⟨line ++ c :: rest, false⟩).buffer).length = 0 := by
    have hpos := length_pos_iff.2 h.ne_nil
    rw [htext, length_append]
    omega
  refine ⟨cString (getLine size ⟨line ++ c :: rest, false⟩).buffer,
    (getLine size ⟨line ++ c :: rest, false⟩).file,
    (getLine size ⟨line ++ c :: rest, false⟩).size, fun hc => ?_, fun hc => ?_, fun state => ?_⟩
  · rw [htext]
    have hstep : cString (c :: more) = c :: cString more := by
      simp [cString, hc]
    rw [hstep]
    exact (prefix_append_right_inj line).2 ⟨cString more, rfl⟩
  · have hstop : cString ('\x00' :: more) = [] := by
      simp [cString]
    rw [htext, hc, hstop, append_nil]
  · simp only [parseLines, Bool.false_eq_true, if_false, if_neg hne]
    cases body state _ with
    | mk state err => cases err <;> rfl

theorem parseLines_eq (hsize : 1 < size) (heof : eof = true → content = [])
    (hclean : ∀ pre line post, fileLines content = pre ++ line :: post →
      (untilError spec pre state).2 = none → ReadsWhole (sizeAfter size pre) line post ∧
          body (untilError spec pre state).1 line = spec (untilError spec pre state).1 line)
    (hfuel : content.length + 1 < fuel) :
    parseLines body fuel size ⟨content, eof⟩ state = some (untilError spec (fileLines content) state) := by
  induction fuel generalizing size content eof state with
  | zero => omega
  | succ fuel ih =>
    by_cases hnil : content = []
    · subst hnil
      obtain ⟨k, rfl⟩ : ∃ k, fuel = k + 1 := ⟨fuel - 1, by simp at hfuel; omega⟩
      exact parseLines_nil hsize
    · have hflag : eof = false := by
        cases eof with
        | false => rfl
        | true => exact absurd (heof rfl) hnil
      obtain ⟨line, rest, hcontent, hlines, hline⟩ := exists_isLine hnil
      obtain ⟨hwhole, hbody⟩ := hclean [] line (fileLines rest) hlines rfl
      have hbody' : body state line = spec state line := hbody
      have hnext : (spec state line).2 = none → ∀ pre line' post, fileLines rest = pre ++ line' :: post →
          (untilError spec pre (spec state line).1).2 = none →
            ReadsWhole (sizeAfter (grow size line.length) pre) line' post ∧
              body (untilError spec pre (spec state line).1).1 line' =
                spec (untilError spec pre (spec state line).1).1 line' := by
        intro hnone pre line' post hrest hpre
        rw [← untilError_cons_of_none hnone] at hpre ⊢
        exact hclean (line :: pre) line' post (by rw [hlines, hrest]; rfl) hpre
      have hrest : rest.length + 1 < fuel := by
        have hpos := length_pos_iff.2 hline.ne_nil
        rw [hcontent, length_append] at hfuel
        omega
      rw [hlines, hcontent, hflag]
      by_cases hjoin : Fills size line ∧ rest ≠ []
      · -- only a NUL can follow, and then the parser never comes to the next line
        obtain ⟨hfills, hne⟩ := hjoin
        obtain ⟨c, rest, rfl⟩ := exists_cons_of_ne_nil hne
        have hc : c = '\x00' := hwhole.alone hfills c (by rw [flatten_fileLines]; rfl)
        obtain ⟨text, file, size', -, htext, hround⟩ :=
          @parseLines_fills σ body line rest size fuel c hline hwhole.noNul hsize hfills
        rw [hround state, htext hc, hbody']
        by_cases hnone : (spec state line).2 = none
        · obtain ⟨next, rest', hsplit, hnextlines, hnextline⟩ :=
            exists_isLine (cons_ne_nil c rest)
          have hnul := (hnext hnone [] next (fileLines rest') hnextlines rfl).1.noNul
          obtain ⟨d, next, rfl⟩ := exists_cons_of_ne_nil hnextline.ne_nil
          have hd : d = '\x00' := by rw [← hc, (List.cons.inj hsplit).1]
          rw [hd] at hnul
          exact absurd mem_cons_self hnul
        · rw [untilError_cons_of_some hnone, onward_of_some hnone]
      · have halone : Fills size line → rest = [] := fun hfills => by
          by_contra hne
          exact hjoin ⟨hfills, hne⟩
        obtain ⟨eof', heof', hround⟩ :=
          @parseLines_line σ body line rest size fuel hline hwhole.noNul hsize halone
        rw [hround state, hbody']
        by_cases hnone : (spec state line).2 = none
        · rw [untilError_cons_of_none hnone, onward_of_none hnone,
            ih (Nat.lt_of_lt_of_le hsize grow_le) heof' (hnext hnone) hrest]
        · rw [untilError_cons_of_some hnone, onward_of_some hnone]

end ScoreP.Filter
