import ScoreP.Filter.Meaning

/-!
# When the filter parser reads a file as it is meant

`specFile` goes through the lines of a file and does with each what it means. `recordFile_iff` says when
the parser does the same: if and only if every line it comes to is `Clean`. Towards it, a line that is
not `Clean` leaves a different record behind, and records are only added (`LogExtends`).
-/

namespace ScoreP.Filter

open Foundations List

abbrev Log := ParseState × List LineRecord

def startState (filter : Rules) : ParseState := ⟨filter, ⟨.start, false⟩⟩

def specFile (filter : Rules) (content : Text) : Log × Option ParseError :=
  untilError (recordLine (specLine recordToken)) (fileLines content) (startState filter, [])

def AllClean (filter : Rules) (content : Text) : Prop :=
  ∀ pre line post, fileLines content = pre ++ line :: post →
    (untilError (specLine processToken) pre (startState filter)).2 = none →
      Clean (sizeAfter bufferSize pre) line post

variable {body : (ParseState × List Text) → Text → (ParseState × List Text) × Option ParseError}
  {filter : Rules} {log : Log} {line rest content : Text} {lines pre post : List Text}
  {size fuel : ℕ} {eof : Bool}

/-! ## Records are only added -/

def LogExtends (log log' : Log) : Prop := log.2 <+: log'.2

def NulFree (log : Log) : Prop := ∀ record ∈ log.2, '\x00' ∉ record.line

theorem LogExtends.refl : LogExtends log log :=
  prefix_refl _

theorem LogExtends.trans {log' log'' : Log} (h : LogExtends log log') (h' : LogExtends log' log'') :
    LogExtends log log'' :=
  List.IsPrefix.trans h h'

theorem recordLine_extends : LogExtends log (recordLine body log line).1 :=
  prefix_append _ _

theorem recordLine_nulFree (hlog : NulFree log) (hline : '\x00' ∉ line) :
    NulFree (recordLine body log line).1 := by
  intro record hrecord
  obtain h | h := mem_append.1 hrecord
  · exact hlog record h
  · rw [mem_singleton.1 h]
    exact hline

variable {file : File}

theorem parseLines_invariant {σ : Type} {f : σ → Text → σ × Option ParseError} {P : σ → Prop}
    (hstep : ∀ s text, P s → P (f s (cString text)).1) {state : σ} (hstate : P state)
    {out : σ × Option ParseError} (hout : parseLines f fuel size file state = some out) : P out.1 := by
  induction fuel generalizing size file state with
  | zero => exact nomatch hout
  | succ fuel ih =>
    simp only [parseLines] at hout
    by_cases heof : file.eof = true
    · rw [if_pos heof] at hout
      rw [← Option.some.inj hout]
      exact hstate
    · rw [if_neg heof] at hout
      by_cases hempty : (cString (getLine size file).buffer).length = 0
      · rw [if_pos hempty] at hout
        exact ih hstate hout
      · rw [if_neg hempty] at hout
        have hnext := hstep state (getLine size file).buffer hstate
        cases hround : f state (cString (getLine size file).buffer) with
        | mk state' err =>
          rw [hround] at hout hnext
          cases err with
          | none => exact ih hnext hout
          | some err =>
            rw [← Option.some.inj hout]
            exact hnext

variable {out : Log × Option ParseError}

theorem parseLines_extends (hout : parseLines (recordLine body) fuel size file log = some out) :
    LogExtends log out.1 :=
  parseLines_invariant (fun _ _ h => LogExtends.trans h recordLine_extends) LogExtends.refl hout

theorem parseLines_nulFree (hlog : NulFree log)
    (hout : parseLines (recordLine body) fuel size file log = some out) : NulFree out.1 :=
  parseLines_invariant (fun _ _ h => recordLine_nulFree h cString_notMem) hlog hout

theorem untilError_extends : LogExtends log (untilError (recordLine body) lines log).1 :=
  untilError_invariant (fun _ _ _ h => LogExtends.trans h recordLine_extends) LogExtends.refl

theorem untilError_cons_extends :
    LogExtends (recordLine body log line).1 (untilError (recordLine body) (line :: lines) log).1 := by
  by_cases hnone : (recordLine body log line).2 = none
  · rw [untilError_cons_of_none hnone]
    exact untilError_extends
  · rw [untilError_cons_of_some hnone]
    exact LogExtends.refl

theorem round_extends {text : Text}
    (hout : onward (recordLine body log text) (parseLines (recordLine body) fuel size file) = some out) :
    LogExtends (recordLine body log text).1 out.1 := by
  cases hround : recordLine body log text with
  | mk log' err =>
    rw [hround] at hout
    cases err with
    | none => exact parseLines_extends hout
    | some err =>
      rw [← Option.some.inj hout]
      exact LogExtends.refl

theorem ne_of_records {body' : (ParseState × List Text) → Text → (ParseState × List Text) × Option ParseError}
    {text text' : Text} {out out' : Log × Option ParseError} (h : LogExtends (recordLine body log text).1 out.1)
    (h' : LogExtends (recordLine body' log text').1 out'.1)
    (hne : text ≠ text' ∨ (recordLine body log text).2 ≠ (recordLine body' log text').2) : out ≠ out' := by
  intro heq
  rw [heq] at h
  have hlength : (recordLine body log text).1.2.length = (recordLine body' log text').1.2.length := by
    simp [recordLine]
  have hlogs : (recordLine body log text).1.2 = (recordLine body' log text').1.2 :=
    (prefix_of_prefix_length_le h h' (Nat.le_of_eq hlength)).eq_of_length hlength
  have hrecord := append_cancel_left hlogs
  obtain ⟨hline, -, herror⟩ := LineRecord.mk.inj (singleton_inj.1 hrecord)
  obtain hne | hne := hne
  · exact hne hline
  · exact hne herror

/-! ## Lines that are not clean -/

theorem recordToken_nil (state : ParseState × List Text) : recordToken state [] = (state, none) :=
  rfl

theorem processToken_error (state : ParseState) (token : Text) : (processToken state token).2 = none ∨
      (processToken state token).2 = some (.unexpectedToken token) := by
  simp only [processToken]
  repeat' split
  all_goals first | exact Or.inl rfl | exact Or.inr rfl

theorem recordToken_error (state : ParseState × List Text) (token : Text) :
    (recordToken state token).2 ≠ some .escapedLineBreak := by
  intro h
  obtain herror | herror := processToken_error state.1 token
  · exact absurd (herror.symm.trans h) (by simp)
  · exact absurd (herror.symm.trans h) (by simp)

theorem recordLine_eq (h : Clean size line post) :
    recordLine (parseLine recordToken) log line = recordLine (specLine recordToken) log line := by
  have hline : parseLine recordToken (log.1, []) line = specLine recordToken (log.1, []) line :=
    parseLine_eq_specLine recordToken_nil h.whole.noNul h.ending
  unfold recordLine
  rw [hline]

theorem recordLine_ne (hnul : '\x00' ∉ line) (hend : ¬EndAgrees (stripComment line)) :
    (recordLine (parseLine recordToken) log line).2 ≠ (recordLine (specLine recordToken) log line).2 :=
  parseLine_ne_specLine recordToken_nil recordToken_error hnul hend

theorem not_nulFree (hnul : '\x00' ∈ line) {log' : Log}
    (h : LogExtends (recordLine body log line).1 log') : ¬NulFree log' := fun hfree =>
  hfree _ (h.subset (mem_append_right _ (mem_singleton.2 rfl))) hnul

theorem parseLines_reads {σ : Type} {f : σ → Text → σ × Option ParseError} (h : IsLine line rest)
    (hwhole : ReadsWhole size line (fileLines rest)) (hsize : 1 < size) : ∃ file size', ∀ state,
    parseLines f (fuel + 1) size ⟨line ++ rest, false⟩ state =
      onward (f state line) (parseLines f fuel size' file) := by
  by_cases hjoin : Fills size line ∧ rest ≠ []
  · obtain ⟨hfills, hne⟩ := hjoin
    obtain ⟨c, rest, rfl⟩ := exists_cons_of_ne_nil hne
    have hc : c = '\x00' := hwhole.alone hfills c (by rw [flatten_fileLines]; rfl)
    obtain ⟨text, file, size', -, htext, hround⟩ :=
      @parseLines_fills σ f line rest size fuel c h hwhole.noNul hsize hfills
    rw [htext hc] at hround
    exact ⟨file, size', hround⟩
  · obtain ⟨eof, -, hround⟩ := @parseLines_line σ f line rest size fuel h hwhole.noNul hsize
      fun hfills => by
        by_contra hne
        exact hjoin ⟨hfills, hne⟩
    exact ⟨⟨rest, eof⟩, _, hround⟩

theorem parseLines_ne_first (hsize : 1 < size) (hlog : NulFree log) (hline : IsLine line rest)
    (hbad : ¬Clean size line (fileLines rest)) :
    parseLines (recordLine (parseLine recordToken)) fuel size ⟨line ++ rest, false⟩ log ≠
      some (untilError (recordLine (specLine recordToken)) (line :: lines) log) := by
  intro hout
  cases fuel with
  | zero => exact nomatch hout
  | succ fuel =>
    by_cases hnul : '\x00' ∈ line
    · exact not_nulFree hnul untilError_cons_extends (parseLines_nulFree hlog hout)
    · by_cases hwhole : ReadsWhole size line (fileLines rest)
      · have hend : ¬EndAgrees (stripComment line) := fun hend => hbad ⟨hwhole, hend⟩
        obtain ⟨file, size', hround⟩ := @parseLines_reads line rest size fuel _
          (recordLine (parseLine recordToken)) hline hwhole hsize
        rw [hround log] at hout
        exact ne_of_records (round_extends hout) untilError_cons_extends
          (Or.inr (recordLine_ne hnul hend)) rfl
      · -- the line is read together with what follows it
        have hjoin : Fills size line ∧ ∃ c, (fileLines rest).flatten.head? = some c ∧ c ≠ '\x00' := by
          by_contra hnot
          refine hwhole ⟨hnul, fun hfills c hc => ?_⟩
          by_contra hne
          exact hnot ⟨hfills, c, hc, hne⟩
        obtain ⟨hfills, c, hhead, hc⟩ := hjoin
        rw [flatten_fileLines] at hhead
        obtain ⟨rest, rfl⟩ : ∃ tail, rest = c :: tail := by
          cases rest with
          | nil => exact nomatch hhead
          | cons d tail => exact ⟨tail, by rw [Option.some.inj hhead]⟩
        obtain ⟨text, file, size', htext, -, hround⟩ := @parseLines_fills _
          (recordLine (parseLine recordToken)) line rest size fuel c hline hnul hsize hfills
        rw [hround log] at hout
        refine ne_of_records (round_extends hout) untilError_cons_extends (Or.inl ?_) rfl
        intro heq
        have hle := (htext hc).length_le
        rw [heq, length_append, length_singleton] at hle
        omega

theorem exists_head (hlines : fileLines content = line :: post) (heof : eof = true → content = []) :
    ∃ rest, content = line ++ rest ∧ post = fileLines rest ∧ IsLine line rest ∧ eof = false := by
  have hnil : content ≠ [] := by
    rintro rfl
    cases hlines
  obtain ⟨first, rest, hcontent, hfirst, hline⟩ := exists_isLine hnil
  cases hfirst.symm.trans hlines
  exact ⟨rest, hcontent, rfl, hline, Bool.eq_false_iff.2 fun h => hnil (heof h)⟩

theorem parseLines_ne (hsize : 1 < size) (hlog : NulFree log) (hlines : fileLines content = pre ++ line :: post)
    (hpre : (untilError (recordLine (specLine recordToken)) pre log).2 = none)
    (hbad : ¬Clean (sizeAfter size pre) line post) (heof : eof = true → content = []) :
    parseLines (recordLine (parseLine recordToken)) fuel size ⟨content, eof⟩ log ≠
      some (untilError (recordLine (specLine recordToken)) (fileLines content) log) := by
  induction pre generalizing size content log eof fuel with
  | nil =>
    obtain ⟨rest, rfl, rfl, hline, rfl⟩ := exists_head hlines heof
    rw [hlines]
    exact parseLines_ne_first hsize hlog hline hbad
  | cons head pre ih =>
    rw [cons_append] at hlines
    obtain ⟨rest, rfl, htail, hline, rfl⟩ := exists_head hlines heof
    rw [hlines, htail]
    by_cases hclean : Clean size head (fileLines rest)
    · cases fuel with
      | zero => exact fun h => nomatch h
      | succ fuel =>
        have hnone : (recordLine (specLine recordToken) log head).2 = none := by
          by_contra hsome
          rw [untilError_cons_of_some hsome] at hpre
          exact hsome hpre
        rw [untilError_cons_of_none hnone] at hpre
        have hnext : NulFree (recordLine (specLine recordToken) log head).1 :=
          recordLine_nulFree hlog hclean.whole.noNul
        rw [untilError_cons_of_none hnone]
        by_cases hjoin : Fills size head ∧ rest ≠ []
        · -- a NUL follows, and the lines mean something with it
          obtain ⟨hfills, hne⟩ := hjoin
          obtain ⟨c, rest, rfl⟩ := exists_cons_of_ne_nil hne
          have hc : c = '\x00' := hclean.whole.alone hfills c (by rw [flatten_fileLines]; rfl)
          obtain ⟨next, rest', hsplit, hnextlines, hnextline⟩ :=
            exists_isLine (cons_ne_nil c rest)
          have hnul : '\x00' ∈ next := by
            obtain ⟨d, next, rfl⟩ := exists_cons_of_ne_nil hnextline.ne_nil
            have hd : d = '\x00' := by rw [← hc, (List.cons.inj hsplit).1]
            rw [hd]
            exact mem_cons_self
          intro hout
          rw [hnextlines] at hout
          exact not_nulFree hnul untilError_cons_extends (parseLines_nulFree hlog hout)
        · obtain ⟨eof', heof', hround⟩ := @parseLines_line _ (recordLine (parseLine recordToken)) head
            rest size fuel hline hclean.whole.noNul hsize fun hfills => by
              by_contra hne
              exact hjoin ⟨hfills, hne⟩
          rw [hround log, recordLine_eq hclean, onward_of_none hnone]
          exact ih (Nat.lt_of_lt_of_le hsize grow_le) hnext htail.symm hpre hbad heof'
    · exact parseLines_ne_first hsize hlog hline hclean

/-! ## The whole file -/

theorem getLine_zero : getLine 0 file = getLine bufferSize file :=
  rfl

theorem parseLines_zero {σ : Type} {f : σ → Text → σ × Option ParseError} {state : σ} :
    parseLines f (fuel + 1) 0 ⟨content, eof⟩ state =
      parseLines f (fuel + 1) bufferSize ⟨content, eof⟩ state := by
  rw [parseLines, parseLines, getLine_zero]

theorem specFile_state {state : ParseState} {records : List LineRecord} :
    untilError (specLine processToken) lines state =
      ((untilError (recordLine (specLine recordToken)) lines (state, records)).1.1,
        (untilError (recordLine (specLine recordToken)) lines (state, records)).2) :=
  (recordLine_simulates recordToken_simulates.specLine).untilError (t := (state, records))

theorem recordFile_iff : recordFile filter content = some (specFile filter content) ↔
    AllClean filter content := by
  unfold recordFile specFile
  rw [show content.length + 2 = content.length + 1 + 1 from rfl, parseLines_zero]
  constructor
  · intro hout pre line post hlines hpre
    by_contra hbad
    rw [@specFile_state pre _ []] at hpre
    have hempty : NulFree (startState filter, []) := fun record h => absurd h not_mem_nil
    have hflag : false = true → content = [] := fun h => absurd h (by decide)
    exact parseLines_ne (by decide) hempty hlines hpre hbad hflag hout
  · intro hclean
    refine parseLines_eq (by decide) (fun h => nomatch h) (fun pre line post hlines hpre => ?_)
      (Nat.lt_succ_self _)
    have hline := hclean pre line post hlines (by rw [@specFile_state pre _ []]; exact hpre)
    exact ⟨hline.whole, recordLine_eq hline⟩

end ScoreP.Filter
