import ScoreP.Filter.Reading

/-!
# Reading a file line by line

Source: `UTILS_IO_GetLine` in `src/common/utils/src/io/UTILS_IO_Tools.c`, with the code it returns. What
it leaves in the buffer is the `growBuffer` of the filter parser's model (`readOn_snd`). Reading does not
fail but at the end of the file, and there is always memory.

Whether to read on is decided by the length of the string, so a line that fills the buffer to the last
character is read on although it has its line break. `delivers_iff` says that this is the only thing
that goes wrong.
-/

namespace ScoreP.IoTools

open List

open Filter (Text File Line IsLine Fills bufferSize cString grow fileLines)

/-- The codes of `UTILS_IO_GetLine` but the one for missing memory. -/
inductive ErrorCode where
  | success
  | endOfBuffer
  | fileInteraction
deriving DecidableEq

/-- What `fgets` at the end of the file is answered with. -/
def endCode (file : File) : ErrorCode :=
  if file.eof then .endOfBuffer else .fileInteraction

/-- `fgets` with room for the NUL only reads nothing and succeeds. -/
def fgets (n : ℕ) (file : File) : Option Text × File :=
  if n = 1 then (some [], file) else Filter.fgets n file

def readOn : ℕ → Line → ErrorCode × Line
  | 0, line => (.success, line)
  | fuel + 1, line =>
    if (cString line.buffer).length = line.size - 1 then
      match fgets (bufferSize + 1) line.file with
      | (none, file) => (endCode file, { line with size := line.size + bufferSize, file := file })
      | (some more, file) => readOn fuel ⟨line.buffer ++ more, line.size + bufferSize, file⟩
    else (.success, line)

/-- The size of the buffer once it is there; `*buffer` may be NULL. -/
def initialSize (buffer : Option Text) (size : ℕ) : ℕ :=
  if buffer = none ∨ size = 0 then bufferSize else size

def getLine (buffer : Option Text) (size : ℕ) (file : File) : ErrorCode × Line :=
  match fgets (initialSize buffer size) file with
  | (none, file) => (endCode file, ⟨[], initialSize buffer size, file⟩)
  | (some line, file) => readOn (file.rest.length + 1) ⟨line, initialSize buffer size, file⟩

def getLines : ℕ → Option Text → ℕ → File → Option (List (ErrorCode × Text))
  | 0, _, _, _ => none
  | fuel + 1, buffer, size, file =>
    let (code, line) := getLine buffer size file
    if code = .success then
      (getLines fuel (some line.buffer) line.size line.file).map ((code, line.buffer) :: ·)
    else some [(code, line.buffer)]

/-! ## One line -/

variable {line rest content buffer more : Text} {size m n fuel : ℕ} {file : File} {c : Char} {eof : Bool}

theorem fgets_of_lt (hn : 1 < n) : fgets n file = Filter.fgets n file :=
  if_neg hn.ne'

theorem readOn_snd {line : Line} : (readOn fuel line).2 = Filter.growBuffer fuel line := by
  induction fuel generalizing line with
  | zero => rfl
  | succ fuel ih =>
    rw [readOn, Filter.growBuffer, fgets_of_lt (by decide)]
    by_cases hfull : (cString line.buffer).length = line.size - 1
    · rw [if_pos hfull, if_pos hfull]
      cases Filter.fgets (bufferSize + 1) line.file with
      | mk more file =>
        cases more with
        | none => rfl
        | some more => exact ih
    · rw [if_neg hfull, if_neg hfull]

theorem readOn_fst (h : IsLine line rest) (hnul : '\x00' ∉ line)
    (halone : Fills (m + 1) line → rest = []) (heof : eof = true → line.drop m ++ rest = [])
    (hfuel : (line.drop m ++ rest).length < fuel) :
    ((readOn fuel ⟨line.take m, m + 1, ⟨line.drop m ++ rest, eof⟩⟩).1 = .success ∧ ¬Fills (m + 1) line) ∨
      ((readOn fuel ⟨line.take m, m + 1, ⟨line.drop m ++ rest, eof⟩⟩).1 = .endOfBuffer ∧
        Fills (m + 1) line) := by
  induction fuel generalizing m eof with
  | zero => omega
  | succ fuel ih =>
    have hsize : bufferSize = 1024 := rfl
    rw [readOn]
    by_cases hm : m ≤ line.length
    · have hfull : (cString (line.take m)).length = m + 1 - 1 := by
        rw [Filter.cString_take hnul, length_take]
        omega
      rw [if_pos hfull, fgets_of_lt (by decide)]
      by_cases hdrop : line.drop m = []
      · -- the line ends where the buffer does
        have hlength : line.length = m := by
          have hzero := congrArg List.length hdrop
          rw [length_drop, length_nil] at hzero
          omega
        have hfills : Fills (m + 1) line := ⟨by omega, by rw [hlength]; simp⟩
        have hrest : rest = [] := halone hfills
        subst hrest
        rw [hdrop, append_nil, Filter.fgets_nil (by decide)]
        exact Or.inr ⟨rfl, hfills⟩
      · obtain ⟨eof', hread, heof'⟩ := Filter.fgets_line (n := bufferSize + 1) (h.drop hdrop) (by decide)
        have hflag : eof = false := by
          cases eof with
          | false => rfl
          | true => exact absurd (append_eq_nil_iff.1 (heof rfl)).1 hdrop
        rw [Nat.add_sub_cancel, drop_drop] at hread heof'
        have hnext : m + 1 + bufferSize = m + bufferSize + 1 := by omega
        rw [hflag, hread]
        dsimp only
        rw [← take_add, hnext]
        by_cases hmore : m + bufferSize ≤ line.length
        · rw [Fills.of_le hmore]
          refine ih (fun hfills => halone ((Fills.of_le hmore).2 hfills)) heof' ?_
          simp only [length_append, length_drop] at hfuel ⊢
          omega
        · have hlong : m < line.length := by
            have hpos := length_pos_iff.2 hdrop
            rw [length_drop] at hpos
            omega
          have hshort : ¬Fills (m + 1) line := by
            rintro ⟨-, hmod⟩
            rw [hsize] at hmod hmore
            omega
          have htake : line.take (m + bufferSize) = line := take_of_length_le (by omega)
          refine Or.inl ⟨?_, hshort⟩
          rw [htake]
          cases fuel with
          | zero => rfl
          | succ fuel =>
            rw [readOn, if_neg]
            rw [Filter.cString_of_notMem hnul]
            dsimp only
            omega
    · have hshort : ¬Fills (m + 1) line := fun hfills => hm hfills.1
      have htake : line.take m = line := take_of_length_le (by omega)
      refine Or.inl ⟨?_, hshort⟩
      rw [htake, if_neg]
      rw [Filter.cString_of_notMem hnul]
      dsimp only
      omega

theorem initialSize_pos (buffer : Option Text) (size : ℕ) : 0 < initialSize buffer size := by
  unfold initialSize
  split
  · decide
  · omega

theorem getLine_start (h : IsLine line rest) (buffer : Option Text) (size : ℕ) : ∃ m eof,
    initialSize buffer size = m + 1 ∧ getLine buffer size ⟨line ++ rest, false⟩ =
        readOn ((line.drop m ++ rest).length + 1) ⟨line.take m, m + 1, ⟨line.drop m ++ rest, eof⟩⟩ ∧
      (eof = true → line.drop m ++ rest = []) := by
  obtain ⟨m, hm⟩ : ∃ m, initialSize buffer size = m + 1 :=
    ⟨initialSize buffer size - 1, by have hpos := initialSize_pos buffer size; omega⟩
  unfold getLine
  rw [hm]
  cases m with
  | zero => exact ⟨0, false, rfl, rfl, fun hfalse => nomatch hfalse⟩
  | succ m =>
    obtain ⟨eof, hread, heof⟩ := Filter.fgets_line (n := m + 1 + 1) h (by omega)
    rw [fgets_of_lt (by omega), hread]
    exact ⟨m + 1, eof, rfl, rfl, heof⟩

theorem getLine_line (h : IsLine line rest) (hnul : '\x00' ∉ line) {buffer : Option Text}
    (halone : Fills (initialSize buffer size) line → rest = []) : ∃ eof code,
    getLine buffer size ⟨line ++ rest, false⟩ =
        (code, ⟨line, grow (initialSize buffer size) line.length, ⟨rest, eof⟩⟩) ∧ (eof = true → rest = []) ∧
      (code = .success ∧ ¬Fills (initialSize buffer size) line ∨
        code = .endOfBuffer ∧ Fills (initialSize buffer size) line) := by
  obtain ⟨m, eof, hm, hstart, heof⟩ := getLine_start h buffer size
  rw [hm] at halone ⊢
  obtain ⟨eof', hgrow, heof'⟩ := Filter.growBuffer_line h hnul halone heof (Nat.lt_succ_self _)
  have hcode := readOn_fst h hnul halone heof (Nat.lt_succ_self _)
  have hline := @readOn_snd ((line.drop m ++ rest).length + 1)
    ⟨line.take m, m + 1, ⟨line.drop m ++ rest, eof⟩⟩
  rw [hgrow] at hline
  refine ⟨eof', _, ?_, heof', hcode⟩
  rw [hstart, ← hline]

theorem getLine_fills (h : IsLine line (c :: rest)) (hnul : '\x00' ∉ line) {buffer : Option Text}
    (hfills : Fills (initialSize buffer size) line) :
    line ++ [c] <+: (getLine buffer size ⟨line ++ c :: rest, false⟩).2.buffer := by
  obtain ⟨m, eof, hm, hstart, heof⟩ := getLine_start h buffer size
  rw [hm] at hfills
  have hflag : eof = false := by
    cases eof with
    | false => rfl
    | true => exact absurd (append_eq_nil_iff.1 (heof rfl)).2 (cons_ne_nil c rest)
  rw [hstart, readOn_snd, hflag]
  exact Filter.growBuffer_fills h hnul hfills (Nat.lt_succ_self _)

theorem getLine_nil (buffer : Option Text) (size : ℕ) (eof : Bool) :
    (getLine buffer size ⟨[], eof⟩).1 = .endOfBuffer ∧ (getLine buffer size ⟨[], eof⟩).2.buffer = [] := by
  unfold getLine
  have hpos := initialSize_pos buffer size
  by_cases hone : initialSize buffer size = 1
  · rw [hone]
    exact ⟨rfl, rfl⟩
  · rw [fgets_of_lt (by omega), Filter.fgets_nil (by omega)]
    exact ⟨rfl, rfl⟩

/-! ## All lines -/

/-- The successive calls deliver the lines of the file: those that succeed one line each, and the last
one nothing or the rest of the file, which has no line break. -/
def Delivers (content : Text) (calls : Option (List (ErrorCode × Text))) : Prop :=
  ∃ lines last, calls = some (lines.map (ErrorCode.success, ·) ++ [(.endOfBuffer, last)]) ∧
    fileLines content = lines ++ (if last = [] then [] else [last]) ∧ '\n' ∉ last

def Clean (size : ℕ) (content : Text) : Prop :=
  ∀ pre line post, fileLines content = pre ++ line :: post → line.getLast? = some '\n' →
    ¬Fills ((pre.map List.length).foldl grow size) line

theorem clean_line (hlines : fileLines content = line :: fileLines rest) : Clean size content ↔
    (line.getLast? = some '\n' → ¬Fills size line) ∧ Clean (grow size line.length) rest := by
  constructor
  · intro h
    refine ⟨h [] line (fileLines rest) hlines, fun pre other post hsplit hlast => ?_⟩
    exact h (line :: pre) other post (by rw [hlines, hsplit]; rfl) hlast
  · rintro ⟨hfirst, hrest⟩ pre other post hsplit hlast
    rw [hlines] at hsplit
    cases pre with
    | nil =>
      rw [nil_append, List.cons.injEq] at hsplit
      rw [← hsplit.1] at hlast ⊢
      exact hfirst hlast
    | cons head pre =>
      rw [cons_append, List.cons.injEq] at hsplit
      rw [map_cons, foldl_cons, ← hsplit.1]
      exact hrest pre other post hsplit.2 hlast

theorem initialSize_some (line : Text) (hsize : 0 < size) : initialSize (some line) size = size :=
  if_neg (by simp [hsize.ne'])

theorem grow_pos (hsize : 0 < size) : 0 < grow size n := by
  unfold grow
  split
  · exact hsize
  · omega

theorem getLast?_of_newline_mem (h : IsLine line rest) (hmem : '\n' ∈ line) : line.getLast? = some '\n' := by
  obtain ⟨before, c, rfl⟩ := (eq_nil_or_concat line).resolve_left h.ne_nil
  rw [concat_eq_append, getLast?_concat]
  rw [concat_eq_append, mem_append, mem_singleton] at hmem
  cases hmem with
  | inl hbefore =>
    have hinner := h.inner '\n' (by rw [concat_eq_append, dropLast_concat]; exact hbefore)
    exact absurd rfl hinner
  | inr hlast => rw [hlast]

theorem fileLines_eq_nil (h : fileLines content = []) : content = [] := by
  rw [← @Filter.flatten_fileLines content, h]
  rfl

theorem delivers_cons {calls : Option (List (ErrorCode × Text))}
    (hlines : fileLines content = line :: fileLines rest) :
    Delivers content (calls.map ((ErrorCode.success, line) :: ·)) ↔ Delivers rest calls := by
  constructor
  · rintro ⟨lines, last, hcalls, hsplit, hlast⟩
    obtain ⟨tail, rfl, htail⟩ := Option.map_eq_some_iff.1 hcalls
    cases lines with
    | nil => cases htail
    | cons first lines =>
      rw [map_cons, cons_append, List.cons.injEq] at htail
      rw [hlines, cons_append, List.cons.injEq] at hsplit
      exact ⟨lines, last, congrArg some htail.2, hsplit.2, hlast⟩
  · rintro ⟨lines, last, rfl, hsplit, hlast⟩
    refine ⟨line :: lines, last, rfl, ?_, hlast⟩
    rw [hlines, hsplit]
    rfl

theorem not_delivers_of_ne {calls : Option (List (ErrorCode × Text))} (code : ErrorCode)
    (text : Text) (hlines : fileLines content = line :: fileLines rest) (hne : text ≠ line)
    (hrest : rest ≠ []) (hcalls : ∀ all, calls = some all → ∃ tail, all = (code, text) :: tail) :
    ¬Delivers content calls := by
  rintro ⟨lines, last, hsome, hsplit, -⟩
  obtain ⟨tail, htail⟩ := hcalls _ hsome
  rw [hlines] at hsplit
  cases lines with
  | nil =>
    rw [nil_append] at hsplit
    split at hsplit
    · cases hsplit
    · rw [List.cons.injEq] at hsplit
      exact hrest (fileLines_eq_nil hsplit.2)
  | cons first lines =>
    rw [map_cons, cons_append, List.cons.injEq, Prod.mk.injEq] at htail
    rw [cons_append, List.cons.injEq] at hsplit
    exact hne (htail.1.2.symm.trans hsplit.1.symm)

theorem getLines_delivers_iff (hnul : '\x00' ∉ content) (buffer : Option Text) (size : ℕ)
    (hfuel : content.length < fuel) (heof : eof = true → content = []) :
    Delivers content (getLines fuel buffer size ⟨content, eof⟩) ↔ Clean (initialSize buffer size) content := by
  induction fuel generalizing content buffer size eof with
  | zero => omega
  | succ fuel ih =>
    rw [getLines]
    by_cases hnil : content = []
    · subst hnil
      obtain ⟨hcode, hbuffer⟩ := getLine_nil buffer size eof
      refine iff_of_true ⟨[], [], ?_, rfl, not_mem_nil⟩ ?_
      · simp [hcode, hbuffer]
      · intro pre line post hsplit
        exact absurd hsplit.symm (append_ne_nil_of_right_ne_nil _ (cons_ne_nil _ _))
    · have hflag : eof = false := by
        cases eof with
        | false => rfl
        | true => exact absurd (heof rfl) hnil
      subst hflag
      obtain ⟨line, rest, hcontent, hlines, hline⟩ := Filter.exists_isLine hnil
      rw [clean_line hlines]
      subst hcontent
      have hnulLine : '\x00' ∉ line := fun hmem => hnul (mem_append_left _ hmem)
      have hnulRest : '\x00' ∉ rest := fun hmem => hnul (mem_append_right _ hmem)
      have hlength : rest.length < fuel := by
        have hpos := length_pos_iff.2 hline.ne_nil
        rw [length_append] at hfuel
        omega
      by_cases halone : Fills (initialSize buffer size) line → rest = []
      · obtain ⟨eof', code, hget, heof', hcode⟩ := getLine_line hline hnulLine halone
        rw [hget]
        dsimp only
        rcases hcode with ⟨rfl, hfills⟩ | ⟨rfl, hfills⟩
        · have hsize : initialSize (some line) (grow (initialSize buffer size) line.length) =
              grow (initialSize buffer size) line.length :=
            initialSize_some line (grow_pos (initialSize_pos buffer size))
          have htail : Delivers rest (getLines fuel (some line)
              (grow (initialSize buffer size) line.length) ⟨rest, eof'⟩) ↔
              Clean (grow (initialSize buffer size) line.length) rest := by
            have hcalls := ih hnulRest (some line) (grow (initialSize buffer size) line.length) hlength
              heof'
            rwa [hsize] at hcalls
          rw [if_pos rfl, delivers_cons hlines, htail]
          exact (and_iff_right fun _ => hfills).symm
        · -- the last line fills the buffer, so it must not have a line break
          have hrest := halone hfills
          subst hrest
          rw [if_neg (fun hsuccess => nomatch hsuccess)]
          have hclean : Clean (grow (initialSize buffer size) line.length) [] := by
            intro pre other post hsplit
            exact absurd hsplit.symm (append_ne_nil_of_right_ne_nil _ (cons_ne_nil _ _))
          rw [and_iff_left hclean]
          constructor
          · rintro ⟨lines, last, hcalls, -, hlast⟩ hnewline
            cases lines with
            | nil =>
              cases hcalls
              exact absurd (mem_of_getLast? hnewline) hlast
            | cons first lines => cases hcalls
          · intro hnewline
            refine ⟨[], line, rfl, ?_, fun hmem => ?_⟩
            · rw [hlines, if_neg hline.ne_nil]
              rfl
            · exact hnewline (getLast?_of_newline_mem hline hmem) hfills
      · rw [Classical.not_imp] at halone
        obtain ⟨hfills, hrest⟩ := halone
        obtain ⟨c, rest, rfl⟩ := exists_cons_of_ne_nil hrest
        have hprefix := getLine_fills hline hnulLine hfills
        refine iff_of_false ?_ fun hclean => hclean.1 (hline.ended hrest) hfills
        refine not_delivers_of_ne (getLine buffer size ⟨line ++ c :: rest, false⟩).1
          (getLine buffer size ⟨line ++ c :: rest, false⟩).2.buffer hlines ?_ hrest ?_
        · intro heq
          rw [heq] at hprefix
          have hle := hprefix.length_le
          rw [length_append, length_singleton] at hle
          omega
        · intro all hall
          dsimp only at hall
          split at hall
          · obtain ⟨tail, -, htail⟩ := Option.map_eq_some_iff.1 hall
            exact ⟨tail, htail.symm⟩
          · cases hall
            exact ⟨[], rfl⟩

/-- Calls from the start of a file on. -/
theorem delivers_iff (hnul : '\x00' ∉ content) (buffer : Option Text) (size : ℕ)
    (hfuel : content.length < fuel) : Delivers content (getLines fuel buffer size ⟨content, false⟩) ↔
      Clean (initialSize buffer size) content :=
  getLines_delivers_iff hnul buffer size hfuel fun hfalse => nomatch hfalse

theorem delivers_iff_short : Delivers ['a', '\n'] (getLines 3 none 0 ⟨['a', '\n'], false⟩) ↔
      Clean (initialSize none 0) ['a', '\n'] :=
  delivers_iff (by decide) none 0 (by decide)

/-- A line with its line break that fills the buffer of size 3. -/
theorem not_delivers_full : ¬Delivers ['a', '\n'] (getLines 3 (some []) 3 ⟨['a', '\n'], false⟩) := by
  have hcalls : getLines 3 (some []) 3 ⟨['a', '\n'], false⟩ = some [(.endOfBuffer, ['a', '\n'])] := by
    decide +kernel
  rintro ⟨lines, last, hsome, -, hlast⟩
  rw [hcalls, Option.some.injEq] at hsome
  cases lines with
  | nil =>
    cases hsome
    exact hlast (by decide)
  | cons first lines => cases hsome

end ScoreP.IoTools
