import ScoreP.Filter.Scanning

/-!
# The lines of a filter file

`fileLines` cuts a file after each line break, `specFile` goes through these lines. `getLine_line` says
when `getLine` reads exactly the next line: the line holds no NUL, and it does not fill the buffer to
the last character while there is more to read. `recordFile_iff` puts this together: the parser does
with every line what the line means if and only if every line it comes to is `Clean`.
-/

namespace ScoreP.Filter

open Foundations List

def fileLines : Text → List Text
  | [] => []
  | c :: rest =>
    if c = '\n' then ['\n'] :: fileLines rest
    else
      match fileLines rest with
      | [] => [[c]]
      | line :: lines => (c :: line) :: lines

/-- `line` is the next line and `rest` what follows it. -/
structure IsLine (line rest : Text) : Prop where
  ne_nil : line ≠ []
  inner : ∀ c ∈ line.dropLast, c ≠ '\n'
  ended : rest ≠ [] → line.getLast? = some '\n'

variable {σ : Type} {body : σ → Text → σ × Option ParseError} {state : σ}
  {line rest text content : Text} {lines pre post : List Text} {size m n fuel : ℕ} {c : Char}
  {eof : Bool}

theorem isLine_newline : IsLine ['\n'] rest :=
  ⟨by simp, by simp, fun _ => rfl⟩

theorem isLine_single (c : Char) : IsLine [c] [] :=
  ⟨by simp, by simp, fun h => absurd rfl h⟩

theorem IsLine.cons (h : IsLine line rest) (hc : c ≠ '\n') : IsLine (c :: line) rest where
  ne_nil := cons_ne_nil c line
  inner := fun d hd => by
    rw [dropLast_cons_of_ne_nil h.ne_nil] at hd
    obtain rfl | hd := mem_cons.1 hd
    · exact hc
    · exact h.inner d hd
  ended := fun hrest => by
    rw [getLast?_cons, h.ended hrest]
    rfl

theorem IsLine.tail (h : IsLine (c :: line) rest) (hline : line ≠ []) : c ≠ '\n' ∧ IsLine line rest := by
  have hdrop := dropLast_cons_of_ne_nil (x := c) hline
  refine ⟨h.inner c (by rw [hdrop]; exact mem_cons_self), hline, fun d hd => ?_, fun hrest => ?_⟩
  · exact h.inner d (by rw [hdrop]; exact mem_cons_of_mem c hd)
  · have hlast := h.ended hrest
    obtain ⟨before, d, rfl⟩ := (eq_nil_or_concat line).resolve_left hline
    rw [concat_eq_append, ← cons_append, getLast?_append] at hlast
    rw [concat_eq_append, getLast?_append]
    exact hlast

theorem IsLine.drop (h : IsLine line rest) (hm : line.drop m ≠ []) : IsLine (line.drop m) rest := by
  induction m generalizing line with
  | zero => exact h
  | succ m ih =>
    cases line with
    | nil => exact absurd (drop_nil) hm
    | cons c line =>
      have hline : line ≠ [] := fun hnil => hm (by rw [hnil]; simp)
      exact ih (h.tail hline).2 hm

theorem exists_isLine (hcontent : content ≠ []) : ∃ line rest, content = line ++ rest ∧
    fileLines content = line :: fileLines rest ∧ IsLine line rest := by
  induction content with
  | nil => exact absurd rfl hcontent
  | cons c content ih =>
    by_cases hc : c = '\n'
    · exact ⟨['\n'], content, by rw [hc]; rfl, by rw [fileLines, if_pos hc], isLine_newline⟩
    · by_cases hnil : content = []
      · subst hnil
        exact ⟨[c], [], rfl, by simp [fileLines, hc], isLine_single c⟩
      · obtain ⟨line, rest, hcontent, hlines, hline⟩ := ih hnil
        refine ⟨c :: line, rest, by rw [hcontent]; rfl, ?_, hline.cons hc⟩
        rw [fileLines, if_neg hc, hlines]

theorem flatten_fileLines : (fileLines content).flatten = content := by
  induction h : content.length using Nat.strongRecOn generalizing content with
  | ind n ih =>
    by_cases hnil : content = []
    · rw [hnil]
      rfl
    · obtain ⟨line, rest, hcontent, hlines, hline⟩ := exists_isLine hnil
      have hlength : rest.length < n := by
        have hpos := length_pos_iff.2 hline.ne_nil
        rw [← h, hcontent, length_append]
        omega
      rw [hlines, flatten_cons, ih rest.length hlength rfl, ← hcontent]

/-! ## Reading characters -/

theorem readChars_line (h : IsLine line rest) : ∃ eof,
    readChars n (line ++ rest) = (line.take n, ⟨line.drop n ++ rest, eof⟩) ∧
      (eof = true → line.drop n ++ rest = []) := by
  induction n generalizing line with
  | zero => exact ⟨false, by simp [readChars], by simp⟩
  | succ n ih =>
    cases line with
    | nil => exact absurd rfl h.ne_nil
    | cons c line =>
      by_cases hline : line = []
      · subst hline
        by_cases hc : c = '\n'
        · exact ⟨false, by simp [readChars, hc], by simp⟩
        · have hrest : rest = [] := by
            by_contra hne
            have hlast := h.ended hne
            exact hc (by simpa using hlast)
          subst hrest
          cases n with
          | zero => exact ⟨false, by simp [readChars, hc], by simp⟩
          | succ n => exact ⟨true, by simp [readChars, hc], by simp⟩
      · obtain ⟨hc, htail⟩ := h.tail hline
        obtain ⟨eof, hread, heof⟩ := ih htail
        refine ⟨eof, ?_, heof⟩
        rw [cons_append, readChars, if_neg hc, hread]
        rfl

theorem fgets_line (h : IsLine line rest) (hn : 1 < n) : ∃ eof, fgets n ⟨line ++ rest, false⟩ =
      (some (line.take (n - 1)), ⟨line.drop (n - 1) ++ rest, eof⟩) ∧
      (eof = true → line.drop (n - 1) ++ rest = []) := by
  obtain ⟨eof, hread, heof⟩ := readChars_line (n := n - 1) h
  refine ⟨eof, ?_, heof⟩
  obtain ⟨c, line, rfl⟩ := exists_cons_of_ne_nil h.ne_nil
  obtain ⟨k, hk⟩ : ∃ k, n - 1 = k + 1 := ⟨n - 2, by omega⟩
  rw [fgets, hread, hk]
  rfl

theorem fgets_nil (hn : 1 < n) : fgets n ⟨[], eof⟩ = (none, ⟨[], true⟩) := by
  obtain ⟨k, rfl⟩ : ∃ k, n = k + 2 := ⟨n - 2, by omega⟩
  rfl

/-! ## Reading a line -/

def grow (size length : ℕ) : ℕ :=
  if length < size - 1 then size else size + bufferSize * ((length - (size - 1)) / bufferSize + 1)

def Fills (size : ℕ) (line : Text) : Prop :=
  size - 1 ≤ line.length ∧ (line.length - (size - 1)) % bufferSize = 0

theorem grow_of_lt (h : n < m) : grow (m + 1) n = m + 1 := by
  rw [grow, if_pos (by omega)]

theorem grow_of_le (h : m + bufferSize ≤ n) : grow (m + 1) n = grow (m + bufferSize + 1) n := by
  have hsize : bufferSize = 1024 := rfl
  rw [hsize] at h
  unfold grow
  rw [if_neg (by omega), hsize]
  by_cases hlt : n < m + 1024 + 1 - 1
  · omega
  · rw [if_neg hlt]
    omega

theorem grow_fits (hle : m ≤ n) (hlt : n < m + bufferSize) : grow (m + 1) n = m + 1 + bufferSize := by
  have hsize : bufferSize = 1024 := rfl
  rw [hsize] at hlt
  rw [grow, if_neg (by omega), hsize]
  omega

theorem cString_take (hnul : '\x00' ∉ line) : cString (line.take m) = line.take m :=
  cString_of_notMem fun h => hnul (mem_of_mem_take h)

theorem growBuffer_short (h : (cString line).length ≠ size - 1) {file : File} :
    growBuffer fuel ⟨line, size, file⟩ = ⟨line, size, file⟩ := by
  cases fuel with
  | zero => rfl
  | succ fuel => exact if_neg h

theorem growBuffer_more {file file' : File} {more : Text} (h : (cString line).length = size - 1)
    (hread : fgets (bufferSize + 1) file = (some more, file')) : growBuffer (fuel + 1) ⟨line, size, file⟩ =
      growBuffer fuel ⟨line ++ more, size + bufferSize, file'⟩ := by
  simp only [growBuffer, if_pos h, hread]

theorem growBuffer_end {file file' : File} (h : (cString line).length = size - 1)
    (hread : fgets (bufferSize + 1) file = (none, file')) :
    growBuffer (fuel + 1) ⟨line, size, file⟩ = ⟨line, size + bufferSize, file'⟩ := by
  simp only [growBuffer, if_pos h, hread]

theorem growBuffer_isPrefix {line : Line} : line.buffer <+: (growBuffer fuel line).buffer := by
  induction fuel generalizing line with
  | zero => exact prefix_refl _
  | succ fuel ih =>
    rw [growBuffer]
    by_cases hfull : (cString line.buffer).length = line.size - 1
    · rw [if_pos hfull]
      cases fgets (bufferSize + 1) line.file with
      | mk more file =>
        cases more with
        | none => exact prefix_refl _
        | some more =>
          exact (prefix_append line.buffer more).trans
            (@ih ⟨line.buffer ++ more, line.size + bufferSize, file⟩)
    · simp only [if_neg hfull, prefix_refl]

theorem Fills.of_le (hle : m + bufferSize ≤ line.length) :
    Fills (m + 1) line ↔ Fills (m + bufferSize + 1) line := by
  have hsize : bufferSize = 1024 := rfl
  unfold Fills
  rw [hsize] at hle ⊢
  omega

theorem growBuffer_line (h : IsLine line rest) (hnul : '\x00' ∉ line)
    (halone : Fills (m + 1) line → rest = []) (heof : eof = true → line.drop m ++ rest = [])
    (hfuel : (line.drop m ++ rest).length < fuel) : ∃ eof',
    growBuffer fuel ⟨line.take m, m + 1, ⟨line.drop m ++ rest, eof⟩⟩ =
      ⟨line, grow (m + 1) line.length, ⟨rest, eof'⟩⟩ ∧ (eof' = true → rest = []) := by
  induction fuel generalizing m eof with
  | zero => omega
  | succ fuel ih =>
    by_cases hm : m ≤ line.length
    · have hfull : (cString (line.take m)).length = m + 1 - 1 := by
        rw [cString_take hnul, length_take]
        omega
      by_cases hdrop : line.drop m = []
      · have hlength : line.length = m := by
          have hzero := congrArg List.length hdrop
          rw [length_drop, length_nil] at hzero
          omega
        have hrest : rest = [] := halone ⟨by omega, by rw [hlength]; simp⟩
        subst hrest
        refine ⟨true, ?_, fun _ => rfl⟩
        rw [hdrop, append_nil, growBuffer_end hfull (fgets_nil (by decide)), hlength,
          grow_fits (Nat.le_refl m) (Nat.lt_add_of_pos_right (by decide)), take_of_length_le (by omega)]
      · obtain ⟨eof', hread, heof'⟩ := fgets_line (n := bufferSize + 1) (h.drop hdrop) (by decide)
        have hflag : eof = false := by
          cases eof with
          | false => rfl
          | true => exact absurd (append_eq_nil_iff.1 (heof rfl)).1 hdrop
        rw [hflag, growBuffer_more hfull hread, Nat.add_sub_cancel, drop_drop,
          ← take_add, show m + 1 + bufferSize = m + bufferSize + 1 by omega]
        rw [Nat.add_sub_cancel, drop_drop] at heof'
        have hlong : m < line.length := by
          have hpos := length_pos_iff.2 hdrop
          rw [length_drop] at hpos
          omega
        by_cases hmore : m + bufferSize ≤ line.length
        · obtain ⟨eof'', hgrow, heof''⟩ := @ih (m + bufferSize) eof'
            (fun hfills => halone ((Fills.of_le hmore).2 hfills)) heof' (by
              simp only [length_append, length_drop] at hfuel ⊢
              have hsize : 0 < bufferSize := by decide
              omega)
          exact ⟨eof'', by rw [hgrow, grow_of_le hmore], heof''⟩
        · have htake : line.take (m + bufferSize) = line := take_of_length_le (by omega)
          have hnil : line.drop (m + bufferSize) = [] := drop_of_length_le (by omega)
          rw [hnil, nil_append] at heof' ⊢
          rw [htake, growBuffer_short (by rw [cString_of_notMem hnul]; omega)]
          exact ⟨eof', by rw [grow_fits hm (by omega),
            show m + bufferSize + 1 = m + 1 + bufferSize by omega], heof'⟩
    · have hnil : line.drop m = [] := drop_of_length_le (by omega)
      have htake : line.take m = line := take_of_length_le (by omega)
      rw [hnil, nil_append] at heof ⊢
      rw [htake, growBuffer_short (by rw [cString_of_notMem hnul]; omega), grow_of_lt (by omega)]
      exact ⟨eof, rfl, heof⟩

theorem growBuffer_fills (h : IsLine line (c :: rest)) (hnul : '\x00' ∉ line)
    (hfills : Fills (m + 1) line) (hfuel : (line.drop m ++ c :: rest).length < fuel) :
    line ++ [c] <+: (growBuffer fuel ⟨line.take m, m + 1, ⟨line.drop m ++ c :: rest, false⟩⟩).buffer := by
  induction fuel generalizing m with
  | zero => omega
  | succ fuel ih =>
    have hm : m ≤ line.length := hfills.1
    have hfull : (cString (line.take m)).length = m + 1 - 1 := by
      rw [cString_take hnul, length_take]
      omega
    by_cases hdrop : line.drop m = []
    · have htake : line.take m = line := take_of_length_le (by
        have hzero := congrArg List.length hdrop
        rw [length_drop, length_nil] at hzero
        omega)
      obtain ⟨next, rest', hnext, hlines, hline⟩ := exists_isLine (cons_ne_nil c rest)
      obtain ⟨eof, hread, heof⟩ := fgets_line (n := bufferSize + 1) hline (by decide)
      rw [hdrop, nil_append, hnext, growBuffer_more hfull hread, htake]
      refine List.IsPrefix.trans ?_ growBuffer_isPrefix
      obtain ⟨d, next, rfl⟩ := exists_cons_of_ne_nil hline.ne_nil
      have hcd : c = d := (List.cons.inj hnext).1
      rw [hcd]
      exact (prefix_append_right_inj line).2 ⟨next.take (bufferSize + 1 - 1 - 1), rfl⟩
    · obtain ⟨eof, hread, heof⟩ := fgets_line (n := bufferSize + 1) (h.drop hdrop) (by decide)
      have hlong : m < line.length := by
        have hpos := length_pos_iff.2 hdrop
        rw [length_drop] at hpos
        omega
      have hmore : m + bufferSize ≤ line.length := by
        obtain ⟨hle, hmod⟩ := hfills
        have hsize : bufferSize = 1024 := rfl
        rw [hsize] at hmod ⊢
        omega
      have heof' : eof = false := by
        cases eof with
        | false => rfl
        | true => exact absurd (append_eq_nil_iff.1 (heof rfl)).2 (cons_ne_nil c rest)
      rw [growBuffer_more hfull hread, Nat.add_sub_cancel, drop_drop, ← take_add,
        show m + 1 + bufferSize = m + bufferSize + 1 by omega, heof']
      refine ih ((Fills.of_le hmore).1 hfills) ?_
      simp only [length_append, length_drop] at hfuel ⊢
      have hsize : 0 < bufferSize := by decide
      omega

theorem getLine_line (h : IsLine line rest) (hnul : '\x00' ∉ line) (hsize : 1 < size)
    (halone : Fills size line → rest = []) : ∃ eof,
    getLine size ⟨line ++ rest, false⟩ = ⟨line, grow size line.length, ⟨rest, eof⟩⟩ ∧
      (eof = true → rest = []) := by
  obtain ⟨m, rfl⟩ : ∃ m, size = m + 1 := ⟨size - 1, by omega⟩
  obtain ⟨eof, hread, heof⟩ := fgets_line (n := m + 1) h hsize
  rw [Nat.add_sub_cancel] at hread heof
  simp only [getLine, Nat.succ_ne_zero, if_false, hread]
  exact growBuffer_line h hnul halone heof (Nat.lt_succ_self _)

theorem getLine_fills (h : IsLine line (c :: rest)) (hnul : '\x00' ∉ line) (hsize : 1 < size)
    (hfills : Fills size line) : line ++ [c] <+: (getLine size ⟨line ++ c :: rest, false⟩).buffer := by
  obtain ⟨m, rfl⟩ : ∃ m, size = m + 1 := ⟨size - 1, by omega⟩
  obtain ⟨eof, hread, heof⟩ := fgets_line (n := m + 1) h hsize
  have hflag : eof = false := by
    cases eof with
    | false => rfl
    | true => exact absurd (append_eq_nil_iff.1 (heof rfl)).2 (cons_ne_nil c rest)
  rw [Nat.add_sub_cancel, hflag] at hread
  simp only [getLine, Nat.succ_ne_zero, if_false, hread]
  exact growBuffer_fills h hnul hfills (Nat.lt_succ_self _)

end ScoreP.Filter
