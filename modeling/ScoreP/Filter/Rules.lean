import ScoreP.Filter.Agreement

/-!
# The rule lists of a filter file

`rulesOf` says what the rules of a block are: its patterns in the order of the file, each with the flags
that the last keywords before it give. `untilError_rules` says that a run of `processToken` without an
error has added these rules, `Follows` is what its state knows about the tokens so far. The lines of a
file mean the same however they end (`specLine_newline`, `specLine_comment`, `specLine_blanks`).
-/

namespace ScoreP.Filter

open Foundations List

/-! ## The last keyword -/

def begins : List Text := [fileNamesBegin, regionNamesBegin]
def choices : List Text := [excludeToken, includeToken]
def flags : List Text := [excludeToken, includeToken, mangledToken, demangledToken]

def keywords : List Text := [fileNamesBegin, fileNamesEnd, regionNamesBegin, regionNamesEnd,
  excludeToken, includeToken, mangledToken, demangledToken]

/-- The last one of the keywords `words` among the tokens. -/
def lastOf (words seen : List Text) : Option Text :=
  seen.reverse.find? fun token => decide (token ∈ words)

/-- The rule a token adds to the block that `begin` opens, after the tokens `seen`. -/
def ruleOf (block : Text) (seen : List Text) (token : Text) : List Rule :=
  if token ∉ keywords ∧ lastOf begins seen = some block then
    [⟨token, lastOf flags seen == some mangledToken, lastOf choices seen == some excludeToken⟩]
  else []

def rulesOf (block : Text) : List Text → List Text → List Rule
  | _, [] => []
  | seen, token :: tokens => ruleOf block seen token ++ rulesOf block (seen ++ [token]) tokens

variable {state : ParseState} {token word block : Text} {words seen tokens : List Text}
  {line text spaces comment content : Text} {lines : List Text} {filter : Rules}

theorem lastOf_mem (h : token ∈ words) : lastOf words (seen ++ [token]) = some token := by
  simp [lastOf, h]

theorem lastOf_notMem (h : token ∉ words) : lastOf words (seen ++ [token]) = lastOf words seen := by
  simp [lastOf, h]

theorem ruleOf_keyword (h : token ∈ keywords) : ruleOf block seen token = [] :=
  if_neg fun hrule => hrule.1 h

theorem ruleOf_pattern (h : token ∉ keywords) (hblock : lastOf begins seen = some word) :
    ruleOf block seen token = if word = block then
      [⟨token, lastOf flags seen == some mangledToken, lastOf choices seen == some excludeToken⟩] else [] := by
  unfold ruleOf
  rw [hblock]
  by_cases heq : word = block
  · rw [if_pos heq, if_pos ⟨h, by rw [heq]⟩]
  · rw [if_neg heq, if_neg fun hrule => heq (Option.some.inj hrule.2)]

/-! ## What the state knows about the tokens so far -/

def Follows (seen : List Text) (mode : Mode) : Prop :=
  match mode.base with
  | .start => True
  | .files => lastOf begins seen = some fileNamesBegin
  | .filesExclude => lastOf begins seen = some fileNamesBegin ∧
      lastOf choices seen = some excludeToken ∧ lastOf flags seen = some excludeToken
  | .filesInclude => lastOf begins seen = some fileNamesBegin ∧
      lastOf choices seen = some includeToken ∧ lastOf flags seen = some includeToken
  | .regions => lastOf begins seen = some regionNamesBegin
  | .regionsExclude => lastOf begins seen = some regionNamesBegin ∧ lastOf choices seen = some excludeToken ∧
      (lastOf flags seen == some mangledToken) = mode.mangled
  | .regionsInclude => lastOf begins seen = some regionNamesBegin ∧ lastOf choices seen = some includeToken ∧
      (lastOf flags seen == some mangledToken) = mode.mangled

structure Taken (seen : List Text) (state : ParseState) (token : Text) : Prop where
  follows : Follows (seen ++ [token]) (processToken state token).1.mode
  rules : (processToken state token).1.filter = ⟨state.filter.fileRules ++ ruleOf fileNamesBegin seen token,
      state.filter.functionRules ++ ruleOf regionNamesBegin seen token⟩

theorem taken_keyword {mode : Mode} (h : token ∈ keywords)
    (hstep : processToken state token = ({ state with mode := mode }, none))
    (hfollows : Follows (seen ++ [token]) mode) : Taken seen state token where
  follows := by rw [hstep]; exact hfollows
  rules := by rw [hstep, ruleOf_keyword h, ruleOf_keyword h, append_nil, append_nil]

theorem taken_fileNamesBegin (hok : (processToken state fileNamesBegin).2 = none) :
    Taken seen state fileNamesBegin := by
  have hstep : processToken state fileNamesBegin =
      if state.mode = ⟨.start, false⟩ then ({ state with mode := ⟨.files, false⟩ }, none)
      else (state, some (.unexpectedToken fileNamesBegin)) := rfl
  by_cases hmode : state.mode = ⟨.start, false⟩
  · rw [if_pos hmode] at hstep
    have hblock : lastOf begins (seen ++ [fileNamesBegin]) = some fileNamesBegin :=
      lastOf_mem (by decide)
    exact taken_keyword (by decide) hstep hblock
  · rw [hstep, if_neg hmode] at hok
    exact nomatch hok

theorem taken_regionNamesBegin (hok : (processToken state regionNamesBegin).2 = none) :
    Taken seen state regionNamesBegin := by
  have hstep : processToken state regionNamesBegin =
      if state.mode = ⟨.start, false⟩ then ({ state with mode := ⟨.regions, false⟩ }, none)
      else (state, some (.unexpectedToken regionNamesBegin)) := rfl
  by_cases hmode : state.mode = ⟨.start, false⟩
  · rw [if_pos hmode] at hstep
    have hblock : lastOf begins (seen ++ [regionNamesBegin]) = some regionNamesBegin :=
      lastOf_mem (by decide)
    exact taken_keyword (by decide) hstep hblock
  · rw [hstep, if_neg hmode] at hok
    exact nomatch hok

theorem taken_fileNamesEnd (hok : (processToken state fileNamesEnd).2 = none) :
    Taken seen state fileNamesEnd := by
  have hstep : processToken state fileNamesEnd =
      if state.mode = ⟨.files, false⟩ ∨ state.mode = ⟨.filesExclude, false⟩ ∨
          state.mode = ⟨.filesInclude, false⟩ then ({ state with mode := ⟨.start, false⟩ }, none)
      else (state, some (.unexpectedToken fileNamesEnd)) := rfl
  by_cases hmode : state.mode = ⟨.files, false⟩ ∨ state.mode = ⟨.filesExclude, false⟩ ∨
      state.mode = ⟨.filesInclude, false⟩
  · rw [if_pos hmode] at hstep
    exact taken_keyword (by decide) hstep trivial
  · rw [hstep, if_neg hmode] at hok
    exact nomatch hok

theorem taken_regionNamesEnd (hok : (processToken state regionNamesEnd).2 = none) :
    Taken seen state regionNamesEnd := by
  obtain ⟨filter, base, mangled⟩ := state
  cases base with
  | regions | regionsExclude | regionsInclude => exact taken_keyword (by decide) rfl trivial
  | start | files | filesExclude | filesInclude => cases hok

theorem taken_choice {inFiles inRegions : Base} (hstep : processToken state token =
      match state.mode.base with
      | .files | .filesExclude | .filesInclude => ({ state with mode := ⟨inFiles, false⟩ }, none)
      | .regions | .regionsExclude | .regionsInclude => ({ state with mode := ⟨inRegions, false⟩ }, none)
      | .start => (state, some (.unexpectedToken token)))
    (hkeyword : token ∈ keywords ∧ token ∉ begins ∧ token ∈ choices ∧ token ∈ flags)
    (hmodes : ∀ seen, lastOf choices seen = some token → lastOf flags seen = some token →
      (lastOf begins seen = some fileNamesBegin → Follows seen ⟨inFiles, false⟩) ∧
        (lastOf begins seen = some regionNamesBegin → Follows seen ⟨inRegions, false⟩))
    (hfollows : Follows seen state.mode) (hok : (processToken state token).2 = none) :
    Taken seen state token := by
  have hblock : lastOf begins (seen ++ [token]) = lastOf begins seen := lastOf_notMem hkeyword.2.1
  obtain ⟨hfiles, hregions⟩ := hmodes _ (lastOf_mem hkeyword.2.2.1) (lastOf_mem hkeyword.2.2.2)
  rw [hblock] at hfiles hregions
  rw [hstep] at hok
  obtain ⟨filter, base, mangled⟩ := state
  cases base with
  | start => exact nomatch hok
  | files => exact taken_keyword hkeyword.1 hstep (hfiles hfollows)
  | filesExclude | filesInclude => exact taken_keyword hkeyword.1 hstep (hfiles hfollows.1)
  | regions => exact taken_keyword hkeyword.1 hstep (hregions hfollows)
  | regionsExclude | regionsInclude => exact taken_keyword hkeyword.1 hstep (hregions hfollows.1)

theorem taken_mangling {mangled : Bool} (hstep : processToken state token =
      match state.mode.base with
      | .regionsExclude | .regionsInclude =>
        ({ state with mode := { state.mode with mangled := mangled } }, none)
      | _ => (state, some (.unexpectedToken token)))
    (hkeyword : token ∈ keywords ∧ token ∉ begins ∧ token ∉ choices ∧ token ∈ flags)
    (hmangled : (some token == some mangledToken) = mangled) (hfollows : Follows seen state.mode)
    (hok : (processToken state token).2 = none) : Taken seen state token := by
  have hblock : lastOf begins (seen ++ [token]) = lastOf begins seen := lastOf_notMem hkeyword.2.1
  have hchoice : lastOf choices (seen ++ [token]) = lastOf choices seen :=
    lastOf_notMem hkeyword.2.2.1
  have hflag : (lastOf flags (seen ++ [token]) == some mangledToken) = mangled := by
    rw [lastOf_mem hkeyword.2.2.2, hmangled]
  rw [hstep] at hok
  obtain ⟨filter, base, was⟩ := state
  cases base with
  | regionsExclude | regionsInclude =>
    exact taken_keyword hkeyword.1 hstep ⟨hblock.trans hfollows.1, hchoice.trans hfollows.2.1, hflag⟩
  | start | files | filesExclude | filesInclude | regions => exact nomatch hok

theorem processToken_pattern (hnil : token ≠ []) (h : token ∉ keywords) : processToken state token =
    match state.mode.base with
    | .filesExclude => (addFileRule state ⟨token, false, true⟩, none)
    | .filesInclude => (addFileRule state ⟨token, false, false⟩, none)
    | .regionsExclude => (addFunctionRule state ⟨token, state.mode.mangled, true⟩, none)
    | .regionsInclude => (addFunctionRule state ⟨token, state.mode.mangled, false⟩, none)
    | _ => (state, some (.unexpectedToken token)) := by
  simp only [keywords, mem_cons, not_mem_nil, or_false, not_or] at h
  obtain ⟨h1, h2, h3, h4, h5, h6, h7, h8⟩ := h
  obtain ⟨filter, base, mangled⟩ := state
  cases base <;>
    simp only [processToken, if_neg hnil, if_neg h1, if_neg h2, if_neg h3, if_neg h4, if_neg h5,
      if_neg h6, if_neg h7, if_neg h8]

theorem Follows.append (h : Follows seen state.mode) (htoken : token ∉ keywords) :
    Follows (seen ++ [token]) state.mode := by
  have hbegins : begins ⊆ keywords := by decide
  have hchoices : choices ⊆ keywords := by decide
  have hflags : flags ⊆ keywords := by decide
  have hblock : lastOf begins (seen ++ [token]) = lastOf begins seen :=
    lastOf_notMem fun hmem => htoken (hbegins hmem)
  have hchoice : lastOf choices (seen ++ [token]) = lastOf choices seen :=
    lastOf_notMem fun hmem => htoken (hchoices hmem)
  have hflag : lastOf flags (seen ++ [token]) = lastOf flags seen :=
    lastOf_notMem fun hmem => htoken (hflags hmem)
  unfold Follows at h ⊢
  rw [hblock, hchoice, hflag]
  exact h

theorem taken_pattern (hnil : token ≠ []) (htoken : token ∉ keywords)
    (hfollows : Follows seen state.mode) (hok : (processToken state token).2 = none) :
    Taken seen state token := by
  have hnext := hfollows.append htoken
  have hstep := @processToken_pattern state token hnil htoken
  have hother : fileNamesBegin ≠ regionNamesBegin := by decide
  have hmangled : (some excludeToken == some mangledToken) = false := by decide
  have hmangled' : (some includeToken == some mangledToken) = false := by decide
  have hexclude : (some excludeToken == some excludeToken) = true := by decide
  have hexclude' : (some includeToken == some excludeToken) = false := by decide
  obtain ⟨filter, base, mangled⟩ := state
  cases base with
  | filesExclude =>
    refine ⟨by rw [hstep]; exact hnext, ?_⟩
    rw [hstep, ruleOf_pattern htoken hfollows.1, ruleOf_pattern htoken hfollows.1, if_pos rfl,
      if_neg hother, append_nil, hfollows.2.1, hfollows.2.2, hmangled, hexclude]
    rfl
  | filesInclude =>
    refine ⟨by rw [hstep]; exact hnext, ?_⟩
    rw [hstep, ruleOf_pattern htoken hfollows.1, ruleOf_pattern htoken hfollows.1, if_pos rfl,
      if_neg hother, append_nil, hfollows.2.1, hfollows.2.2, hmangled', hexclude']
    rfl
  | regionsExclude =>
    refine ⟨by rw [hstep]; exact hnext, ?_⟩
    rw [hstep, ruleOf_pattern htoken hfollows.1, ruleOf_pattern htoken hfollows.1, if_pos rfl,
      if_neg hother.symm, append_nil, hfollows.2.1, hfollows.2.2, hexclude]
    rfl
  | regionsInclude =>
    refine ⟨by rw [hstep]; exact hnext, ?_⟩
    rw [hstep, ruleOf_pattern htoken hfollows.1, ruleOf_pattern htoken hfollows.1, if_pos rfl,
      if_neg hother.symm, append_nil, hfollows.2.1, hfollows.2.2, hexclude']
    rfl
  | start | files | regions =>
    rw [hstep] at hok
    exact nomatch hok

theorem taken (hnil : token ≠ []) (hfollows : Follows seen state.mode)
    (hok : (processToken state token).2 = none) : Taken seen state token := by
  by_cases htoken : token ∈ keywords
  · simp only [keywords, mem_cons, not_mem_nil, or_false] at htoken
    obtain rfl | rfl | rfl | rfl | rfl | rfl | rfl | rfl := htoken
    · exact taken_fileNamesBegin hok
    · exact taken_fileNamesEnd hok
    · exact taken_regionNamesBegin hok
    · exact taken_regionNamesEnd hok
    · exact taken_choice rfl (by decide) (fun _ hchoice hflag =>
        ⟨fun h => ⟨h, hchoice, hflag⟩, fun h => ⟨h, hchoice, by rw [hflag]; decide⟩⟩) hfollows hok
    · exact taken_choice rfl (by decide) (fun _ hchoice hflag =>
        ⟨fun h => ⟨h, hchoice, hflag⟩, fun h => ⟨h, hchoice, by rw [hflag]; decide⟩⟩) hfollows hok
    · exact taken_mangling rfl (by decide) (by decide) hfollows hok
    · exact taken_mangling rfl (by decide) (by decide) hfollows hok
  · exact taken_pattern hnil htoken hfollows hok

theorem untilError_rules (hnil : ∀ token ∈ tokens, token ≠ []) (hfollows : Follows seen state.mode)
    (hok : (untilError processToken tokens state).2 = none) : (untilError processToken tokens state).1.filter =
      ⟨state.filter.fileRules ++ rulesOf fileNamesBegin seen tokens,
        state.filter.functionRules ++ rulesOf regionNamesBegin seen tokens⟩ := by
  induction tokens generalizing seen state with
  | nil =>
    simp only [rulesOf, append_nil]
    rfl
  | cons token tokens ih =>
    have hnone : (processToken state token).2 = none := by
      by_contra hsome
      rw [untilError_cons_of_some hsome] at hok
      exact hsome hok
    rw [untilError_cons_of_none hnone] at hok ⊢
    have htaken := taken (hnil token mem_cons_self) hfollows hnone
    rw [ih (fun t ht => hnil t (mem_cons_of_mem token ht)) htaken.follows hok, htaken.rules]
    simp [rulesOf]

/-! ## How a line ends -/

variable {σ : Type} {process : σ → Text → σ × Option ParseError} {s : σ}

theorem getLast?_ne_of_notMem {c : Char} (h : c ∉ text) : text.getLast? ≠ some c := fun hlast =>
  h (mem_of_getLast? hlast)

theorem getLast?_append_blanks (hspaces : ∀ c ∈ spaces, isBlank c = true)
    (htext : text.getLast? ≠ some '\\') : (text ++ spaces).getLast? ≠ some '\\' := by
  rw [getLast?_append]
  cases hlast : spaces.getLast? with
  | none => exact htext
  | some c =>
    have hblank := hspaces c (mem_of_getLast? hlast)
    intro h
    rw [Option.some.inj h] at hblank
    exact absurd hblank (by decide)

theorem pieces_blanks (hspaces : ∀ c ∈ spaces, isBlank c = true) (htext : text.getLast? ≠ some '\\') :
    (pieces isBlank isEscape false [] (text ++ spaces)).filter (fun token => token != []) =
      (pieces isBlank isEscape false [] text).filter fun token => token != [] := by
  have hescaped : escapedAfter isEscape false text = false := by
    rw [escapedAfter_false]
    exact beq_eq_false_iff_ne.2 htext
  have hempty : ∀ token ∈ List.replicate spaces.length ([] : Text), ¬(token != []) = true := by
    intro token htoken
    rw [eq_of_mem_replicate htoken]
    decide
  rw [pieces_seps (fun c hc => ⟨hspaces c hc, isEscape_of_isBlank (hspaces c hc)⟩) hescaped,
    filter_append, filter_eq_nil_iff.2 hempty, append_nil]

theorem chomp_blanks (hspaces : ∀ c ∈ spaces, isBlank c = true) (htext : '\n' ∉ text) :
    ∃ spaces', chomp (text ++ spaces) = text ++ spaces' ∧ ∀ c ∈ spaces', isBlank c = true := by
  obtain rfl | ⟨before, c, rfl⟩ := eq_nil_or_concat spaces
  · exact ⟨[], by rw [append_nil, chomp_of_ne (getLast?_ne_of_notMem htext)], hspaces⟩
  · rw [concat_eq_append] at hspaces ⊢
    by_cases hc : c = '\n'
    · refine ⟨before, ?_, fun d hd => hspaces d (mem_append_left _ hd)⟩
      rw [hc, ← append_assoc, chomp_concat]
    · refine ⟨before ++ [c], chomp_of_ne ?_, hspaces⟩
      rw [← append_assoc, getLast?_concat]
      exact fun h => hc (Option.some.inj h)

theorem specLine_of_strip (hstrip : stripComment line = stripComment text) :
    specLine process s line = specLine process s text := by
  rw [specLine, specLine, escapesBreak, escapesBreak, lineTokens, lineTokens, hstrip]

theorem specLine_blanks (hspaces : ∀ c ∈ spaces, isBlank c = true) (htext : '\n' ∉ text)
    (hlast : text.getLast? ≠ some '\\') (hstrip : stripComment line = text ++ spaces)
    (hwhole : stripComment text = text) : specLine process s line = specLine process s text := by
  obtain ⟨spaces', hchomp, hspaces'⟩ := chomp_blanks hspaces htext
  have hline : escapesBreak line = false := by
    rw [escapesBreak, hstrip, hchomp]
    exact beq_eq_false_iff_ne.2 (getLast?_append_blanks hspaces' hlast)
  have htext' : escapesBreak text = false := by
    rw [escapesBreak, hwhole, chomp_of_ne (getLast?_ne_of_notMem htext)]
    exact beq_eq_false_iff_ne.2 hlast
  rw [specLine, specLine, hline, htext', lineTokens, lineTokens, hstrip, hwhole, hchomp,
    chomp_of_ne (getLast?_ne_of_notMem htext), pieces_blanks hspaces' hlast]

theorem specLine_newline (htext : '\n' ∉ text) :
    specLine process s (text ++ ['\n']) = specLine process s text := by
  by_cases hwhole : stripComment text = text
  · have hstrip : stripComment (text ++ ['\n']) = text ++ ['\n'] := by
      rw [stripComment, upToMark_append_of_eq hwhole, upToMark_of_none fun c hc => ?_]
      rw [mem_singleton.1 hc]
      decide
    rw [specLine, specLine, escapesBreak, escapesBreak, lineTokens, lineTokens, hstrip, hwhole,
      chomp_concat, chomp_of_ne (getLast?_ne_of_notMem htext)]
  · exact specLine_of_strip (upToMark_append_of_ne hwhole)

theorem specLine_comment (hwhole : stripComment text = text) (htext : '\n' ∉ text)
    (hlast : text.getLast? ≠ some '\\') (hspaces : ∀ c ∈ spaces, isBlank c = true)
    (hcomment : comment = [] ∨ comment.head? = some '#') :
    specLine process s (text ++ spaces ++ comment) = specLine process s text := by
  have hspaces' : stripComment (text ++ spaces) = text ++ spaces := by
    refine (upToMark_append_of_eq hwhole).trans ?_
    rw [upToMark_of_none fun c hc => ?_]
    refine beq_eq_false_iff_ne.2 fun h => ?_
    have hblank := hspaces c hc
    rw [h] at hblank
    exact absurd hblank (by decide)
  have hescaped : escapedAfter isEscape false (text ++ spaces) = false := by
    rw [escapedAfter_false]
    exact beq_eq_false_iff_ne.2 (getLast?_append_blanks hspaces hlast)
  have hstrip : stripComment (text ++ spaces ++ comment) = text ++ spaces := by
    refine (upToMark_append_of_eq hspaces').trans ?_
    rw [hescaped]
    cases comment with
    | nil => exact append_nil _
    | cons c comment =>
      have hc : c = '#' := by simpa using hcomment
      rw [hc]
      exact append_nil _
  exact specLine_blanks hspaces htext hlast hstrip hwhole

/-! ## Files -/

theorem ne_nil_of_lineTokens (h : token ∈ lineTokens line) : token ≠ [] := by
  simpa using (mem_filter.1 h).2

theorem specLine_tokens (hok : (specLine process s line).2 = none) :
    specLine process s line = untilError process (lineTokens line) s := by
  unfold specLine at hok ⊢
  by_cases hescapes : escapesBreak line = true
  · rw [if_pos hescapes] at hok
    exact nomatch hok
  · rw [if_neg hescapes]

theorem untilError_lines (hok : (untilError (specLine process) lines s).2 = none) :
    untilError (specLine process) lines s = untilError process (lines.flatMap lineTokens) s := by
  induction lines generalizing s with
  | nil => rfl
  | cons line lines ih =>
    have hnone : (specLine process s line).2 = none := by
      by_contra hsome
      rw [untilError_cons_of_some hsome] at hok
      exact hsome hok
    have htokens := specLine_tokens hnone
    rw [untilError_cons_of_none hnone] at hok ⊢
    rw [htokens] at hnone hok ⊢
    rw [flatMap_cons, untilError_append_of_none hnone]
    exact ih hok

theorem recordToken_tokens {record : ParseState × List Text} (hnil : ∀ token ∈ tokens, token ≠ [])
    (hok : (untilError recordToken tokens record).2 = none) :
    (untilError recordToken tokens record).1.2 = record.2 ++ tokens := by
  induction tokens generalizing record with
  | nil => exact (append_nil _).symm
  | cons token tokens ih =>
    have hnone : (recordToken record token).2 = none := by
      by_contra hsome
      rw [untilError_cons_of_some hsome] at hok
      exact hsome hok
    rw [untilError_cons_of_none hnone] at hok ⊢
    rw [ih (fun t ht => hnil t (mem_cons_of_mem token ht)) hok, recordToken,
      if_neg (hnil token mem_cons_self), append_assoc]
    rfl

theorem recordLine_records {log : Log} 
    (hok : (untilError (recordLine (specLine recordToken)) lines log).2 = none) :
    (untilError (recordLine (specLine recordToken)) lines log).1.2 =
      log.2 ++ lines.map fun line => ⟨line, lineTokens line, none⟩ := by
  induction lines generalizing log with
  | nil => exact (append_nil _).symm
  | cons line lines ih =>
    have hnone : (recordLine (specLine recordToken) log line).2 = none := by
      by_contra hsome
      rw [untilError_cons_of_some hsome] at hok
      exact hsome hok
    have hline : (specLine recordToken (log.1, []) line).2 = none := hnone
    have htokens := specLine_tokens hline
    have hrecord := hline
    rw [htokens] at hrecord
    have hrecorded := recordToken_tokens (fun token ht => ne_nil_of_lineTokens ht) hrecord
    rw [untilError_cons_of_none hnone] at hok ⊢
    rw [ih hok, recordLine, hline, htokens, hrecorded, map_cons, append_assoc]
    rfl

/-- The parser ends, does with each line what the line means, drops no token of a file it accepts, and
adds the rules that the tokens spell. -/
structure ParsesAsMeant (filter : Rules) (content : Text) : Prop where
  lines : recordFile filter content = some (specFile filter content)
  result : parseFile filter content = some ((specFile filter content).1.1, (specFile filter content).2)
  tokens : (specFile filter content).2 = none → (specFile filter content).1.2 =
    (fileLines content).map fun line => ⟨line, lineTokens line, none⟩
  rules : (specFile filter content).2 = none → (specFile filter content).1.1.filter =
    ⟨filter.fileRules ++ rulesOf fileNamesBegin [] ((fileLines content).flatMap lineTokens),
      filter.functionRules ++ rulesOf regionNamesBegin [] ((fileLines content).flatMap lineTokens)⟩

theorem specFile_rules (hok : (specFile filter content).2 = none) : (specFile filter content).1.1.filter =
      ⟨filter.fileRules ++ rulesOf fileNamesBegin [] ((fileLines content).flatMap lineTokens),
        filter.functionRules ++ rulesOf regionNamesBegin [] ((fileLines content).flatMap lineTokens)⟩ := by
  have hstate := @specFile_state (fileLines content) (startState filter) []
  have hlines : (untilError (specLine processToken) (fileLines content) (startState filter)).2 = none := by
    rw [hstate]
    exact hok
  have htokens := untilError_lines hlines
  rw [htokens] at hlines
  have hnil : ∀ token ∈ (fileLines content).flatMap lineTokens, token ≠ [] := by
    intro token htoken
    obtain ⟨line, -, hline⟩ := mem_flatMap.1 htoken
    exact ne_nil_of_lineTokens hline
  have hrules := @untilError_rules (startState filter) [] _ hnil trivial hlines
  rw [← htokens, hstate] at hrules
  exact hrules

theorem parsesAsMeant_iff : ParsesAsMeant filter content ↔ AllClean filter content := by
  refine ⟨fun h => recordFile_iff.1 h.lines, fun h => ?_⟩
  have hlines := recordFile_iff.2 h
  refine ⟨hlines, ?_, fun hok => recordLine_records hok, specFile_rules⟩
  rw [parseFile_eq_record, hlines]
  rfl

end ScoreP.Filter
