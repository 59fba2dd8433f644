import ScoreP.Filter.Matching
import ScoreP.Foundations.LastMatch

/-!
# Evaluating filter rules with any `fnmatch`

Source: `src/utils/filter/scorep_filter_matching.c` and the requests of
`src/utils/filter/scorep_filter_parser.c`. `fnmatch` is a parameter that may fail, and `outcomes`
lists what the calls of it returned, in their order.

Without failures the last matching rule decides (`value_iff_lastMatch`), although `matchRules` skips
the rules that cannot change its state. A failure stops `matchRules` (`matchRules_of_faulty`), but
`includeRules` looks at the error code only after the rules that can change the state, and
`filterMatch` loses the one of the file names. `reported_iff` says exactly when no failure is lost.
-/

namespace ScoreP.Filter.Evaluation

open Foundations List

/-- What `fnmatch` returns: 0, `FNM_NOMATCH` or something else. -/
inductive Outcome where
  | matched
  | noMatch
  | error
deriving DecidableEq

inductive ErrorCode where
  | success
  | processedWithFaults
  | invalidArgument
deriving DecidableEq

structure Evaluated where
  value : Bool
  err : ErrorCode
  outcomes : List Outcome
deriving DecidableEq

def Evaluated.after (outcomes : List Outcome) (evaluated : Evaluated) : Evaluated :=
  { evaluated with outcomes := outcomes ++ evaluated.outcomes }

def ruleResult : Outcome → Bool × ErrorCode
  | .matched => (true, .success)
  | .noMatch => (false, .success)
  | .error => (false, .processedWithFaults)

/-- The loop of `scorep_filter_match_file` and `scorep_filter_match_function`. -/
def matchRules (outcome : Rule → Outcome) (excluded : Bool) (err : ErrorCode) : List Rule → Evaluated
  | [] => ⟨excluded, err, []⟩
  | rule :: rules =>
    if !excluded && rule.isExclude then
      let (matched, err) := ruleResult (outcome rule)
      if err ≠ .success then ⟨false, err, [outcome rule]⟩
      else (matchRules outcome matched err rules).after [outcome rule]
    else if excluded && !rule.isExclude then
      let (matched, err) := ruleResult (outcome rule)
      if err ≠ .success then ⟨false, err, [outcome rule]⟩
      else (matchRules outcome (!matched) err rules).after [outcome rule]
    else matchRules outcome excluded err rules

/-- The loop of `scorep_filter_include_function`. -/
def includeRules (outcome : Rule → Outcome) (excluded explicitlyIncluded : Bool) (err : ErrorCode) :
    List Rule → Evaluated
  | [] => ⟨!excluded && explicitlyIncluded, err, []⟩
  | rule :: rules =>
    let (matched, err) := ruleResult (outcome rule)
    let explicitlyIncluded :=
      if matched then
        if rule.isExclude then false
        else if rule.pattern ≠ ['*'] then true
        else explicitlyIncluded
      else explicitlyIncluded
    if !excluded && rule.isExclude then
      if err ≠ .success then ⟨true, err, [outcome rule]⟩
      else (includeRules outcome matched explicitlyIncluded err rules).after [outcome rule]
    else if excluded && !rule.isExclude then
      if err ≠ .success then ⟨true, err, [outcome rule]⟩
      else (includeRules outcome (!matched) explicitlyIncluded err rules).after [outcome rule]
    else (includeRules outcome excluded explicitlyIncluded err rules).after [outcome rule]

/-! ## The matchers -/

variable (fnmatch : Text → Text → Outcome)

def matchFileRule (withPath : Text) (rule : Rule) : Outcome :=
  fnmatch rule.pattern withPath

def testedName (functionName : Text) (mangledName : Option Text) (rule : Rule) : Text :=
  match rule.isMangled, mangledName with
  | true, some mangledName => mangledName
  | _, _ => functionName

def matchFunctionRule (functionName : Text) (mangledName : Option Text) (rule : Rule) : Outcome :=
  fnmatch rule.pattern (testedName functionName mangledName rule)

/-- `scorep_filter_match_file`; the name may be NULL. -/
def matchFile (fileRules : List Rule) : Option Text → Evaluated
  | some fileName => matchRules (matchFileRule fnmatch fileName) false .success fileRules
  | none => ⟨false, .success, []⟩

def matchFunction (functionRules : List Rule) (functionName mangledName : Option Text) : Evaluated :=
  match functionName with
  | some functionName =>
    matchRules (matchFunctionRule fnmatch functionName mangledName) false .success functionRules
  | none => ⟨false, .success, []⟩

def includeFunction (functionRules : List Rule) (functionName mangledName : Option Text) : Evaluated :=
  match functionName with
  | some functionName =>
    includeRules (matchFunctionRule fnmatch functionName mangledName) false false .success functionRules
  | none => ⟨true, .success, []⟩

/-! ## The requests -/

/-- The returned code and `*result`, which stays what it is where the arguments are invalid. -/
structure Answer where
  code : ErrorCode
  result : Option Bool
  outcomes : List Outcome
deriving DecidableEq

def answer (filter : Option Rules) (result : Option Bool) (evaluate : Rules → Evaluated) : Answer :=
  match filter, result with
  | some filter, some _ =>
    let evaluated := evaluate filter
    ⟨evaluated.err, some evaluated.value, evaluated.outcomes⟩
  | _, result => ⟨.invalidArgument, result, []⟩

def filterMatchFile (filter : Option Rules) (fileName : Option Text) (result : Option Bool) : Answer :=
  answer filter result fun filter => matchFile fnmatch filter.fileRules fileName

def filterMatchFunction (filter : Option Rules) (functionName mangledName : Option Text)
    (result : Option Bool) : Answer :=
  answer filter result fun filter =>
    matchFunction fnmatch filter.functionRules functionName mangledName

def filterIncludeFunction (filter : Option Rules) (functionName mangledName : Option Text)
    (result : Option Bool) : Answer :=
  answer filter result fun filter =>
    includeFunction fnmatch filter.functionRules functionName mangledName

def filterMatch (filter : Option Rules) (fileName functionName mangledName : Option Text)
    (result : Option Bool) : Answer :=
  answer filter result fun filter =>
    let file := matchFile fnmatch filter.fileRules fileName
    if file.value then file
    else (matchFunction fnmatch filter.functionRules functionName mangledName).after file.outcomes

section Loops

variable (outcome : Rule → Outcome)

def excludedAfter (excluded : Bool) (rules : List Rule) : Bool :=
  rules.foldl (override (fun rule => outcome rule = .matched) Rule.isExclude) excluded

def FaultyFrom (excluded : Bool) (rules : List Rule) : Prop :=
  ∃ pre rule post, rules = pre ++ rule :: post ∧ outcome rule = .error ∧
    rule.isExclude = !excludedAfter outcome excluded pre

variable {outcome} {excluded : Bool} {rules : List Rule}

theorem faultyFrom_cons {rule : Rule} : FaultyFrom outcome excluded (rule :: rules) ↔
    outcome rule = .error ∧ rule.isExclude = !excluded ∨
      FaultyFrom outcome (excludedAfter outcome excluded [rule]) rules := by
  constructor
  · rintro ⟨pre, other, post, hsplit, herror, hkind⟩
    cases pre with
    | nil =>
      rw [nil_append, List.cons.injEq] at hsplit
      rw [hsplit.1]
      exact .inl ⟨herror, hkind⟩
    | cons head pre =>
      rw [cons_append, List.cons.injEq] at hsplit
      rw [hsplit.1]
      exact .inr ⟨pre, other, post, hsplit.2, herror, hkind⟩
  · rintro (⟨herror, hkind⟩ | ⟨pre, other, post, hsplit, herror, hkind⟩)
    · exact ⟨[], rule, rules, rfl, herror, hkind⟩
    · exact ⟨rule :: pre, other, post, by rw [hsplit]; rfl, herror, hkind⟩

theorem matchRules_cons {rule : Rule} (h : ¬(outcome rule = .error ∧ rule.isExclude = !excluded)) :
    matchRules outcome excluded .success (rule :: rules) =
      (matchRules outcome (excludedAfter outcome excluded [rule]) .success rules).after
        (if rule.isExclude = !excluded then [outcome rule] else []) := by
  rw [matchRules]
  cases excluded <;> cases hkind : rule.isExclude <;> cases houtcome : outcome rule <;>
    simp_all [ruleResult, excludedAfter, override, Evaluated.after]

theorem matchRules_cons_error {rule : Rule} (h : outcome rule = .error ∧ rule.isExclude = !excluded) :
    matchRules outcome excluded .success (rule :: rules) = ⟨false, .processedWithFaults, [.error]⟩ := by
  rw [matchRules]
  cases excluded <;> simp [h, ruleResult]

theorem not_faultyFrom_nil : ¬FaultyFrom outcome excluded [] := by
  rintro ⟨pre, rule, post, hsplit, -⟩
  exact append_ne_nil_of_right_ne_nil _ (cons_ne_nil _ _) hsplit.symm

theorem matchRules_of_faulty (h : FaultyFrom outcome excluded rules) :
    (matchRules outcome excluded .success rules).value = false ∧
      (matchRules outcome excluded .success rules).err = .processedWithFaults := by
  induction rules generalizing excluded with
  | nil => exact absurd h not_faultyFrom_nil
  | cons rule rules ih =>
    rw [faultyFrom_cons] at h
    by_cases hrule : outcome rule = .error ∧ rule.isExclude = !excluded
    · rw [matchRules_cons_error hrule]
      exact ⟨rfl, rfl⟩
    · rw [matchRules_cons hrule]
      exact ih (h.resolve_left hrule)

theorem error_mem_outcomes (h : FaultyFrom outcome excluded rules) :
    Outcome.error ∈ (matchRules outcome excluded .success rules).outcomes := by
  induction rules generalizing excluded with
  | nil => exact absurd h not_faultyFrom_nil
  | cons rule rules ih =>
    rw [faultyFrom_cons] at h
    by_cases hrule : outcome rule = .error ∧ rule.isExclude = !excluded
    · rw [matchRules_cons_error hrule]
      exact mem_singleton_self _
    · rw [matchRules_cons hrule]
      exact mem_append_right _ (ih (h.resolve_left hrule))

theorem matchRules_of_not_faulty (h : ¬FaultyFrom outcome excluded rules) :
    (matchRules outcome excluded .success rules).value = excludedAfter outcome excluded rules ∧
      (matchRules outcome excluded .success rules).err = .success ∧
      Outcome.error ∉ (matchRules outcome excluded .success rules).outcomes := by
  induction rules generalizing excluded with
  | nil => exact ⟨rfl, rfl, not_mem_nil⟩
  | cons rule rules ih =>
    rw [faultyFrom_cons, not_or] at h
    obtain ⟨hvalue, herr, houtcomes⟩ := ih h.2
    rw [matchRules_cons h.1]
    refine ⟨hvalue, herr, fun hmem => ?_⟩
    rcases mem_append.1 hmem with hnew | hrest
    · by_cases hkind : rule.isExclude = !excluded
      · rw [if_pos hkind, mem_singleton] at hnew
        exact h.1 ⟨hnew.symm, hkind⟩
      · rw [if_neg hkind] at hnew
        cases hnew
    · exact houtcomes hrest

def IncludesAll (rule : Rule) : Prop :=
  rule.isExclude = false ∧ rule.pattern = ['*']

instance : DecidablePred IncludesAll := fun rule =>
  inferInstanceAs (Decidable (rule.isExclude = false ∧ rule.pattern = ['*']))

variable (outcome) in
def explicitAfter (explicitlyIncluded : Bool) (rules : List Rule) : Bool :=
  rules.foldl (override (fun rule => outcome rule = .matched ∧ ¬IncludesAll rule) fun rule =>
    !rule.isExclude) explicitlyIncluded

variable (outcome) in
def errAfter (err : ErrorCode) (rules : List Rule) : ErrorCode :=
  rules.foldl (fun _ rule => (ruleResult (outcome rule)).2) err

variable {explicitlyIncluded : Bool} {err : ErrorCode}

theorem includeRules_cons {rule : Rule} (h : ¬(outcome rule = .error ∧ rule.isExclude = !excluded)) :
    includeRules outcome excluded explicitlyIncluded err (rule :: rules) =
      (includeRules outcome (excludedAfter outcome excluded [rule])
        (explicitAfter outcome explicitlyIncluded [rule]) (errAfter outcome err [rule])
          rules).after [outcome rule] := by
  rw [includeRules]
  cases excluded <;> cases hkind : rule.isExclude <;> cases houtcome : outcome rule <;>
    simp_all [ruleResult, excludedAfter, explicitAfter, errAfter, override, IncludesAll]

theorem includeRules_cons_error {rule : Rule} (h : outcome rule = .error ∧ rule.isExclude = !excluded) :
    includeRules outcome excluded explicitlyIncluded err (rule :: rules) =
      ⟨true, .processedWithFaults, [.error]⟩ := by
  rw [includeRules]
  cases excluded <;> simp [h, ruleResult]

theorem includeRules_of_faulty (h : FaultyFrom outcome excluded rules) :
    (includeRules outcome excluded explicitlyIncluded err rules).value = true ∧
      (includeRules outcome excluded explicitlyIncluded err rules).err = .processedWithFaults := by
  induction rules generalizing excluded explicitlyIncluded err with
  | nil => exact absurd h not_faultyFrom_nil
  | cons rule rules ih =>
    rw [faultyFrom_cons] at h
    by_cases hrule : outcome rule = .error ∧ rule.isExclude = !excluded
    · rw [includeRules_cons_error hrule]
      exact ⟨rfl, rfl⟩
    · rw [includeRules_cons hrule]
      exact ih (h.resolve_left hrule)

theorem includeRules_of_not_faulty (h : ¬FaultyFrom outcome excluded rules) :
    includeRules outcome excluded explicitlyIncluded err rules =
      ⟨!excludedAfter outcome excluded rules && explicitAfter outcome explicitlyIncluded rules,
        errAfter outcome err rules, rules.map outcome⟩ := by
  induction rules generalizing excluded explicitlyIncluded err with
  | nil => rfl
  | cons rule rules ih =>
    rw [faultyFrom_cons, not_or] at h
    rw [includeRules_cons h.1, ih h.2]
    rfl

theorem excludedAfter_iff : excludedAfter outcome false rules = true ↔
    ∃ rule, LastMatch (fun rule => outcome rule = .matched) rules rule ∧ rule.isExclude = true :=
  override_eq_true

theorem explicitAfter_iff : explicitAfter outcome false rules = true ↔
    ∃ rule, LastMatch (fun rule => outcome rule = .matched ∧ ¬IncludesAll rule) rules rule ∧
      rule.isExclude = false := by
  refine override_eq_true.trans ?_
  simp

theorem errAfter_ne_success : errAfter outcome .success rules ≠ .success ↔
    ∃ pre rule, rules = pre ++ [rule] ∧ outcome rule = .error := by
  cases eq_nil_or_concat rules with
  | inl hnil =>
    rw [hnil]
    constructor
    · intro h
      exact absurd rfl h
    · rintro ⟨pre, rule, hsplit, -⟩
      exact absurd hsplit.symm (append_ne_nil_of_right_ne_nil _ (cons_ne_nil _ _))
  | inr hconcat =>
    obtain ⟨pre, last, rfl⟩ := hconcat
    rw [errAfter, concat_eq_append, foldl_append, foldl_cons, foldl_nil]
    constructor
    · intro h
      refine ⟨pre, last, rfl, ?_⟩
      cases houtcome : outcome last with
      | matched =>
        rw [houtcome] at h
        exact absurd rfl h
      | noMatch =>
        rw [houtcome] at h
        exact absurd rfl h
      | error => rfl
    · rintro ⟨pre', rule, hsplit, herror⟩
      have hlast := singleton_inj.1 (append_inj' hsplit rfl).2
      rw [hlast, herror]
      exact fun h => nomatch h

theorem not_faultyFrom (h : ∀ rule, outcome rule ≠ .error) : ¬FaultyFrom outcome excluded rules := by
  rintro ⟨pre, rule, post, -, herror, -⟩
  exact h rule herror

end Loops

/-! ## The last matching rule -/

structure LastRuleDecides (fnmatch : Text → Text → Outcome) (filter : Rules)
    (fileName functionName : Text) (mangledName : Option Text) : Prop where
  matchFile : (matchFile fnmatch filter.fileRules (some fileName)).value = true ↔
    ∃ rule, LastMatch (fun rule => fnmatch rule.pattern fileName = .matched) filter.fileRules rule ∧
      rule.isExclude = true
  matchFunction : (matchFunction fnmatch filter.functionRules (some functionName) mangledName).value = true ↔
      ∃ rule, LastMatch (fun rule =>
        fnmatch rule.pattern (testedName functionName mangledName rule) = .matched)
          filter.functionRules rule ∧ rule.isExclude = true
  includeFunction :
    (includeFunction fnmatch filter.functionRules (some functionName) mangledName).value = true ↔
      (¬∃ rule, LastMatch (fun rule =>
        fnmatch rule.pattern (testedName functionName mangledName rule) = .matched)
          filter.functionRules rule ∧ rule.isExclude = true) ∧
      ∃ rule, LastMatch (fun rule =>
        fnmatch rule.pattern (testedName functionName mangledName rule) = .matched ∧
          ¬IncludesAll rule) filter.functionRules rule ∧ rule.isExclude = false
  included_not_excluded (name : Option Text) (result result' : Bool) :
    (filterIncludeFunction fnmatch (some filter) name mangledName (some result)).result = some true →
      (filterMatchFunction fnmatch (some filter) name mangledName (some result')).result = some false

variable {fnmatch}

theorem lastRule_decides (herror : ∀ pattern name, fnmatch pattern name ≠ .error) (filter : Rules)
    (fileName functionName : Text) (mangledName : Option Text) :
    LastRuleDecides fnmatch filter fileName functionName mangledName := by
  have hfile : ¬FaultyFrom (matchFileRule fnmatch fileName) false filter.fileRules :=
    not_faultyFrom fun rule => herror _ _
  have hfunction (name : Text) :
      ¬FaultyFrom (matchFunctionRule fnmatch name mangledName) false filter.functionRules :=
    not_faultyFrom fun rule => herror _ _
  refine ⟨?_, ?_, ?_, ?_⟩
  · rw [matchFile, (matchRules_of_not_faulty hfile).1]
    exact excludedAfter_iff
  · rw [matchFunction, (matchRules_of_not_faulty (hfunction functionName)).1]
    exact excludedAfter_iff
  · rw [includeFunction, includeRules_of_not_faulty (hfunction functionName), Bool.and_eq_true,
      Bool.not_eq_true', Bool.eq_false_iff, Ne, excludedAfter_iff, explicitAfter_iff]
    rfl
  · intro name result result' hincluded
    cases name with
    | none => rfl
    | some name =>
      have hvalue : (includeFunction fnmatch filter.functionRules (some name) mangledName).value = true :=
        Option.some.inj hincluded
      rw [includeFunction, includeRules_of_not_faulty (hfunction name), Bool.and_eq_true,
        Bool.not_eq_true'] at hvalue
      have hmatch := (matchRules_of_not_faulty (hfunction name)).1
      rw [hvalue.1] at hmatch
      exact congrArg some hmatch

/-- `fnmatch` of the C library, which does not fail. -/
def globOutcome (pattern name : Text) : Outcome :=
  if Glob.fnmatch pattern name then .matched else .noMatch

theorem globOutcome_ne_error (pattern name : Text) : globOutcome pattern name ≠ .error := by
  unfold globOutcome
  split <;> exact fun h => nomatch h

def excludeMain : Rules where
  fileRules := []
  functionRules := [⟨['*'], false, false⟩, ⟨['m', '*'], false, true⟩]

theorem lastRule_decides_main : (∀ pattern name, globOutcome pattern name ≠ .error) ∧
      LastRuleDecides globOutcome excludeMain ['a'] ['m', 'a'] none :=
  ⟨globOutcome_ne_error, lastRule_decides globOutcome_ne_error excludeMain ['a'] ['m', 'a'] none⟩

/-! ## Failures -/

variable (fnmatch)

def Faulty (outcome : Rule → Outcome) (rules : List Rule) : Prop :=
  ∃ pre rule post, rules = pre ++ rule :: post ∧ outcome rule = .error ∧ (rule.isExclude = true ↔
      ¬∃ decisive, LastMatch (fun rule => outcome rule = .matched) pre decisive ∧ decisive.isExclude = true)

theorem faulty_iff {outcome : Rule → Outcome} {rules : List Rule} :
    Faulty outcome rules ↔ FaultyFrom outcome false rules := by
  unfold Faulty FaultyFrom
  refine exists_congr fun pre => exists_congr fun rule => exists_congr fun post => ?_
  rw [← excludedAfter_iff, Bool.not_eq_true]
  cases rule.isExclude <;> cases excludedAfter outcome false pre <;> simp

def FileFaulty (filter : Rules) (fileName : Option Text) : Prop :=
  ∃ name, fileName = some name ∧ Faulty (matchFileRule fnmatch name) filter.fileRules

def FunctionFaulty (filter : Rules) (functionName mangledName : Option Text) : Prop :=
  ∃ name, functionName = some name ∧ Faulty (matchFunctionRule fnmatch name mangledName) filter.functionRules

def Answer.Reports (answer : Answer) : Prop :=
  Outcome.error ∈ answer.outcomes → answer.code ≠ .success

variable {fnmatch} {filter : Rules} {fileName functionName mangledName : Option Text}

theorem matchFile_of_faulty (h : FileFaulty fnmatch filter fileName) :
    (matchFile fnmatch filter.fileRules fileName).value = false ∧
      (matchFile fnmatch filter.fileRules fileName).err = .processedWithFaults := by
  obtain ⟨name, rfl, hfaulty⟩ := h
  exact matchRules_of_faulty (faulty_iff.1 hfaulty)

theorem matchFile_of_not_faulty (h : ¬FileFaulty fnmatch filter fileName) :
    (matchFile fnmatch filter.fileRules fileName).err = .success ∧
      Outcome.error ∉ (matchFile fnmatch filter.fileRules fileName).outcomes := by
  cases fileName with
  | none => exact ⟨rfl, not_mem_nil⟩
  | some name =>
    have hfaulty : ¬FaultyFrom (matchFileRule fnmatch name) false filter.fileRules := fun hfaulty =>
      h ⟨name, rfl, faulty_iff.2 hfaulty⟩
    exact (matchRules_of_not_faulty hfaulty).2

theorem matchFunction_of_faulty (h : FunctionFaulty fnmatch filter functionName mangledName) :
    (matchFunction fnmatch filter.functionRules functionName mangledName).err = .processedWithFaults := by
  obtain ⟨name, rfl, hfaulty⟩ := h
  exact (matchRules_of_faulty (faulty_iff.1 hfaulty)).2

theorem matchFunction_of_not_faulty (h : ¬FunctionFaulty fnmatch filter functionName mangledName) :
    (matchFunction fnmatch filter.functionRules functionName mangledName).err = .success ∧ Outcome.error ∉
        (matchFunction fnmatch filter.functionRules functionName mangledName).outcomes := by
  cases functionName with
  | none => exact ⟨rfl, not_mem_nil⟩
  | some name =>
    have hfaulty : ¬FaultyFrom (matchFunctionRule fnmatch name mangledName) false
        filter.functionRules := fun hfaulty => h ⟨name, rfl, faulty_iff.2 hfaulty⟩
    exact (matchRules_of_not_faulty hfaulty).2

theorem filterMatchFile_reports (result : Bool) :
    (filterMatchFile fnmatch (some filter) fileName (some result)).Reports := by
  intro herror
  by_cases hfaulty : FileFaulty fnmatch filter fileName
  · have hcode := (matchFile_of_faulty hfaulty).2
    exact fun h => nomatch hcode.symm.trans h
  · exact absurd herror (matchFile_of_not_faulty hfaulty).2

theorem filterMatchFunction_reports (result : Bool) :
    (filterMatchFunction fnmatch (some filter) functionName mangledName (some result)).Reports := by
  intro herror
  by_cases hfaulty : FunctionFaulty fnmatch filter functionName mangledName
  · have hcode := matchFunction_of_faulty hfaulty
    exact fun h => nomatch hcode.symm.trans h
  · exact absurd herror (matchFunction_of_not_faulty hfaulty).2

theorem filterMatch_reports_iff (result : Bool) :
    (filterMatch fnmatch (some filter) fileName functionName mangledName (some result)).Reports ↔
      (FileFaulty fnmatch filter fileName → FunctionFaulty fnmatch filter functionName mangledName) := by
  have hfile_error : FileFaulty fnmatch filter fileName →
      Outcome.error ∈ (matchFile fnmatch filter.fileRules fileName).outcomes := by
    rintro ⟨name, rfl, hfaulty⟩
    exact error_mem_outcomes (faulty_iff.1 hfaulty)
  by_cases hfile : FileFaulty fnmatch filter fileName
  · have hvalue := (matchFile_of_faulty hfile).1
    have hanswer : filterMatch fnmatch (some filter) fileName functionName mangledName (some result) =
        ⟨(matchFunction fnmatch filter.functionRules functionName mangledName).err,
          some (matchFunction fnmatch filter.functionRules functionName mangledName).value,
          (matchFile fnmatch filter.fileRules fileName).outcomes ++
            (matchFunction fnmatch filter.functionRules functionName mangledName).outcomes⟩ := by
      simp [filterMatch, answer, hvalue, Evaluated.after]
    rw [hanswer]
    constructor
    · intro hreports _
      by_contra hfaulty
      exact hreports (mem_append_left _ (hfile_error hfile)) (matchFunction_of_not_faulty hfaulty).1
    · intro hfaulty _ hcode
      exact nomatch (matchFunction_of_faulty (hfaulty hfile)).symm.trans hcode
  · refine iff_of_true ?_ fun h => absurd h hfile
    intro herror
    have hclean := (matchFile_of_not_faulty hfile).2
    cases hvalue : (matchFile fnmatch filter.fileRules fileName).value with
    | true =>
      have hmem : Outcome.error ∈ (matchFile fnmatch filter.fileRules fileName).outcomes := by
        simpa [filterMatch, answer, hvalue] using herror
      exact absurd hmem hclean
    | false =>
      have hmem : Outcome.error ∈
          (matchFunction fnmatch filter.functionRules functionName mangledName).outcomes := by
        have hor : Outcome.error ∈ (matchFile fnmatch filter.fileRules fileName).outcomes ∨ Outcome.error ∈
              (matchFunction fnmatch filter.functionRules functionName mangledName).outcomes := by
          simpa [filterMatch, answer, hvalue, Evaluated.after] using herror
        exact hor.resolve_left hclean
      have hcode := filterMatchFunction_reports result hmem
      intro hsuccess
      refine hcode ?_
      simpa [filterMatch, answer, hvalue, Evaluated.after, filterMatchFunction] using hsuccess

variable (fnmatch filter functionName mangledName) in
def FailureOverwritten : Prop :=
  ∃ name, functionName = some name ∧
    (∃ rule ∈ filter.functionRules, matchFunctionRule fnmatch name mangledName rule = .error) ∧
    ¬Faulty (matchFunctionRule fnmatch name mangledName) filter.functionRules ∧
    ∀ pre rule, filter.functionRules = pre ++ [rule] →
      matchFunctionRule fnmatch name mangledName rule ≠ .error

theorem filterIncludeFunction_reports_iff (result : Bool) :
    (filterIncludeFunction fnmatch (some filter) functionName mangledName (some result)).Reports ↔
      ¬FailureOverwritten fnmatch filter functionName mangledName := by
  cases functionName with
  | none =>
    refine iff_of_true (fun herror => absurd herror not_mem_nil) ?_
    rintro ⟨name, hname, -⟩
    cases hname
  | some name =>
    by_cases hfaulty : Faulty (matchFunctionRule fnmatch name mangledName) filter.functionRules
    · refine iff_of_true (fun _ hcode => ?_) ?_
      · have herr : (includeFunction fnmatch filter.functionRules (some name) mangledName).err =
            .processedWithFaults := (includeRules_of_faulty (faulty_iff.1 hfaulty)).2
        exact nomatch herr.symm.trans hcode
      · rintro ⟨name', hname, -, hnot, -⟩
        cases hname
        exact hnot hfaulty
    · have hloop : ¬FaultyFrom (matchFunctionRule fnmatch name mangledName) false
          filter.functionRules := fun h => hfaulty (faulty_iff.2 h)
      have hanswer : filterIncludeFunction fnmatch (some filter) (some name) mangledName (some result) =
          ⟨errAfter (matchFunctionRule fnmatch name mangledName) .success filter.functionRules,
            some (!excludedAfter (matchFunctionRule fnmatch name mangledName) false
              filter.functionRules && explicitAfter (matchFunctionRule fnmatch name mangledName) false
                filter.functionRules),
            filter.functionRules.map (matchFunctionRule fnmatch name mangledName)⟩ := by
        rw [filterIncludeFunction, answer]
        dsimp only [includeFunction]
        rw [includeRules_of_not_faulty hloop]
      rw [hanswer]
      unfold Answer.Reports
      rw [mem_map, errAfter_ne_success]
      constructor
      · rintro hreports ⟨name', hname, herror, -, hlast⟩
        cases hname
        obtain ⟨pre, rule, hsplit, hrule⟩ := hreports herror
        exact hlast pre rule hsplit hrule
      · intro hnot herror
        by_contra hlast
        exact hnot ⟨name, rfl, herror, hfaulty, fun pre rule hsplit hrule =>
          hlast ⟨pre, rule, hsplit, hrule⟩⟩

/-- No failure is lost by any of the requests. -/
structure Reported (fnmatch : Text → Text → Outcome) (filter : Rules)
    (fileName functionName mangledName : Option Text) (result : Bool) : Prop where
  matchFile : (filterMatchFile fnmatch (some filter) fileName (some result)).Reports
  matchFunction : (filterMatchFunction fnmatch (some filter) functionName mangledName (some result)).Reports
  includeFunction :
    (filterIncludeFunction fnmatch (some filter) functionName mangledName (some result)).Reports
  matchBoth : (filterMatch fnmatch (some filter) fileName functionName mangledName (some result)).Reports

theorem reported_iff (fnmatch : Text → Text → Outcome) (filter : Rules)
    (fileName functionName mangledName : Option Text) (result : Bool) :
    Reported fnmatch filter fileName functionName mangledName result ↔
      ¬FailureOverwritten fnmatch filter functionName mangledName ∧ (FileFaulty fnmatch filter fileName →
          FunctionFaulty fnmatch filter functionName mangledName) := by
  rw [← filterIncludeFunction_reports_iff result, ← filterMatch_reports_iff result]
  constructor
  · intro h
    exact ⟨h.includeFunction, h.matchBoth⟩
  · rintro ⟨hinclude, hboth⟩
    exact ⟨filterMatchFile_reports result, filterMatchFunction_reports result, hinclude, hboth⟩

/-- An `fnmatch` that fails on the name `b` only. -/
def failOnB (_ name : Text) : Outcome :=
  if name = ['b'] then .error else .noMatch

/-- The failure for the file name is overwritten by the success for the function. -/
theorem not_reported_file :
    ¬Reported failOnB ⟨[⟨['a'], false, true⟩], []⟩ (some ['b']) (some ['a']) none false := by
  intro h
  exact h.matchBoth (by decide) (by decide)

end ScoreP.Filter.Evaluation
