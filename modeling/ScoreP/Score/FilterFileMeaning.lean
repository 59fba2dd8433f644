import ScoreP.Foundations.Packing
import ScoreP.Score.FilterFile

/-!
# What a generated filter file excludes

`exact_iff_faithful` says when the parser and `fnmatch` undo the encoding of the names.

A file of faithful names adds one rule for each of them. For the converse, the patterns of a file are made of
its names (`sourced_lines`), a listed name is spelled out by one of them (`exists_spelled`), and the patterns
of a name are together no longer than the name (`weight_nameTokens`); so by counting every name has one
pattern, which spells out a name.
-/

namespace ScoreP.Score

open Foundations Foundations.Glob Filter List

namespace FilterFile

variable {file : FilterFile} {text name cur : Text} {texts tokens : List Text} {state : ParseState}
  {block : List BlockLine}

/-! ## One line -/

theorem processToken_nil (state : ParseState) : processToken state [] = (state, none) :=
  rfl

theorem strip_newline (hwhole : stripComment text = text) : stripComment (text ++ ['\n']) = text ++ ['\n'] := by
  rw [stripComment, upToMark_append_of_eq hwhole, upToMark_of_none]
  intro c hc
  rw [mem_singleton.1 hc]
  decide

theorem notMem_newline (hnul : '\x00' ∉ text) : '\x00' ∉ text ++ ['\n'] := by
  rw [mem_append, not_or]
  exact ⟨hnul, by decide⟩

theorem parseLine_whole (hnul : '\x00' ∉ text) (hwhole : stripComment text = text)
    (hlast : text.getLast? ≠ some '\\') : parseLine processToken state (text ++ ['\n']) =
      untilError processToken (pieces isBlank isEscape false [] text) state := by
  have hescapes : escapesLineBreak (text ++ ['\n']) = false := by
    rw [escapesLineBreak_concat]
    exact beq_eq_false_iff_ne.2 hlast
  rw [parseLine_eq processToken_nil (notMem_newline hnul), strip_newline hwhole, hescapes,
    if_neg Bool.false_ne_true, ← untilError_nonempty processToken_nil, keptPieces_concat hlast,
    untilError_nonempty processToken_nil]

theorem parseLine_comment {spaces comment : Text} (hspaces : spaces = [] ∨ spaces = indent)
    (hnul : '\x00' ∉ comment) :
    parseLine processToken state (spaces ++ '#' :: comment ++ ['\n']) = (state, none) := by
  have hstrip : stripComment (spaces ++ '#' :: comment ++ ['\n']) = spaces := by
    rcases hspaces with rfl | rfl <;> rfl
  have hnul' : '\x00' ∉ spaces ++ '#' :: comment ++ ['\n'] := by
    rcases hspaces with rfl | rfl
    · simpa using hnul
    · simpa [indent] using hnul
  rw [parseLine_eq processToken_nil hnul', hstrip]
  rcases hspaces with rfl | rfl <;> rfl

def beforeName : Text := indent ++ mangledToken ++ [' ']

theorem blockText_mangled (name : RegionName) : blockText (.mangled name) = beforeName ++ cleanName name.text := by
  rw [blockText, beforeName, append_assoc _ _ (cleanName name.text)]
  rfl

theorem strip_beforeName : stripComment (beforeName ++ text) = beforeName ++ stripComment text := by
  have hplain : ∀ c ∈ beforeName, isHash c = false := by
    have hall : (beforeName.all fun c => !isHash c) = true := by decide
    intro c hc
    exact Bool.not_eq_true' _ ▸ all_eq_true.1 hall c hc
  have hafter : escapedAfter isEscape false beforeName = false := by decide
  rw [stripComment, upToMark_append hplain, hafter]
  rfl

theorem pieces_beforeName : pieces isBlank isEscape false [] (beforeName ++ text) =
    [[], [], [], [], mangledToken] ++ pieces isBlank isEscape false [] text :=
  rfl

theorem notMem_blockText (line : BlockLine) : '\x00' ∉ blockText line := by
  have hmem : blockText line ∈ (FilterFile.mk [] [line]).texts := by
    rw [FilterFile.texts]
    exact mem_append_left _ (mem_append_right _ (mem_map_of_mem mem_cons_self))
  exact notMem_texts (Or.inr rfl) _ hmem

/-! ## The rules of the listed names -/

def nameRule (name : Text) : Rule :=
  ⟨cleanName name, true, true⟩

theorem cleanName_of_notMem (h : '\\' ∉ cleanName name) : cleanName name = name := by
  induction name with
  | nil => rfl
  | cons c name ih =>
    by_cases hc : c ∈ escapedChars
    · rw [cleanName_escaped hc] at h
      exact absurd mem_cons_self h
    · rw [cleanName_plain hc, mem_cons, not_or] at h
      rw [cleanName_plain hc, ih h.2]

theorem cleanName_mem_keywords : cleanName name ∈ keywords ↔ name ∈ keywords := by
  constructor
  · intro h
    have hall : (keywords.all fun token => !token.contains '\\') = true := by decide
    have hkeyword := all_eq_true.1 hall _ h
    rw [Bool.not_eq_true', contains_eq_mem, decide_eq_false_iff_not] at hkeyword
    rwa [cleanName_of_notMem hkeyword] at h
  · intro h
    have hall : (keywords.all fun token => cleanName token == token) = true := by decide
    rw [beq_iff_eq.1 (all_eq_true.1 hall _ h)]
    exact h

theorem cleanName_ne_nil (h : name ≠ []) : cleanName name ≠ [] := by
  cases name with
  | nil => exact absurd rfl h
  | cons c name =>
    by_cases hc : c ∈ escapedChars
    · rw [cleanName_escaped hc]
      exact cons_ne_nil _ _
    · rw [cleanName_plain hc]
      exact cons_ne_nil _ _

theorem processToken_nameRule {name : RegionName} (h : name.text ∉ keywords)
    (hmode : state.mode = ⟨.regionsExclude, true⟩) : processToken state (cleanName name.text) =
      (addFunctionRule state (nameRule name.text), none) := by
  rw [processToken_pattern (cleanName_ne_nil name.ne_nil) (mt cleanName_mem_keywords.1 h), hmode]
  rfl

theorem parseLine_mangled {name : RegionName} (h : Faithful name.text) (hbase : state.mode.base = .regionsExclude) :
    parseLine processToken state (blockText (.mangled name) ++ ['\n']) =
      (addFunctionRule { state with mode := ⟨.regionsExclude, true⟩ } (nameRule name.text), none) := by
  have hnul := notMem_blockText (.mangled name)
  rw [blockText_mangled] at hnul ⊢
  have hstrip : stripComment (beforeName ++ cleanName name.text) = beforeName ++ cleanName name.text := by
    rw [strip_beforeName, h.strip]
  have hpaired : Paired (· ∈ escapedChars) name.text := h.paired.mono fun c => mem_escapedChars
  have hlast : (beforeName ++ cleanName name.text).getLast? ≠ some '\\' := by
    have hafter : escapedAfter isEscape false (beforeName ++ cleanName name.text) = false := by
      rw [escapedAfter_append]
      exact escapedAfter_cleanName hpaired
    rw [escapedAfter_false] at hafter
    exact beq_eq_false_iff_ne.1 hafter
  have hmangled : untilError processToken [[], [], [], [], mangledToken] state =
      ({ state with mode := ⟨.regionsExclude, true⟩ }, none) := by
    obtain ⟨filter, base, mangled⟩ := state
    obtain rfl : base = .regionsExclude := hbase
    rfl
  have hnone : (untilError processToken [[], [], [], [], mangledToken] state).2 = none := by
    rw [hmangled]
  have hrule := @processToken_nameRule { state with mode := ⟨.regionsExclude, true⟩ } name h.notKeyword rfl
  have hpiece := h.pieces (notMem_of_oneLine (Or.inl rfl) name.toLineText)
  rw [parseLine_whole hnul hstrip hlast, pieces_beforeName, hpiece, untilError_append_of_none hnone, hmangled,
    untilError_cons_of_none (by rw [hrule]), hrule]
  rfl

theorem untilError_block (h : ∀ name ∈ listedNames block, Faithful name) (hbase : state.mode.base = .regionsExclude) :
    ∃ mode : Mode, mode.base = .regionsExclude ∧
      untilError (parseLine processToken) (block.map fun line => blockText line ++ ['\n']) state =
        (⟨⟨state.filter.fileRules, state.filter.functionRules ++ (listedNames block).map nameRule⟩, mode⟩, none) := by
  induction block generalizing state with
  | nil =>
    refine ⟨state.mode, hbase, ?_⟩
    rw [listedNames, map_nil, map_nil, append_nil]
    rfl
  | cons line block ih =>
    rw [map_cons]
    cases line with
    | comment comment =>
      have hline : parseLine processToken state (blockText (.comment comment) ++ ['\n']) = (state, none) :=
        parseLine_comment (Or.inr rfl) (notMem_of_oneLine (Or.inr rfl) comment)
      rw [untilError_cons_of_none (by rw [hline]), hline]
      exact ih h hbase
    | blank =>
      have hline : parseLine processToken state (blockText .blank ++ ['\n']) = (state, none) := rfl
      rw [untilError_cons_of_none (by rw [hline]), hline]
      exact ih h hbase
    | mangled name =>
      have hline := parseLine_mangled (h name.text mem_cons_self) hbase
      rw [untilError_cons_of_none (by rw [hline]), hline]
      obtain ⟨mode, hmode, hrest⟩ := @ih (addFunctionRule { state with mode := ⟨.regionsExclude, true⟩ }
        (nameRule name.text)) (fun other hother => h other (mem_cons_of_mem _ hother)) rfl
      refine ⟨mode, hmode, ?_⟩
      rw [hrest, listedNames, map_cons, addFunctionRule, append_assoc]
      rfl

theorem untilError_header {header : List LineText} :
    untilError (parseLine processToken) (header.map fun line => headerText line ++ ['\n']) state = (state, none) := by
  induction header with
  | nil => rfl
  | cons line header ih =>
    have hline : parseLine processToken state (headerText line ++ ['\n']) = (state, none) :=
      parseLine_comment (Or.inl rfl) (notMem_of_oneLine (Or.inr rfl) line)
    rw [map_cons, untilError_cons_of_none (by rw [hline]), hline, ih]

theorem lines_eq : file.lines = (file.header.map fun line => headerText line ++ ['\n']) ++
    ([regionNamesBegin ++ ['\n'], [' ', ' '] ++ excludeToken ++ ['\n']] ++
      ((file.block.map fun line => blockText line ++ ['\n']) ++ [regionNamesEnd ++ ['\n']])) := by
  rw [lines, texts, map_append, map_append, map_append, map_map, map_map, append_assoc, append_assoc]
  rfl

def blockState : ParseState :=
  ⟨⟨[], []⟩, ⟨.regionsExclude, false⟩⟩

theorem untilError_lines : untilError (parseLine processToken) file.lines (startState ⟨[], []⟩) =
    untilError (parseLine processToken)
      ((file.block.map fun line => blockText line ++ ['\n']) ++ [regionNamesEnd ++ ['\n']]) blockState := by
  have hbegin : untilError (parseLine processToken)
      [regionNamesBegin ++ ['\n'], [' ', ' '] ++ excludeToken ++ ['\n']] (startState ⟨[], []⟩) =
        (blockState, none) := by
    rfl
  rw [lines_eq, untilError_append_of_none (by rw [untilError_header]), untilError_header,
    untilError_append_of_none (by rw [hbegin]), hbegin]

theorem exact_of_faithful (hreads : file.ReadsWell) (h : ∀ name ∈ file.names, Faithful name) : file.Exact := by
  obtain ⟨mode, hmode, hblock⟩ := @untilError_block blockState file.block h rfl
  have hend : ∀ filter : Rules, parseLine processToken ⟨filter, mode⟩ (regionNamesEnd ++ ['\n']) =
      (⟨filter, ⟨.start, false⟩⟩, none) := by
    obtain ⟨base, mangled⟩ := mode
    obtain rfl : base = .regionsExclude := hmode
    exact fun _ => rfl
  refine ⟨⟨⟨[], (listedNames file.block).map nameRule⟩, ⟨.start, false⟩⟩, ?_, ?_⟩
  · rw [parseFile_eq hreads, untilError_lines, untilError_append_of_none (by rw [hblock]), hblock,
      untilError_cons_of_none (by rw [hend]), hend]
    rfl
  · intro functionName mangledName
    have hrule : ∀ name ∈ file.names, matchFunctionRule functionName mangledName (nameRule name) = true ↔
        mangledName.getD functionName = name := by
      intro name hname
      have hmatch := @fnmatch_cleanName name (mangledName.getD functionName) (h name hname)
      cases mangledName with
      | none => exact hmatch
      | some mangledName => exact hmatch
    dsimp only
    rw [matchFunction, excluded_iff]
    constructor
    · intro hmatch
      obtain ⟨pre, rule, post, hsplit, -, hmatch, -⟩ := hmatch
      have hmem : rule ∈ file.names.map nameRule := by
        rw [names, hsplit]
        exact mem_append_right _ mem_cons_self
      obtain ⟨name, hname, rfl⟩ := mem_map.1 hmem
      rw [(hrule name hname).1 hmatch]
      exact hname
    · intro hlisted
      obtain ⟨pre, post, hsplit⟩ := append_of_mem (mem_map_of_mem (f := nameRule) hlisted)
      refine ⟨pre, _, post, hsplit, rfl, (hrule _ hlisted).2 rfl, fun other hother hinclude => ?_⟩
      have hmem : other ∈ file.names.map nameRule := by
        rw [hsplit]
        exact mem_append_right _ (mem_cons_of_mem _ hother)
      obtain ⟨name, -, rfl⟩ := mem_map.1 hmem
      exact absurd hinclude.symm Bool.false_ne_true

/-! ## Where the patterns of the rules come from -/

def nameTokens (name : Text) : List Text :=
  (pieces isBlank isEscape false [] (stripComment (cleanName name))).filter fun token =>
    token != [] && !keywords.contains token

def Sourced (names : List Text) (state : ParseState) : Prop :=
  ∀ rule ∈ state.filter.functionRules, ∃ name ∈ names, rule.pattern ∈ nameTokens name

theorem processToken_keyword {token : Text} (h : token ∈ keywords) :
    (processToken state token).1.filter = state.filter := by
  simp only [keywords, mem_cons, not_mem_nil, or_false] at h
  fun_cases processToken state token
  -- a pattern is no keyword
  case case32 | case33 | case34 | case35 => simp_all
  all_goals rfl

theorem sourced_keyword {names : List Text} {token : Text} (h : token ∈ keywords) (hs : Sourced names state) :
    Sourced names (processToken state token).1 := by
  rw [Sourced, processToken_keyword h]
  exact hs

theorem sourced_token {names : List Text} (hname : name ∈ names) {token : Text}
    (htoken : token ∈ pieces isBlank isEscape false [] (stripComment (cleanName name))) (hs : Sourced names state) :
    Sourced names (processToken state token).1 := by
  by_cases hnil : token = []
  · rw [hnil]
    exact hs
  · by_cases hkeyword : token ∈ keywords
    · exact sourced_keyword hkeyword hs
    · have hmem : token ∈ nameTokens name := by
        refine mem_filter.2 ⟨htoken, ?_⟩
        simp [hnil, hkeyword]
      have hrule : ∀ mangled exclude, Sourced names (addFunctionRule state ⟨token, mangled, exclude⟩) := by
        intro mangled exclude rule hrule
        rcases mem_append.1 hrule with hrule | hrule
        · exact hs rule hrule
        · rw [mem_singleton.1 hrule]
          exact ⟨name, hname, hmem⟩
      rw [processToken_pattern hnil hkeyword]
      cases state.mode.base with
      | regionsExclude | regionsInclude => exact hrule _ _
      | start | files | filesExclude | filesInclude | regions => exact hs

theorem keptPieces_subset {e : Bool} : keptPieces e cur text ⊆ pieces isBlank isEscape e cur text := by
  rw [keptPieces]
  split
  · exact dropLast_subset _
  · exact fun _ h => h

theorem parseLine_invariant {P : ParseState → Prop} (hnul : '\x00' ∉ text)
    (htoken : ∀ state, ∀ token ∈ pieces isBlank isEscape false [] (stripComment text), P state →
      P (processToken state token).1) (hs : P state) : P (parseLine processToken state (text ++ ['\n'])).1 := by
  by_cases hwhole : stripComment text = text
  · by_cases hlast : text.getLast? = some '\\'
    · have hescapes : escapesLineBreak (text ++ ['\n']) = true := by
        rw [escapesLineBreak_concat, hlast]
        rfl
      rw [parseLine_eq processToken_nil (notMem_newline hnul), strip_newline hwhole, if_pos hescapes]
      exact hs
    · rw [parseLine_whole hnul hwhole hlast]
      rw [hwhole] at htoken
      exact untilError_invariant htoken hs
  · have hstrip : stripComment (text ++ ['\n']) = stripComment text := upToMark_append_of_ne hwhole
    rw [parseLine_eq processToken_nil (notMem_newline hnul), hstrip]
    split
    · exact hs
    · exact untilError_invariant (fun state token hmem => htoken state token (keptPieces_subset hmem)) hs

theorem mem_listedNames : name ∈ listedNames block ↔ ∃ region : RegionName, .mangled region ∈ block ∧ region.text = name := by
  induction block with
  | nil => exact ⟨fun h => absurd h not_mem_nil, fun ⟨_, h, _⟩ => absurd h not_mem_nil⟩
  | cons line block ih =>
    cases line with
    | comment comment => simp only [listedNames, ih, mem_cons, reduceCtorEq, false_or]
    | blank => simp only [listedNames, ih, mem_cons, reduceCtorEq, false_or]
    | mangled region =>
      rw [listedNames, mem_cons, ih]
      constructor
      · intro h
        rcases h with rfl | ⟨other, hmem, htext⟩
        · exact ⟨region, mem_cons_self, rfl⟩
        · exact ⟨other, mem_cons_of_mem _ hmem, htext⟩
      · intro h
        obtain ⟨other, hmem, htext⟩ := h
        rcases mem_cons.1 hmem with heq | hmem
        · rw [BlockLine.mangled.injEq] at heq
          exact Or.inl (by rw [← htext, heq])
        · exact Or.inr ⟨other, hmem, htext⟩

theorem sourced_line {line : BlockLine} (hline : line ∈ block) (hs : Sourced (listedNames block) state) :
    Sourced (listedNames block) (parseLine processToken state (blockText line ++ ['\n'])).1 := by
  cases line with
  | comment comment =>
    rw [show blockText (.comment comment) = indent ++ '#' :: comment.text from rfl,
      parseLine_comment (Or.inr rfl) (notMem_of_oneLine (Or.inr rfl) comment)]
    exact hs
  | blank => exact hs
  | mangled region =>
    have hname : region.text ∈ listedNames block := mem_listedNames.2 ⟨region, hline, rfl⟩
    refine parseLine_invariant (notMem_blockText _) (fun state token htoken hs => ?_) hs
    rw [blockText_mangled, strip_beforeName, pieces_beforeName] at htoken
    rcases mem_append.1 htoken with hbefore | htoken
    · simp only [mem_cons, not_mem_nil, or_false] at hbefore
      rcases hbefore with rfl | rfl | rfl | rfl | rfl
      all_goals first | exact hs | exact sourced_keyword (by decide) hs
    · exact sourced_token hname htoken hs

theorem sourced_lines : Sourced file.names
    (untilError (parseLine processToken) file.lines (startState ⟨[], []⟩)).1 := by
  rw [untilError_lines]
  refine untilError_invariant (fun state line hline hs => ?_) (fun rule hrule => absurd hrule not_mem_nil)
  rcases mem_append.1 hline with hline | hline
  · obtain ⟨line, hmem, rfl⟩ := mem_map.1 hline
    exact sourced_line hmem hs
  · rw [mem_singleton.1 hline]
    refine parseLine_invariant (by decide) (fun state token htoken hs => ?_) hs
    have hkeyword : token ∈ keywords := by
      rw [show pieces isBlank isEscape false [] (stripComment regionNamesEnd) = [regionNamesEnd] from rfl,
        mem_singleton] at htoken
      rw [htoken]
      decide
    exact sourced_keyword hkeyword hs

/-! ## Only faithful names are excluded -/

def weight (pattern : Text) : ℕ :=
  (units false pattern).length

theorem weight_nameTokens : ∑ p ∈ (nameTokens name).toFinset, weight p ≤ name.length ∧
    (∑ p ∈ (nameTokens name).toFinset, weight p = name.length → name ≠ [] →
      Paired (· ∈ escapedChars) name ∧ '#' ∉ name ∧ (∀ c ∈ name, isBlank c = true → c = ' ') ∧
        cleanName name ∈ nameTokens name ∧ 0 < weight (cleanName name)) := by
  have hset : ∑ p ∈ (nameTokens name).toFinset, weight p ≤ ((nameTokens name).map weight).sum :=
    sum_toFinset_le _
  have hfilter : ((nameTokens name).map weight).sum ≤
      ((pieces isBlank isEscape false [] (stripComment (cleanName name))).map weight).sum := by
    apply List.Sublist.sum_le_sum
    · exact List.Sublist.map _ (filter_sublist)
    · exact fun _ _ => Nat.zero_le _
  have hpieces := (@pieces_units (stripComment (cleanName name)) [] false fun _ => rfl).1
  rw [nil_append] at hpieces
  have hsome : 0 < (pieces isBlank isEscape false [] (stripComment (cleanName name))).length :=
    length_pos_iff.2 pieces_ne_nil
  have hstrip := @strip_units (cleanName name)
  have hlength := (@length_units_cleanName name).1
  have hsum : ((pieces isBlank isEscape false [] (stripComment (cleanName name))).map weight).sum =
      ((pieces isBlank isEscape false [] (stripComment (cleanName name))).map fun piece =>
        (units false piece).length).sum := rfl
  refine ⟨by omega, fun htight hne => ?_⟩
  have hpaired : Paired (· ∈ escapedChars) name := paired_of_length (by omega)
  have hwhole : stripComment (cleanName name) = cleanName name := hstrip.2.2 (by omega)
  have hone : (pieces isBlank isEscape false [] (cleanName name)).length = 1 := by
    rw [← hwhole]
    omega
  rcases @pieces_cleanName name [] hpaired with hblanks | hmany
  · refine ⟨hpaired, hash_notMem hpaired hwhole, hblanks.2, ?_⟩
    have htokens : nameTokens name =
        [cleanName name].filter fun token => token != [] && !keywords.contains token := by
      rw [nameTokens, hwhole, hblanks.1, nil_append]
    have hpos : 0 < weight (cleanName name) := by
      have hlong := length_pos_iff.2 hne
      have hweight : weight (cleanName name) = (units false (cleanName name)).length := rfl
      omega
    refine ⟨?_, hpos⟩
    by_contra hmem
    have hnil : nameTokens name = [] := by
      rw [htokens] at hmem ⊢
      rw [filter_eq_nil_iff]
      intro token htoken hkept
      rw [mem_singleton.1 htoken] at hkept
      exact hmem (mem_filter.2 ⟨mem_singleton_self _, hkept⟩)
    rw [hnil] at htight
    exact hne (length_eq_zero_iff.1 htight.symm)
  · omega

theorem units_nameTokens {pattern : Text} (h : pattern ∈ nameTokens name) :
    ∀ unit ∈ units false pattern, unit ∈ units false (cleanName name) := by
  have hpieces := (@pieces_units (stripComment (cleanName name)) [] false fun _ => rfl).2
  intro unit hunit
  exact (@strip_units (cleanName name)).1 unit (hpieces pattern (mem_filter.1 h).1 unit hunit)

def spelled (pattern : Text) : Text :=
  named ((units false pattern).map unitElement)

theorem length_spelled {pattern : Text} : (spelled pattern).length ≤ weight pattern := by
  have hlength := (@length_named ((units false pattern).map unitElement)).1
  rwa [length_map] at hlength

theorem bracket_notMem_pattern {pattern : Text} (h : ∀ pre post, name ≠ pre ++ '\\' :: '[' :: post)
    (htoken : pattern ∈ nameTokens name) : ('[', false) ∉ units false pattern := fun hmem =>
  bracket_notMem_units (fun hfalse => absurd hfalse Bool.false_ne_true) h (units_nameTokens htoken _ hmem)

theorem char_notMem_pattern {pattern : Text} {c : Char} (hc : c ∉ name) (hback : c ≠ '\\')
    (htoken : pattern ∈ nameTokens name) : .char c ∉ (units false pattern).map unitElement := by
  intro hmem
  obtain ⟨unit, hunit, helement⟩ := mem_map.1 hmem
  have hclean : unit.1 ∈ cleanName name := mem_of_mem_units (units_nameTokens htoken unit hunit)
  rw [unitElement_eq_char helement] at hclean
  rcases mem_cleanName hclean with h | h
  · exact hc h
  · exact hback h

theorem exists_spelled (hbrackets : ∀ name ∈ file.names, ∀ pre post, name ≠ pre ++ '\\' :: '[' :: post)
    (hsourced : Sourced file.names state)
    (hexact : ∀ functionName mangledName, matchFunction state.filter.functionRules functionName mangledName = true ↔
      mangledName.getD functionName ∈ file.names) (hname : name ∈ file.names) :
    ∃ pattern, (∃ other ∈ file.names, pattern ∈ nameTokens other) ∧ name = spelled pattern := by
  have hbreak : ∀ name ∈ file.names, '\n' ∉ name := by
    intro name hmem
    obtain ⟨region, -, rfl⟩ := mem_listedNames.1 hmem
    exact notMem_of_oneLine (Or.inl rfl) region.toLineText
  -- a region that has no mangled name
  have hmatches : ∀ text rule, rule ∈ state.filter.functionRules → (matchFunctionRule text none rule = true ↔
      quotedAfter false rule.pattern = false ∧
        accepts ((units false rule.pattern).map unitElement) text = true) := by
    intro text rule hrule
    obtain ⟨other, hother, htoken⟩ := hsourced rule hrule
    have hrule : matchFunctionRule text none rule = fnmatch rule.pattern text := by
      cases hmangled : rule.isMangled with
      | true => simp only [matchFunctionRule, hmangled]
      | false => simp only [matchFunctionRule, hmangled]
    rw [hrule, fnmatch_iff (bracket_notMem_pattern (hbrackets other hother) htoken)]
  have hplain : ∀ pattern, ∀ e ∈ (units false pattern).map unitElement, e.Plain := by
    intro pattern e he
    obtain ⟨unit, -, rfl⟩ := mem_map.1 he
    exact plain_units unit
  have hexcluded := (hexact name none).2 hname
  rw [matchFunction, excluded_iff] at hexcluded
  obtain ⟨pre, rule, post, hsplit, hexclude, hmatch, hpost⟩ := hexcluded
  have hrule : rule ∈ state.filter.functionRules := by
    rw [hsplit]
    exact mem_append_right _ mem_cons_self
  have haccepts := (hmatches name rule hrule).1 hmatch
  refine ⟨rule.pattern, hsourced rule hrule, ?_⟩
  rcases accepts_exact (hplain rule.pattern) haccepts.2 with hspelled | hfree
  · exact hspelled
  · obtain ⟨before, c, after, rfl, hall⟩ := hfree
    have hother : ¬matchFunction state.filter.functionRules (before ++ '\n' :: after) none = true := by
      rw [hexact]
      exact fun hmem => hbreak _ hmem (mem_append_right _ mem_cons_self)
    rw [matchFunction, excluded_iff] at hother
    refine absurd ⟨pre, rule, post, hsplit, hexclude, ?_, fun last hlast hinclude => ?_⟩ hother
    · exact (hmatches _ rule hrule).2 ⟨haccepts.1, hall '\n'⟩
    · have hlast' : last ∈ state.filter.functionRules := by
        rw [hsplit]
        exact mem_append_right _ (mem_cons_of_mem _ hlast)
      by_contra hincluded
      obtain ⟨other, hmem, htoken⟩ := hsourced last hlast'
      have hlast'' := (hmatches _ last hlast').1 (Bool.not_eq_false _ ▸ hincluded)
      have hnamed := accepts_replace (c := c) (hplain last.pattern)
        (char_notMem_pattern (hbreak other hmem) (by decide) htoken) hlast''.2
      exact absurd ((hmatches _ last hlast').2 ⟨hlast''.1, hnamed⟩) (Bool.not_eq_true _ ▸ hpost last hlast hinclude)

theorem faithful_of_exact (hreads : file.ReadsWell)
    (hbrackets : ∀ name ∈ file.names, ∀ pre post, name ≠ pre ++ '\\' :: '[' :: post) (h : file.Exact) :
    ∀ name ∈ file.names, Faithful name := by
  obtain ⟨state, hparse, hexact⟩ := h
  have hsourced : Sourced file.names state := by
    rw [parseFile_eq hreads] at hparse
    rw [← show (untilError (parseLine processToken) file.lines (startState ⟨[], []⟩)).1 = state by
      rw [Option.some.inj hparse]]
    exact sourced_lines
  have hspelled : ∀ name : Text, ∃ pattern, name ∈ file.names →
      (∃ other ∈ file.names, pattern ∈ nameTokens other) ∧ name = spelled pattern := by
    intro name
    by_cases hname : name ∈ file.names
    · obtain ⟨pattern, hpattern⟩ := exists_spelled hbrackets hsourced hexact hname
      exact ⟨pattern, fun _ => hpattern⟩
    · exact ⟨[], fun hmem => absurd hmem hname⟩
  choose assigned hassigned using hspelled
  have hpacking := @packing _ _ _ file.names.toFinset (fun name => (nameTokens name).toFinset) List.length weight
    assigned (fun name _ => weight_nameTokens.1)
    (fun name hname => by
      obtain ⟨other, hother, htoken⟩ := (hassigned name (mem_toFinset.1 hname)).1
      exact ⟨other, mem_toFinset.2 hother, mem_toFinset.2 htoken⟩)
    (fun name hname other hother heq => by
      rw [(hassigned name (mem_toFinset.1 hname)).2, (hassigned other (mem_toFinset.1 hother)).2, heq])
    (fun name hname => by
      conv_lhs => rw [(hassigned name (mem_toFinset.1 hname)).2]
      exact length_spelled)
  obtain ⟨htight, hheavy, hused⟩ := hpacking
  intro name hname
  have hne : name ≠ [] := by
    obtain ⟨region, -, rfl⟩ := mem_listedNames.1 hname
    exact region.ne_nil
  obtain ⟨hpaired, hhash, hblanks, htoken, hpos⟩ :=
    weight_nameTokens.2 (htight name (mem_toFinset.2 hname)) hne
  -- the name's own pattern spells some name out, so that it has no wildcards
  obtain ⟨other, hother, hown⟩ :=
    hused name (mem_toFinset.2 hname) (cleanName name) (mem_toFinset.2 htoken) hpos
  have hlength : (spelled (cleanName name)).length = ((units false (cleanName name)).map unitElement).length := by
    rw [← hown, ← (hassigned other (mem_toFinset.1 hother)).2, hheavy other hother, hown, length_map]
    rfl
  have hchars := length_named.2 hlength
  have hwild : ∀ c, (c = '?' ∨ c = '*') → (c, false) ∉ units false (cleanName name) := by
    intro c hc hmem
    obtain ⟨x, hx⟩ := hchars _ (mem_map_of_mem hmem)
    rcases hc with rfl | rfl
    · exact Element.noConfusion hx
    · exact Element.noConfusion hx
  have hunits := mem_units_cleanName hpaired
  refine ⟨?_, fun c hc hspecial => ?_, ?_⟩
  · intro hkeyword
    have hkept := (mem_filter.1 htoken).2
    simp [cleanName_mem_keywords.2 hkeyword] at hkept
  · simp only [mem_cons, not_mem_nil, or_false] at hspecial
    rcases hspecial with rfl | rfl | rfl | rfl
    · exact hwild '?' (Or.inl rfl) (hunits.1 hc)
    · exact hhash hc
    · exact absurd (hblanks '\t' hc (by decide)) (by decide)
    · exact absurd (hblanks '\r' hc (by decide)) (by decide)
  · exact hunits.2 (hwild '*' (Or.inr rfl)) (bracket_notMem_units (fun h => absurd h Bool.false_ne_true)
      (hbrackets name hname))

theorem readsWell_of_short (hshort : ∀ line ∈ file.lines, line.length < bufferSize - 1) : file.ReadsWell := by
  have hsize : ∀ pre : List Text, (∀ line ∈ pre, line.length < bufferSize - 1) →
      sizeAfter bufferSize pre = bufferSize := by
    intro pre
    induction pre with
    | nil => exact fun _ => rfl
    | cons line pre ih =>
      intro hpre
      have hgrow : grow bufferSize line.length = bufferSize := if_pos (hpre line mem_cons_self)
      rw [sizeAfter, foldl_cons, hgrow]
      exact ih fun other hother => hpre other (mem_cons_of_mem _ hother)
  intro pre line post hsplit hfills
  rw [hsplit] at hshort
  rw [hsize pre fun other hother => hshort other (mem_append_left _ hother)] at hfills
  exact absurd hfills.1 (Nat.not_le.2 (hshort line (mem_append_right _ mem_cons_self)))

/-- A file of faithful names excludes exactly these. When no name has a backslash before a bracket, only such
files do. -/
theorem exact_iff_faithful (hreads : file.ReadsWell) : ((∀ name ∈ file.names, Faithful name) → file.Exact) ∧
      ((∀ name ∈ file.names, ∀ pre post, name ≠ pre ++ '\\' :: '[' :: post) →
        (file.Exact ↔ ∀ name ∈ file.names, Faithful name)) :=
  ⟨exact_of_faithful hreads, fun hbrackets => ⟨faithful_of_exact hreads hbrackets, exact_of_faithful hreads⟩⟩

/-- The file of the candidate `foo`. -/
def fooFile : FilterFile :=
  generateFilterFile [] [⟨⟨[], rfl⟩, ⟨['f', 'o', 'o'], rfl⟩, ⟨['f'], rfl⟩, ⟨⟨['f', 'o', 'o'], rfl⟩, by decide⟩⟩] none

theorem exact_iff_faithful_foo : fooFile.Exact := by
  have hshort : (fooFile.lines.all fun line => decide (line.length < bufferSize - 1)) = true := by decide
  apply (exact_iff_faithful (readsWell_of_short fun line hline => of_decide_eq_true
    (all_eq_true.1 hshort line hline))).1
  intro name hname
  rw [show fooFile.names = [['f', 'o', 'o']] from rfl, mem_singleton] at hname
  subst hname
  refine ⟨by decide, fun c hc => ?_, ?_⟩
  · have hplain : (['f', 'o', 'o'].all fun c => decide (c ∉ ['?', '#', '\t', '\r'])) = true := by decide
    exact of_decide_eq_true (all_eq_true.1 hplain c hc)
  · exact .plain (by decide) (.plain (by decide) (.plain (by decide) .nil))

/-- The file of the candidate `a?`. -/
def wildFile : FilterFile :=
  generateFilterFile [] [⟨⟨[], rfl⟩, ⟨['a', '?'], rfl⟩, ⟨['f'], rfl⟩, ⟨⟨['a', '?'], rfl⟩, by decide⟩⟩] none

theorem not_exact_wildFile : ¬wildFile.Exact := by
  intro h
  have hshort : (wildFile.lines.all fun line => decide (line.length < bufferSize - 1)) = true := by decide
  have hnames : wildFile.names = [['a', '?']] := rfl
  have hname : ['a', '?'] ∈ wildFile.names := by
    rw [hnames]
    exact mem_cons_self
  have hbrackets : ∀ name ∈ wildFile.names, ∀ pre post, name ≠ pre ++ '\\' :: '[' :: post := by
    intro name hname pre post heq
    rw [hnames, mem_singleton] at hname
    have hmem : '[' ∈ ['a', '?'] := by
      rw [← hname, heq]
      exact mem_append_right _ (mem_cons_of_mem _ mem_cons_self)
    exact absurd hmem (by decide)
  have hfaithful := faithful_of_exact (readsWell_of_short fun line hline => of_decide_eq_true
    (all_eq_true.1 hshort line hline)) hbrackets h ['a', '?'] hname
  exact hfaithful.chars '?' (by decide) (by decide)

end FilterFile

end ScoreP.Score
