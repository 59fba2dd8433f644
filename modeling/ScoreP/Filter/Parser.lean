import Mathlib.Data.Nat.Notation

/-!
# The filter file parser

`processToken`, `getLine` and `parseFile` follow `process_token`, `UTILS_IO_GetLine` and
`SCOREP_Filter_ParseFile`. A `char` is a `Char`, a file is the list of its characters, and a C string
in a buffer ends before the first NUL character.

The loops over the file and over the characters of a line take what they do with a line and with a
token as an argument, so that `recordFile`, which keeps what every round reads and does, runs the same
loops.
-/

namespace ScoreP.Filter

abbrev Text := List Char

/-! ## Rules and states -/

structure Rule where
  pattern : Text
  isMangled : Bool
  isExclude : Bool
deriving DecidableEq

/-- The rule lists of a `SCOREP_Filter`. -/
structure Rules where
  fileRules : List Rule
  functionRules : List Rule
deriving DecidableEq

/-- The states without the mangled bit, `SCOREP_FILTER_MODE_BASE`. -/
inductive Base where
  | start
  | files
  | filesExclude
  | filesInclude
  | regions
  | regionsExclude
  | regionsInclude
deriving DecidableEq

/-- `scorep_filter_parse_modes`: a base state and the bit `SCOREP_FILTER_PARSE_MANGLED`. -/
structure Mode where
  base : Base
  mangled : Bool
deriving DecidableEq

structure ParseState where
  filter : Rules
  mode : Mode
deriving DecidableEq

/-- Where `SCOREP_ERROR_PARSE_SYNTAX` comes from. -/
inductive ParseError where
  | unexpectedToken (token : Text)
  | escapedLineBreak
deriving DecidableEq

def ParseError.message : ParseError → String
  | .unexpectedToken token => "Unexpected token '" ++ String.ofList token ++ "'"
  | .escapedLineBreak => "Escaping line breaks is not supported."

/-! ## Tokens -/

def fileNamesBegin : Text := "SCOREP_FILE_NAMES_BEGIN".toList
def fileNamesEnd : Text := "SCOREP_FILE_NAMES_END".toList
def regionNamesBegin : Text := "SCOREP_REGION_NAMES_BEGIN".toList
def regionNamesEnd : Text := "SCOREP_REGION_NAMES_END".toList
def excludeToken : Text := "EXCLUDE".toList
def includeToken : Text := "INCLUDE".toList
def mangledToken : Text := "MANGLED".toList
def demangledToken : Text := "DEMANGLED".toList

def addFileRule (state : ParseState) (rule : Rule) : ParseState :=
  { state with filter := { state.filter with fileRules := state.filter.fileRules ++ [rule] } }

def addFunctionRule (state : ParseState) (rule : Rule) : ParseState :=
  { state with filter := { state.filter with functionRules := state.filter.functionRules ++ [rule] } }

def processToken (state : ParseState) (token : Text) : ParseState × Option ParseError :=
  let enter (mode : Mode) : ParseState × Option ParseError := ({ state with mode := mode }, none)
  let unexpected : ParseState × Option ParseError := (state, some (.unexpectedToken token))
  if token = [] then (state, none)
  else if token = fileNamesBegin then
    if state.mode = ⟨.start, false⟩ then enter ⟨.files, false⟩ else unexpected
  else if token = fileNamesEnd then
    if state.mode = ⟨.files, false⟩ ∨ state.mode = ⟨.filesExclude, false⟩ ∨
        state.mode = ⟨.filesInclude, false⟩ then enter ⟨.start, false⟩
    else unexpected
  else if token = regionNamesBegin then
    if state.mode = ⟨.start, false⟩ then enter ⟨.regions, false⟩ else unexpected
  else if token = regionNamesEnd then
    match state.mode.base with
    | .regions | .regionsExclude | .regionsInclude => enter ⟨.start, false⟩
    | _ => unexpected
  else if token = excludeToken then
    match state.mode.base with
    | .files | .filesExclude | .filesInclude => enter ⟨.filesExclude, false⟩
    | .regions | .regionsExclude | .regionsInclude => enter ⟨.regionsExclude, false⟩
    | .start => unexpected
  else if token = includeToken then
    match state.mode.base with
    | .files | .filesExclude | .filesInclude => enter ⟨.filesInclude, false⟩
    | .regions | .regionsExclude | .regionsInclude => enter ⟨.regionsInclude, false⟩
    | .start => unexpected
  else if token = mangledToken then
    match state.mode.base with
    | .regionsExclude | .regionsInclude => enter { state.mode with mangled := true }
    | _ => unexpected
  else if token = demangledToken then
    match state.mode.base with
    | .regionsExclude | .regionsInclude => enter { state.mode with mangled := false }
    | _ => unexpected
  else
    match state.mode.base with
    | .filesExclude => (addFileRule state ⟨token, false, true⟩, none)
    | .filesInclude => (addFileRule state ⟨token, false, false⟩, none)
    | .regionsExclude => (addFunctionRule state ⟨token, state.mode.mangled, true⟩, none)
    | .regionsInclude => (addFunctionRule state ⟨token, state.mode.mangled, false⟩, none)
    | _ => unexpected

/-! ## Reading a line -/

/-- The rest of the file and `feof`. -/
structure File where
  rest : Text
  eof : Bool
deriving DecidableEq

def cString (buffer : Text) : Text :=
  buffer.takeWhile (· != '\x00')

def readChars : ℕ → Text → Text × File
  | 0, rest => ([], ⟨rest, false⟩)
  | _ + 1, [] => ([], ⟨[], true⟩)
  | n + 1, c :: rest =>
    if c = '\n' then (['\n'], ⟨rest, false⟩)
    else (c :: (readChars n rest).1, (readChars n rest).2)

/-- `fgets` with room for `n` characters and the NUL; NULL when there is nothing to read. -/
def fgets (n : ℕ) (file : File) : Option Text × File :=
  match readChars (n - 1) file.rest with
  | ([], file) => (none, file)
  | (c :: line, file) => (some (c :: line), file)

def bufferSize : ℕ := 1024

/-- What `UTILS_IO_GetLine` leaves behind: `*buffer`, `*buffer_size` and the file. -/
structure Line where
  buffer : Text
  size : ℕ
  file : File
deriving DecidableEq

def growBuffer : ℕ → Line → Line
  | 0, line => line
  | fuel + 1, line =>
    if (cString line.buffer).length = line.size - 1 then
      match fgets (bufferSize + 1) line.file with
      | (none, file) => { line with size := line.size + bufferSize, file := file }
      | (some more, file) =>
        growBuffer fuel ⟨line.buffer ++ more, line.size + bufferSize, file⟩
    else line

def getLine (size : ℕ) (file : File) : Line :=
  let size := if size = 0 then bufferSize else size
  match fgets size file with
  | (none, file) => ⟨[], size, file⟩
  | (some line, file) => growBuffer (file.rest.length + 1) ⟨line, size, file⟩

/-! ## Comments and tokens of a line -/

def strcspn (s reject : Text) : ℕ :=
  (s.takeWhile fun c => !reject.contains c).length

/-- Ends the string at `pos` if a `#` stands there that is not escaped. -/
def cutAt (buffer : Text) (pos : ℕ) : Text :=
  if pos < buffer.length ∧ (pos = 0 ∧ buffer.head? = some '#' ∨
      0 < pos ∧ buffer[pos - 1]? ≠ some '\\') then buffer.take pos
  else buffer

/-- The loop that cuts the comment, from position `start` on. -/
def cutComment : ℕ → Text → ℕ → Text
  | 0, buffer, _ => buffer
  | fuel + 1, buffer, start =>
    let pos := start + strcspn (buffer.drop start) ['#']
    let buffer := cutAt buffer pos
    if pos + 1 < buffer.length then cutComment fuel buffer (pos + 1) else buffer

def escapesLineBreak (buffer : Text) : Bool :=
  decide (2 ≤ buffer.length) && buffer[buffer.length - 2]? == some '\\'

def blanks : Text := [' ', '\t', '\n', '\r']

variable {σ : Type}

/-- The loop that hands the tokens of the line to `process`. -/
def tokenize (process : σ → Text → σ × Option ParseError) : ℕ → Text → ℕ → ℕ → σ → σ × Option ParseError
  | 0, _, _, _, state => (state, none)
  | fuel + 1, buffer, start, tokenStart, state =>
    if start < buffer.length then
      let pos := start + strcspn (buffer.drop start) blanks
      if pos ≤ buffer.length ∧ (pos = 0 ∨ 0 < pos ∧ buffer[pos - 1]? ≠ some '\\') then
        let buffer := buffer.set pos '\x00'
        match process state (cString (buffer.drop tokenStart)) with
        | (state, some err) => (state, some err)
        | (state, none) => tokenize process fuel buffer (pos + 1) (pos + 1) state
      else tokenize process fuel buffer (pos + 1) tokenStart state
    else (state, none)

def parseLine (process : σ → Text → σ × Option ParseError) (state : σ) (buffer : Text) :
    σ × Option ParseError :=
  let buffer := cutComment (buffer.length + 1) buffer 0
  if escapesLineBreak buffer then (state, some .escapedLineBreak)
  else tokenize process (buffer.length + 1) buffer 0 0 state

/-! ## The file -/

/-- The loop over the lines; `none` when the rounds do not suffice. -/
def parseLines (body : σ → Text → σ × Option ParseError) : ℕ → ℕ → File → σ → Option (σ × Option ParseError)
  | 0, _, _, _ => none
  | fuel + 1, size, file, state =>
    if file.eof then some (state, none)
    else
      let line := getLine size file
      let buffer := cString line.buffer
      if buffer.length = 0 then parseLines body fuel line.size line.file state
      else
        match body state buffer with
        | (state, some err) => some (state, some err)
        | (state, none) => parseLines body fuel line.size line.file state

def parseFile (filter : Rules) (content : Text) : Option (ParseState × Option ParseError) :=
  parseLines (parseLine processToken) (content.length + 2) 0 ⟨content, false⟩ ⟨filter, ⟨.start, false⟩⟩

/-! ## What the parser does with each line -/

structure LineRecord where
  line : Text
  tokens : List Text
  error : Option ParseError
deriving DecidableEq

def recordToken (state : ParseState × List Text) (token : Text) :
    (ParseState × List Text) × Option ParseError :=
  ((((processToken state.1 token).1), if token = [] then state.2 else state.2 ++ [token]),
    (processToken state.1 token).2)

def recordLine (body : (ParseState × List Text) → Text → (ParseState × List Text) × Option ParseError)
    (state : ParseState × List LineRecord) (line : Text) : (ParseState × List LineRecord) × Option ParseError :=
  (((body (state.1, []) line).1.1,
    state.2 ++ [⟨line, (body (state.1, []) line).1.2, (body (state.1, []) line).2⟩]),
    (body (state.1, []) line).2)

def recordFile (filter : Rules) (content : Text) :
    Option ((ParseState × List LineRecord) × Option ParseError) :=
  parseLines (recordLine (parseLine recordToken)) (content.length + 2) 0 ⟨content, false⟩
    (⟨filter, ⟨.start, false⟩⟩, [])

end ScoreP.Filter
