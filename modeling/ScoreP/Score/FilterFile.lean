import ScoreP.Filter.Matching
import ScoreP.Score.FilterNames

/-!
# Generated filter files

Source: `SCOREP_Score_Estimator.cpp`, `generateFilterFile`, and `SCOREP_Score_Group.cpp`. A filter file has
comments, the block of the region names and in it an entry for each region. What the comments tell about a
region is data of it.

`FilterFile.Exact` says what a filter file is for: the file is accepted, and then the listed regions are
excluded and no others.
-/

namespace ScoreP.Score

open Foundations Filter List

structure LineText where
  text : Text
  oneLine : (text.all fun c => c != '\n' && c != '\x00') = true

structure RegionName extends LineText where
  ne_nil : text ≠ []

structure FilterRegion where
  /-- `# type=... max_buf=...` and so on, behind the `#`. -/
  summary : LineText
  name : LineText
  fileName : LineText
  mangledName : RegionName

inductive BlockLine
  | comment (comment : LineText)
  | blank
  | mangled (name : RegionName)

structure FilterFile where
  header : List LineText
  block : List BlockLine

theorem oneLine_append {text text' : Text} (h : (text.all fun c => c != '\n' && c != '\x00') = true)
    (h' : (text'.all fun c => c != '\n' && c != '\x00') = true) :
    ((text ++ text').all fun c => c != '\n' && c != '\x00') = true := by
  rw [all_append, h, h']
  rfl

/-- `label='value'` as a comment. -/
def quotedComment (label : LineText) (value : LineText) : BlockLine :=
  .comment ⟨label.text ++ ['\''] ++ value.text ++ ['\''],
    oneLine_append (oneLine_append (oneLine_append label.oneLine rfl) value.oneLine) rfl⟩

def nameLabel : LineText := ⟨[' ', 'n', 'a', 'm', 'e', '='], rfl⟩
def fileLabel : LineText := ⟨[' ', 'f', 'i', 'l', 'e', '='], rfl⟩

def generateFilterEntry (region : FilterRegion) : List BlockLine :=
  [.comment region.summary, quotedComment nameLabel region.name, quotedComment fileLabel region.fileName,
    .mangled region.mangledName]

def getPreviouslyFiltered (region : FilterRegion) : List BlockLine :=
  [quotedComment nameLabel region.name, quotedComment fileLabel region.fileName, .mangled region.mangledName,
    .blank]

/-- `generateFilterFile` for the regions that are candidates, and if there is a filter, for the regions it
filters. -/
def generateFilterFile (header : List LineText) (candidates : List FilterRegion)
    (previously : Option (List LineText × List FilterRegion)) : FilterFile where
  header := header
  block := (candidates.flatMap fun region => generateFilterEntry region ++ [.blank]) ++
    match previously with
    | none => []
    | some (comments, regions) => [.blank, .blank] ++ comments.map .comment ++ [.blank] ++
      regions.flatMap fun region => getPreviouslyFiltered region ++ [.blank]

namespace FilterFile

def indent : Text := [' ', ' ', ' ', ' ']

def headerText (header : LineText) : Text :=
  '#' :: header.text

def blockText : BlockLine → Text
  | .comment comment => indent ++ '#' :: comment.text
  | .blank => []
  | .mangled name => indent ++ mangledToken ++ ' ' :: cleanName name.text

variable (file : FilterFile)

def texts : List Text :=
  file.header.map headerText ++ [regionNamesBegin, [' ', ' '] ++ excludeToken] ++ file.block.map blockText ++
    [regionNamesEnd]

def lines : List Text :=
  file.texts.map fun text => text ++ ['\n']

def content : Text :=
  file.lines.flatten

def listedNames : List BlockLine → List Text
  | [] => []
  | .mangled name :: block => name.text :: listedNames block
  | _ :: block => listedNames block

def names : List Text :=
  listedNames file.block

/-- The file is accepted, and the regions it excludes are the listed ones. A region without a mangled name
is known by its name. -/
def Exact : Prop :=
  ∃ state, parseFile ⟨[], []⟩ file.content = some (state, none) ∧
    ∀ functionName mangledName, matchFunction state.filter.functionRules functionName mangledName = true ↔
      mangledName.getD functionName ∈ file.names

/-- No line but the last one fills the buffer of `UTILS_IO_GetLine`. -/
def ReadsWell : Prop :=
  ∀ pre line post, file.lines = pre ++ line :: post → Fills (sizeAfter bufferSize pre) line → post = []

/-! ## Reading the lines -/

variable {file} {text : Text} {texts : List Text} {state : ParseState} {name : Text}

theorem fileLines_flatten (h : ∀ text ∈ texts, '\n' ∉ text) :
    fileLines (texts.map fun text => text ++ ['\n']).flatten = texts.map fun text => text ++ ['\n'] := by
  induction texts with
  | nil => rfl
  | cons text texts ih =>
    have hrest := ih fun other hother => h other (mem_cons_of_mem text hother)
    have htext := h text mem_cons_self
    rw [map_cons, flatten_cons, append_assoc, singleton_append]
    clear h ih
    induction text with
    | nil => rw [nil_append, fileLines, if_pos rfl, hrest, nil_append]
    | cons c text ih =>
      obtain ⟨hc, htext⟩ := not_or.1 fun h => htext (mem_cons.2 h)
      rw [cons_append, fileLines, if_neg (Ne.symm hc), ih htext]
      rfl

theorem notMem_of_oneLine {c : Char} (hc : c = '\n' ∨ c = '\x00') (line : LineText) : c ∉ line.text := by
  intro hmem
  have hall := all_eq_true.1 line.oneLine c hmem
  rcases hc with rfl | rfl
  · exact absurd hall (by decide)
  · exact absurd hall (by decide)

theorem notMem_cleanName {c : Char} (hc : c = '\n' ∨ c = '\x00') (line : LineText) : c ∉ cleanName line.text := by
  intro hmem
  rcases mem_cleanName hmem with hmem | rfl
  · exact notMem_of_oneLine hc line hmem
  · rcases hc with h | h
    · exact absurd h (by decide)
    · exact absurd h (by decide)

theorem notMem_texts {c : Char} (hc : c = '\n' ∨ c = '\x00') : ∀ text ∈ file.texts, c ∉ text := by
  have hfixed : c ∉ regionNamesBegin ++ [' ', ' '] ++ excludeToken ++ regionNamesEnd ++ indent ++ mangledToken ++
      ['#'] := by
    rcases hc with rfl | rfl
    · decide
    · decide
  simp only [mem_append, not_or] at hfixed
  obtain ⟨⟨⟨⟨⟨⟨hbegin, hblanks⟩, hexclude⟩, hend⟩, hindent⟩, hmangled⟩, hhash⟩ := hfixed
  intro text htext
  rw [FilterFile.texts, mem_append, mem_append, mem_append] at htext
  rcases htext with ((htext | htext) | htext) | htext
  · obtain ⟨header, -, rfl⟩ := mem_map.1 htext
    exact not_mem_cons_of_ne_of_not_mem (fun heq => hhash (by rw [heq]; exact mem_cons_self))
      (notMem_of_oneLine hc header)
  · rcases mem_cons.1 htext with rfl | htext
    · exact hbegin
    · rw [mem_singleton.1 htext, mem_append, not_or]
      exact ⟨hblanks, hexclude⟩
  · obtain ⟨line, -, rfl⟩ := mem_map.1 htext
    cases line with
    | comment comment =>
      rw [blockText, mem_append, not_or]
      exact ⟨hindent, not_mem_cons_of_ne_of_not_mem (fun heq => hhash (by rw [heq]; exact mem_cons_self))
        (notMem_of_oneLine hc comment)⟩
    | blank => exact not_mem_nil
    | mangled name =>
      rw [blockText, mem_append, mem_append, not_or, not_or]
      refine ⟨⟨hindent, hmangled⟩, not_mem_cons_of_ne_of_not_mem (fun heq => hblanks ?_)
        (notMem_cleanName hc name.toLineText)⟩
      rw [heq]
      exact mem_cons_self
  · rw [mem_singleton.1 htext]
    exact hend

theorem parseFile_eq (h : file.ReadsWell) : parseFile ⟨[], []⟩ file.content =
    some (untilError (parseLine processToken) file.lines (startState ⟨[], []⟩)) := by
  have hlines : fileLines file.content = file.lines := fileLines_flatten (notMem_texts (Or.inl rfl))
  have hwhole : ∀ pre line post, fileLines file.content = pre ++ line :: post →
      ReadsWhole (sizeAfter bufferSize pre) line post := by
    intro pre line post hsplit
    rw [hlines] at hsplit
    have hmem : line ∈ file.lines := by
      rw [hsplit]
      exact mem_append_right _ mem_cons_self
    obtain ⟨text, htext, rfl⟩ := mem_map.1 hmem
    constructor
    · rw [mem_append, not_or]
      exact ⟨notMem_texts (Or.inr rfl) text htext, by decide⟩
    · intro hfills c hc
      rw [h pre _ post hsplit hfills] at hc
      exact absurd hc.symm (Option.some_ne_none c)
  rw [parseFile, show file.content.length + 2 = file.content.length + 1 + 1 from rfl, parseLines_zero,
    parseLines_eq (by decide) (fun h => absurd h Bool.false_ne_true)
      (fun pre line post hsplit _ => ⟨hwhole pre line post hsplit, rfl⟩) (Nat.lt_succ_self _), hlines]
  rfl

end FilterFile

end ScoreP.Score
