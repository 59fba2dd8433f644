import Mathlib.Data.List.Basic

/-!
# Quote removal

How a POSIX shell reads one word that consists of single-quoted parts, escaped characters and plain
characters. `unquote` is `none` on what is not such a word. `Reads` is what a part means wherever it
stands outside of quotes; words are put together with `Reads.append`.
-/

namespace Foundations

def isPlain (c : Char) : Bool :=
  c.isAlphanum || "%+,-./:=@_".toList.contains c

inductive Quoting where
  | outside
  | inside
  | escaped

def unquoteFrom : Quoting → List Char → Option (List Char)
  | .outside, [] => some []
  | .outside, c :: rest =>
    if c = '\'' then unquoteFrom .inside rest
    else if c = '\\' then unquoteFrom .escaped rest
    else if isPlain c then (unquoteFrom .outside rest).map (c :: ·)
    else none
  | .inside, [] => none
  | .inside, c :: rest =>
    if c = '\'' then unquoteFrom .outside rest else (unquoteFrom .inside rest).map (c :: ·)
  | .escaped, [] => none
  | .escaped, c :: rest =>
    if c = '\n' then unquoteFrom .outside rest else (unquoteFrom .outside rest).map (c :: ·)

def unquote (word : List Char) : Option (List Char) :=
  unquoteFrom .outside word

/-- A part of a word that means `word` wherever it stands outside of quotes. -/
def Reads (part word : List Char) : Prop :=
  ∀ rest, unquoteFrom .outside (part ++ rest) = (unquoteFrom .outside rest).map (word ++ ·)

theorem Reads.nil : Reads [] [] := by
  intro rest
  simp

theorem Reads.append {part part' word word' : List Char} (h : Reads part word)
    (h' : Reads part' word') : Reads (part ++ part') (word ++ word') := by
  intro rest
  rw [List.append_assoc, h, h', Option.map_map]
  congr 1
  funext read
  simp

theorem Reads.plain {word : List Char} (h : ∀ c ∈ word, isPlain c = true) : Reads word word := by
  induction word with
  | nil => exact Reads.nil
  | cons c word ih =>
    intro rest
    have hc : isPlain c = true := h c (by simp)
    have hquote : c ≠ '\'' := by
      rintro rfl
      exact absurd hc (by decide)
    have hescape : c ≠ '\\' := by
      rintro rfl
      exact absurd hc (by decide)
    have hword := ih (fun d hd => h d (by simp [hd])) rest
    simp only [List.cons_append, unquoteFrom, hquote, hescape, hc, ↓reduceIte, hword, Option.map_map]
    rfl

theorem Reads.unquote_eq {part word : List Char} (h : Reads part word) : unquote part = some word := by
  have hend := h []
  simpa [unquote, unquoteFrom] using hend

end Foundations
