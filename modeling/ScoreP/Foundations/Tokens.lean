import Mathlib.Data.List.TakeWhile

/-!
# Tokens between separators

`nextToken` skips separators and takes the token up to the next one, which it drops. The `fields` of a
text are what its separators leave; taking one token after another goes through them
(`fields_of_nextToken`, `nextToken_eq_none_iff`).
-/

namespace Foundations

open List

universe u

variable {α : Type u} (isSeparator : α → Bool)

def nextToken (text : List α) : Option (List α × List α) :=
  match text.dropWhile isSeparator with
  | [] => none
  | c :: rest =>
    some ((c :: rest).takeWhile (fun d => !isSeparator d),
      ((c :: rest).dropWhile fun d => !isSeparator d).drop 1)

def fields (text : List α) : List (List α) :=
  (text.splitOnP isSeparator).filter fun field => !field.isEmpty

variable {isSeparator} {c : α} {text token rest : List α}

theorem fields_nil : fields isSeparator [] = [] := by
  rw [fields, splitOnP_nil]
  rfl

theorem fields_cons_separator (h : isSeparator c = true) :
    fields isSeparator (c :: text) = fields isSeparator text := by
  rw [fields, splitOnP_cons_eq_if_modifyHead, if_pos h]
  rfl

theorem fields_dropWhile : fields isSeparator (text.dropWhile isSeparator) = fields isSeparator text := by
  induction text with
  | nil => rfl
  | cons c text ih =>
    rw [dropWhile_cons]
    split
    case isTrue h => rw [ih, fields_cons_separator h]
    case isFalse => rfl

theorem fields_token (htoken : ∀ d ∈ token, isSeparator d = false) (hne : token ≠ []) :
    fields isSeparator token = [token] := by
  rw [fields, splitOnP_eq_singleton htoken, filter_cons]
  have hempty : token.isEmpty = false := isEmpty_eq_false_iff.2 hne
  rw [hempty]
  rfl

theorem fields_token_cons (htoken : ∀ d ∈ token, isSeparator d = false) (hne : token ≠ [])
    (h : isSeparator c = true) :
    fields isSeparator (token ++ c :: rest) = token :: fields isSeparator rest := by
  rw [fields, splitOnP_append_cons_of_forall_mem htoken c h, filter_cons]
  have hempty : token.isEmpty = false := isEmpty_eq_false_iff.2 hne
  rw [hempty]
  rfl

theorem nextToken_eq_none_iff : nextToken isSeparator text = none ↔ ∀ c ∈ text, isSeparator c = true := by
  rw [nextToken, ← dropWhile_eq_nil_iff]
  cases text.dropWhile isSeparator with
  | nil => exact ⟨fun _ => rfl, fun _ => rfl⟩
  | cons c rest => exact ⟨fun h => absurd h (Option.some_ne_none _), fun h => absurd h (cons_ne_nil c rest)⟩

theorem fields_of_none (h : nextToken isSeparator text = none) : fields isSeparator text = [] := by
  rw [← fields_dropWhile, dropWhile_eq_nil_iff.2 (nextToken_eq_none_iff.1 h), fields_nil]

theorem fields_of_nextToken (h : nextToken isSeparator text = some (token, rest)) :
    fields isSeparator text = token :: fields isSeparator rest ∧ rest.length < text.length := by
  rw [← fields_dropWhile]
  have hlength := (dropWhile_sublist isSeparator (l := text)).length_le
  rw [nextToken] at h
  cases htext : text.dropWhile isSeparator with
  | nil =>
    rw [htext] at h
    exact absurd h.symm (Option.some_ne_none _)
  | cons c others =>
    rw [htext] at h hlength
    obtain ⟨htoken, hrest⟩ := Prod.mk.inj (Option.some.inj h)
    have hc : isSeparator c = false := by
      have hhead := head?_dropWhile_not isSeparator text
      rw [htext] at hhead
      exact Bool.eq_false_iff.2 (by simpa using hhead)
    have hfree : ∀ d ∈ token, isSeparator d = false := by
      rw [← htoken]
      intro d hd
      simpa using mem_takeWhile_imp hd
    have hne : token ≠ [] := by
      rw [← htoken, takeWhile_cons, hc]
      exact cons_ne_nil _ _
    have hsplit := takeWhile_append_dropWhile (p := fun d => !isSeparator d) (l := c :: others)
    rw [htoken] at hsplit
    have hlong : 0 < token.length := length_pos_iff.2 hne
    have hsum := congrArg List.length hsplit
    rw [length_append] at hsum
    cases hafter : (c :: others).dropWhile fun d => !isSeparator d with
    | nil =>
      rw [hafter, append_nil] at hsplit
      rw [hafter, drop_nil] at hrest
      rw [hafter] at hsum
      rw [← hsplit, ← hrest, fields_token hfree hne, fields_nil]
      exact ⟨rfl, by simp only [length_nil] at *; omega⟩
    | cons d after =>
      have hd : isSeparator d = true := by
        have hhead := head?_dropWhile_not (fun d => !isSeparator d) (c :: others)
        rw [hafter] at hhead
        simpa using hhead
      rw [hafter] at hsplit hsum
      rw [hafter, drop_one, tail_cons] at hrest
      rw [← hsplit, ← hrest, fields_token_cons hfree hne hd]
      exact ⟨rfl, by simp only [length_cons] at *; omega⟩

end Foundations
