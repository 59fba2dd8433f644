import Mathlib.Data.List.Infix

/-!
# Pathname patterns

`fnmatch` is the matching of a text with a POSIX pattern without flags, in the C locale: `?` is any character, `*` any
text, `[` the begin of a bracket expression unless it is not closed, and a backslash quotes the next
character. A pattern is first cut into its elements.

`units` says which characters of a pattern are quoted; without a bracket expression the elements are read
off them (`elements_eq`). `accepts_exact` says that a text is spelled out by its pattern, or else one of its
characters is free; `accepts_replace` that a character which the pattern does not name may be any other.
-/

namespace Foundations.Glob

open List hiding set

/-! ## Patterns -/

inductive SetItem
  | range (lo hi : Char)
  | named (name : List Char)
  deriving DecidableEq

inductive Element
  | char (c : Char)
  | any
  | star
  | set (negated : Bool) (items : List SetItem)
  deriving DecidableEq

def inClass (name : List Char) (c : Char) : Bool :=
  match String.ofList name with
  | "alnum" => c.isAlphanum
  | "alpha" => c.isAlpha
  | "blank" => c == ' ' || c == '\t'
  | "cntrl" => c.val < 32 || c.val == 127
  | "digit" => c.isDigit
  | "graph" => 32 < c.val && c.val < 127
  | "lower" => c.isLower
  | "print" => 32 ≤ c.val && c.val < 127
  | "punct" => 32 < c.val && c.val < 127 && !c.isAlphanum
  | "space" => c == ' ' || (9 ≤ c.val && c.val ≤ 13)
  | "upper" => c.isUpper
  | "xdigit" => c.isDigit || ('a' ≤ c && c ≤ 'f') || ('A' ≤ c && c ≤ 'F')
  | _ => false

def SetItem.contains : SetItem → Char → Bool
  | .range lo hi, c => lo ≤ c && c ≤ hi
  | .named name, c => inClass name c

def Element.admits : Element → Char → Bool
  | .char x, c => x == c
  | .any, _ => true
  | .star, _ => false
  | .set negated items, c => (items.any fun item => item.contains c) != negated

/-- `[:name:]`, `[=c=]` or `[.c.]` at the begin of the text, with the rest. -/
def symbol : List Char → Option (SetItem × List Char)
  | '[' :: ':' :: text =>
    match text.dropWhile Char.isAlpha with
    | ':' :: ']' :: rest => some (.named (text.takeWhile Char.isAlpha), rest)
    | _ => none
  | '[' :: '=' :: c :: '=' :: ']' :: rest => some (.range c c, rest)
  | '[' :: '.' :: c :: '.' :: ']' :: rest => some (.range c c, rest)
  | _ => none

def setChar : List Char → Option (Char × List Char)
  | [] => none
  | ['\\'] => none
  | '\\' :: c :: rest => some (c, rest)
  | c :: rest => some (c, rest)

def rangeEnd : List Char → Option (Char × List Char)
  | '-' :: rest => if rest.head? = some ']' then none else setChar rest
  | _ => none

def setItems : ℕ → Bool → List Char → Option (List SetItem × List Char)
  | 0, _, _ => none
  | fuel + 1, first, text =>
    if !first && text.head? == some ']' then some ([], text.drop 1)
    else
      match symbol text with
      | some (item, rest) => (setItems fuel false rest).map fun result => (item :: result.1, result.2)
      | none =>
        match setChar text with
        | none => none
        | some (lo, rest) =>
          match rangeEnd rest with
          | some (hi, rest) => (setItems fuel false rest).map fun result => (.range lo hi :: result.1, result.2)
          | none => (setItems fuel false rest).map fun result => (.range lo lo :: result.1, result.2)

/-- A bracket expression behind its `[`. -/
def bracket (text : List Char) : Option (Element × List Char) :=
  let negated := text.head? == some '!' || text.head? == some '^'
  let items := if negated then text.drop 1 else text
  (setItems (items.length + 1) true items).map fun result => (.set negated result.1, result.2)

/-- The elements of a pattern after some characters that belong to an element already; a quote at the end
makes it no pattern. -/
def elements : ℕ → List Char → Option (List Element)
  | _, [] => some []
  | skip + 1, _ :: rest => elements skip rest
  | 0, c :: rest =>
    if c = '\\' then
      match rest with
      | [] => none
      | quoted :: _ => (elements 1 rest).map (.char quoted :: ·)
    else if c = '?' then (elements 0 rest).map (.any :: ·)
    else if c = '*' then (elements 0 rest).map (.star :: ·)
    else if c = '[' then
      match bracket rest with
      | some (set, after) => (elements (rest.length - after.length) rest).map (set :: ·)
      | none => (elements 0 rest).map (.char c :: ·)
    else (elements 0 rest).map (.char c :: ·)

def accepts : List Element → List Char → Bool
  | [], text => text.isEmpty
  | .star :: es, text => text.tails.any (accepts es)
  | _ :: _, [] => false
  | e :: es, c :: text => e.admits c && accepts es text

/-- `fnmatch( pattern, text, 0 ) == 0` -/
def fnmatch (pattern text : List Char) : Bool :=
  match elements 0 pattern with
  | some es => accepts es text
  | none => false

variable {es : List Element} {text pre post : List Char} {c x : Char} {quoted quoted' : Bool}

/-! ## Quoting -/

/-- The characters of a pattern that stand for something, and whether they are quoted. -/
def units : Bool → List Char → List (Char × Bool)
  | _, [] => []
  | true, c :: rest => (c, true) :: units false rest
  | false, c :: rest => if c = '\\' then units true rest else (c, false) :: units false rest

def quotedAfter : Bool → List Char → Bool
  | quoted, [] => quoted
  | true, _ :: rest => quotedAfter false rest
  | false, c :: rest => quotedAfter (c == '\\') rest

def unitElement : Char × Bool → Element
  | (c, true) => .char c
  | (c, false) => if c = '?' then .any else if c = '*' then .star else .char c

theorem units_append (pre post : List Char) :
    units quoted (pre ++ post) = units quoted pre ++ units (quotedAfter quoted pre) post := by
  induction pre generalizing quoted with
  | nil => rfl
  | cons c pre ih =>
    cases quoted with
    | true =>
      rw [cons_append, units, units, quotedAfter, ih]
      rfl
    | false =>
      rw [cons_append, units, units, quotedAfter]
      by_cases hc : c = '\\'
      · rw [if_pos hc, if_pos hc, beq_iff_eq.2 hc, ih]
      · rw [if_neg hc, if_neg hc, beq_eq_false_iff_ne.2 hc, ih]
        rfl

theorem quotedAfter_append (pre post : List Char) :
    quotedAfter quoted (pre ++ post) = quotedAfter (quotedAfter quoted pre) post := by
  induction pre generalizing quoted with
  | nil => rfl
  | cons c pre ih =>
    cases quoted with
    | true => exact ih
    | false => exact ih

theorem mem_of_mem_units (h : (c, quoted) ∈ units quoted' text) : c ∈ text := by
  induction text generalizing quoted' with
  | nil =>
    cases quoted' with
    | true => exact absurd h not_mem_nil
    | false => exact absurd h not_mem_nil
  | cons d text ih =>
    cases quoted' with
    | true =>
      rcases mem_cons.1 h with heq | h
      · exact (Prod.mk.inj heq).1 ▸ mem_cons_self
      · exact mem_cons_of_mem _ (ih h)
    | false =>
      rw [units] at h
      split at h
      · exact mem_cons_of_mem _ (ih h)
      · rcases mem_cons.1 h with heq | h
        · exact (Prod.mk.inj heq).1 ▸ mem_cons_self
        · exact mem_cons_of_mem _ (ih h)

theorem quotedAfter_concat (hc : c ≠ '\\') : quotedAfter quoted (pre ++ [c]) = false := by
  rw [quotedAfter_append]
  cases quotedAfter quoted pre with
  | true => rfl
  | false => exact beq_eq_false_iff_ne.2 hc

theorem elements_eq (hbracket : ('[', false) ∉ units false text) :
    elements 0 text = if quotedAfter false text then none else some ((units false text).map unitElement) := by
  induction hlength : text.length using Nat.strong_induction_on generalizing text with
  | _ n ih =>
    cases text with
    | nil => rfl
    | cons c rest =>
      have hunit : ∀ (c : Char) (rest : List Char), rest.length < n → ('[', false) ∉ units false rest →
          ∀ e, (elements 0 rest).map (e :: ·) =
            if quotedAfter false rest then none else some (e :: (units false rest).map unitElement) := by
        intro c rest hrest hbracket e
        rw [ih rest.length hrest hbracket rfl]
        split <;> rfl
      rw [length_cons] at hlength
      by_cases hc : c = '\\'
      · subst hc
        cases rest with
        | nil => rfl
        | cons d rest =>
          rw [length_cons] at hlength
          have hbracket' : ('[', false) ∉ units false rest := by
            intro hmem
            exact hbracket (mem_cons_of_mem _ hmem)
          exact hunit d rest (by omega) hbracket' (.char d)
      · have hunits : units false (c :: rest) = (c, false) :: units false rest := if_neg hc
        have hafter : quotedAfter false (c :: rest) = quotedAfter false rest := by
          rw [quotedAfter, beq_eq_false_iff_ne.2 hc]
        rw [hunits, mem_cons, not_or] at hbracket
        have hrest := hunit c rest (by omega) hbracket.2
        simp only [elements, if_neg hc]
        rw [hunits, hafter, map_cons]
        by_cases hany : c = '?'
        · rw [if_pos hany, hrest, hany]
          rfl
        · rw [if_neg hany]
          by_cases hstar : c = '*'
          · rw [if_pos hstar, hrest, hstar]
            rfl
          · have hset : ¬c = '[' := fun heq => hbracket.1 (by rw [heq])
            have helement : unitElement (c, false) = .char c := by
              rw [unitElement, if_neg hany, if_neg hstar]
            rw [if_neg hstar, if_neg hset, hrest, helement]

/-! ## Matching -/

theorem accepts_star : accepts (.star :: es) text = true ↔
    ∃ skipped rest, text = skipped ++ rest ∧ accepts es rest = true := by
  rw [accepts, any_eq_true]
  constructor
  · intro h
    obtain ⟨rest, hmem, hrest⟩ := h
    obtain ⟨skipped, hsplit⟩ := (mem_tails _ _).1 hmem
    exact ⟨skipped, rest, hsplit.symm, hrest⟩
  · intro h
    obtain ⟨skipped, rest, hsplit, hrest⟩ := h
    exact ⟨rest, (mem_tails _ _).2 ⟨skipped, hsplit.symm⟩, hrest⟩

theorem accepts_char : accepts (.char x :: es) text = true ↔ ∃ rest, text = x :: rest ∧ accepts es rest = true := by
  cases text with
  | nil =>
    constructor
    · intro h
      exact absurd h Bool.false_ne_true
    · intro h
      obtain ⟨rest, hsplit, -⟩ := h
      exact absurd hsplit.symm (cons_ne_nil _ _)
  | cons c text =>
    rw [accepts, Element.admits, Bool.and_eq_true, beq_iff_eq]
    · constructor
      · intro h
        exact ⟨text, by rw [h.1], h.2⟩
      · intro h
        obtain ⟨rest, hsplit, hrest⟩ := h
        obtain ⟨rfl, rfl⟩ := List.cons.inj hsplit
        exact ⟨rfl, hrest⟩
    · exact fun h => Element.noConfusion h

theorem accepts_any : accepts (.any :: es) text = true ↔ ∃ c rest, text = c :: rest ∧ accepts es rest = true := by
  cases text with
  | nil =>
    constructor
    · intro h
      exact absurd h Bool.false_ne_true
    · intro h
      obtain ⟨_, rest, hsplit, -⟩ := h
      exact absurd hsplit.symm (cons_ne_nil _ _)
  | cons c text =>
    rw [accepts, Element.admits, Bool.true_and]
    · constructor
      · intro h
        exact ⟨c, text, rfl, h⟩
      · intro h
        obtain ⟨_, rest, hsplit, hrest⟩ := h
        obtain ⟨rfl, rfl⟩ := List.cons.inj hsplit
        exact hrest
    · exact fun h => Element.noConfusion h

theorem accepts_literals : accepts (text.map .char) post = true ↔ post = text := by
  induction text generalizing post with
  | nil =>
    rw [map_nil, accepts, List.isEmpty_iff]
  | cons c text ih =>
    rw [map_cons, accepts_char]
    constructor
    · intro h
      obtain ⟨rest, hsplit, hrest⟩ := h
      rw [hsplit, ih.1 hrest]
    · intro h
      exact ⟨text, h, ih.2 rfl⟩

def Element.Plain : Element → Prop
  | .set _ _ => False
  | _ => True

def named (es : List Element) : List Char :=
  es.filterMap fun
    | .char c => some c
    | _ => none

theorem length_named : (named es).length ≤ es.length ∧
    ((named es).length = es.length → ∀ e ∈ es, ∃ c, e = .char c) := by
  induction es with
  | nil => exact ⟨Nat.le_refl _, fun _ e he => absurd he not_mem_nil⟩
  | cons e es ih =>
    by_cases hchar : ∃ c, e = .char c
    · obtain ⟨c, rfl⟩ := hchar
      have hlength : (named (.char c :: es)).length = (named es).length + 1 := rfl
      rw [hlength, length_cons]
      refine ⟨Nat.succ_le_succ ih.1, fun heq e he => ?_⟩
      rcases mem_cons.1 he with rfl | he
      · exact ⟨c, rfl⟩
      · exact ih.2 (Nat.succ.inj heq) e he
    · have hnamed : named (e :: es) = named es := by
        cases e with
        | char c => exact absurd ⟨c, rfl⟩ hchar
        | any | star | set => rfl
      rw [hnamed, length_cons]
      exact ⟨Nat.le_succ_of_le ih.1, fun heq => absurd heq (by have := ih.1; omega)⟩

theorem accepts_exact (hplain : ∀ e ∈ es, e.Plain) (h : accepts es text = true) :
    text = named es ∨ ∃ pre c post, text = pre ++ c :: post ∧ ∀ d, accepts es (pre ++ d :: post) = true := by
  induction es generalizing text with
  | nil => exact Or.inl (List.isEmpty_iff.1 h)
  | cons e es ih =>
    have hrest : ∀ rest, accepts es rest = true → rest = named es ∨
        ∃ pre c post, rest = pre ++ c :: post ∧ ∀ d, accepts es (pre ++ d :: post) = true :=
      fun rest => ih fun e he => hplain e (mem_cons_of_mem _ he)
    cases e with
    | char x =>
      obtain ⟨rest, rfl, haccepts⟩ := accepts_char.1 h
      rcases hrest rest haccepts with hnamed | hfree
      · exact Or.inl (by rw [hnamed]; rfl)
      · obtain ⟨pre, c, post, rfl, hall⟩ := hfree
        exact Or.inr ⟨x :: pre, c, post, rfl, fun d => accepts_char.2 ⟨_, rfl, hall d⟩⟩
    | any =>
      obtain ⟨c, rest, rfl, haccepts⟩ := accepts_any.1 h
      exact Or.inr ⟨[], c, rest, rfl, fun d => accepts_any.2 ⟨d, rest, rfl, haccepts⟩⟩
    | star =>
      obtain ⟨skipped, rest, rfl, haccepts⟩ := accepts_star.1 h
      cases skipped with
      | nil =>
        rcases hrest rest haccepts with hnamed | hfree
        · exact Or.inl hnamed
        · obtain ⟨pre, c, post, rfl, hall⟩ := hfree
          exact Or.inr ⟨pre, c, post, rfl, fun d => accepts_star.2 ⟨[], _, rfl, hall d⟩⟩
      | cons c skipped =>
        exact Or.inr ⟨[], c, skipped ++ rest, rfl, fun d => accepts_star.2 ⟨d :: skipped, rest, rfl, haccepts⟩⟩
    | set negated items => exact (hplain _ mem_cons_self).elim

theorem accepts_replace (hplain : ∀ e ∈ es, e.Plain) (hx : .char x ∉ es)
    (h : accepts es (pre ++ x :: post) = true) : accepts es (pre ++ c :: post) = true := by
  induction es generalizing pre with
  | nil => exact absurd (List.isEmpty_iff.1 h) (append_ne_nil_of_right_ne_nil _ (cons_ne_nil _ _))
  | cons e es ih =>
    have hrest : ∀ pre, accepts es (pre ++ x :: post) = true → accepts es (pre ++ c :: post) = true :=
      fun pre => ih (fun e he => hplain e (mem_cons_of_mem _ he)) fun hmem => hx (mem_cons_of_mem _ hmem)
    cases e with
    | char y =>
      obtain ⟨rest, hsplit, haccepts⟩ := accepts_char.1 h
      cases pre with
      | nil =>
        obtain ⟨rfl, -⟩ := List.cons.inj hsplit
        exact absurd mem_cons_self hx
      | cons d pre =>
        obtain ⟨rfl, rfl⟩ := List.cons.inj hsplit
        exact accepts_char.2 ⟨_, rfl, hrest pre haccepts⟩
    | any =>
      obtain ⟨d, rest, hsplit, haccepts⟩ := accepts_any.1 h
      cases pre with
      | nil =>
        obtain ⟨-, rfl⟩ := List.cons.inj hsplit
        exact accepts_any.2 ⟨c, _, rfl, haccepts⟩
      | cons y pre =>
        obtain ⟨-, rfl⟩ := List.cons.inj hsplit
        exact accepts_any.2 ⟨y, _, rfl, hrest pre haccepts⟩
    | star =>
      obtain ⟨skipped, rest, hsplit, haccepts⟩ := accepts_star.1 h
      rcases append_eq_append_iff.1 hsplit with ⟨middle, hskipped, hmiddle⟩ | ⟨middle, hpre, hrest'⟩
      · cases middle with
        | nil =>
          rw [nil_append] at hmiddle
          rw [append_nil] at hskipped
          rw [← hmiddle] at haccepts
          exact accepts_star.2 ⟨pre, _, rfl, hrest [] haccepts⟩
        | cons y middle =>
          obtain ⟨-, rfl⟩ := List.cons.inj hmiddle
          refine accepts_star.2 ⟨pre ++ c :: middle, rest, ?_, haccepts⟩
          rw [append_assoc]
          rfl
      · rw [hrest'] at haccepts
        refine accepts_star.2 ⟨skipped, middle ++ c :: post, ?_, hrest middle haccepts⟩
        rw [hpre, append_assoc]
    | set negated items => exact (hplain _ mem_cons_self).elim

theorem plain_units (unit : Char × Bool) : (unitElement unit).Plain := by
  obtain ⟨c, quoted⟩ := unit
  cases quoted with
  | true => trivial
  | false =>
    rw [unitElement]
    split
    · trivial
    · split <;> trivial

theorem unitElement_eq_char {unit : Char × Bool} (h : unitElement unit = .char x) : unit.1 = x := by
  obtain ⟨c, quoted⟩ := unit
  cases quoted with
  | true => exact Element.char.inj h
  | false =>
    rw [unitElement] at h
    split at h
    · exact Element.noConfusion h
    · split at h
      · exact Element.noConfusion h
      · exact Element.char.inj h

theorem fnmatch_iff (hbracket : ('[', false) ∉ units false pre) : fnmatch pre text = true ↔
    quotedAfter false pre = false ∧ accepts ((units false pre).map unitElement) text = true := by
  rw [fnmatch, elements_eq hbracket]
  cases quotedAfter false pre with
  | true => exact ⟨fun h => absurd h Bool.false_ne_true, fun h => absurd h.1.symm Bool.false_ne_true⟩
  | false => exact ⟨fun h => ⟨rfl, h⟩, fun h => h.2⟩

end Foundations.Glob
