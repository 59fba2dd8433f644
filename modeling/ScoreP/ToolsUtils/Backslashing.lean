import ScoreP.ToolsUtils.ReplaceAll

/-!
# Backslashes, string literals and lists of tokens

Source: `undo_backslashing`, `backslash_special_chars`, `make_string_literal`, `split_string`, `deque_to_string` and
`string_to_deque` in `src/tools/lib/scorep_tools_utils.cpp`.

The loops edit the string that they scan; what they make of it is a function of the characters from left to
right (`backslashSpecialChars_eq`, `undoBackslashing_eq`, `makeStringLiteral_eq`). A shell takes a backslash
in front of a line break as a continuation of the line (`shellUnescape_backslashed`).
-/

namespace ScoreP.ToolsUtils

open List

/-- `str.find( pattern, pos )` -/
def findFrom (pattern str : Text) (pos : ℕ) : Option ℕ :=
  if pos ≤ str.length then (find pattern (str.drop pos)).map (pos + ·) else none

def undoLoop : ℕ → Text → Option ℕ → Option Text
  | 0, _, _ => none
  | _ + 1, str, none => some str
  | fuel + 1, str, some pos =>
    let str := str.eraseIdx pos
    undoLoop fuel str (findFrom ['\\'] str (pos + 1))

def undoBackslashing (str : Text) : Option Text :=
  undoLoop (str.length + 1) str (findFrom ['\\'] str 0)

def specialChars : Text :=
  ['\\', ' ', '?', '\x22', '<', '>', '|', '&', ';', ',', '\x60', '\'', '$', '(', ')', '\n', '\t', '#', '*']

/-- The last special character of the first `n` ones. -/
def findLastOf (str : Text) : ℕ → Option ℕ
  | 0 => none
  | n + 1 => if (str[n]?).any (· ∈ specialChars) then some n else findLastOf str n

def backslashLoop : ℕ → Text → Option ℕ → Option Text
  | 0, _, _ => none
  | _ + 1, str, none => some str
  | fuel + 1, str, some pos =>
    let str := str.take pos ++ '\\' :: str.drop pos
    if pos = 0 then some str else backslashLoop fuel str (findLastOf str (pos - 1 + 1))

def backslashSpecialChars (str : Text) : Option Text :=
  backslashLoop (str.length + 1) str (findLastOf str str.length)

/-- `char_list` and `replace_list` of `make_string_literal`. -/
def literalChars : List (Char × Char) :=
  [('\x22', '\x22'), ('\\', '\\'), ('\x07', 'a'), ('\x08', 'b'), ('\x0c', 'f'), ('\n', 'n'), ('\r', 'r'), ('\t', 't'),
    ('\x0b', 'v')]

def literalLoop : ℕ → Text → ℕ → Option Text
  | 0, _, _ => none
  | fuel + 1, str, pos =>
    match str[pos]? with
    | none => some str
    | some c =>
      match literalChars.lookup c with
      | some replacement => literalLoop fuel (str.take pos ++ '\\' :: replacement :: str.drop (pos + 1)) (pos + 1 + 1)
      | none => literalLoop fuel str (pos + 1)

def makeStringLiteral (str : Text) : Option Text :=
  (literalLoop (str.length + 1) str 0).map fun str => '\x22' :: (str ++ ['\x22'])

def splitLoop (input delimiter : Text) : ℕ → ℕ → List Text → Option (List Text)
  | 0, _, _ => none
  | fuel + 1, oldPos, result =>
    let curPos := findFrom delimiter input oldPos
    let token := (input.drop oldPos).take (curPos.getD input.length - oldPos)
    let result := if token ≠ [] then result ++ [token] else result
    match curPos with
    | none => some result
    | some curPos => splitLoop input delimiter fuel (curPos + delimiter.length) result

def splitString (fuel : ℕ) (input delimiter : Text) : Option (List Text) :=
  splitLoop input delimiter fuel 0 []

def stringToDeque (fuel : ℕ) (input delimiter : Text) : Option (List Text) :=
  splitLoop input delimiter fuel 0 []

def dequeToString (input : List Text) (head delimiter tail : Text) : Text :=
  if input = [] then [] else head ++ (delimiter.intercalate input ++ tail)

/-! ## Readers -/

def mustQuote : Text :=
  ['|', '&', ';', '<', '>', '(', ')', '$', '\x60', '\\', '\x22', '\'', ' ', '\t', '\n']

def shellUnescape : Text → Option Text
  | [] => some []
  | '\\' :: '\n' :: str => shellUnescape str
  | '\\' :: c :: str => (shellUnescape str).map (c :: ·)
  | c :: str => if c ∈ mustQuote then none else (shellUnescape str).map (c :: ·)

def escapes : List (Char × Char) :=
  [('\'', '\''), ('\x22', '\x22'), ('?', '?'), ('\\', '\\'), ('a', '\x07'), ('b', '\x08'), ('f', '\x0c'), ('n', '\n'),
    ('r', '\r'), ('t', '\t'), ('v', '\x0b')]

def decodeLiteralBody : Text → Option Text
  | [] => none
  | ['\x22'] => some []
  | '\\' :: c :: str => (escapes.lookup c).bind fun d => (decodeLiteralBody str).map (d :: ·)
  | c :: str => if c = '\x22' ∨ c = '\\' ∨ c = '\n' then none else (decodeLiteralBody str).map (c :: ·)

def decodeLiteral : Text → Option Text
  | '\x22' :: str => decodeLiteralBody str
  | _ => none

/-! ## Character by character -/

variable {s t pre x : Text} {c : Char} {n : ℕ}

def backslashed (s : Text) : Text :=
  s.flatMap fun c => if c ∈ specialChars then ['\\', c] else [c]

def unbackslashed : Text → Text
  | [] => []
  | ['\\'] => []
  | '\\' :: c :: s => c :: unbackslashed s
  | c :: s => c :: unbackslashed s

theorem backslashed_cons : backslashed (c :: s) =
    (if c ∈ specialChars then ['\\', c] else [c]) ++ backslashed s :=
  rfl

theorem backslashed_append : backslashed (s ++ t) = backslashed s ++ backslashed t :=
  flatMap_append

theorem backslash_special : '\\' ∈ specialChars := by
  decide

theorem ne_backslash (h : c ∉ specialChars) : c ≠ '\\' :=
  fun heq => h (heq ▸ backslash_special)

theorem unbackslashed_backslashed (s : Text) : unbackslashed (backslashed s) = s := by
  induction s with
  | nil => rfl
  | cons c s ih =>
    rw [backslashed_cons]
    by_cases hc : c ∈ specialChars
    · rw [if_pos hc]
      exact congrArg (c :: ·) ih
    · rw [if_neg hc, singleton_append]
      have hne := ne_backslash hc
      unfold unbackslashed
      split <;> simp_all

theorem findFrom_cons (h : c ≠ '\\') : findFrom ['\\'] (pre ++ c :: s) pre.length =
    findFrom ['\\'] (pre ++ c :: s) (pre ++ [c]).length := by
  have hnot : ¬['\\'] <+: c :: s := fun hp => h (cons_prefix_cons.1 hp).1.symm
  have hdrop : (pre ++ c :: s).drop (pre ++ [c]).length = s := by
    rw [append_cons pre c s]
    exact drop_left
  have hle : (pre ++ [c]).length ≤ (pre ++ c :: s).length := by simp
  rw [findFrom, findFrom, if_pos (by simp), if_pos hle, drop_left, hdrop, find, if_neg hnot, Option.map_map]
  congr 1
  funext k
  simp
  omega

theorem findFrom_backslash : findFrom ['\\'] (pre ++ '\\' :: s) pre.length = some pre.length := by
  rw [findFrom, if_pos (by simp), drop_left, find, if_pos (by simp)]
  rfl

theorem undoLoop_eq (hn : s.length < n) :
    undoLoop n (pre ++ s) (findFrom ['\\'] (pre ++ s) pre.length) = some (pre ++ unbackslashed s) := by
  induction s using unbackslashed.induct generalizing pre n with
  | case1 =>
    cases n with
    | zero => omega
    | succ n => simp [findFrom, find, undoLoop, unbackslashed]
  | case2 =>
    obtain ⟨n, rfl⟩ : ∃ m, n = m + 1 + 1 := ⟨n - 2, by simp at hn; omega⟩
    have hnone : findFrom ['\\'] pre (pre.length + 1) = none := if_neg (by omega)
    rw [findFrom_backslash, undoLoop, eraseIdx_append_of_length_le le_rfl, Nat.sub_self]
    simp [hnone, undoLoop, unbackslashed]
  | case3 c s ih =>
    obtain ⟨n, rfl⟩ : ∃ m, n = m + 1 := ⟨n - 1, by omega⟩
    have hlength : pre.length + 1 = (pre ++ [c]).length := by simp
    rw [findFrom_backslash, undoLoop, eraseIdx_append_of_length_le le_rfl, Nat.sub_self, eraseIdx_cons_zero,
      append_cons, hlength, ih (by simp at hn; omega), unbackslashed, ← append_cons]
  | case4 c s h1 h2 ih =>
    have hne : c ≠ '\\' := fun hc => by
      cases s with
      | nil => exact h1 hc rfl
      | cons d s => exact h2 d s hc rfl
    rw [findFrom_cons hne, append_cons, ih (by simp at hn; omega), unbackslashed, ← append_cons]
    · exact h1
    · exact h2

theorem undoBackslashing_eq (s : Text) : undoBackslashing s = some (unbackslashed s) :=
  @undoLoop_eq s [] _ (Nat.lt_succ_self _)

/-! ## Inserting backslashes -/

theorem backslashLoop_eq (hn : s.length < n) :
    backslashLoop n (s ++ x) (findLastOf (s ++ x) s.length) = some (backslashed s ++ x) := by
  induction s using reverseRecOn generalizing x n with
  | nil =>
    cases n with
    | zero => omega
    | succ n => rfl
  | append_singleton s c ih =>
    rw [length_append, length_singleton] at hn ⊢
    have hget : (s ++ [c] ++ x)[s.length]? = some c := by simp
    rw [findLastOf, hget, Option.any_some, backslashed_append, append_assoc, append_assoc, backslashed_cons]
    by_cases hc : c ∈ specialChars
    · obtain ⟨n, rfl⟩ : ∃ m, n = m + 1 := ⟨n - 1, by omega⟩
      rw [if_pos (by simpa using hc), backslashLoop, take_left, drop_left, if_pos hc]
      by_cases hnil : s = []
      · subst hnil
        rfl
      · have hpos := length_pos_of_ne_nil hnil
        rw [if_neg (by omega), Nat.sub_add_cancel hpos]
        simpa [backslashed] using ih (x := '\\' :: c :: x) (n := n) (by omega)
    · rw [if_neg (by simpa using hc), if_neg hc, ih (by omega)]
      simp [backslashed]

theorem backslashSpecialChars_eq (s : Text) : backslashSpecialChars s = some (backslashed s) := by
  have hloop := @backslashLoop_eq s [] _ (Nat.lt_succ_self s.length)
  rwa [append_nil, append_nil] at hloop

theorem backslashes_odd (h : c ∈ specialChars) : ∃ u, backslashed (s ++ c :: t) = u ++ c :: backslashed t ∧
    (u.reverse.takeWhile (· == '\\')).length % 2 = 1 := by
  refine ⟨backslashed s ++ ['\\'], by simp [backslashed_append, backslashed_cons, h], ?_⟩
  have heven : ((backslashed s).reverse.takeWhile (· == '\\')).length % 2 = 0 := by
    induction s using reverseRecOn with
    | nil => rfl
    | append_singleton s d ih =>
      have hone : backslashed [d] = if d ∈ specialChars then ['\\', d] else [d] := append_nil _
      rw [backslashed_append, reverse_append, hone]
      by_cases hd : d = '\\'
      · subst hd
        rw [if_pos backslash_special]
        exact (Nat.add_mod_right _ 2).trans ih
      · split <;> simp [hd]
  rw [reverse_append, reverse_singleton, singleton_append, takeWhile_cons_of_pos rfl, length_cons]
  omega

theorem mem_special_of_mustQuote : ∀ c ∈ mustQuote, c ∈ specialChars := by
  simp [mustQuote, specialChars]

theorem shellUnescape_backslashed (s : Text) : shellUnescape (backslashed s) = some (s.filter (· ≠ '\n')) := by
  induction s with
  | nil => rfl
  | cons c s ih =>
    rw [backslashed_cons]
    by_cases hc : c ∈ specialChars
    · rw [if_pos hc]
      by_cases hline : c = '\n'
      · subst hline
        exact ih
      · have hstep : shellUnescape ('\\' :: c :: backslashed s) = (shellUnescape (backslashed s)).map (c :: ·) := by
          rw [shellUnescape]
          exact hline
        rw [filter_cons_of_pos (by simpa using hline)]
        exact hstep.trans (by rw [ih]; rfl)
    · have hne := ne_backslash hc
      have hmust : c ∉ mustQuote := fun h => hc (mem_special_of_mustQuote c h)
      have hline : c ≠ '\n' := fun h => hc (by rw [h]; decide)
      rw [if_neg hc, singleton_append, filter_cons_of_pos (by simpa using hline), shellUnescape.eq_def]
      split <;> simp_all

/-! ## String literals -/

def literal (s : Text) : Text :=
  s.flatMap fun c => match literalChars.lookup c with
    | some replacement => ['\\', replacement]
    | none => [c]

theorem literalLoop_eq (hn : s.length < n) : literalLoop n (pre ++ s) pre.length = some (pre ++ literal s) := by
  induction s generalizing pre n with
  | nil =>
    cases n with
    | zero => omega
    | succ n => simp [literalLoop, literal]
  | cons c s ih =>
    obtain ⟨n, rfl⟩ : ∃ m, n = m + 1 := ⟨n - 1, by omega⟩
    rw [length_cons] at hn
    have hget : (pre ++ c :: s)[pre.length]? = some c := by simp
    rw [literalLoop, hget]
    dsimp only
    cases hlookup : literalChars.lookup c with
    | none =>
      have hnext := @ih (pre ++ [c]) n (by omega)
      rw [length_append, append_assoc, append_assoc] at hnext
      simpa [literal, hlookup] using hnext
    | some replacement =>
      have hdrop : (pre ++ c :: s).drop (pre.length + 1) = s := by rw [← drop_drop, drop_left]; rfl
      have hnext := @ih (pre ++ ['\\', replacement]) n (by omega)
      rw [length_append, append_assoc, append_assoc] at hnext
      dsimp only
      rw [take_left, hdrop]
      simpa [literal, hlookup] using hnext

theorem makeStringLiteral_eq (s : Text) : makeStringLiteral s = some ('\x22' :: (literal s ++ ['\x22'])) := by
  have hloop : literalLoop (s.length + 1) s 0 = some (literal s) := @literalLoop_eq s [] _ (Nat.lt_succ_self _)
  rw [makeStringLiteral, hloop]
  rfl

theorem escapes_literalChars : ∀ p ∈ literalChars, escapes.lookup p.2 = some p.1 := by
  decide

theorem mem_of_lookup {d : Char} {l : List (Char × Char)} (h : l.lookup c = some d) : (c, d) ∈ l := by
  induction l with
  | nil => cases h
  | cons p l ih =>
    obtain ⟨a, b⟩ := p
    rw [lookup_cons] at h
    split at h
    · next heq =>
      rw [eq_of_beq heq, Option.some.inj h]
      exact mem_cons_self
    · exact mem_cons_of_mem _ (ih h)

theorem decodeLiteral_literal (s : Text) : decodeLiteral ('\x22' :: (literal s ++ ['\x22'])) = some s := by
  change decodeLiteralBody _ = _
  induction s with
  | nil => rfl
  | cons c s ih =>
    rw [literal, flatMap_cons, ← literal, append_assoc]
    cases hlookup : literalChars.lookup c with
    | none =>
      have hplain : ¬(c = '\x22' ∨ c = '\\' ∨ c = '\n') := by
        rintro (rfl | rfl | rfl) <;> cases hlookup
      dsimp only
      rw [singleton_append, decodeLiteralBody.eq_def]
      split <;> simp_all
    | some replacement =>
      have hescape := escapes_literalChars _ (mem_of_lookup hlookup)
      have hstep : ∀ x, decodeLiteralBody ('\\' :: replacement :: x) =
          (escapes.lookup replacement).bind fun d => (decodeLiteralBody x).map (d :: ·) := fun x => by
        rw [decodeLiteralBody]
      refine (hstep (literal s ++ ['\x22'])).trans ?_
      rw [hescape, ih]
      rfl

/-! ## Tokens -/

variable {input delimiter token : Text} {tokens result : List Text} {k : ℕ}

def Separate (delimiter : Text) : List Text → Prop
  | [] => True
  | [token] => ∀ k, ¬delimiter <+: token.drop k
  | token :: next :: tokens =>
    (∀ k < token.length, ¬delimiter <+: (token ++ delimiter).drop k) ∧ Separate delimiter (next :: tokens)

theorem find_of_not (h : ∀ k, ¬delimiter <+: s.drop k) : find delimiter s = none := by
  induction s with
  | nil => exact if_neg (h 0)
  | cons c s ih =>
    have hnot : ¬delimiter <+: c :: s := h 0
    rw [find, if_neg hnot, ih fun k => h (k + 1)]
    rfl

theorem find_first (h : ∀ k < token.length, ¬delimiter <+: (token ++ delimiter).drop k) :
    find delimiter (token ++ (delimiter ++ x)) = some token.length := by
  induction token with
  | nil =>
    have hp := prefix_append delimiter x
    rw [nil_append]
    cases hd : delimiter ++ x with
    | nil => rw [hd] at hp; exact if_pos hp
    | cons c y => rw [hd] at hp; rw [find, if_pos hp]; rfl
  | cons c token ih =>
    have hnot : ¬delimiter <+: c :: (token ++ (delimiter ++ x)) := fun hp => by
      have hwhole : c :: (token ++ (delimiter ++ x)) = (c :: token ++ delimiter) ++ x := by simp
      rw [hwhole] at hp
      exact h 0 (Nat.succ_pos _) (prefix_of_prefix_length_le hp (prefix_append _ x) (by simp; omega))
    rw [cons_append, find, if_neg hnot, ih fun k hk => h (k + 1) (Nat.succ_lt_succ hk)]
    rfl

theorem find_le (h : find delimiter s = some k) : k + delimiter.length ≤ s.length := by
  induction s generalizing k with
  | nil =>
    rw [find] at h
    split at h
    · next hp => cases h; simpa using hp.length_le
    · cases h
  | cons c s ih =>
    rw [find] at h
    split at h
    · next hp => cases h; simpa using hp.length_le
    · obtain ⟨j, hj, rfl⟩ := Option.map_eq_some_iff.1 h
      have hle := ih hj
      rw [length_cons]
      omega

theorem splitLoop_tokens (hne : ∀ token ∈ tokens, token ≠ [])
    (h : Separate delimiter tokens) (hn : tokens.length < n) (htokens : tokens ≠ []) :
    splitLoop (pre ++ delimiter.intercalate tokens) delimiter n pre.length result = some (result ++ tokens) := by
  induction tokens generalizing pre n result with
  | nil => exact absurd rfl htokens
  | cons token tokens ih =>
    obtain ⟨n, rfl⟩ : ∃ m, n = m + 1 := ⟨n - 1, by omega⟩
    have htoken := hne token mem_cons_self
    rw [splitLoop, findFrom, if_pos (by simp), drop_left]
    cases tokens with
    | nil =>
      have hjoin : delimiter.intercalate [token] = token := by simp [intercalate]
      rw [hjoin, find_of_not h]
      simp [htoken]
    | cons next tokens =>
      have hjoin : delimiter.intercalate (token :: next :: tokens) =
          token ++ (delimiter ++ delimiter.intercalate (next :: tokens)) := by simp [intercalate]
      have hnext := @ih (pre ++ (token ++ delimiter)) n (result ++ [token])
        (fun t ht => hne t (mem_cons_of_mem _ ht)) h.2 (by simp at hn ⊢; omega) (cons_ne_nil _ _)
      rw [hjoin, find_first h.1]
      simp only [Option.map_some, Option.getD_some, Nat.add_sub_cancel_left, take_left, if_pos htoken]
      simpa [Nat.add_assoc] using hnext

theorem exists_splitLoop (hd : delimiter ≠ []) (hk : k ≤ input.length) (hn : input.length - k < n) :
    ∃ tokens, splitLoop input delimiter n k result = some tokens := by
  induction n generalizing k result with
  | zero => omega
  | succ n ih =>
    have hpos := length_pos_of_ne_nil hd
    rw [splitLoop, findFrom, if_pos hk]
    cases hfind : find delimiter (input.drop k) with
    | none => exact ⟨_, rfl⟩
    | some j =>
      have hle := find_le hfind
      rw [length_drop] at hle
      dsimp only [Option.map_some]
      exact ih (by omega) (by omega)

theorem splitLoop_never : splitLoop input [] n 0 result = none := by
  induction n generalizing result with
  | zero => rfl
  | succ n ih =>
    have hzero : findFrom [] input 0 = some 0 := by
      cases input <;> simp [findFrom, find]
    rw [splitLoop, hzero]
    exact ih

/-! ## All together -/

def Restores (s : Text) : Prop :=
  ∃ t, backslashSpecialChars s = some t ∧ undoBackslashing t = some s ∧ shellUnescape t = some s ∧
    (∀ s₁ c s₂, s = s₁ ++ c :: s₂ → c ∈ specialChars → ∃ u v, t = u ++ c :: v ∧
      backslashSpecialChars s₂ = some v ∧ (u.reverse.takeWhile (· == '\\')).length % 2 = 1) ∧
    (makeStringLiteral s).bind decodeLiteral = some s

structure Splits (input delimiter : Text) (tokens : List Text) : Prop where
  restored : delimiter ≠ [] → (∀ token ∈ tokens, token ≠ []) → Separate delimiter tokens →
    ∃ n, stringToDeque n (dequeToString tokens [] delimiter []) delimiter = some tokens
  split : ∃ n result, splitString n input delimiter = some result
  deque : ∃ n result, stringToDeque n input delimiter = some result

theorem splits_iff : Splits input delimiter tokens ↔ delimiter ≠ [] := by
  constructor
  · rintro ⟨-, ⟨n, result, hsplit⟩, -⟩ rfl
    rw [splitString, splitLoop_never] at hsplit
    cases hsplit
  · intro hd
    have hends : ∃ result, splitLoop input delimiter (input.length - 0 + 1) 0 [] = some result :=
      exists_splitLoop hd (Nat.zero_le _) (Nat.lt_succ_self _)
    refine ⟨fun _ hne h => ?_, ⟨_, hends⟩, ⟨_, hends⟩⟩
    by_cases htokens : tokens = []
    · subst htokens
      refine ⟨1, ?_⟩
      have hfind : find delimiter [] = none := if_neg fun hp => hd (prefix_nil.1 hp)
      simp [stringToDeque, dequeToString, splitLoop, findFrom, hfind]
    · refine ⟨tokens.length + 1, ?_⟩
      rw [dequeToString, if_neg htokens, append_nil]
      exact @splitLoop_tokens [] _ _ _ [] hne h (Nat.lt_succ_self _) htokens

theorem restores_iff : Restores s ↔ '\n' ∉ s := by
  have hfilter : s.filter (· ≠ '\n') = s ↔ '\n' ∉ s := by
    rw [filter_eq_self]
    refine ⟨fun h hmem => ?_, fun h c hc => ?_⟩
    · exact absurd (h _ hmem) (by decide)
    · exact decide_eq_true fun heq => h (heq ▸ hc)
  rw [← hfilter]
  constructor
  · rintro ⟨t, ht, -, hshell, -⟩
    rw [backslashSpecialChars_eq] at ht
    rw [← Option.some.inj ht, shellUnescape_backslashed] at hshell
    exact Option.some.inj hshell
  · intro hs
    refine ⟨_, backslashSpecialChars_eq s, ?_, ?_, ?_, ?_⟩
    · rw [undoBackslashing_eq, unbackslashed_backslashed]
    · rw [shellUnescape_backslashed, hs]
    · rintro s₁ c s₂ rfl hc
      obtain ⟨u, hu, hodd⟩ := @backslashes_odd s₁ s₂ _ hc
      exact ⟨u, _, hu, backslashSpecialChars_eq s₂, hodd⟩
    · rw [makeStringLiteral_eq]
      exact decodeLiteral_literal s

/-- A shell removes a line break that has a backslash, and an empty delimiter is found again and again. -/
theorem restores_and_splits_iff : Restores s ∧ Splits input delimiter tokens ↔ '\n' ∉ s ∧ delimiter ≠ [] := by
  rw [restores_iff, splits_iff]

theorem not_splits_empty : ¬Splits [] [] [] := by
  simp [splits_iff]

end ScoreP.ToolsUtils
