import ScoreP.Config.RoundTrip
import ScoreP.Foundations.Tokens

/-!
# The loop over the members of a set

Source: `parse_bitset` and `trim_string` of `SCOREP_Config.c`, with `strtok` as the C standard describes
it, on the buffer that both write into. `meetsBitset_iff`: it does what its description says unless the first
token is white space, or a name that stands for the empty set is a member.
-/

namespace ScoreP.Config

open Foundations List

/-! ## The buffer -/

/-- The memory behind a pointer; `none` is a null character. -/
abbrev Buffer := List (Option Char)

def cString : Buffer → Text
  | some c :: rest => c :: cString rest
  | _ => []

/-- `strtok` from a pointer on: where the token starts, the buffer, and where the next call goes on. -/
def strtok (buffer : Buffer) (pointer : ℕ) : Option (ℕ × Buffer × Option ℕ) :=
  let start := pointer + ((cString (buffer.drop pointer)).takeWhile isSeparator).length
  let token := (cString (buffer.drop start)).takeWhile fun c => !isSeparator c
  if token = [] then none
  else if cString (buffer.drop (start + token.length)) = [] then some (start, buffer, none)
  else some (start, buffer.set (start + token.length) none, some (start + token.length + 1))

/-- The second loop of `trim_string`, for the characters in front of a place. -/
def trimEnd (buffer : Buffer) : ℕ → Buffer
  | 0 => buffer
  | place + 1 =>
    match buffer[place]? with
    | some (some c) => if isSpace c then trimEnd (buffer.set place none) place else buffer
    | _ => buffer

/-- `trim_string` in the buffer. -/
def trimAt (buffer : Buffer) (pointer : ℕ) : ℕ × Buffer :=
  let start := pointer + ((cString (buffer.drop pointer)).takeWhile isSpace).length
  let text := cString (buffer.drop start)
  (start, if text = [] then buffer else trimEnd buffer (start + text.length))

/-! ## The loop -/

structure BitsetState where
  buffer : Buffer
  /-- `value_for_strtok` is not a null pointer. -/
  restarts : Bool
  saved : Option ℕ
  bitset : UInt64
  deriving DecidableEq

def callStrtok (s : BitsetState) : Option (ℕ × Buffer × Option ℕ) :=
  if s.restarts then strtok s.buffer 0
  else s.saved.bind (strtok s.buffer)

def bitsetRound (acceptedValues : List SetEntry) (s : BitsetState) : Except (UInt64 × Bool) BitsetState :=
  match callStrtok s with
  | none => .error (s.bitset, true)
  | some (token, buffer, saved) =>
    let (entry, buffer) := trimAt buffer token
    match cString (buffer.drop entry) with
    | [] => .ok { s with buffer := buffer, saved := saved }
    | name =>
      match applyEntry acceptedValues name s.bitset with
      | none => .error (s.bitset, false)
      | some bitset => .ok { buffer := buffer, restarts := false, saved := saved, bitset := bitset }

def bitsetLoop (acceptedValues : List SetEntry) : ℕ → BitsetState → Option (UInt64 × Bool)
  | 0, _ => none
  | rounds + 1, s =>
    match bitsetRound acceptedValues s with
    | .error result => some result
    | .ok s => bitsetLoop acceptedValues rounds s

/-- `parse_bitset` for at most a number of rounds. -/
def runBitset (memory : Bool) (value : Text) (acceptedValues : List SetEntry) (rounds : ℕ) :
    Option (UInt64 × Bool) :=
  if equalIcaseString value "none".toList || equalIcaseString value "no".toList then some (0, true)
  else if memory = false then some (0, false)
  else
    bitsetLoop acceptedValues rounds
      { buffer := value.map some ++ [none], restarts := true, saved := none, bitset := 0 }

/-! ## Strings in the buffer -/

theorem cString_append (text : Text) (rest : Buffer) :
    cString (text.map some ++ rest) = text ++ cString rest := by
  induction text with
  | nil => rfl
  | cons c text ih =>
    rw [map_cons, cons_append, cString, ih]
    rfl

theorem cString_none (junk : Buffer) : cString (none :: junk) = [] :=
  rfl

theorem cString_drop (before : Buffer) (text : Text) (junk : Buffer) :
    cString ((before ++ (text.map some ++ none :: junk)).drop before.length) = text := by
  rw [drop_left, cString_append, cString_none, append_nil]

theorem nextToken_split {text token rest : Text} (h : nextToken isSeparator text = some (token, rest)) :
    ∃ skipped tail : Text, text = skipped ++ (token ++ tail) ∧ (∀ c ∈ skipped, isSeparator c = true) ∧
      token ≠ [] ∧ (∀ c ∈ token, isSeparator c = false) ∧ rest = tail.drop 1 ∧
      ∀ c ∈ tail.head?, isSeparator c = true := by
  rw [nextToken] at h
  cases htext : text.dropWhile isSeparator with
  | nil => simp [htext] at h
  | cons c others =>
    rw [htext] at h
    simp only [Option.some.injEq, Prod.mk.injEq] at h
    rcases h with ⟨htoken, hrest⟩
    have hc : isSeparator c = false := by
      have hhead := head?_dropWhile_not isSeparator text
      rw [htext] at hhead
      simpa using hhead
    refine ⟨text.takeWhile isSeparator, (c :: others).dropWhile fun d => !isSeparator d, ?_, ?_, ?_, ?_, ?_,
      ?_⟩
    · rw [← htoken, takeWhile_append_dropWhile, ← htext, takeWhile_append_dropWhile]
    · intro d hd
      exact mem_takeWhile_imp hd
    · rw [← htoken, takeWhile_cons, hc]
      exact cons_ne_nil _ _
    · intro d hd
      rw [← htoken] at hd
      simpa using mem_takeWhile_imp hd
    · exact hrest.symm
    · intro d hd
      have hhead := head?_dropWhile_not (fun d => !isSeparator d) (c :: others)
      rw [Option.mem_def.mp hd] at hhead
      simpa using hhead

theorem takeWhile_skipped {p : Char → Bool} {skipped rest : Text} (hskipped : ∀ c ∈ skipped, p c = true)
    (hrest : ∀ c ∈ rest.head?, p c = false) : (skipped ++ rest).takeWhile p = skipped := by
  rw [takeWhile_append_of_pos hskipped]
  cases rest with
  | nil => simp
  | cons c rest =>
    have hc : p c = false := hrest c rfl
    simp [hc]

def Left (buffer : Buffer) (saved : Option ℕ) (rest : Text) : Prop :=
  (saved = none ∧ rest = []) ∨
    ∃ before junk, buffer = before ++ (rest.map some ++ none :: junk) ∧ saved = some before.length

theorem strtok_some {before junk : Buffer} {text token rest : Text}
    (h : nextToken isSeparator text = some (token, rest)) :
    ∃ (skipped : Text) (junk' : Buffer) (saved : Option ℕ), (∀ c ∈ skipped, isSeparator c = true) ∧
      strtok (before ++ (text.map some ++ none :: junk)) before.length =
        some ((before ++ skipped.map some).length,
          before ++ skipped.map some ++ (token.map some ++ none :: junk'), saved) ∧
      ((saved = none ∧ rest = []) ∨ ∃ junk'' : Buffer, junk' = rest.map some ++ none :: junk'' ∧
        saved = some ((before ++ skipped.map some).length + token.length + 1)) := by
  rcases nextToken_split h with ⟨skipped, tail, rfl, hskipped, hne, htoken, rfl, htail⟩
  have hhead : ∀ c ∈ (token ++ tail).head?, isSeparator c = false := by
    intro c hc
    rw [head?_append_of_ne_nil _ hne] at hc
    exact htoken c (mem_of_mem_head? hc)
  have hstart : before.length + ((cString ((before ++ ((skipped ++ (token ++ tail)).map some ++
      none :: junk)).drop before.length)).takeWhile isSeparator).length =
        (before ++ skipped.map some).length := by
    rw [cString_drop, takeWhile_skipped hskipped hhead]
    simp
  have hsplit : before ++ ((skipped ++ (token ++ tail)).map some ++ none :: junk) =
      before ++ skipped.map some ++ ((token ++ tail).map some ++ none :: junk) := by simp
  have hrest : cString ((before ++ skipped.map some ++ ((token ++ tail).map some ++ none :: junk)).drop
      (before ++ skipped.map some).length) = token ++ tail := cString_drop _ _ _
  have htake : (token ++ tail).takeWhile (fun c => !isSeparator c) = token := by
    apply takeWhile_skipped
    · intro c hc
      simp [htoken c hc]
    · intro c hc
      simp [htail c hc]
  have hlength : (before ++ skipped.map some).length + token.length =
      (before ++ skipped.map some ++ token.map some).length := by simp [Nat.add_assoc]
  have hbehind : cString ((before ++ skipped.map some ++ ((token ++ tail).map some ++ none :: junk)).drop
      ((before ++ skipped.map some).length + token.length)) = tail := by
    have hassoc : before ++ skipped.map some ++ ((token ++ tail).map some ++ none :: junk) =
        before ++ skipped.map some ++ token.map some ++ (tail.map some ++ none :: junk) := by simp
    rw [hlength, hassoc]
    exact cString_drop _ _ _
  rw [strtok, hstart]
  simp only [hsplit, hrest, htake, hbehind, if_neg hne]
  cases tail with
  | nil =>
    refine ⟨skipped, junk, none, hskipped, ?_, .inl ⟨rfl, rfl⟩⟩
    simp
  | cons c tail =>
    refine ⟨skipped, tail.map some ++ none :: junk, some ((before ++ skipped.map some).length + token.length + 1),
      hskipped, ?_, .inr ⟨junk, rfl, rfl⟩⟩
    have hset : (before ++ skipped.map some ++ ((token ++ c :: tail).map some ++ none :: junk)).set
        ((before ++ skipped.map some).length + token.length) none =
          before ++ skipped.map some ++ (token.map some ++ none :: (tail.map some ++ none :: junk)) := by
      have hassoc : before ++ skipped.map some ++ ((token ++ c :: tail).map some ++ none :: junk) =
          before ++ skipped.map some ++ token.map some ++ some c :: (tail.map some ++ none :: junk) := by simp
      rw [hassoc, hlength, set_append_right _ _ le_rfl, Nat.sub_self, set_cons_zero, append_assoc]
    rw [if_neg (cons_ne_nil c tail), hset]

theorem strtok_none {before junk : Buffer} {text : Text} (h : nextToken isSeparator text = none) :
    strtok (before ++ (text.map some ++ none :: junk)) before.length = none := by
  have hall : ∀ c ∈ text, isSeparator c = true := nextToken_eq_none_iff.mp h
  have htake : text.takeWhile isSeparator = text := takeWhile_eq_self_iff.mpr hall
  have hend : cString ((before ++ (text.map some ++ none :: junk)).drop (before.length + text.length)) = [] := by
    have hlength : before.length + text.length = (before ++ text.map some).length := by simp
    rw [hlength, ← append_assoc, drop_left]
    rfl
  simp only [strtok, cString_drop, htake, hend, takeWhile_nil, if_true]

/-! ## White space around a token -/

theorem trimEnd_spec (base tail : Buffer) (text trail : Text) (hne : text ≠ [])
    (hlast : isSpace (text.getLast hne) = false) (htrail : ∀ c ∈ trail, isSpace c = true) :
    trimEnd (base ++ ((text ++ trail).map some ++ tail)) (base.length + (text ++ trail).length) =
      base ++ (text.map some ++ (List.replicate trail.length none ++ tail)) := by
  induction trail using List.reverseRecOn generalizing tail with
  | nil =>
    have hsplit := dropLast_concat_getLast hne
    have hplace : base.length + (text ++ []).length = base.length + text.dropLast.length + 1 := by
      have hpos := length_pos_iff.mpr hne
      simp only [append_nil, length_dropLast]
      omega
    have hread : (base ++ ((text ++ []).map some ++ tail))[base.length + text.dropLast.length]? =
        some (some (text.getLast hne)) := by
      generalize text.getLast hne = last at hsplit
      rw [append_nil, ← hsplit]
      simp
    rw [hplace, trimEnd, hread]
    simp [hlast]
  | append_singleton trail c ih =>
    have hc := htrail c (by simp)
    have hplace : base.length + (text ++ (trail ++ [c])).length = base.length + (text ++ trail).length + 1 := by
      simp only [length_append, length_singleton]
      omega
    have hassoc : base ++ ((text ++ (trail ++ [c])).map some ++ tail) =
        base ++ (text ++ trail).map some ++ (some c :: tail) := by simp
    have hlength : base.length + (text ++ trail).length = (base ++ (text ++ trail).map some).length := by
      simp
    have hread : (base ++ (text ++ trail).map some ++ (some c :: tail))[base.length + (text ++ trail).length]? =
        some (some c) := by
      rw [hlength, getElem?_append_right le_rfl, Nat.sub_self]
      rfl
    have hset : (base ++ (text ++ trail).map some ++ (some c :: tail)).set
        (base.length + (text ++ trail).length) none = base ++ ((text ++ trail).map some ++ (none :: tail)) := by
      rw [hlength, set_append_right _ _ le_rfl, Nat.sub_self, set_cons_zero, append_assoc]
    rw [hplace, trimEnd, hassoc, hread]
    simp only [hc, if_true, hset]
    rw [ih (none :: tail) fun d hd => htrail d (by simp [hd])]
    rw [length_append, length_singleton, replicate_succ']
    simp

theorem trimString_split (token : Text) :
    ∃ lead trail : Text, token = lead ++ (trimString token ++ trail) ∧ (∀ c ∈ lead, isSpace c = true) ∧
      (∀ c ∈ trail, isSpace c = true) ∧ (∀ c ∈ (trimString token).head?, isSpace c = false) ∧
      (∀ h : trimString token ≠ [], isSpace ((trimString token).getLast h) = false) ∧
      (trimString token = [] → trail = []) := by
  have hlead : token = token.takeWhile isSpace ++ skipSpaces token := takeWhile_append_dropWhile.symm
  have htrail : skipSpaces token = trimString token ++ ((skipSpaces token).reverse.takeWhile isSpace).reverse := by
    rw [trimString, ← reverse_append, takeWhile_append_dropWhile, reverse_reverse]
  have hhead : ∀ c ∈ (skipSpaces token).head?, isSpace c = false := by
    intro c hc
    have hnot := head?_dropWhile_not isSpace token
    rw [skipSpaces] at hc
    rw [Option.mem_def.mp hc] at hnot
    exact hnot
  refine ⟨token.takeWhile isSpace, ((skipSpaces token).reverse.takeWhile isSpace).reverse, ?_, ?_, ?_, ?_, ?_,
    ?_⟩
  · rw [← htrail]
    exact hlead
  · intro c hc
    exact mem_takeWhile_imp hc
  · intro c hc
    exact mem_takeWhile_imp (mem_reverse.mp hc)
  · intro c hc
    apply hhead c
    rw [htrail]
    cases htrim : trimString token with
    | nil => simp [htrim] at hc
    | cons d rest =>
      rw [htrim] at hc
      exact hc
  · intro hne
    have hnot := head?_dropWhile_not isSpace (skipSpaces token).reverse
    have hlast : (trimString token).getLast hne =
        ((skipSpaces token).reverse.dropWhile isSpace).head (by simpa [trimString] using hne) := by
      simp [trimString, getLast_reverse]
    rw [hlast]
    rw [head?_eq_some_head (by simpa [trimString] using hne)] at hnot
    exact hnot
  · intro hnil
    rw [hnil, nil_append] at htrail
    cases hskip : skipSpaces token with
    | nil => rfl
    | cons c rest =>
      have hspace : isSpace c = true := by
        have hmem : c ∈ ((skipSpaces token).reverse.takeWhile isSpace).reverse := by
          rw [← htrail, hskip]
          exact mem_cons_self
        exact mem_takeWhile_imp (mem_reverse.mp hmem)
      have hnot := hhead c (by rw [hskip]; rfl)
      rw [hspace] at hnot
      cases hnot

theorem trimAt_spec (before junk : Buffer) (token : Text) :
    ∃ (start : ℕ) (before' : Buffer), trimAt (before ++ (token.map some ++ none :: junk)) before.length =
        (start, before' ++ none :: junk) ∧ before'.length = before.length + token.length ∧
      cString ((before' ++ none :: junk).drop start) = trimString token ∧
      (trimString token = [] → before' = before ++ token.map some) := by
  rcases trimString_split token with ⟨lead, trail, htoken, hlead, htrail, hhead, hlast, hempty⟩
  have hstart : before.length + ((cString ((before ++ (token.map some ++ none :: junk)).drop
      before.length)).takeWhile isSpace).length = (before ++ lead.map some).length := by
    have htake : token.takeWhile isSpace = lead := by
      conv_lhs => rw [htoken]
      apply takeWhile_skipped hlead
      cases htrim : trimString token with
      | nil =>
        rw [hempty htrim]
        simp
      | cons d rest =>
        intro c hc
        apply hhead c
        rw [htrim]
        exact hc
    rw [cString_drop, htake]
    simp
  have hsplit : before ++ (token.map some ++ none :: junk) =
      before ++ lead.map some ++ ((trimString token ++ trail).map some ++ none :: junk) := by
    conv_lhs => rw [htoken]
    simp
  have htext : cString ((before ++ lead.map some ++ ((trimString token ++ trail).map some ++
      none :: junk)).drop (before ++ lead.map some).length) = trimString token ++ trail := cString_drop _ _ _
  have hlength := congrArg List.length htoken
  simp only [length_append] at hlength
  by_cases hne : trimString token = []
  · refine ⟨(before ++ lead.map some).length, before ++ token.map some, ?_, by simp, ?_, fun _ => rfl⟩
    · rw [trimAt, hstart, hsplit, htext, if_pos (by simp [hne, hempty hne]), ← hsplit, append_assoc]
    · have hblank : token = lead := by simpa [hne, hempty hne] using htoken
      rw [hne, hblank, drop_left]
      rfl
  · refine ⟨(before ++ lead.map some).length,
      before ++ lead.map some ++ ((trimString token).map some ++ List.replicate trail.length none), ?_, ?_, ?_,
      fun hnil => absurd hnil hne⟩
    · rw [trimAt, hstart, hsplit, htext, if_neg (by simp [hne])]
      rw [trimEnd_spec (before ++ lead.map some) (none :: junk) (trimString token) trail hne (hlast hne) htrail]
      simp
    · simp only [length_append, length_map, length_replicate]
      omega
    · rw [append_assoc, drop_left, append_assoc, cString_append]
      cases trail with
      | nil => simp [cString]
      | cons c trail => simp [replicate_succ, cString]

section Rounds

variable {acceptedValues : List SetEntry} {s : BitsetState} {text token rest : Text}

theorem round_none (h : callStrtok s = none) : bitsetRound acceptedValues s = .error (s.bitset, true) := by
  rw [bitsetRound, h]

theorem round_some {before junk : Buffer} (hbuffer : s.buffer = before ++ (text.map some ++ none :: junk))
    (hcall : callStrtok s = strtok s.buffer before.length)
    (h : nextToken isSeparator text = some (token, rest)) :
    ∃ (buffer junk' : Buffer) (saved : Option ℕ) (skipped : Text), Left buffer saved rest ∧
      (∀ c ∈ skipped, isSeparator c = true) ∧
      (trimString token = [] → bitsetRound acceptedValues s = .ok { s with buffer := buffer, saved := saved } ∧
        buffer = before ++ ((skipped ++ token).map some ++ none :: junk')) ∧
      (trimString token ≠ [] → applyEntry acceptedValues (trimString token) s.bitset = none →
        bitsetRound acceptedValues s = .error (s.bitset, false)) ∧
      ∀ bitset, trimString token ≠ [] → applyEntry acceptedValues (trimString token) s.bitset = some bitset →
        bitsetRound acceptedValues s =
          .ok { buffer := buffer, restarts := false, saved := saved, bitset := bitset } := by
  rcases @strtok_some before junk text token rest h with ⟨skipped, junk', saved, hskipped, hstrtok, hsaved⟩
  rcases trimAt_spec (before ++ skipped.map some) junk' token with ⟨start, before', htrim, hlength, hname, hkept⟩
  have hround : bitsetRound acceptedValues s =
      match trimString token with
      | [] => .ok { s with buffer := before' ++ none :: junk', saved := saved }
      | name =>
        match applyEntry acceptedValues name s.bitset with
        | none => .error (s.bitset, false)
        | some bitset =>
          .ok { buffer := before' ++ none :: junk', restarts := false, saved := saved, bitset := bitset } := by
    rw [bitsetRound, hcall, hbuffer, hstrtok]
    dsimp only
    rw [htrim]
    dsimp only
    rw [hname]
  refine ⟨before' ++ none :: junk', junk', saved, skipped, ?_, hskipped, ?_, ?_, ?_⟩
  · rcases hsaved with ⟨rfl, rfl⟩ | ⟨junk'', rfl, rfl⟩
    · exact .inl ⟨rfl, rfl⟩
    · refine .inr ⟨before' ++ [none], junk'', by simp, ?_⟩
      have hplace : (before' ++ [none]).length = before'.length + 1 := by simp
      rw [hplace, hlength]
  · intro hempty
    rw [hround, hempty, hkept hempty]
    refine ⟨rfl, ?_⟩
    simp
  · intro hne hentry
    rw [hround]
    cases hname' : trimString token with
    | nil => exact absurd hname' hne
    | cons c name =>
      rw [hname'] at hentry
      simp only [hentry]
  · intro bitset hne hentry
    rw [hround]
    cases hname' : trimString token with
    | nil => exact absurd hname' hne
    | cons c name =>
      rw [hname'] at hentry
      simp only [hentry]

/-! ## The loop -/

theorem bitsetLoop_succ_error {result : UInt64 × Bool} (h : bitsetRound acceptedValues s = .error result)
    (rounds : ℕ) : bitsetLoop acceptedValues (rounds + 1) s = some result := by
  rw [bitsetLoop, h]

theorem bitsetLoop_succ_ok {s' : BitsetState} (h : bitsetRound acceptedValues s = .ok s') (rounds : ℕ) :
    bitsetLoop acceptedValues (rounds + 1) s = bitsetLoop acceptedValues rounds s' := by
  rw [bitsetLoop, h]

theorem bitsetLoop_mono {rounds : ℕ} {result : UInt64 × Bool}
    (h : bitsetLoop acceptedValues rounds s = some result) (more : ℕ) :
    bitsetLoop acceptedValues (rounds + more) s = some result := by
  induction rounds generalizing s with
  | zero => cases h
  | succ rounds ih =>
    rw [Nat.add_right_comm]
    cases hround : bitsetRound acceptedValues s with
    | error result' =>
      rw [bitsetLoop_succ_error hround] at h ⊢
      exact h
    | ok s' =>
      rw [bitsetLoop_succ_ok hround] at h ⊢
      exact ih h

theorem bitsetLoop_left (hrestarts : s.restarts = false) (hleft : Left s.buffer s.saved text) :
    ∃ rounds, bitsetLoop acceptedValues rounds s =
      some (applyEntries acceptedValues ((fields isSeparator text).map trimString) s.bitset) := by
  induction hn : text.length using Nat.strongRecOn generalizing s text with
  | _ n ih =>
    subst hn
    have hcall : callStrtok s = s.saved.bind (strtok s.buffer) := by
      rw [callStrtok, hrestarts]
      rfl
    cases htoken : nextToken isSeparator text with
    | none =>
      have hnone : callStrtok s = none := by
        rw [hcall]
        rcases hleft with ⟨hsaved, -⟩ | ⟨before, junk, hbuffer, hsaved⟩
        · rw [hsaved]
          rfl
        · rw [hsaved, hbuffer]
          exact strtok_none htoken
      refine ⟨1, ?_⟩
      rw [bitsetLoop_succ_error (round_none hnone), fields_of_none htoken]
      rfl
    | some found =>
      rcases found with ⟨token, rest⟩
      rcases fields_of_nextToken htoken with ⟨hfields, hlength⟩
      rcases hleft with ⟨-, rfl⟩ | ⟨before, junk, hbuffer, hsaved⟩
      · cases htoken
      rw [hsaved] at hcall
      rcases @round_some acceptedValues s text token rest before junk hbuffer hcall htoken with
        ⟨buffer, junk', saved, skipped, hleft', -, hempty, hrefused, haccepted⟩
      rw [hfields, map_cons, applyEntries]
      by_cases hname : trimString token = []
      · rw [if_pos hname]
        rcases @ih rest.length hlength { s with buffer := buffer, saved := saved } rest hrestarts hleft' rfl with
          ⟨rounds, hrounds⟩
        exact ⟨rounds + 1, by rw [bitsetLoop_succ_ok (hempty hname).1, hrounds]⟩
      · rw [if_neg hname]
        cases hentry : applyEntry acceptedValues (trimString token) s.bitset with
        | none => exact ⟨1, bitsetLoop_succ_error (hrefused hname hentry) 0⟩
        | some bitset =>
          rcases @ih rest.length hlength
            { buffer := buffer, restarts := false, saved := saved, bitset := bitset } rest rfl hleft' rfl with
            ⟨rounds, hrounds⟩
          exact ⟨rounds + 1, by rw [bitsetLoop_succ_ok (haccepted bitset hname hentry), hrounds]⟩

theorem nextToken_skipped {skipped : Text} (hskipped : ∀ c ∈ skipped, isSeparator c = true)
    (hne : token ≠ []) (htoken : ∀ c ∈ token, isSeparator c = false) :
    nextToken isSeparator (skipped ++ token) = some (token, []) := by
  have hdrop : (skipped ++ token).dropWhile isSeparator = token := by
    rw [dropWhile_append_of_pos hskipped]
    cases token with
    | nil => rfl
    | cons c token =>
      have hc : isSeparator c = false := htoken c mem_cons_self
      simp [hc]
  have hall : ∀ c ∈ token, (!isSeparator c) = true := fun c hc => by simp [htoken c hc]
  cases htext : token with
  | nil => exact absurd htext hne
  | cons c others =>
    rw [nextToken, ← htext, hdrop, htext]
    dsimp only
    rw [← htext, takeWhile_eq_self_iff.mpr hall, dropWhile_eq_nil_iff.mpr hall]
    rfl

/-- Before the first member the value is given to `strtok` again, and its first token is white space. -/
def Stuck (s : BitsetState) : Prop :=
  s.restarts = true ∧ ∃ (text : Text) (junk : Buffer) (token rest : Text),
    s.buffer = text.map some ++ none :: junk ∧ nextToken isSeparator text = some (token, rest) ∧
      trimString token = []

theorem Stuck.round (h : Stuck s) : ∃ s', bitsetRound acceptedValues s = .ok s' ∧ Stuck s' := by
  rcases h with ⟨hrestarts, text, junk, token, rest, hbuffer, htoken, hblank⟩
  have hcall : callStrtok s = strtok s.buffer ([] : Buffer).length := by
    rw [callStrtok, hrestarts]
    rfl
  rcases nextToken_split htoken with ⟨-, -, -, -, hne, hfree, -, -⟩
  rcases @round_some acceptedValues s text token rest [] junk hbuffer hcall htoken with
    ⟨buffer, junk', saved, skipped, -, hskipped, hempty, -, -⟩
  rcases hempty hblank with ⟨hround, hbuffer'⟩
  exact ⟨_, hround, hrestarts, skipped ++ token, junk', token, [], hbuffer',
    nextToken_skipped hskipped hne hfree, hblank⟩

theorem Stuck.loop (h : Stuck s) (rounds : ℕ) : bitsetLoop acceptedValues rounds s = none := by
  induction rounds generalizing s with
  | zero => rfl
  | succ rounds ih =>
    rcases h.round with ⟨s', hround, hstuck⟩
    rw [bitsetLoop_succ_ok hround]
    exact ih hstuck

end Rounds

/-! ## All rounds -/

theorem bitsetEntries_eq (value : Text) : bitsetEntries value = (fields isSeparator value).map trimString := by
  rw [bitsetEntries, fields]
  congr 1
  apply filter_congr
  intro field _
  cases field with
  | nil => rfl
  | cons c field => rfl

theorem bitsetLoop_start (value : Text) (acceptedValues : List SetEntry) :
    ((bitsetEntries value).head? = some [] → ∀ rounds, bitsetLoop acceptedValues rounds
        { buffer := value.map some ++ [none], restarts := true, saved := none, bitset := 0 } = none) ∧
      ((bitsetEntries value).head? ≠ some [] → ∃ rounds, bitsetLoop acceptedValues rounds
        { buffer := value.map some ++ [none], restarts := true, saved := none, bitset := 0 } =
          some (applyEntries acceptedValues (bitsetEntries value) 0)) := by
  rw [bitsetEntries_eq]
  have hcall : callStrtok { buffer := value.map some ++ [none], restarts := true, saved := none, bitset := 0 } =
      strtok (value.map some ++ [none]) ([] : Buffer).length := rfl
  cases htoken : nextToken isSeparator value with
  | none =>
    rw [fields_of_none htoken]
    refine ⟨fun h => (by cases h), fun _ => ⟨1, ?_⟩⟩
    apply bitsetLoop_succ_error
    apply round_none
    rw [hcall]
    exact @strtok_none [] [] value htoken
  | some found =>
    rcases found with ⟨token, rest⟩
    rw [(fields_of_nextToken htoken).1]
    constructor
    · intro hhead rounds
      have hblank : trimString token = [] := Option.some.inj hhead
      have hstuck : Stuck { buffer := value.map some ++ [none], restarts := true, saved := none, bitset := 0 } :=
        ⟨rfl, value, [], token, rest, rfl, htoken, hblank⟩
      exact hstuck.loop rounds
    · intro hhead
      have hname : trimString token ≠ [] := fun h => hhead (by rw [map_cons, h]; rfl)
      rcases @round_some acceptedValues _ value token rest [] [] rfl hcall htoken with
        ⟨buffer, junk', saved, skipped, hleft, -, -, hrefused, haccepted⟩
      rw [map_cons, applyEntries, if_neg hname]
      cases hentry : applyEntry acceptedValues (trimString token) 0 with
      | none => exact ⟨1, bitsetLoop_succ_error (hrefused hname hentry) 0⟩
      | some bitset =>
        rcases @bitsetLoop_left acceptedValues
          { buffer := buffer, restarts := false, saved := saved, bitset := bitset } rest rfl hleft with
          ⟨rounds, hrounds⟩
        exact ⟨rounds + 1, by rw [bitsetLoop_succ_ok (haccepted bitset hname hentry), hrounds]⟩

/-! ## What the members stand for -/

def members (value : Text) : List Text :=
  (bitsetEntries value).filter (· ≠ [])

def memberName : Text → Text
  | '~' :: name => name
  | name => name

def memberEffect (acceptedValues : List SetEntry) (bitset : UInt64) (token : Text) : UInt64 :=
  match findAccepted (memberName token) acceptedValues with
  | none => bitset
  | some accepted => if token.head? = some '~' then bitset &&& ~~~accepted.value else bitset ||| accepted.value

def IsEmptySet (value : Text) : Prop :=
  equalIcaseString value "none".toList = true ∨ equalIcaseString value "no".toList = true

def Admits (acceptedValues : List SetEntry) (value : Text) : Prop :=
  ∀ token ∈ members value, ∃ accepted ∈ acceptedValues,
    stringInAliasList (memberName token) accepted.name = true

def MeetsBitset (memory : Bool) (value : Text) (acceptedValues : List SetEntry) : Prop :=
  (∃ rounds result, runBitset memory value acceptedValues rounds = some result) ∧
    ∀ rounds bitset success, runBitset memory value acceptedValues rounds = some (bitset, success) →
      (success = true ↔ IsEmptySet value ∨ Admits acceptedValues value) ∧
      (success = true → bitset = (members value).foldl (memberEffect acceptedValues) 0)

/-- A word for the empty set is no name of a member with a mask; any other text does not start with white
space for its first token, or is refused for lack of memory as it should be. -/
def BitsetSafe (memory : Bool) (value : Text) (acceptedValues : List SetEntry) : Prop :=
  (IsEmptySet value → ∀ accepted, findAccepted value acceptedValues = some accepted → accepted.value = 0) ∧
    (¬ IsEmptySet value → memory = true → (bitsetEntries value).head? ≠ some []) ∧
    (¬ IsEmptySet value → memory = false → ¬ Admits acceptedValues value)

theorem findAccepted_isSome {name : Text} {acceptedValues : List SetEntry} :
    (findAccepted name acceptedValues).isSome = true ↔
      ∃ accepted ∈ acceptedValues, stringInAliasList name accepted.name = true := by
  rw [findAccepted, find?_isSome]

theorem memberName_plain {token : Text} (h : token.head? ≠ some '~') : memberName token = token := by
  unfold memberName
  split
  · exact absurd rfl h
  · rfl

theorem applyEntry_plain {token : Text} (h : token.head? ≠ some '~') (acceptedValues : List SetEntry)
    (bitset : UInt64) : applyEntry acceptedValues token bitset =
      (findAccepted token acceptedValues).map fun accepted => bitset ||| accepted.value := by
  unfold applyEntry
  split
  · exact absurd rfl h
  · rfl

theorem applyEntry_spec (acceptedValues : List SetEntry) (token : Text) (bitset : UInt64) :
    (applyEntry acceptedValues token bitset = none ∧ findAccepted (memberName token) acceptedValues = none) ∨
      applyEntry acceptedValues token bitset = some (memberEffect acceptedValues bitset token) ∧
        (findAccepted (memberName token) acceptedValues).isSome = true := by
  by_cases hhead : token.head? = some '~'
  · obtain ⟨name, rfl⟩ := head?_eq_some_iff.mp hhead
    have hname : memberName ('~' :: name) = name := rfl
    rw [applyEntry, memberEffect, hname]
    cases hfind : findAccepted name acceptedValues with
    | none => exact .inl ⟨rfl, rfl⟩
    | some accepted => exact .inr ⟨rfl, rfl⟩
  · rw [applyEntry_plain hhead, memberEffect, memberName_plain hhead]
    cases hfind : findAccepted token acceptedValues with
    | none => exact .inl ⟨rfl, rfl⟩
    | some accepted =>
      refine .inr ⟨?_, rfl⟩
      simp [hhead]

theorem applyEntries_spec (acceptedValues : List SetEntry) (entries : List Text) (bitset : UInt64) :
    ((applyEntries acceptedValues entries bitset).2 = true ↔
        ∀ token ∈ entries.filter (· ≠ []), ∃ accepted ∈ acceptedValues,
          stringInAliasList (memberName token) accepted.name = true) ∧
      ((applyEntries acceptedValues entries bitset).2 = true → (applyEntries acceptedValues entries bitset).1 =
          (entries.filter (· ≠ [])).foldl (memberEffect acceptedValues) bitset) := by
  induction entries generalizing bitset with
  | nil => simp [applyEntries]
  | cons token entries ih =>
    by_cases hempty : token = []
    · rw [applyEntries, if_pos hempty, filter_cons_of_neg (by simpa using hempty)]
      exact ih bitset
    · rw [applyEntries, if_neg hempty, filter_cons_of_pos (by simpa using hempty)]
      rcases applyEntry_spec acceptedValues token bitset with ⟨hentry, hfind⟩ | ⟨hentry, hfind⟩
      · simp only [hentry]
        have hnone : ¬ ∃ accepted ∈ acceptedValues, stringInAliasList (memberName token) accepted.name = true := by
          rw [← findAccepted_isSome, hfind]
          simp
        constructor
        · constructor
          · intro h
            cases h
          · intro h
            exact absurd (h token mem_cons_self) hnone
        · intro h
          cases h
      · simp only [hentry, foldl_cons]
        have hsome := findAccepted_isSome.mp hfind
        refine ⟨?_, (ih _).2⟩
        rw [(ih _).1]
        constructor
        · intro h other hother
          rcases mem_cons.mp hother with rfl | hother
          · exact hsome
          · exact h other hother
        · intro h other hother
          exact h other (mem_cons_of_mem _ hother)

theorem members_emptySet {value : Text} (h : IsEmptySet value) :
    members value = [value] ∧ memberName value = value ∧ value.head? ≠ some '~' := by
  have hletters : value.map Char.toUpper = ['N', 'O', 'N', 'E'] ∨ value.map Char.toUpper = ['N', 'O'] := by
    rcases h with h | h
    · exact .inl (equalIcase_upper h)
    · exact .inr (equalIcase_upper h)
  have hplain : ∀ c ∈ value, isSeparator c = false ∧ isSpace c = false ∧ c ≠ '~' := by
    intro c hc
    have hupper : c.toUpper ∈ ['N', 'O', 'N', 'E'] := by
      have hmem := mem_map_of_mem (f := Char.toUpper) hc
      rcases hletters with h | h
      · rwa [h] at hmem
      · rw [h] at hmem
        simp only [mem_cons, not_mem_nil, or_false] at hmem ⊢
        rcases hmem with h | h
        · exact .inl h
        · exact .inr (.inl h)
    have hother : ∀ d : Char, d.toUpper ∉ ['N', 'O', 'N', 'E'] → c ≠ d := by
      rintro d hd rfl
      exact hd hupper
    refine ⟨?_, ?_, hother '~' (by decide)⟩
    · simp [isSeparator, hother ' ' (by decide), hother ',' (by decide), hother ':' (by decide),
        hother ';' (by decide)]
    · by_contra hspace
      simp only [Bool.not_eq_false] at hspace
      simp only [isSpace, hother ' ' (by decide), decide_false, Bool.false_or, Bool.and_eq_true,
        decide_eq_true_eq] at hspace
      have hchar : c = Char.ofNat c.toNat := (Char.ofNat_toNat c).symm
      rcases hspace with ⟨hlow, hhigh⟩
      rw [hchar] at hupper
      generalize c.toNat = n at hlow hhigh hupper
      interval_cases n <;> exact absurd hupper (by decide)
  have hne : value ≠ [] := by
    rintro rfl
    rcases hletters with h | h
    · cases h
    · cases h
  have hentries : bitsetEntries value = [value] := by
    rw [bitsetEntries_eq, fields_token (fun c hc => (hplain c hc).1) hne, map_singleton,
      trimString_of_noSpace fun c hc => (hplain c hc).2.1]
  have hhead : value.head? ≠ some '~' := fun hhead => (hplain '~' (mem_of_mem_head? hhead)).2.2 rfl
  refine ⟨?_, memberName_plain hhead, hhead⟩
  rw [members, hentries]
  simp [hne]

theorem foldl_emptySet {value : Text} {acceptedValues : List SetEntry} (h : IsEmptySet value) :
    (members value).foldl (memberEffect acceptedValues) 0 = 0 ↔
      ∀ accepted, findAccepted value acceptedValues = some accepted → accepted.value = 0 := by
  rcases members_emptySet h with ⟨hmembers, hname, hhead⟩
  rw [hmembers, foldl_cons, foldl_nil, memberEffect, hname]
  cases hfind : findAccepted value acceptedValues with
  | none => simp
  | some accepted => simp [hhead]

/-! ## All values -/

/-- The loop does what its description says exactly under the condition. -/
theorem meetsBitset_iff (memory : Bool) (value : Text) (acceptedValues : List SetEntry) :
    MeetsBitset memory value acceptedValues ↔ BitsetSafe memory value acceptedValues := by
  by_cases hempty : IsEmptySet value
  · have hword : (equalIcaseString value "none".toList || equalIcaseString value "no".toList) = true := by
      rw [Bool.or_eq_true]
      exact hempty
    have hrun : ∀ rounds, runBitset memory value acceptedValues rounds = some (0, true) := by
      intro rounds
      rw [runBitset, if_pos hword]
    constructor
    · rintro ⟨-, h⟩
      refine ⟨fun _ => ?_, fun hno => absurd hempty hno, fun hno => absurd hempty hno⟩
      exact (foldl_emptySet hempty).mp ((h 0 0 true (hrun 0)).2 rfl).symm
    · rintro ⟨h, -, -⟩
      refine ⟨⟨0, _, hrun 0⟩, ?_⟩
      intro rounds bitset success hresult
      rw [hrun rounds] at hresult
      cases hresult
      exact ⟨⟨fun _ => .inl hempty, fun _ => rfl⟩, fun _ => ((foldl_emptySet hempty).mpr (h hempty)).symm⟩
  · have hword : ¬ (equalIcaseString value "none".toList || equalIcaseString value "no".toList) = true := by
      rw [Bool.or_eq_true]
      exact hempty
    cases memory with
    | false =>
      have hrun : ∀ rounds, runBitset false value acceptedValues rounds = some (0, false) := by
        intro rounds
        rw [runBitset, if_neg hword, if_pos rfl]
      constructor
      · rintro ⟨-, h⟩
        refine ⟨fun hyes => absurd hyes hempty, fun _ hmemory => absurd hmemory (by decide), fun _ _ hadmits => ?_⟩
        exact absurd ((h 0 0 false (hrun 0)).1.mpr (.inr hadmits)) (by decide)
      · rintro ⟨-, -, h⟩
        refine ⟨⟨0, _, hrun 0⟩, ?_⟩
        intro rounds bitset success hresult
        rw [hrun rounds] at hresult
        cases hresult
        refine ⟨⟨fun hfalse => absurd hfalse (by decide), ?_⟩, fun hfalse => absurd hfalse (by decide)⟩
        rintro (hyes | hadmits)
        · exact absurd hyes hempty
        · exact absurd hadmits (h hempty rfl)
    | true =>
      have hrun : ∀ rounds, runBitset true value acceptedValues rounds = bitsetLoop acceptedValues rounds
          { buffer := value.map some ++ [none], restarts := true, saved := none, bitset := 0 } := by
        intro rounds
        rw [runBitset, if_neg hword, if_neg (by decide)]
      have hstart := bitsetLoop_start value acceptedValues
      constructor
      · rintro ⟨⟨rounds, result, hresult⟩, -⟩
        refine ⟨fun hyes => absurd hyes hempty, fun _ _ hblank => ?_, fun _ hmemory => absurd hmemory (by decide)⟩
        rw [hrun, hstart.1 hblank rounds] at hresult
        cases hresult
      · rintro ⟨-, h, -⟩
        rcases hstart.2 (h hempty rfl) with ⟨rounds, hrounds⟩
        refine ⟨⟨rounds, _, (hrun rounds).trans hrounds⟩, ?_⟩
        intro rounds' bitset success hresult
        rw [hrun] at hresult
        have hsame := bitsetLoop_mono hrounds rounds'
        rw [Nat.add_comm, bitsetLoop_mono hresult rounds] at hsame
        have hentries := applyEntries_spec acceptedValues (bitsetEntries value) 0
        rw [← Option.some.inj hsame] at hentries
        refine ⟨?_, hentries.2⟩
        rw [hentries.1]
        exact ⟨.inr, fun h => h.resolve_left hempty⟩

/-- A value of one tab is given to `strtok` again and again. -/
theorem tab_never_returns :
    ¬ ∀ (value : Text) (acceptedValues : List SetEntry), checkBitset acceptedValues = true →
      MeetsBitset true value acceptedValues := by
  intro h
  rcases (h ['\t'] [] rfl).1 with ⟨rounds, result, hresult⟩
  have hnever := (bitsetLoop_start ['\t'] []).1 (by decide) rounds
  have hrun : runBitset true ['\t'] [] rounds = none := by
    rw [runBitset, if_neg (by decide), if_neg (by decide)]
    exact hnever
  rw [hrun] at hresult
  cases hresult

end ScoreP.Config
