import ScoreP.Config.Registry

/-!
# Refused values

`attempt_keeps_iff` says for one offered value, and `keeps_iff` for a whole call, when a value that is
refused leaves everything as it was. The parsers store too early: a number before what follows it is
looked at, a set before its entries are.
-/

namespace ScoreP.Config

/-! ## What refusing a value means -/

def cautious (attempt : Attempt) : Attempt := fun v value =>
  (attempt v value).map fun (v', success) => if success then (v', true) else (v, false)

def ConfigVariable.content (v : ConfigVariable) : Σ type : ConfigType, type.Object :=
  ⟨v.type, v.object⟩

def objects (nameSpaces : List NameSpace) : List (List (Σ type : ConfigType, type.Object)) :=
  nameSpaces.map fun nameSpace => nameSpace.variablesHead.map ConfigVariable.content

/-- When the call reports that a value cannot be parsed, the variable holds what it held before and the
value has not changed any other variable: the objects are those that are left by an attempt that stores
nothing. -/
def Keeps (memory : Text → Bool) (hash : Text → ℕ) (nameSpaces : List NameSpace) (call : Call) : Prop :=
  ∀ after outcome, call.run (attempt memory) hash nameSpaces = some (after, outcome) →
    outcome.isRejection = true →
    ∃ kept, call.run (cautious (attempt memory)) hash nameSpaces = some (kept, outcome) ∧
      objects after = objects kept

/-! ## When it is met -/

/-- What must hold of the old object so that a refused value does not change it. -/
def Harmless (memory : Bool) (value : Text) : (type : ConfigType) → List SetEntry → type.Object → Prop
  | .string, _, old | .path, _, old => memory = false → old = none
  | .bool, _, _ => True
  | .number, _, old => ∀ number rest, parseUint64 value = .ok (number, rest) → skipSpaces rest ≠ [] →
      old = number
  | .size, _, old => ∀ number rest, parseUint64 value = .ok (number, rest) →
      (∀ scaleFactor, sizeScale rest = some scaleFactor → number * scaleFactor < number) → old = number
  | .bitset, acceptedValues, old =>
      equalIcaseString value "none".toList = false → equalIcaseString value "no".toList = false →
      (memory = false → old = (0 : UInt64)) ∧
      (memory = true → ∀ before entry after bitset,
        (bitsetEntries value).filter (· ≠ []) = before ++ entry :: after →
        before.foldlM (fun bitset entry => applyEntry acceptedValues entry bitset) 0 = some bitset →
        applyEntry acceptedValues entry bitset = none → old = bitset)
  | .optionset, acceptedValues, old =>
      memory = false ∨ trimString value ≠ [] ∧ findAccepted (trimString value) acceptedValues = none →
      old = (0 : UInt64)

def firstRejected (memory : Text → Bool) (getenv : Text → Option Text) :
    List ConfigVariable → Option (ConfigVariable × Text)
  | [] => none
  | v :: rest =>
    if v.isEvaluated then firstRejected memory getenv rest
    else
      match getenv v.envVarName with
      | none => firstRejected memory getenv rest
      | some value =>
        match attempt memory v value with
        | none => none
        | some (_, true) => firstRejected memory getenv rest
        | some (_, false) => some (v, value)

def findVariable (hash : Text → ℕ) (nameSpaceName variableName : Text) (nameSpaces : List NameSpace) :
    Option ConfigVariable :=
  (nameSpaces.find? (NameSpace.isNamed hash nameSpaceName)).bind fun nameSpace =>
    nameSpace.variablesHead.find? (ConfigVariable.isNamed hash variableName)

def Call.rejected (memory : Text → Bool) (hash : Text → ℕ) (nameSpaces : List NameSpace) :
    Call → Option (ConfigVariable × Text)
  | .setValue nameSpaceName variableName variableValue =>
    (findVariable hash nameSpaceName variableName nameSpaces).bind fun v =>
      match attempt memory v variableValue with
      | some (_, false) => some (v, variableValue)
      | _ => none
  | .applyEnv getenv => firstRejected memory getenv (nameSpaces.flatMap (·.variablesHead))

/-! ## One value -/

variable {value : Text}

theorem parseString_refused {memory : Bool} {old new : Option Text}
    (h : parseString memory value = (new, false)) : new = old ↔ (memory = false → old = none) := by
  unfold parseString at h
  split at h
  · simp at h
  · rename_i hm
    simp only [Prod.mk.injEq, and_true] at h
    subst h
    simp only [hm, forall_const]
    exact eq_comm

theorem parseBool_accepts (value : Text) : (parseBool value).2 = true := by
  unfold parseBool
  split
  · rfl
  · split <;> rfl

variable {old new : UInt64}

theorem parseNumber_refused (h : parseNumber value old = (new, false)) :
    new = old ↔ Harmless true value .number [] old := by
  unfold parseNumber at h
  simp only [Harmless]
  cases hp : parseUint64 value with
  | error e =>
    rw [hp] at h
    simp_all
  | ok parsed =>
    obtain ⟨number, rest⟩ := parsed
    rw [hp] at h
    simp only [Prod.mk.injEq, decide_eq_false_iff_not] at h
    obtain ⟨rfl, hrest⟩ := h
    constructor
    · rintro rfl number' rest' h' -
      cases h'
      rfl
    · intro hold
      exact (hold number rest rfl hrest).symm

theorem parseSize_refused (h : parseSize value old = (new, false)) :
    new = old ↔ Harmless true value .size [] old := by
  unfold parseSize at h
  simp only [Harmless]
  cases hp : parseUint64 value with
  | error e =>
    rw [hp] at h
    simp_all
  | ok parsed =>
    obtain ⟨number, rest⟩ := parsed
    rw [hp] at h
    -- whichever check fails, what is stored is the number without the suffix
    have hstored : new = number ∧
        ∀ scaleFactor, sizeScale rest = some scaleFactor → number * scaleFactor < number := by
      cases hs : sizeScale rest with
      | none => simp_all
      | some scaleFactor =>
        simp only [hs] at h
        split at h <;> simp_all
    obtain ⟨rfl, hbad⟩ := hstored
    constructor
    · rintro rfl number' rest' h' -
      cases h'
      rfl
    · intro hold
      exact (hold new rest rfl hbad).symm

variable {acceptedValues : List SetEntry}

theorem applyEntries_refused {entries : List Text} {bitset new : UInt64}
    (h : applyEntries acceptedValues entries bitset = (new, false)) :
    ∃ before entry after, entries.filter (· ≠ []) = before ++ entry :: after ∧
      before.foldlM (fun bitset entry => applyEntry acceptedValues entry bitset) bitset = some new ∧
      applyEntry acceptedValues entry new = none := by
  induction entries generalizing bitset with
  | nil => simp [applyEntries] at h
  | cons entry entries ih =>
    rw [applyEntries] at h
    split at h
    case isTrue hempty =>
      have hfilter := ih h
      simpa [hempty] using hfilter
    case isFalse hne =>
      have hfilter : (entry :: entries).filter (· ≠ []) = entry :: entries.filter (· ≠ []) := by
        simp [hne]
      cases ha : applyEntry acceptedValues entry bitset with
      | none =>
        simp only [ha, Prod.mk.injEq, and_true] at h
        subst h
        exact ⟨[], entry, _, hfilter, rfl, ha⟩
      | some bitset' =>
        simp only [ha] at h
        rcases ih h with ⟨before, entry', after, hentries, hfold, hnone⟩
        refine ⟨entry :: before, entry', after, ?_, ?_, hnone⟩
        · rw [hfilter, hentries, List.cons_append]
        · simp [ha, hfold]

theorem foldlM_stop_unique {before before' after after' : List Text} {entry entry' : Text}
    {start bitset bitset' : UInt64} (hsplit : before ++ entry :: after = before' ++ entry' :: after')
    (hfold : before.foldlM (fun bitset entry => applyEntry acceptedValues entry bitset) start =
      some bitset) (hnone : applyEntry acceptedValues entry bitset = none)
    (hfold' : before'.foldlM (fun bitset entry => applyEntry acceptedValues entry bitset) start =
      some bitset') (hnone' : applyEntry acceptedValues entry' bitset' = none) : bitset = bitset' := by
  induction before generalizing before' start with
  | nil =>
    cases before' with
    | nil => simp_all
    | cons first before' => simp_all
  | cons first before ih =>
    cases before' with
    | nil => simp_all
    | cons first' before' =>
      simp only [List.cons_append, List.cons.injEq] at hsplit
      obtain ⟨rfl, hsplit⟩ := hsplit
      cases ha : applyEntry acceptedValues first start with
      | none => simp [ha] at hfold
      | some next =>
        simp only [List.foldlM_cons, ha, Option.bind_eq_bind, Option.bind_some] at hfold hfold'
        exact ih hsplit hfold hfold'

theorem parseBitset_refused {memory : Bool} (h : parseBitset memory value acceptedValues = some (new, false)) :
    new = old ↔ Harmless memory value .bitset acceptedValues old := by
  unfold parseBitset at h
  simp only [Harmless]
  split at h
  · simp at h
  rename_i hnames
  simp only [Bool.or_eq_true, not_or, Bool.not_eq_true] at hnames
  obtain ⟨hnone, hno⟩ := hnames
  cases memory with
  | false =>
    simp only [↓reduceIte, Option.some.injEq, Prod.mk.injEq, and_true] at h
    subst h
    simp only [hnone, hno, Bool.false_eq_true, false_implies, and_true, forall_const]
    exact eq_comm
  | true =>
    have happlied : applyEntries acceptedValues (bitsetEntries value) 0 = (new, false) := by
      cases hentries : bitsetEntries value with
      | nil => simp [hentries, applyEntries] at h
      | cons entry entries =>
        cases entry with
        | nil => simp [hentries] at h
        | cons c entry => simpa [hentries] using h
    rcases applyEntries_refused happlied with ⟨before, entry, after, hentries, hfold, hrefused⟩
    constructor
    · rintro rfl - -
      refine ⟨by simp, fun _ before' entry' after' bitset' hentries' hfold' hrefused' => ?_⟩
      exact foldlM_stop_unique (hentries.symm.trans hentries') hfold hrefused hfold' hrefused'
    · intro hold
      exact ((hold hnone hno).2 rfl before entry after new hentries hfold hrefused).symm

theorem parseOptionset_refused {memory : Bool} (h : parseOptionset memory value acceptedValues = (new, false)) :
    new = old ↔ Harmless memory value .optionset acceptedValues old := by
  unfold parseOptionset at h
  simp only [Harmless]
  cases memory with
  | false =>
    simp only [↓reduceIte, Prod.mk.injEq, and_true] at h
    subst h
    simp only [true_or, forall_const]
    exact eq_comm
  | true =>
    simp only [Bool.true_eq_false, ↓reduceIte] at h
    split at h
    · simp at h
    · rename_i hne
      cases hf : findAccepted (trimString value) acceptedValues with
      | none =>
        simp only [hf, Prod.mk.injEq, and_true] at h
        subst h
        simp only [Bool.true_eq_false, ne_eq, hne, not_false_eq_true, and_self, or_true, forall_const]
        exact eq_comm
      | some accepted => simp [hf] at h

variable {memory : Text → Bool}

theorem attempt_keeps_iff {v v' : ConfigVariable} (h : attempt memory v value = some (v', false)) :
    v'.content = v.content ↔ Harmless (memory v.envVarName) value v.type v.variableContext v.object := by
  rcases Option.map_eq_some_iff.mp h with ⟨⟨new, success⟩, hparse, hv⟩
  simp only [Prod.mk.injEq] at hv
  obtain ⟨rfl, rfl⟩ := hv
  obtain ⟨name, hashValue, envVarName, type, variableContext, old, isEvaluated, isChanged⟩ := v
  simp only [ConfigVariable.content, Sigma.mk.injEq, heq_eq_eq, true_and]
  cases type with
  | string | path => exact parseString_refused (Option.some.inj hparse)
  | bool =>
    have haccepts := parseBool_accepts value
    rw [Option.some.inj hparse] at haccepts
    cases haccepts
  | number => exact parseNumber_refused (Option.some.inj hparse)
  | size => exact parseSize_refused (Option.some.inj hparse)
  | bitset => exact parseBitset_refused hparse
  | optionset => exact parseOptionset_refused (Option.some.inj hparse)

theorem cautious_refused {v v' : ConfigVariable} (h : attempt memory v value = some (v', false)) :
    cautious (attempt memory) v value = some (v, false) := by
  simp [cautious, h]

theorem attempt_frame {v v' : ConfigVariable} {success : Bool}
    (h : attempt memory v value = some (v', success)) : v'.name = v.name ∧ v'.envVarName = v.envVarName := by
  rcases Option.map_eq_some_iff.mp h with ⟨⟨new, success'⟩, -, hv⟩
  simp only [Prod.mk.injEq] at hv
  obtain ⟨rfl, -⟩ := hv
  exact ⟨rfl, rfl⟩

/-! ## One call -/

def Refusal (memory : Text → Bool) (hash : Text → ℕ) (nameSpaces : List NameSpace) (call : Call)
    (v : ConfigVariable) (value : Text) : Prop :=
  ∃ v' after kept outcome, attempt memory v value = some (v', false) ∧ outcome.isRejection = true ∧
    call.run (attempt memory) hash nameSpaces = some (after, outcome) ∧
    call.run (cautious (attempt memory)) hash nameSpaces = some (kept, outcome) ∧
    (objects after = objects kept ↔ v'.content = v.content)

def Decides (memory : Text → Bool) (hash : Text → ℕ) (nameSpaces : List NameSpace) (call : Call) :
    Option (ConfigVariable × Text) → Prop
  | some (v, value) => Refusal memory hash nameSpaces call v value
  | none => ∀ after outcome, call.run (attempt memory) hash nameSpaces = some (after, outcome) →
      outcome.isRejection = false

variable {memory : Text → Bool} {hash : Text → ℕ} {getenv : Text → Option Text}

theorem objects_congr {spacesBefore spacesAfter : List NameSpace} {space space' : NameSpace}
    {before after : List ConfigVariable} {v v' : ConfigVariable} :
    objects (spacesBefore ++ { space with variablesHead := before ++ v :: after } :: spacesAfter) =
        objects (spacesBefore ++ { space' with variablesHead := before ++ v' :: after } :: spacesAfter) ↔
      v.content = v'.content := by
  simp [objects]

theorem setValue_decides (nameSpaceName variableName variableValue : Text) (nameSpaces : List NameSpace) :
    let call := Call.setValue nameSpaceName variableName variableValue
    Decides memory hash nameSpaces call (call.rejected memory hash nameSpaces) := by
  intro call
  rcases @atFirst_cases NameSpace (NameSpace.isNamed hash nameSpaceName)
    (.unknownNameSpace nameSpaceName) nameSpaces with
    ⟨hnone, hspaces⟩ | ⟨spacesBefore, space, spacesAfter, rfl, hspace, hspaces⟩
  · -- no such name space
    simp only [call, Call.rejected, findVariable, hnone, Option.bind_none]
    intro after outcome hrun
    simp only [Call.run, setValue, hspaces, Option.some.injEq, Prod.mk.injEq] at hrun
    rw [← hrun.2]
    rfl
  rcases @atFirst_cases ConfigVariable (ConfigVariable.isNamed hash variableName)
    (.unknownVariable nameSpaceName variableName) space.variablesHead with
    ⟨hnone, hvars⟩ | ⟨before, v, after, hhead, hv, hvars⟩
  · -- no such variable
    simp only [call, Call.rejected, findVariable, hspace, hnone, Option.bind_some, Option.bind_none]
    intro after outcome hrun
    simp only [Call.run, setValue, hspaces, hvars, Option.map_some, Option.some.injEq, Prod.mk.injEq] at hrun
    rw [← hrun.2]
    rfl
  simp only [call, Call.rejected, findVariable, hspace, hv, Option.bind_some]
  cases ha : attempt memory v variableValue with
  | none =>
    intro after' outcome hrun
    simp [Call.run, setValue, hspaces, hvars, ha] at hrun
  | some result =>
    obtain ⟨v', success⟩ := result
    cases success with
    | true =>
      intro after' outcome hrun
      simp only [Call.run, setValue, hspaces, hvars, ha, Option.map_some, ↓reduceIte,
        Option.some.injEq, Prod.mk.injEq] at hrun
      rw [← hrun.2]
      rfl
    | false =>
      refine ⟨v', _, _, .invalidValue nameSpaceName variableName variableValue, ha, rfl, ?_, ?_,
        @objects_congr spacesBefore spacesAfter space space before after v' v⟩
      · simp [Call.run, setValue, hspaces, hvars, ha]
      · simp [Call.run, setValue, hspaces, hvars, cautious_refused ha]

variable {name : Text}

theorem applyVariable_cautious (v v' : ConfigVariable)
    (h : applyVariable (attempt memory) getenv name v = some (v', .success)) :
    applyVariable (cautious (attempt memory)) getenv name v = some (v', .success) := by
  unfold applyVariable at h ⊢
  split
  · simp_all
  cases hg : getenv v.envVarName with
  | none => simp_all
  | some value =>
    cases ha : attempt memory v value with
    | none => simp_all
    | some result =>
      obtain ⟨v1, success⟩ := result
      cases success with
      | true => simp_all [cautious]
      | false => simp_all

theorem firstRejected_append {before before' : List ConfigVariable}
    (h : untilFailure (applyVariable (attempt memory) getenv name) before = some (before', .success))
    (rest : List ConfigVariable) :
    firstRejected memory getenv (before ++ rest) = firstRejected memory getenv rest := by
  induction before generalizing before' with
  | nil => rfl
  | cons v before ih =>
    rcases untilFailure_cons_success.mp h with ⟨v', after, hv, hrest, -⟩
    have htail := ih hrest
    unfold applyVariable at hv
    rw [List.cons_append, firstRejected]
    split
    · exact htail
    rename_i he
    rw [if_neg he] at hv
    cases hg : getenv v.envVarName with
    | none => exact htail
    | some value =>
      simp only [hg] at hv
      cases ha : attempt memory v value with
      | none => simp [ha] at hv
      | some result =>
        obtain ⟨v1, success⟩ := result
        cases success with
        | true => simpa only [ha] using htail
        | false => simp [ha] at hv

theorem applyVariable_stops (v : ConfigVariable) (rest : List ConfigVariable) :
    (applyVariable (attempt memory) getenv name v = none ∧ firstRejected memory getenv (v :: rest) = none) ∨
    (∃ v', applyVariable (attempt memory) getenv name v = some (v', .success)) ∨
    ∃ value v1 v' kept outcome, firstRejected memory getenv (v :: rest) = some (v, value) ∧
      attempt memory v value = some (v1, false) ∧ outcome.isRejection = true ∧
      applyVariable (attempt memory) getenv name v = some (v', outcome) ∧
      applyVariable (cautious (attempt memory)) getenv name v = some (kept, outcome) ∧
      v'.content = v1.content ∧ kept.content = v.content := by
  unfold applyVariable firstRejected
  by_cases he : v.isEvaluated = true
  · exact .inr (.inl ⟨v, by simp [he]⟩)
  cases hg : getenv v.envVarName with
  | none => exact .inr (.inl ⟨_, by simp [he]; rfl⟩)
  | some value =>
    cases ha : attempt memory v value with
    | none => exact .inl ⟨by simp [he, ha], by simp [he, ha]⟩
    | some result =>
      obtain ⟨v1, success⟩ := result
      cases success with
      | true => exact .inr (.inl ⟨_, by simp [he, ha]; rfl⟩)
      | false =>
        have hframe := attempt_frame ha
        right; right
        refine ⟨value, v1, { v1 with isEvaluated := true, isChanged := true },
          { v with isEvaluated := true, isChanged := true },
          .cantSet name v.name value v.envVarName, ?_, ha, rfl, ?_, ?_, rfl, rfl⟩
        · simp [he, ha]
        · simp [he, ha, hframe]
        · simp [he, cautious_refused ha]

theorem untilFailure_applyVariable_cautious {head head' : List ConfigVariable}
    (h : untilFailure (applyVariable (attempt memory) getenv name) head = some (head', .success)) :
    untilFailure (applyVariable (cautious (attempt memory)) getenv name) head = some (head', .success) := by
  have happend := untilFailure_append h applyVariable_cautious []
  simpa [untilFailure] using happend

theorem applyNameSpace_cautious (space space' : NameSpace)
    (h : applyNameSpace (attempt memory) getenv space = some (space', .success)) :
    applyNameSpace (cautious (attempt memory)) getenv space = some (space', .success) := by
  unfold applyNameSpace at h ⊢
  rcases Option.map_eq_some_iff.mp h with ⟨⟨head, outcome⟩, hhead, hspace⟩
  simp only [Prod.mk.injEq] at hspace
  obtain ⟨rfl, rfl⟩ := hspace
  simp [untilFailure_applyVariable_cautious hhead]

theorem firstRejected_nameSpaces {before before' : List NameSpace}
    (h : untilFailure (applyNameSpace (attempt memory) getenv) before = some (before', .success))
    (rest : List ConfigVariable) : firstRejected memory getenv (before.flatMap (·.variablesHead) ++ rest) =
      firstRejected memory getenv rest := by
  induction before generalizing before' with
  | nil => rfl
  | cons space before ih =>
    rcases untilFailure_cons_success.mp h with ⟨space', after, hspace, hrest, -⟩
    rcases Option.map_eq_some_iff.mp hspace with ⟨⟨head, outcome⟩, hhead, hpair⟩
    simp only [Prod.mk.injEq] at hpair
    obtain ⟨-, rfl⟩ := hpair
    rw [List.flatMap_cons, List.append_assoc, firstRejected_append hhead, ih hrest]

theorem applyEnv_decides (nameSpaces : List NameSpace) : Decides memory hash nameSpaces (.applyEnv getenv)
      ((Call.applyEnv getenv).rejected memory hash nameSpaces) := by
  rcases untilFailure_cases (applyNameSpace (attempt memory) getenv) nameSpaces with
    ⟨after, hrun⟩ | ⟨spacesBefore, spacesBefore', space, spacesAfter, rfl, hspaces, hstop⟩
  · -- no name space stops the loop
    have hnone := firstRejected_nameSpaces hrun []
    rw [List.append_nil] at hnone
    simp only [Call.rejected, hnone, firstRejected]
    intro after' outcome hrun'
    rw [Call.run, applyEnv, hrun] at hrun'
    cases hrun'
    rfl
  have hcautious := untilFailure_append hspaces applyNameSpace_cautious (space :: spacesAfter)
  have hrejected := firstRejected_nameSpaces hspaces
    (space.variablesHead ++ spacesAfter.flatMap (·.variablesHead))
  simp only [Call.rejected, List.flatMap_append, List.flatMap_cons, hrejected]
  rcases untilFailure_cases (applyVariable (attempt memory) getenv space.name) space.variablesHead with
    ⟨head, hhead⟩ | ⟨before, before', v, after, hsplit, hbefore, hv⟩
  · -- then the name space would not stop it either
    rcases hstop with ⟨hspace, -⟩ | ⟨space', outcome, hne, hspace, -⟩
    · simp [applyNameSpace, hhead] at hspace
    · simp [applyNameSpace, hhead] at hspace
      exact absurd hspace.2.symm hne
  have hvcautious := untilFailure_append hbefore applyVariable_cautious (v :: after)
  rw [hsplit, List.append_assoc, firstRejected_append hbefore, List.cons_append]
  rcases @applyVariable_stops memory getenv space.name v
    (after ++ spacesAfter.flatMap (·.variablesHead)) with
    ⟨hnone, hfirst⟩ | ⟨v', hsuccess⟩ |
    ⟨value, v1, v', kept, outcome, hfirst, hattempt, hrejection, hrefused, hkept, hv', hkept'⟩
  · -- the parser does not return
    rw [hfirst]
    intro after' outcome hrun'
    rcases hv with ⟨-, hhead⟩ | ⟨w, outcome', -, hw, -⟩
    · rcases hstop with ⟨-, hrun⟩ | ⟨space', outcome', -, hspace, -⟩
      · rw [Call.run, applyEnv, hrun] at hrun'
        cases hrun'
      · simp [applyNameSpace, hhead] at hspace
    · simp [hnone] at hw
  · rcases hv with ⟨hnone, -⟩ | ⟨w, outcome', hne, hw, -⟩
    · simp [hsuccess] at hnone
    · rw [hsuccess] at hw
      cases hw
      exact absurd rfl hne
  -- the value is refused
  rw [hfirst]
  have hne : outcome ≠ .success := by
    rintro rfl
    cases hrejection
  rcases hv with ⟨hnone, -⟩ | ⟨w, outcome', -, hw, hhead⟩
  · simp [hrefused] at hnone
  rw [hrefused] at hw
  cases hw
  have hspace : applyNameSpace (attempt memory) getenv space =
      some ({ space with variablesHead := before' ++ v' :: after }, outcome) := by
    simp [applyNameSpace, hhead]
  have hspacecautious : applyNameSpace (cautious (attempt memory)) getenv space =
      some ({ space with variablesHead := before' ++ kept :: after }, outcome) := by
    rw [applyNameSpace, hsplit, hvcautious, untilFailure_stop hkept hne]
    rfl
  rcases hstop with ⟨hnone, -⟩ | ⟨space', outcome', -, hspace', hrun⟩
  · simp [hspace] at hnone
  rw [hspace] at hspace'
  cases hspace'
  refine ⟨v1, _, spacesBefore' ++ { space with variablesHead := before' ++ kept :: after } :: spacesAfter,
    outcome, hattempt, hrejection, hrun, ?_, ?_⟩
  · rw [Call.run, applyEnv, hcautious, untilFailure_stop hspacecautious hne]
    rfl
  · rw [objects_congr, hv', hkept']

/-- A call that refuses a value keeps everything as it was exactly when the value is harmless. -/
theorem keeps_iff (memory : Text → Bool) (hash : Text → ℕ) (nameSpaces : List NameSpace) (call : Call) :
    Keeps memory hash nameSpaces call ↔ ∀ v value, call.rejected memory hash nameSpaces = some (v, value) →
        Harmless (memory v.envVarName) value v.type v.variableContext v.object := by
  have hdecides : Decides memory hash nameSpaces call (call.rejected memory hash nameSpaces) := by
    cases call with
    | setValue nameSpaceName variableName variableValue =>
      exact setValue_decides nameSpaceName variableName variableValue nameSpaces
    | applyEnv getenv => exact applyEnv_decides nameSpaces
  cases hrejected : call.rejected memory hash nameSpaces with
  | none =>
    rw [hrejected] at hdecides
    constructor
    · intro _ v value hsome
      cases hsome
    · intro _ after outcome hrun hrejection
      rw [hdecides after outcome hrun] at hrejection
      cases hrejection
  | some refused =>
    obtain ⟨v, value⟩ := refused
    rw [hrejected] at hdecides
    rcases hdecides with ⟨v', after, kept, outcome, hattempt, hrejection, hrun, hcautious, hsame⟩
    constructor
    · intro hkeeps w value' hsome
      cases hsome
      rcases hkeeps after outcome hrun hrejection with ⟨kept', hcautious', hobjects⟩
      rw [hcautious] at hcautious'
      cases hcautious'
      exact (attempt_keeps_iff hattempt).mp (hsame.mp hobjects)
    · intro hharmless after' outcome' hrun' _
      rw [hrun] at hrun'
      cases hrun'
      exact ⟨kept, hcautious, hsame.mpr ((attempt_keeps_iff hattempt).mpr (hharmless v value rfl))⟩

/-- A number variable that holds 7 and is offered a number with a trailing letter holds the number
then. -/
theorem not_keeps_number : ¬ ∀ memory hash nameSpaces call, Keeps memory hash nameSpaces call := by
  intro h
  let v : ConfigVariable :=
    { name := "limit".toList, hashValue := 0, envVarName := "SCOREP_LIMIT".toList, type := .number,
      variableContext := [], object := (7 : UInt64), isEvaluated := true, isChanged := false }
  have hkeeps := h (fun _ => true) (fun _ => 0) [⟨[], 0, [v]⟩]
    (.setValue [] "limit".toList "12x".toList)
  rcases hkeeps _ _ rfl rfl with ⟨kept, hkept, hobjects⟩
  cases hkept
  cases hobjects

end ScoreP.Config
