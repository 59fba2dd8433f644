import ScoreP.Config.Dumping
import ScoreP.Config.Registry
import ScoreP.Foundations.Transition

/-!
# Registering config variables

Source: `SCOREP_Config.c`, `SCOREP_ConfigRegister` with `get_name_space`, `get_variable` and `check_name`,
`SCOREP_ConfigGetData`, and `SCOREP_Hashtab_HashString`. A name is hashed as it is spelled and compared
without regard to case. `names_identified`: in a run whose calls spell every known name with its hash
value, and in which no variable of the name space without a name is called like a name space, an underscore
and one of its variables, the names are told apart by their letters only.
-/

namespace ScoreP.Config

open Foundations List

/-! ## Names -/

def hashString (key : Text) : UInt64 :=
  let hash := key.foldl (fun (hash : UInt64) c =>
    let hash := hash + c.toNat.toUInt64
    let hash := hash + hash <<< 10
    hash ^^^ hash >>> 6) 0
  let hash := hash + hash <<< 3
  let hash := hash ^^^ hash >>> 11
  hash + hash <<< 15

def hashName (name : Text) : ℕ :=
  (hashString name).toNat

def stringToLower (str : Text) : Text :=
  str.map Char.toLower

def stringToUpper (str : Text) : Text :=
  str.map Char.toUpper

def envNameSubLenMax : ℕ := 41

def envVarName (nameSpace name : Text) : Text :=
  stringToUpper ("SCOREP_".toList ++ (nameSpace.take envNameSubLenMax ++
    ((if nameSpace = [] then [] else ['_']) ++ name.take envNameSubLenMax)))

def checkRest (allowUnderscore : Bool) : Text → Bool
  | [] => true
  | c :: rest =>
    let allowUnderscore := allowUnderscore && !rest.isEmpty
    (c.isAlphanum || (allowUnderscore && c = '_')) && checkRest allowUnderscore rest

/-- `check_name`, with the message of the check that fails. -/
def checkName (name : Text) (isNameSpace : Bool) : Option String :=
  if isNameSpace && name.isEmpty then none
  else
    match name with
    | [] => some "Invalid first character in config entity name."
    | c :: rest =>
      if !c.isAlpha then some "Invalid first character in config entity name."
      else if checkRest (!isNameSpace) rest then none
      else some "Invalid character in config entity name."

/-! ## Registration -/

/-- `SCOREP_ConfigVariable`; `object` is what stands behind the reference. -/
structure VariableSpec where
  name : Text
  type : ConfigType
  object : type.Object
  variableContext : List SetEntry
  defaultValue : Text
  shortHelp : Text

/-- Why a registration does not come to an end. For a duplicate `get_variable` returns a null pointer. -/
inductive Stop where
  | bug (message : String)
  | duplicate
  | hangs
deriving DecidableEq

def checkVariable (spec : VariableSpec) : Option String :=
  if spec.shortHelp.any fun c => c = '\n' || c = '\r' || c = '\x0b' || c = '\t' then
    some "Short description should not contain any control characters like \\n/\\r/\\v/\\t."
  else if spec.name.length = 1 then some "Variable name needs to be longer than 1 character."
  else if spec.name.length > envNameSubLenMax then some "Variable name too long."
  else checkName spec.name false

/-- `get_name_space` with creation. -/
def openNameSpace (hash : Text → ℕ) (name : Text) (nameSpaces : List NameSpace) : List NameSpace :=
  if nameSpaces.any (NameSpace.isNamed hash name) then nameSpaces
  else nameSpaces ++ [{ name := stringToLower name, hashValue := hash name, variablesHead := [] }]

/-- `check_bitset`, with the message for the first entry that fails. -/
def bitsetMessage (nameSpaceName variableName : Text) (acceptedValues : List SetEntry) : Option String :=
  let fullName := String.ofList nameSpaceName ++ "::" ++ String.ofList variableName
  acceptedValues.findSome? fun acceptedValue =>
    if acceptedValue.value = 0 then
      some ("Possible set members for variable " ++ fullName ++ " includes the 0 value!")
    else if equalIcaseString acceptedValue.name "no".toList ||
        equalIcaseString acceptedValue.name "none".toList then
      some ("Invalid set member name for variable " ++ fullName ++ ": " ++ String.ofList acceptedValue.name)
    else none

/-- A variable of a name space: `get_variable` with creation, and its default value. -/
def registerIn (memory : Bool) (hash : Text → ℕ) (nameSpaceName : Text) (spec : VariableSpec)
    (nameSpace : NameSpace) : Except Stop NameSpace :=
  if nameSpace.variablesHead.any (ConfigVariable.isNamed hash spec.name) then .error .duplicate
  else
    match if spec.type = .bitset then
        bitsetMessage nameSpaceName (stringToLower spec.name) spec.variableContext else none with
    | some message => .error (.bug message)
    | none =>
    match parseValue memory spec.defaultValue spec.type spec.variableContext spec.object with
    | none => .error .hangs
    | some (_, false) => .error (.bug "Default value could not be parsed.")
    | some (object, true) =>
      .ok { nameSpace with
        variablesHead := nameSpace.variablesHead ++
          [{ name := stringToLower spec.name
             hashValue := hash spec.name
             envVarName := envVarName nameSpace.name (stringToLower spec.name)
             type := spec.type
             variableContext := spec.variableContext
             object := object
             isEvaluated := false
             isChanged := false }] }

def inNameSpace (isWanted : NameSpace → Bool) (body : NameSpace → Except Stop NameSpace) :
    List NameSpace → Except Stop (List NameSpace)
  | [] => .ok []
  | nameSpace :: rest =>
    if isWanted nameSpace then (body nameSpace).map (· :: rest)
    else (inNameSpace isWanted body rest).map (nameSpace :: ·)

/-- The body of the loop of `SCOREP_ConfigRegister`. -/
def registerVariable (memory : Bool) (hash : Text → ℕ) (name : Text) (spec : VariableSpec)
    (nameSpaces : List NameSpace) : Except Stop (List NameSpace) :=
  match checkVariable spec with
  | some message => .error (.bug message)
  | none => inNameSpace (NameSpace.isNamed hash name) (registerIn memory hash name spec) nameSpaces

def registerNameSpace (hash : Text → ℕ) (name : Text) (nameSpaces : List NameSpace) :
    Except Stop (List NameSpace) :=
  if name.length > envNameSubLenMax then .error (.bug "Name space is too long.")
  else
    match checkName name true with
    | some message => .error (.bug message)
    | none => .ok (openNameSpace hash name nameSpaces)

def configRegister (memory : Bool) (hash : Text → ℕ) (name : Text) (specs : List VariableSpec)
    (nameSpaces : List NameSpace) : Except Stop (List NameSpace) :=
  (registerNameSpace hash name nameSpaces).bind fun nameSpaces =>
    specs.foldlM (fun nameSpaces spec => registerVariable memory hash name spec nameSpaces) nameSpaces

/-- `SCOREP_ConfigGetData`. An unknown name space is a null pointer that is used, `none`. -/
def getData (hash : Text → ℕ) (nameSpaceName variableName : Text) (nameSpaces : List NameSpace) :
    Option (Option ConfigVariable) :=
  (nameSpaces.find? (NameSpace.isNamed hash nameSpaceName)).map fun nameSpace =>
    nameSpace.variablesHead.find? (ConfigVariable.isNamed hash variableName)

/-- What the calls of `SCOREP_ConfigRegister` do one after the other. -/
inductive Registration where
  | nameSpace (name : Text)
  | configVariable (nameSpaceName : Text) (spec : VariableSpec)

def Registration.run (memory : Bool) (hash : Text → ℕ) :
    Registration → List NameSpace → Except Stop (List NameSpace)
  | .nameSpace name => registerNameSpace hash name
  | .configVariable nameSpaceName spec => registerVariable memory hash nameSpaceName spec

variable {name : Text} {hash : Text → ℕ}

/-! ## Letters -/

theorem char_ascii {P : Char → Prop} (hlow : ∀ n < 128, P (Char.ofNat n))
    (hhigh : ∀ c : Char, c.toLower = c → c.toUpper = c → P c) (c : Char) : P c := by
  by_cases h : c.toNat < 128
  · have hc := hlow c.toNat h
    rwa [Char.ofNat_toNat] at hc
  · apply hhigh
    · refine dif_neg ?_
      rintro ⟨-, hle⟩
      have hnat : c.toNat ≤ 90 := UInt32.le_iff_toNat_le.mp hle
      omega
    · refine dif_neg ?_
      rintro ⟨-, hle⟩
      have hnat : c.toNat ≤ 122 := UInt32.le_iff_toNat_le.mp hle
      omega

theorem toLower_toUpper (c : Char) : c.toUpper.toLower = c.toLower := by
  apply char_ascii (P := fun c => c.toUpper.toLower = c.toLower) (by decide +kernel)
  intro c _ hupper
  rw [hupper]

theorem toUpper_toLower (c : Char) : c.toLower.toUpper = c.toUpper := by
  apply char_ascii (P := fun c => c.toLower.toUpper = c.toUpper) (by decide +kernel)
  intro c hlower _
  rw [hlower]

theorem toLower_toLower (c : Char) : c.toLower.toLower = c.toLower := by
  apply char_ascii (P := fun c => c.toLower.toLower = c.toLower) (by decide +kernel)
  intro c hlower _
  rw [hlower, hlower]

theorem toLower_eq_underscore (c : Char) : c.toLower = '_' ↔ c = '_' := by
  apply char_ascii (P := fun c => c.toLower = '_' ↔ c = '_') (by decide +kernel)
  intro c hlower _
  rw [hlower]

theorem stringToLower_lower (str : Text) : stringToLower (stringToLower str) = stringToLower str := by
  rw [stringToLower, stringToLower, map_map]
  exact map_congr_left fun c _ => toLower_toLower c

theorem stringToUpper_eq_iff {str1 str2 : Text} :
    stringToUpper str1 = stringToUpper str2 ↔ stringToLower str1 = stringToLower str2 := by
  constructor
  · intro h
    have hlower := congrArg stringToLower h
    simp only [stringToLower, stringToUpper, map_map] at hlower
    have hsame : Char.toLower ∘ Char.toUpper = Char.toLower := funext toLower_toUpper
    rw [hsame] at hlower
    exact hlower
  · intro h
    have hupper := congrArg stringToUpper h
    simp only [stringToLower, stringToUpper, map_map] at hupper
    have hsame : Char.toUpper ∘ Char.toLower = Char.toUpper := funext toUpper_toLower
    rw [hsame] at hupper
    exact hupper

theorem equalIcase_iff {str1 str2 : Text} :
    equalIcaseString str1 str2 = true ↔ stringToLower str1 = stringToLower str2 := by
  rw [← stringToUpper_eq_iff, equalIcaseString, beq_iff_eq]
  rfl

/-! ## What the calls keep -/

def Registered (s : List NameSpace) (nameSpaceName : Text) (v : ConfigVariable) : Prop :=
  ∃ nameSpace ∈ s, nameSpace.name = nameSpaceName ∧ v ∈ nameSpace.variablesHead

def SpelledNameSpace (hash : Text → ℕ) (s : List NameSpace) (name : Text) : Prop :=
  ∀ nameSpace ∈ s, nameSpace.name = stringToLower name → nameSpace.hashValue = hash name

def SpelledVariable (hash : Text → ℕ) (s : List NameSpace) (nameSpaceName name : Text) : Prop :=
  ∀ v, Registered s (stringToLower nameSpaceName) v → v.name = stringToLower name → v.hashValue = hash name

/-- A variable of the name space without a name is not called like a name space, an underscore and one of
its variables. -/
def ApartVariable (s : List NameSpace) (nameSpaceName name : Text) : Prop :=
  (stringToLower nameSpaceName = [] → ∀ other v, Registered s other v → other ≠ [] →
      stringToLower name ≠ other ++ '_' :: v.name) ∧
    (stringToLower nameSpaceName ≠ [] → ∀ v, Registered s [] v →
      v.name ≠ stringToLower nameSpaceName ++ '_' :: stringToLower name)

def Registration.Consistent (hash : Text → ℕ) (s : List NameSpace) : Registration → Prop
  | .nameSpace name => SpelledNameSpace hash s name
  | .configVariable nameSpaceName spec => SpelledNameSpace hash s nameSpaceName ∧
      SpelledVariable hash s nameSpaceName spec.name ∧ ApartVariable s nameSpaceName spec.name

/-- What every run with the condition keeps. -/
structure Orderly (s : List NameSpace) : Prop where
  nodup : (s.map (·.name)).Nodup
  nodup_variables : ∀ nameSpace ∈ s, (nameSpace.variablesHead.map (·.name)).Nodup
  lower : ∀ nameSpace ∈ s, stringToLower nameSpace.name = nameSpace.name
  plain : ∀ nameSpace ∈ s, '_' ∉ nameSpace.name ∧ nameSpace.name.length ≤ envNameSubLenMax
  variable_lower : ∀ name v, Registered s name v → stringToLower v.name = v.name ∧
    v.name.length ≤ envNameSubLenMax ∧ v.envVarName = envVarName name v.name
  apart : ∀ name v v', Registered s [] v → Registered s name v' → name ≠ [] → v.name ≠ name ++ '_' :: v'.name

variable {nameSpace : NameSpace}

theorem nameSpace_isNamed_iff (h : stringToLower nameSpace.name = nameSpace.name) :
    NameSpace.isNamed hash name nameSpace = true ↔
      nameSpace.hashValue = hash name ∧ nameSpace.name = stringToLower name := by
  rw [NameSpace.isNamed, Bool.and_eq_true, beq_iff_eq, equalIcase_iff, h]

variable {v : ConfigVariable}

theorem variable_isNamed_iff (h : stringToLower v.name = v.name) :
    ConfigVariable.isNamed hash name v = true ↔ v.hashValue = hash name ∧ v.name = stringToLower name := by
  rw [ConfigVariable.isNamed, Bool.and_eq_true, beq_iff_eq, equalIcase_iff, h]

theorem orderly_nil : Orderly [] := by
  constructor
  · exact nodup_nil
  · simp
  · simp
  · simp
  · rintro name v ⟨nameSpace, hmem, -⟩
    cases hmem
  · rintro name v v' ⟨nameSpace, hmem, -⟩
    cases hmem

theorem not_mem_of_checkRest (h : checkRest false name = true) : '_' ∉ name := by
  induction name with
  | nil => simp
  | cons c rest ih =>
    simp only [checkRest, Bool.false_and, Bool.or_false, Bool.and_eq_true] at h
    rintro hmem
    rcases mem_cons.mp hmem with rfl | hmem
    · exact absurd h.1 (by decide)
    · exact ih h.2 hmem

theorem not_mem_of_checkName (h : checkName name true = none) : '_' ∉ name := by
  cases name with
  | nil => simp
  | cons c rest =>
    simp only [checkName, isEmpty_cons, Bool.and_false, Bool.false_eq_true, if_false, Bool.not_true]
      at h
    split_ifs at h with halpha hrest
    rintro hmem
    rcases mem_cons.mp hmem with rfl | hmem
    · exact absurd halpha (by decide)
    · exact not_mem_of_checkRest hrest hmem

theorem not_mem_stringToLower (h : '_' ∉ name) : '_' ∉ stringToLower name := by
  intro hmem
  rcases mem_map.mp hmem with ⟨c, hc, hlower⟩
  rw [(toLower_eq_underscore c).mp hlower] at hc
  exact h hc

section Steps

variable {memory : Bool} {hash : Text → ℕ} {s t : List NameSpace} {name : Text} {spec : VariableSpec}

theorem Orderly.registerNameSpace (h : Orderly s) (hspelled : SpelledNameSpace hash s name)
    (hstep : registerNameSpace hash name s = .ok t) : Orderly t := by
  rw [Config.registerNameSpace] at hstep
  split_ifs at hstep with hlength
  cases hcheck : checkName name true with
  | some message => simp [hcheck] at hstep
  | none =>
    simp only [hcheck, Except.ok.injEq] at hstep
    rw [openNameSpace] at hstep
    split_ifs at hstep with hknown
    · rw [← hstep]
      exact h
    · subst hstep
      -- a known name would have been found
      have hnew : ∀ nameSpace ∈ s, nameSpace.name ≠ stringToLower name := by
        intro nameSpace hmem hname
        apply hknown
        rw [any_eq_true]
        exact ⟨nameSpace, hmem, (nameSpace_isNamed_iff (h.lower nameSpace hmem)).mpr
          ⟨hspelled nameSpace hmem hname, hname⟩⟩
      have hregistered : ∀ other v,
          Registered (s ++ [{ name := stringToLower name, hashValue := hash name, variablesHead := [] }]) other v →
            Registered s other v := by
        rintro other v ⟨nameSpace, hmem, hname, hv⟩
        rcases mem_append.mp hmem with hmem | hmem
        · exact ⟨nameSpace, hmem, hname, hv⟩
        · rw [mem_singleton.mp hmem] at hv
          cases hv
      constructor
      · rw [map_append, nodup_append]
        refine ⟨h.nodup, by simp, ?_⟩
        intro a ha b hb
        rcases mem_map.mp ha with ⟨nameSpace, hmem, rfl⟩
        simp only [map_singleton, mem_singleton] at hb
        rw [hb]
        exact hnew nameSpace hmem
      · intro nameSpace hmem
        rcases mem_append.mp hmem with hmem | hmem
        · exact h.nodup_variables nameSpace hmem
        · rw [mem_singleton.mp hmem]
          exact nodup_nil
      · intro nameSpace hmem
        rcases mem_append.mp hmem with hmem | hmem
        · exact h.lower nameSpace hmem
        · rw [mem_singleton.mp hmem]
          exact stringToLower_lower name
      · intro nameSpace hmem
        rcases mem_append.mp hmem with hmem | hmem
        · exact h.plain nameSpace hmem
        · rw [mem_singleton.mp hmem]
          refine ⟨not_mem_stringToLower (not_mem_of_checkName hcheck), ?_⟩
          simp only [stringToLower, length_map]
          omega
      · intro other v hv
        exact h.variable_lower other v (hregistered other v hv)
      · intro other v v' hv hv'
        exact h.apart other v v' (hregistered _ v hv) (hregistered other v' hv')

theorem inNameSpace_ok {isWanted : NameSpace → Bool} {body : NameSpace → Except Stop NameSpace}
    (h : inNameSpace isWanted body s = .ok t) : ((∀ nameSpace ∈ s, isWanted nameSpace = false) ∧ t = s) ∨
      ∃ before nameSpace nameSpace' after, s = before ++ nameSpace :: after ∧ isWanted nameSpace = true ∧
        body nameSpace = .ok nameSpace' ∧ t = before ++ nameSpace' :: after := by
  induction s generalizing t with
  | nil =>
    cases h
    exact .inl ⟨by simp, rfl⟩
  | cons nameSpace rest ih =>
    rw [inNameSpace] at h
    by_cases hwanted : isWanted nameSpace = true
    · rw [if_pos hwanted] at h
      cases hbody : body nameSpace with
      | error e =>
        rw [hbody] at h
        cases h
      | ok nameSpace' =>
        rw [hbody] at h
        cases h
        exact .inr ⟨[], nameSpace, nameSpace', rest, rfl, hwanted, hbody, rfl⟩
    · rw [if_neg hwanted] at h
      cases hrest : inNameSpace isWanted body rest with
      | error e =>
        rw [hrest] at h
        cases h
      | ok rest' =>
        rw [hrest] at h
        cases h
        rcases ih hrest with ⟨hnone, rfl⟩ | ⟨before, found, found', after, rfl, hfound, hbody, rfl⟩
        · refine .inl ⟨?_, rfl⟩
          intro other hother
          rcases mem_cons.mp hother with rfl | hother
          · simpa using hwanted
          · exact hnone other hother
        · exact .inr ⟨nameSpace :: before, found, found', after, rfl, hfound, hbody, rfl⟩

theorem registerIn_ok {nameSpace nameSpace' : NameSpace}
    (h : registerIn memory hash name spec nameSpace = .ok nameSpace') :
    nameSpace.variablesHead.any (ConfigVariable.isNamed hash spec.name) = false ∧
      ∃ v : ConfigVariable, nameSpace' = { nameSpace with variablesHead := nameSpace.variablesHead ++ [v] } ∧
        v.name = stringToLower spec.name ∧ v.hashValue = hash spec.name ∧
        v.envVarName = envVarName nameSpace.name v.name := by
  rw [registerIn] at h
  split_ifs at h with hknown hbitset
  all_goals
    refine ⟨by simpa using hknown, ?_⟩
    split at h
    · cases h
    · split at h
      · cases h
      · cases h
      · cases h
        exact ⟨_, rfl, rfl, rfl, rfl⟩

theorem checkVariable_length (h : checkVariable spec = none) : spec.name.length ≤ envNameSubLenMax := by
  rw [checkVariable] at h
  split_ifs at h with _ _ hlength
  omega

theorem Orderly.registerVariable (h : Orderly s) (hvariable : SpelledVariable hash s name spec.name)
    (hapart : ApartVariable s name spec.name) (hstep : registerVariable memory hash name spec s = .ok t) :
    Orderly t := by
  rw [Config.registerVariable] at hstep
  cases hcheck : checkVariable spec with
  | some message => simp [hcheck] at hstep
  | none =>
    simp only [hcheck] at hstep
    rcases inNameSpace_ok hstep with ⟨-, rfl⟩ | ⟨before, nameSpace, nameSpace', after, hs, hnamed, hbody, ht⟩
    · exact h
    rcases registerIn_ok hbody with ⟨hknown, v, rfl, hname, -, henv⟩
    have hmem : nameSpace ∈ s := by simp [hs]
    have hnameSpace := ((nameSpace_isNamed_iff (h.lower nameSpace hmem)).mp hnamed).2
    have hlength := checkVariable_length hcheck
    -- what is registered now was so before, or is the new variable
    have hregistered : ∀ other w, Registered t other w →
        Registered s other w ∨ (other = stringToLower name ∧ w = v) := by
      rintro other w ⟨found, hfound, rfl, hw⟩
      rw [ht] at hfound
      rcases mem_append.mp hfound with hfound | hfound
      · exact .inl ⟨found, by simp [hs, hfound], rfl, hw⟩
      · rcases mem_cons.mp hfound with rfl | hfound
        · rcases mem_append.mp hw with hw | hw
          · exact .inl ⟨nameSpace, hmem, rfl, hw⟩
          · exact .inr ⟨hnameSpace, mem_singleton.mp hw⟩
        · exact .inl ⟨found, by simp [hs, hfound], rfl, hw⟩
    have hsame : ∀ P : NameSpace → Prop, (∀ found ∈ s, P found) →
        P { nameSpace with variablesHead := nameSpace.variablesHead ++ [v] } → ∀ found ∈ t, P found := by
      intro P hall hnew found hfound
      rw [ht] at hfound
      rcases mem_append.mp hfound with hfound | hfound
      · exact hall found (by simp [hs, hfound])
      · rcases mem_cons.mp hfound with rfl | hfound
        · exact hnew
        · exact hall found (by simp [hs, hfound])
    constructor
    · have hnodup := h.nodup
      rw [hs] at hnodup
      rw [ht]
      simpa using hnodup
    · apply hsame _ h.nodup_variables
      rw [map_append, nodup_append]
      refine ⟨h.nodup_variables nameSpace hmem, by simp, ?_⟩
      intro a ha b hb
      rcases mem_map.mp ha with ⟨w, hw, rfl⟩
      simp only [map_singleton, mem_singleton] at hb
      rw [hb, hname]
      intro hdouble
      have hw' : Registered s (stringToLower name) w := ⟨nameSpace, hmem, hnameSpace, hw⟩
      have hlower := (h.variable_lower _ w hw').1
      have hfound := any_eq_false.mp hknown w hw
      exact hfound ((variable_isNamed_iff hlower).mpr ⟨hvariable w hw' hdouble, hdouble⟩)
    · exact hsame (fun found => stringToLower found.name = found.name) h.lower (h.lower nameSpace hmem)
    · exact hsame (fun found => '_' ∉ found.name ∧ found.name.length ≤ envNameSubLenMax) h.plain
        (h.plain nameSpace hmem)
    · intro other w hw
      rcases hregistered other w hw with hw | ⟨rfl, rfl⟩
      · exact h.variable_lower other w hw
      · refine ⟨?_, ?_, ?_⟩
        · rw [hname]
          exact stringToLower_lower _
        · rw [hname]
          simpa [stringToLower] using hlength
        · rw [henv, hnameSpace]
    · intro other w w' hw hw' hne
      rcases hregistered [] w hw with hw | ⟨hempty, rfl⟩
      · rcases hregistered other w' hw' with hw' | ⟨rfl, rfl⟩
        · exact h.apart other w w' hw hw' hne
        · rw [hname]
          exact hapart.2 hne w hw
      · rcases hregistered other w' hw' with hw' | ⟨rfl, rfl⟩
        · rw [hname]
          exact hapart.1 hempty.symm other w' hw' hne
        · exact absurd hempty.symm hne

end Steps

/-! ## What an orderly registry gives -/

theorem underscore_unique {a a' b b' : Text} (ha : '_' ∉ a) (ha' : '_' ∉ a') (h : a ++ '_' :: b = a' ++ '_' :: b') :
    a = a' ∧ b = b' := by
  induction a generalizing a' with
  | nil =>
    cases a' with
    | nil => exact ⟨rfl, (List.cons.inj h).2⟩
    | cons c a' =>
      have hc := (List.cons.inj h).1
      exact absurd (hc ▸ mem_cons_self) ha'
  | cons c a ih =>
    cases a' with
    | nil =>
      have hc := (List.cons.inj h).1
      exact absurd (hc ▸ mem_cons_self) ha
    | cons c' a' =>
      rcases List.cons.inj h with ⟨rfl, hrest⟩
      rcases ih (fun hmem => ha (mem_cons_of_mem _ hmem)) (fun hmem => ha' (mem_cons_of_mem _ hmem))
        hrest with ⟨rfl, rfl⟩
      exact ⟨rfl, rfl⟩

theorem envVarName_inj {nameSpace nameSpace' name name' : Text} (hn : stringToLower nameSpace = nameSpace)
    (hn' : stringToLower nameSpace' = nameSpace') (hv : stringToLower name = name)
    (hv' : stringToLower name' = name') (hlength : nameSpace.length ≤ envNameSubLenMax)
    (hlength' : nameSpace'.length ≤ envNameSubLenMax) (hlengthName : name.length ≤ envNameSubLenMax)
    (hlengthName' : name'.length ≤ envNameSubLenMax) (h : envVarName nameSpace name = envVarName nameSpace' name') :
    nameSpace ++ ((if nameSpace = [] then [] else ['_']) ++ name) =
      nameSpace' ++ ((if nameSpace' = [] then [] else ['_']) ++ name') := by
  rw [envVarName, envVarName, take_of_length_le hlength, take_of_length_le hlength',
    take_of_length_le hlengthName, take_of_length_le hlengthName'] at h
  have hlower := stringToUpper_eq_iff.mp h
  have hseparator : ∀ b : Text, stringToLower (if b = [] then [] else ['_']) = if b = [] then [] else ['_'] := by
    intro b
    split_ifs
    · rfl
    · rfl
  simp only [stringToLower, map_append] at hlower hn hn' hv hv' hseparator
  rw [hn, hn', hv, hv', hseparator, hseparator] at hlower
  exact append_cancel_left hlower

section Orderly

variable {memory : Bool} {hash : Text → ℕ} {s : List NameSpace}

theorem Orderly.envVarName_unique (h : Orderly s) {a a' : Text} {v v' : ConfigVariable} (hv : Registered s a v)
    (hv' : Registered s a' v') (henv : v.envVarName = v'.envVarName) : a = a' ∧ v.name = v'.name := by
  rcases h.variable_lower a v hv with ⟨hlower, hlength, hname⟩
  rcases h.variable_lower a' v' hv' with ⟨hlower', hlength', hname'⟩
  have hspace : stringToLower a = a ∧ '_' ∉ a ∧ a.length ≤ envNameSubLenMax := by
    rcases hv with ⟨nameSpace, hmem, rfl, -⟩
    exact ⟨h.lower nameSpace hmem, h.plain nameSpace hmem⟩
  have hspace' : stringToLower a' = a' ∧ '_' ∉ a' ∧ a'.length ≤ envNameSubLenMax := by
    rcases hv' with ⟨nameSpace, hmem, rfl, -⟩
    exact ⟨h.lower nameSpace hmem, h.plain nameSpace hmem⟩
  rw [hname, hname'] at henv
  have hparts := envVarName_inj hspace.1 hspace'.1 hlower hlower' hspace.2.2 hspace'.2.2 hlength hlength' henv
  by_cases ha : a = []
  · subst ha
    by_cases ha' : a' = []
    · subst ha'
      exact ⟨rfl, by simpa using hparts⟩
    · rw [if_pos rfl, if_neg ha'] at hparts
      exact absurd hparts (h.apart a' v v' hv hv' ha')
  · by_cases ha' : a' = []
    · subst ha'
      rw [if_neg ha, if_pos rfl] at hparts
      exact absurd hparts.symm (h.apart a v' v hv' hv ha)
    · rw [if_neg ha, if_neg ha'] at hparts
      exact underscore_unique hspace.2.1 hspace'.2.1 hparts

theorem Orderly.nameSpace_unique (h : Orderly s) {a b : NameSpace} (ha : a ∈ s) (hb : b ∈ s)
    (hname : a.name = b.name) : a = b :=
  inj_on_of_nodup_map h.nodup ha hb hname

theorem Orderly.find_nameSpace (h : Orderly s) (hmem : nameSpace ∈ s)
    (hname : stringToLower name = nameSpace.name) (hhash : nameSpace.hashValue = hash name) :
    s.find? (NameSpace.isNamed hash name) = some nameSpace := by
  have hnamed := (nameSpace_isNamed_iff (h.lower nameSpace hmem)).mpr ⟨hhash, hname.symm⟩
  cases hfind : s.find? (NameSpace.isNamed hash name) with
  | none =>
    have hnot := find?_eq_none.mp hfind nameSpace hmem
    exact absurd hnamed hnot
  | some found =>
    have hfound := mem_of_find?_eq_some hfind
    have hsome := ((nameSpace_isNamed_iff (h.lower found hfound)).mp (find?_some hfind)).2
    rw [h.nameSpace_unique hfound hmem (hsome.trans hname)]

theorem Orderly.find_variable (h : Orderly s) (hmem : nameSpace ∈ s)
    (hv : v ∈ nameSpace.variablesHead) (hname : stringToLower name = v.name) (hhash : v.hashValue = hash name) :
    nameSpace.variablesHead.find? (ConfigVariable.isNamed hash name) = some v := by
  have hlower := fun w (hw : w ∈ nameSpace.variablesHead) =>
    (h.variable_lower nameSpace.name w ⟨nameSpace, hmem, rfl, hw⟩).1
  have hnamed := (variable_isNamed_iff (hlower v hv)).mpr ⟨hhash, hname.symm⟩
  cases hfind : nameSpace.variablesHead.find? (ConfigVariable.isNamed hash name) with
  | none =>
    have hnot := find?_eq_none.mp hfind v hv
    exact absurd hnamed hnot
  | some found =>
    have hfound := mem_of_find?_eq_some hfind
    have hsome := ((variable_isNamed_iff (hlower found hfound)).mp (find?_some hfind)).2
    rw [inj_on_of_nodup_map (h.nodup_variables nameSpace hmem) hfound hv (hsome.trans hname)]

theorem inNameSpace_error {isWanted : NameSpace → Bool} {body : NameSpace → Except Stop NameSpace} {e : Stop}
    (h : inNameSpace isWanted body s = .error e) :
    ∃ nameSpace, s.find? isWanted = some nameSpace ∧ body nameSpace = .error e := by
  induction s with
  | nil => cases h
  | cons nameSpace rest ih =>
    rw [inNameSpace] at h
    by_cases hwanted : isWanted nameSpace = true
    · rw [if_pos hwanted] at h
      cases hbody : body nameSpace with
      | error e' =>
        rw [hbody] at h
        cases h
        exact ⟨nameSpace, find?_cons_of_pos hwanted, hbody⟩
      | ok nameSpace' =>
        rw [hbody] at h
        cases h
    · rw [if_neg hwanted] at h
      cases hrest : inNameSpace isWanted body rest with
      | error e' =>
        rw [hrest] at h
        cases h
        rcases ih hrest with ⟨found, hfind, hbody⟩
        exact ⟨found, by rw [find?_cons_of_neg hwanted, hfind], hbody⟩
      | ok rest' =>
        rw [hrest] at h
        cases h

theorem inNameSpace_of_find {isWanted : NameSpace → Bool} {body : NameSpace → Except Stop NameSpace}
    {e : Stop} (hfind : s.find? isWanted = some nameSpace) (hbody : body nameSpace = .error e) :
    inNameSpace isWanted body s = .error e := by
  induction s with
  | nil => cases hfind
  | cons first rest ih =>
    rw [inNameSpace]
    by_cases hwanted : isWanted first = true
    · rw [find?_cons_of_pos hwanted] at hfind
      cases hfind
      rw [if_pos hwanted, hbody]
      rfl
    · rw [find?_cons_of_neg hwanted] at hfind
      rw [if_neg hwanted, ih hfind]
      rfl

theorem registerIn_duplicate {nameSpaceName : Text} {spec : VariableSpec} :
    registerIn memory hash nameSpaceName spec nameSpace = .error .duplicate ↔
      nameSpace.variablesHead.any (ConfigVariable.isNamed hash spec.name) = true := by
  rw [registerIn]
  split_ifs with hknown hbitset
  · exact ⟨fun _ => hknown, fun _ => rfl⟩
  all_goals
    refine ⟨fun h => ?_, fun h => absurd h hknown⟩
    split at h
    · cases h
    · split at h
      · cases h
      · cases h
      · cases h

theorem Orderly.duplicate_iff (h : Orderly s) {spec : VariableSpec}
    (hcheck : checkVariable spec = none) (hspelled : SpelledNameSpace hash s name)
    (hvariable : SpelledVariable hash s name spec.name) :
    Config.registerVariable memory hash name spec s = .error .duplicate ↔
      ∃ v, Registered s (stringToLower name) v ∧ v.name = stringToLower spec.name := by
  simp only [Config.registerVariable, hcheck]
  constructor
  · intro hstop
    rcases inNameSpace_error hstop with ⟨nameSpace, hfind, hbody⟩
    have hmem := mem_of_find?_eq_some hfind
    have hname := ((nameSpace_isNamed_iff (h.lower nameSpace hmem)).mp (find?_some hfind)).2
    rcases any_eq_true.mp (registerIn_duplicate.mp hbody) with ⟨v, hv, hnamed⟩
    have hregistered : Registered s (stringToLower name) v := ⟨nameSpace, hmem, hname, hv⟩
    exact ⟨v, hregistered, ((variable_isNamed_iff (h.variable_lower _ v hregistered).1).mp hnamed).2⟩
  · rintro ⟨v, hregistered, hvName⟩
    rcases hregistered with ⟨nameSpace, hmem, hname, hv⟩
    apply inNameSpace_of_find (h.find_nameSpace hmem hname.symm (hspelled nameSpace hmem hname))
    apply registerIn_duplicate.mpr
    rw [any_eq_true]
    have hregistered : Registered s (stringToLower name) v := ⟨nameSpace, hmem, hname, hv⟩
    exact ⟨v, hv, (variable_isNamed_iff (h.variable_lower _ v hregistered).1).mpr
      ⟨hvariable v hregistered hvName, hvName⟩⟩

theorem Orderly.lookup (h : Orderly s) (hmem : nameSpace ∈ s) (hv : v ∈ nameSpace.variablesHead)
    {nameSpaceName name : Text} (hspace : stringToLower nameSpaceName = nameSpace.name)
    (hname : stringToLower name = v.name) (hhash : nameSpace.hashValue = hash nameSpaceName)
    (hhashName : v.hashValue = hash name) : getData hash nameSpaceName name s = some (some v) ∧
      ∀ attempt value after outcome, setValue attempt hash nameSpaceName name value s = some (after, outcome) →
        outcome = .success ∨ outcome = .invalidValue nameSpaceName name value := by
  have hfind := h.find_nameSpace hmem hspace hhash
  have hfindVariable := h.find_variable hmem hv hname hhashName
  constructor
  · rw [getData, hfind, Option.map_some, hfindVariable]
  · intro attempt value after outcome hset
    rw [setValue] at hset
    rcases @atFirst_cases _ (NameSpace.isNamed hash nameSpaceName) (.unknownNameSpace nameSpaceName) s with ⟨hnone, -⟩ | ⟨before, found, rest, -, hfound, hrun⟩
    · rw [hfind] at hnone
      cases hnone
    rw [hfind] at hfound
    cases hfound
    rw [hrun, Option.map_map] at hset
    rcases @atFirst_cases _ (ConfigVariable.isNamed hash name) (.unknownVariable nameSpaceName name)
      nameSpace.variablesHead with
      ⟨hnone, -⟩ | ⟨beforeVariable, foundVariable, restVariable, -, hfound, hrunVariable⟩
    · rw [hfindVariable] at hnone
      cases hnone
    rw [hfindVariable] at hfound
    cases hfound
    rw [hrunVariable, Option.map_map, Option.map_map] at hset
    rcases Option.map_eq_some_iff.mp hset with ⟨⟨w, parsed⟩, -, hresult⟩
    have houtcome := (Prod.mk.inj hresult).2
    rw [← houtcome]
    split_ifs
    · exact .inl rfl
    · exact .inr rfl

end Orderly

/-! ## Runs of registrations -/

structure IdentifiesNames (memory : Bool) (hash : Text → ℕ) (s : List NameSpace) : Prop where
  oneNameSpace : (s.map (·.name)).Nodup ∧ ∀ nameSpace ∈ s, stringToLower nameSpace.name = nameSpace.name
  oneVariable : ∀ nameSpace ∈ s, (nameSpace.variablesHead.map (·.name)).Nodup ∧
    ∀ v ∈ nameSpace.variablesHead, stringToLower v.name = v.name
  oneEnvVar : ∀ a v a' v', Registered s a v → Registered s a' v' → v.envVarName = v'.envVarName →
    a = a' ∧ v.name = v'.name
  detects : ∀ name spec, checkVariable spec = none → SpelledNameSpace hash s name →
    SpelledVariable hash s name spec.name → (registerVariable memory hash name spec s = .error .duplicate ↔
        ∃ v, Registered s (stringToLower name) v ∧ v.name = stringToLower spec.name)
  finds : ∀ nameSpace ∈ s, ∀ v ∈ nameSpace.variablesHead, ∀ nameSpaceName name,
    stringToLower nameSpaceName = nameSpace.name → stringToLower name = v.name →
    nameSpace.hashValue = hash nameSpaceName → v.hashValue = hash name →
      getData hash nameSpaceName name s = some (some v) ∧
      ∀ attempt value after outcome, setValue attempt hash nameSpaceName name value s = some (after, outcome) →
        outcome = .success ∨ outcome = .invalidValue nameSpaceName name value

theorem Orderly.identifiesNames {memory : Bool} {s : List NameSpace} (h : Orderly s) :
    IdentifiesNames memory hash s := by
  constructor
  · exact ⟨h.nodup, h.lower⟩
  · intro nameSpace hmem
    exact ⟨h.nodup_variables nameSpace hmem,
      fun v hv => (h.variable_lower nameSpace.name v ⟨nameSpace, hmem, rfl, hv⟩).1⟩
  · intro a v a' v' hv hv' henv
    exact h.envVarName_unique hv hv' henv
  · intro name spec hcheck hspelled hvariable
    exact h.duplicate_iff hcheck hspelled hvariable
  · intro nameSpace hmem v hv nameSpaceName name hspace hname hhash hhashName
    exact h.lookup hmem hv hspace hname hhash hhashName

/-- The variable `level` of the name space `trace`. -/
def levelSpec (name : Text) : VariableSpec :=
  { name := name, type := .bool, object := false, variableContext := [], defaultValue := "yes".toList
    shortHelp := [] }

def traceNameSpace (hashValue : ℕ) (variablesHead : List ConfigVariable) : NameSpace :=
  { name := "trace".toList, hashValue := hashValue, variablesHead := variablesHead }

def levelVariable (hashValue : ℕ) : ConfigVariable :=
  { name := "level".toList, hashValue := hashValue, envVarName := "SCOREP_TRACE_LEVEL".toList, type := .bool
    variableContext := [], object := true, isEvaluated := false, isChanged := false }

theorem register_trace : Registration.run true hashName (.nameSpace "Trace".toList) [] =
    .ok [traceNameSpace (hashName "Trace".toList) []] :=
  rfl

theorem register_level : Registration.run true hashName (.configVariable "Trace".toList (levelSpec "Level".toList))
    [traceNameSpace (hashName "Trace".toList) []] =
      .ok [traceNameSpace (hashName "Trace".toList) [levelVariable (hashName "Level".toList)]] := by
  rfl

/-- The run lemma. -/
theorem names_identified {memory : Bool} {hash : Text → ℕ} {registrations : List Registration}
    {s : List NameSpace}
    (hrun : Steps (fun s (a : Registration) t => a.Consistent hash s ∧ a.run memory hash s = .ok t) []
      registrations s) : IdentifiesNames memory hash s := by
  apply Orderly.identifiesNames
  apply hrun.invariant_of_guard _ orderly_nil
  intro s a t h hconsistent hstep
  cases a with
  | nameSpace name => exact h.registerNameSpace hconsistent hstep
  | configVariable name spec => exact h.registerVariable hconsistent.2.1 hconsistent.2.2 hstep

theorem names_identified_level : IdentifiesNames true hashName
      [traceNameSpace (hashName "Trace".toList) [levelVariable (hashName "Level".toList)]] := by
  apply @names_identified true hashName
    [.nameSpace "Trace".toList, .configVariable "Trace".toList (levelSpec "Level".toList)]
  have hempty : ∀ other v, ¬ Registered [traceNameSpace (hashName "Trace".toList) []] other v := by
    rintro other v ⟨nameSpace, hmem, -, hv⟩
    rw [mem_singleton.mp hmem] at hv
    cases hv
  apply Steps.cons (t := [traceNameSpace (hashName "Trace".toList) []])
  · exact ⟨fun _ hmem => absurd hmem not_mem_nil, register_trace⟩
  apply Steps.single
  refine ⟨⟨?_, ?_, ?_, ?_⟩, register_level⟩
  · intro nameSpace hmem _
    rw [mem_singleton.mp hmem]
    rfl
  · intro v hv
    exact absurd hv (hempty _ v)
  · intro _ other v hv
    exact absurd hv (hempty other v)
  · intro _ v hv
    exact absurd hv (hempty [] v)

/-- The same name in capitals is another variable, and is not found before. -/
theorem spelling_decides : ¬ ∀ (registrations : List Registration) (s : List NameSpace),
      Steps (fun s (a : Registration) t => a.run true hashName s = .ok t) [] registrations s →
      (∀ nameSpace ∈ s, (nameSpace.variablesHead.map (·.name)).Nodup) ∧
        ∀ nameSpace ∈ s, ∀ v ∈ nameSpace.variablesHead, ∀ nameSpaceName name,
          stringToLower nameSpaceName = nameSpace.name → stringToLower name = v.name →
            getData hashName nameSpaceName name s = some (some v) := by
  intro h
  have hrun : Steps (fun s (a : Registration) t => a.run true hashName s = .ok t) []
      [.nameSpace "Trace".toList, .configVariable "Trace".toList (levelSpec "Level".toList)]
      [traceNameSpace (hashName "Trace".toList) [levelVariable (hashName "Level".toList)]] :=
    .cons register_trace (.single register_level)
  have hfound := (h _ _ hrun).2 _ mem_cons_self _ mem_cons_self "Trace".toList "LEVEL".toList rfl rfl
  have hmissing : getData hashName "Trace".toList "LEVEL".toList
      [traceNameSpace (hashName "Trace".toList) [levelVariable (hashName "Level".toList)]] = some none := rfl
  rw [hmissing] at hfound
  cases hfound

end ScoreP.Config
