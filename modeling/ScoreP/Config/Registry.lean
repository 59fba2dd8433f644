import ScoreP.Config.Parsing

/-!
# Setting config variables

Source: `SCOREP_Config.c`, `get_name_space`, `get_variable`, `SCOREP_ConfigSetValue` and
`SCOREP_ConfigApplyEnv`. The name spaces and the variables of a name space are kept in the order of
registration; each has the hash value under which it stands in its hash table, and names are compared
without regard to case. Every variable refers to an object of its own.

`attempt_keeps_iff` says for one offered value, and `keeps_iff` for a whole call, when a value that is
refused leaves everything as it was. The parsers store too early: a number before what follows it is
looked at, a set before its entries are.
-/

namespace ScoreP.Config

/-- `struct scorep_config_variable`. -/
structure ConfigVariable where
  name : Text
  hashValue : ℕ
  envVarName : Text
  type : ConfigType
  variableContext : List SetEntry
  object : type.Object
  isEvaluated : Bool
  isChanged : Bool

/-- `struct scorep_config_name_space`. -/
structure NameSpace where
  name : Text
  hashValue : ℕ
  variablesHead : List ConfigVariable

inductive Outcome where
  | success
  | unknownNameSpace (nameSpace : Text)
  | unknownVariable (nameSpace variableName : Text)
  | invalidValue (nameSpace variableName value : Text)
  | cantSet (nameSpace variableName value envVarName : Text)
deriving DecidableEq

def Outcome.message : Outcome → String
  | .success => ""
  | .unknownNameSpace nameSpace => "Unknown name space: " ++ String.ofList nameSpace ++ "::"
  | .unknownVariable nameSpace name =>
    "Unknown config variable: " ++ String.ofList nameSpace ++ "::" ++ String.ofList name
  | .invalidValue nameSpace name value =>
    "Invalid value for config variable '" ++ String.ofList nameSpace ++ "::" ++ String.ofList name ++
      "': " ++ String.ofList value
  | .cantSet nameSpace name value envVarName =>
    "Can't set variable '" ++ String.ofList nameSpace ++ "::" ++ String.ofList name ++ "' to value '" ++
      String.ofList value ++ "' from environment variable " ++ String.ofList envVarName

def Outcome.isRejection : Outcome → Bool
  | .success | .unknownNameSpace _ | .unknownVariable _ _ => false
  | .invalidValue _ _ _ | .cantSet _ _ _ _ => true

section Loops

variable {β : Type} (isWanted : β → Bool) (body body' : β → Option (β × Outcome)) (missing : Outcome)

def atFirst : List β → Option (List β × Outcome)
  | [] => some ([], missing)
  | x :: rest =>
    if isWanted x then (body x).map fun (x, outcome) => (x :: rest, outcome)
    else (atFirst rest).map fun (rest, outcome) => (x :: rest, outcome)

def untilFailure : List β → Option (List β × Outcome)
  | [] => some ([], .success)
  | x :: rest =>
    match body x with
    | none => none
    | some (x, .success) => (untilFailure rest).map fun (rest, outcome) => (x :: rest, outcome)
    | some (x, outcome) => some (x :: rest, outcome)

variable {isWanted body body' missing}

theorem atFirst_cases (l : List β) :
    (l.find? isWanted = none ∧ ∀ body, atFirst isWanted body missing l = some (l, missing)) ∨
    ∃ before x rest, l = before ++ x :: rest ∧ l.find? isWanted = some x ∧
      ∀ body, atFirst isWanted body missing l =
        (body x).map fun (y, outcome) => (before ++ y :: rest, outcome) := by
  induction l with
  | nil => exact .inl ⟨rfl, fun _ => rfl⟩
  | cons x rest ih =>
    cases hx : isWanted x with
    | true =>
      right
      exact ⟨[], x, rest, rfl, by simp [hx], fun body => by simp [atFirst, hx]⟩
    | false =>
      rcases ih with ⟨hnone, hrun⟩ | ⟨before, y, rest', rfl, hfind, hrun⟩
      · left
        exact ⟨by simp [hx, hnone], fun body => by simp [atFirst, hx, hrun]⟩
      · right
        refine ⟨x :: before, y, rest', rfl, by simpa [hx] using hfind, fun body => ?_⟩
        simp only [atFirst, hx, hrun, Bool.false_eq_true, ↓reduceIte, Option.map_map]
        rfl

theorem untilFailure_cons_success {x : β} {rest after' : List β} :
    untilFailure body (x :: rest) = some (after', .success) ↔
      ∃ y after, body x = some (y, .success) ∧ untilFailure body rest = some (after, .success) ∧
        y :: after = after' := by
  cases hx : body x with
  | none => simp [untilFailure, hx]
  | some result =>
    obtain ⟨y, outcome⟩ := result
    cases outcome with
    | success => simp [untilFailure, hx]
    | _ => simp [untilFailure, hx]

theorem untilFailure_stop {x y : β} {rest : List β} {outcome : Outcome}
    (hx : body x = some (y, outcome)) (hne : outcome ≠ .success) :
    untilFailure body (x :: rest) = some (y :: rest, outcome) := by
  cases outcome with
  | success => exact absurd rfl hne
  | _ => simp [untilFailure, hx]

theorem untilFailure_cases (body : β → Option (β × Outcome)) (l : List β) :
    (∃ after, untilFailure body l = some (after, .success)) ∨
    ∃ before before' x rest, l = before ++ x :: rest ∧ untilFailure body before = some (before', .success) ∧
      ((body x = none ∧ untilFailure body l = none) ∨
        ∃ y outcome, outcome ≠ .success ∧ body x = some (y, outcome) ∧
          untilFailure body l = some (before' ++ y :: rest, outcome)) := by
  induction l with
  | nil => exact .inl ⟨[], rfl⟩
  | cons x rest ih =>
    cases hx : body x with
    | none =>
      right
      exact ⟨[], [], x, rest, rfl, rfl, .inl ⟨hx, by simp [untilFailure, hx]⟩⟩
    | some result =>
      obtain ⟨y, outcome⟩ := result
      by_cases hsuccess : outcome = .success
      · subst hsuccess
        rcases ih with ⟨after, hrun⟩ | ⟨before, before', z, rest', rfl, hbefore, hstop⟩
        · left
          exact ⟨y :: after, by simp [untilFailure, hx, hrun]⟩
        · right
          refine ⟨x :: before, y :: before', z, rest', rfl, by simp [untilFailure, hx, hbefore], ?_⟩
          rcases hstop with ⟨hz, hrun⟩ | ⟨w, outcome, hne, hz, hrun⟩
          · exact .inl ⟨hz, by simp [untilFailure, hx, hrun]⟩
          · exact .inr ⟨w, outcome, hne, hz, by simp [untilFailure, hx, hrun]⟩
      · right
        exact ⟨[], [], x, rest, rfl, rfl, .inr ⟨y, outcome, hsuccess, hx, untilFailure_stop hx hsuccess⟩⟩

theorem untilFailure_append {before before' : List β}
    (hbefore : untilFailure body before = some (before', .success))
    (hbody : ∀ z z', body z = some (z', .success) → body' z = some (z', .success)) (rest : List β) :
    untilFailure body' (before ++ rest) =
      (untilFailure body' rest).map fun (after, outcome) => (before' ++ after, outcome) := by
  induction before generalizing before' with
  | nil =>
    cases hbefore
    simp
  | cons x before ih =>
    rcases untilFailure_cons_success.mp hbefore with ⟨y, after, hx, hrest, rfl⟩
    simp only [List.cons_append, untilFailure, hbody x y hx, ih hrest, Option.map_map]
    rfl

end Loops

/-! ## Calls -/

/-- How a value is given to a variable: the variable then and whether the value was parsed, `none` when
the call does not return. -/
abbrev Attempt := ConfigVariable → Text → Option (ConfigVariable × Bool)

/-- The value is parsed into the object of the variable; `memory` tells for each variable, by the name
of its environment variable, whether the allocation succeeds. -/
def attempt (memory : Text → Bool) : Attempt := fun v value =>
  (parseValue (memory v.envVarName) value v.type v.variableContext v.object).map
    fun (object, success) => ({ v with object := object }, success)

def NameSpace.isNamed (hash : Text → ℕ) (name : Text) (nameSpace : NameSpace) : Bool :=
  nameSpace.hashValue == hash name && equalIcaseString nameSpace.name name

def ConfigVariable.isNamed (hash : Text → ℕ) (name : Text) (v : ConfigVariable) : Bool :=
  v.hashValue == hash name && equalIcaseString v.name name

def setValue (attempt : Attempt) (hash : Text → ℕ) (nameSpaceName variableName variableValue : Text) :
    List NameSpace → Option (List NameSpace × Outcome) :=
  atFirst (NameSpace.isNamed hash nameSpaceName) (fun nameSpace =>
    (atFirst (ConfigVariable.isNamed hash variableName) (fun v =>
      (attempt v variableValue).map fun (v, successfullyParsed) =>
        (v, if successfullyParsed then .success
          else .invalidValue nameSpaceName variableName variableValue))
      (.unknownVariable nameSpaceName variableName) nameSpace.variablesHead).map
        fun (head, outcome) => ({ nameSpace with variablesHead := head }, outcome))
    (.unknownNameSpace nameSpaceName)

/-- The inner loop body of `SCOREP_ConfigApplyEnv`. -/
def applyVariable (attempt : Attempt) (getenv : Text → Option Text) (nameSpaceName : Text)
    (v : ConfigVariable) : Option (ConfigVariable × Outcome) :=
  if v.isEvaluated then some (v, .success)
  else
    match getenv v.envVarName with
    | none => some ({ v with isEvaluated := true }, .success)
    | some value =>
      (attempt v value).map fun (v, successfullyParsed) =>
        ({ v with isEvaluated := true, isChanged := true }, if successfullyParsed then .success
          else .cantSet nameSpaceName v.name value v.envVarName)

def applyNameSpace (attempt : Attempt) (getenv : Text → Option Text) (nameSpace : NameSpace) :
    Option (NameSpace × Outcome) :=
  (untilFailure (applyVariable attempt getenv nameSpace.name) nameSpace.variablesHead).map
    fun (head, outcome) => ({ nameSpace with variablesHead := head }, outcome)

def applyEnv (attempt : Attempt) (getenv : Text → Option Text) :
    List NameSpace → Option (List NameSpace × Outcome) :=
  untilFailure (applyNameSpace attempt getenv)

inductive Call where
  | setValue (nameSpaceName variableName variableValue : Text)
  | applyEnv (getenv : Text → Option Text)

def Call.run (attempt : Attempt) (hash : Text → ℕ) : Call → List NameSpace → Option (List NameSpace × Outcome)
  | .setValue nameSpaceName variableName variableValue =>
    Config.setValue attempt hash nameSpaceName variableName variableValue
  | .applyEnv getenv => Config.applyEnv attempt getenv

end ScoreP.Config
