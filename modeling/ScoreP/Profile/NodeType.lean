import Mathlib.Data.Nat.Notation

/-!
# Node types

The type of a call-tree node and the data that depends on it.
-/

namespace ScoreP.Profile

inductive NodeType where
  | regularRegion
  | parameterString
  | parameterInteger
  | threadRoot
  | threadStart
  | collapse
  | taskRoot
deriving DecidableEq

/-- `scorep_profile_type_data_t`. -/
structure TypeData where
  handle : ℕ
  value : ℕ
deriving DecidableEq

def compareTypeData (data1 data2 : TypeData) : NodeType → Bool
  | .regularRegion | .parameterString | .parameterInteger =>
    data1.handle == data2.handle && data1.value == data2.value
  | .threadStart | .taskRoot => data1.handle == data2.handle
  | .threadRoot | .collapse => data1.value == data2.value

def compareNodes (type1 type2 : NodeType) (data1 data2 : TypeData) : Bool :=
  if type1 ≠ type2 then false else compareTypeData data1 data2 type1

def typeKey (type : NodeType) (data : TypeData) : NodeType × TypeData :=
  match type with
  | .regularRegion | .parameterString | .parameterInteger => (type, data)
  | .threadStart | .taskRoot => (type, ⟨data.handle, 0⟩)
  | .threadRoot | .collapse => (type, ⟨0, data.value⟩)

theorem typeKey_type (type : NodeType) (data : TypeData) : (typeKey type data).1 = type := by
  cases type <;> rfl

theorem compareTypeData_iff {type : NodeType} {data1 data2 : TypeData} :
    compareTypeData data1 data2 type = true ↔ typeKey type data1 = typeKey type data2 := by
  obtain ⟨h1, v1⟩ := data1
  obtain ⟨h2, v2⟩ := data2
  cases type <;> simp [compareTypeData, typeKey]

end ScoreP.Profile
