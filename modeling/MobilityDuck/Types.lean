/-
# The types an index works with

A value of a MobilityDuck type is a DuckDB `BLOB` under an alias, so a
`LogicalType` is a type id and an alias, and two types are equal when both
are. An index keeps one bounding box per row; which kind of box follows from
the type of the indexed column (`bboxTypeOf`, the branches of the
`TRTreeIndex` constructor). Each box kind is itself a column type
(`MeosType.logicalType`), indexed by its own boxes (`bboxTypeOf_logicalType`);
the temporal types are the other indexed ones (`bboxTypeOf_eq_some`).
-/
import Mathlib.Data.List.Basic

namespace MobilityDuck

/-- The type ids of DuckDB the optimizer tells apart, and the rest. -/
inductive LogicalTypeId
  | boolean
  | integer
  | bigint
  | double
  | varchar
  | date
  | timestampTz
  | blob
  | other
  deriving DecidableEq, Repr

/-- A DuckDB type: its id, and the alias an extension type sets. -/
structure LogicalType where
  id : LogicalTypeId
  aliasName : String
  deriving DecidableEq, Repr

namespace LogicalType

/-- `LogicalType(LogicalTypeId::BLOB)` under an alias. -/
def blob (aliasName : String) : LogicalType := ⟨.blob, aliasName⟩

def stbox : LogicalType := blob "stbox"
def tbox : LogicalType := blob "tbox"
def tstzspan : LogicalType := blob "tstzspan"
def intspan : LogicalType := blob "intspan"
def bigintspan : LogicalType := blob "bigintspan"
def floatspan : LogicalType := blob "floatspan"
def datespan : LogicalType := blob "datespan"
def tint : LogicalType := blob "tint"
def tfloat : LogicalType := blob "tfloat"
def tbool : LogicalType := blob "tbool"
def ttext : LogicalType := blob "ttext"
def tgeompoint : LogicalType := blob "tgeompoint"
def tgeogpoint : LogicalType := blob "tgeogpoint"
def tgeometry : LogicalType := blob "tgeometry"
def tgeography : LogicalType := blob "tgeography"
def boolean : LogicalType := ⟨.boolean, ""⟩
def timestampTz : LogicalType := ⟨.timestampTz, ""⟩

@[simp] theorem blob_id (a : String) : (blob a).id = .blob := rfl

end LogicalType

/-- The kinds of bounding box an index holds. -/
inductive MeosType
  | stbox
  | tbox
  | tstzspan
  | intspan
  | bigintspan
  | floatspan
  | datespan
  deriving DecidableEq, Repr

/-- The type of a value that is a box of this kind. -/
def MeosType.logicalType : MeosType → LogicalType
  | .stbox => .stbox
  | .tbox => .tbox
  | .tstzspan => .tstzspan
  | .intspan => .intspan
  | .bigintspan => .bigintspan
  | .floatspan => .floatspan
  | .datespan => .datespan

@[simp] theorem MeosType.logicalType_id (t : MeosType) : t.logicalType.id = .blob := by
  cases t <;> rfl

/-- The box an index over a column of this type holds, in the order the constructor asks; a type
it names nowhere is refused there. -/
def bboxTypeOf (type : LogicalType) : Option MeosType :=
  if type = .stbox then some .stbox
  else if type = .tstzspan then some .tstzspan
  else if type = .tbox then some .tbox
  else if type = .intspan then some .intspan
  else if type = .bigintspan then some .bigintspan
  else if type = .floatspan then some .floatspan
  else if type = .datespan then some .datespan
  else if type = .tint ∨ type = .tfloat then some .tbox
  else if type = .tbool ∨ type = .ttext then some .tstzspan
  else if type = .tgeompoint ∨ type = .tgeometry ∨ type = .tgeography ∨ type = .tgeogpoint then
    some .stbox
  else none

/-- `indexes_temporal`: the column holds temporal values, whose box is derived. -/
def indexesTemporal (type : LogicalType) : Bool :=
  type = .tint ∨ type = .tfloat ∨ type = .tbool ∨ type = .ttext ∨ type = .tgeompoint ∨
    type = .tgeometry ∨ type = .tgeography ∨ type = .tgeogpoint

theorem bboxTypeOf_stbox : bboxTypeOf .stbox = some .stbox := rfl

theorem bboxTypeOf_tgeompoint : bboxTypeOf .tgeompoint = some .stbox := rfl

/-- A box is its own box. -/
@[simp] theorem bboxTypeOf_logicalType (t : MeosType) : bboxTypeOf t.logicalType = some t := by
  cases t <;> decide

theorem indexesTemporal_logicalType (t : MeosType) : indexesTemporal t.logicalType = false := by
  cases t <;> decide

/-- An indexed column holds boxes of the index's kind, or temporal values. -/
theorem bboxTypeOf_eq_some {type : LogicalType} {t : MeosType} (h : bboxTypeOf type = some t) :
    type = t.logicalType ∨ indexesTemporal type = true := by
  unfold bboxTypeOf at h
  iterate 7
    split at h
    · left; cases h; assumption
  right
  split at h
  · rename_i ht; rcases ht with rfl | rfl <;> rfl
  split at h
  · rename_i ht; rcases ht with rfl | rfl <;> rfl
  split at h
  · rename_i ht; rcases ht with rfl | rfl | rfl | rfl <;> rfl
  · exact absurd h (by simp)

/-- Every indexed type is a `BLOB` underneath. -/
theorem id_of_bboxTypeOf {type : LogicalType} {t : MeosType} (h : bboxTypeOf type = some t) :
    type.id = .blob := by
  rcases bboxTypeOf_eq_some h with rfl | ht
  · exact t.logicalType_id
  · simp only [indexesTemporal, decide_eq_true_eq] at ht
    rcases ht with rfl | rfl | rfl | rfl | rfl | rfl | rfl | rfl <;> rfl

/-! ### Exceptions -/

/-- What the index code raises. `meos` is an error MEOS raised, `internal` an access DuckDB checks,
`diverges` stands for a loop that does not end. -/
inductive Exception
  | binder (message : String)
  | invalidInput (message : String)
  | serialization (message : String)
  | internal (message : String)
  | meos (message : String)
  | diverges
  deriving DecidableEq, Repr

end MobilityDuck
