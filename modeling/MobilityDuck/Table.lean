/-
# Tables: columns, their two numberings, and rows by row id

The columns of a table are numbered in the order they were declared (their
logical number); those that are stored, not generated, are numbered once more
among themselves (`storageOid`), in the same order (`storageOid_lt_of_lt`). Behind
a generated column the two numbers differ.

A transaction reads rows by row id: a `Snapshot` has the row behind each id
the transaction sees, and `fetch` leaves out the ids it does not see, so a
fetch can answer fewer rows than it was asked for.

Key definitions: `ColumnDefinition`, `storageOid`, `Value`, `Snapshot`,
`fetch`.
-/
import MobilityDuck.EntrySegment
import MobilityDuck.Types
import Mathlib.Data.List.Count

namespace MobilityDuck

/-! ### Columns -/

/-- `ColumnDefinition`: a column's type, and whether it is generated rather than stored. -/
structure ColumnDefinition where
  type : LogicalType
  generated : Bool
  deriving DecidableEq, Repr

/-- The columns of a table, by logical number. -/
abbrev ColumnList := List ColumnDefinition

/-- `LogicalToPhysical`, `StorageOid`: the number of a stored column among the stored ones. -/
def storageOid (columns : ColumnList) (logical : ℕ) : Option ℕ :=
  match columns[logical]? with
  | some column => if column.generated then none else some ((columns.take logical).countP (!·.generated))
  | none => none

section StorageOid

variable {columns : ColumnList} {i j p : ℕ}

theorem storageOid_eq_some (h : storageOid columns i = some p) :
    ∃ column, columns[i]? = some column ∧ column.generated = false ∧
    p = (columns.take i).countP (!·.generated) := by
  unfold storageOid at h
  split at h
  · rename_i column hc
    split at h
    · simp at h
    · rename_i hg
      exact ⟨column, hc, by simpa using hg, (Option.some.inj h).symm⟩
  · simp at h

/-- Stored columns keep their order. -/
theorem storageOid_lt_of_lt {q : ℕ} (h : storageOid columns i = some p)
    (h' : storageOid columns j = some q) (hij : i < j) : p < q := by
  obtain ⟨column, hc, hg, rfl⟩ := storageOid_eq_some h
  obtain ⟨_, hc', _, rfl⟩ := storageOid_eq_some h'
  have hi : i < columns.length := (List.getElem?_eq_some_iff.mp hc).1
  have hsplit : columns.take (i + 1) = columns.take i ++ [column] := by
    rw [List.take_add_one, hc]
    rfl
  have hsub : (columns.take (i + 1)).Sublist (columns.take j) :=
    (List.take_sublist_take_left (by omega))
  calc (columns.take i).countP (!·.generated) < (columns.take (i + 1)).countP (!·.generated) := by
        rw [hsplit, List.countP_append]
        simp [hg]
    _ ≤ (columns.take j).countP (!·.generated) := hsub.countP_le

/-- Different stored columns have different storage numbers. -/
theorem storageOid_inj (h : storageOid columns i = some p) (h' : storageOid columns j = some p) :
    i = j := by
  rcases Nat.lt_trichotomy i j with hij | hij | hij
  · exact absurd (storageOid_lt_of_lt h h' hij) (lt_irrefl p)
  · exact hij
  · exact absurd (storageOid_lt_of_lt h' h hij) (lt_irrefl p)

end StorageOid

/-! ### Rows -/

/-- The values the model tells apart. -/
inductive Value
  | null
  | boolean (b : Bool)
  | bigint (x : Int64)
  | timestampTz (micros : Int64)
  | blob (bytes : List UInt8)
  deriving DecidableEq, Repr

/-- The values of a row, by storage number. -/
abbrev StoredRow := List Value

/-- `StorageIndex`: a stored column, or the row id (`DConstants::INVALID_INDEX`). -/
inductive StorageIndex
  | column (oid : ℕ)
  | rowId
  deriving DecidableEq, Repr

/-- The cell of a row a storage index names. -/
def cell (id : RowId) (row : StoredRow) : StorageIndex → Value
  | .column oid => row.getD oid .null
  | .rowId => .bigint id

/-- What a transaction reads of the stored rows: the row behind each id it sees. -/
abbrev Snapshot := RowId → Option StoredRow

/-- The rows of a chunk. -/
abbrev Chunk := List (List Value)

/-- `DataTable::Fetch`: of the requested rows those the transaction sees, in order. -/
def fetch (table : Snapshot) (columnIds : List StorageIndex) (ids : List RowId) : Chunk :=
  ids.filterMap fun id => (table id).map fun row => columnIds.map (cell id row)

section Fetch

variable (table : Snapshot) (columnIds : List StorageIndex)

@[simp] theorem fetch_nil : fetch table columnIds [] = [] := rfl

theorem fetch_append (ids ids' : List RowId) :
    fetch table columnIds (ids ++ ids') = fetch table columnIds ids ++ fetch table columnIds ids' :=
  List.filterMap_append

/-- A fetch looks at the requested rows only. -/
theorem fetch_congr {table table' : Snapshot} {ids : List RowId}
    (h : ∀ id ∈ ids, table id = table' id) :
    fetch table columnIds ids = fetch table' columnIds ids :=
  List.filterMap_congr fun id hid => by rw [h id hid]

/-- As many rows come back as were asked for where all are seen. -/
theorem fetch_length {ids : List RowId} (h : ∀ id ∈ ids, table id ≠ none) :
    (fetch table columnIds ids).length = ids.length := by
  apply List.filterMap_length_eq_length.mpr
  intro id hid
  rw [Option.isSome_map]
  exact Option.isSome_iff_ne_none.mpr (h id hid)

/-- Nothing comes back exactly when none of the rows is seen. -/
theorem fetch_eq_nil_iff {ids : List RowId} :
    fetch table columnIds ids = [] ↔ ∀ id ∈ ids, table id = none := by
  simp [fetch, List.filterMap_eq_nil_iff]

end Fetch

end MobilityDuck
