/-
# The bindings of a get, and the rows they name

A binding numbers the column ids of a get; the get returns the columns its
projection ids name, in their order, or all of them (`columnBindings`). A
sequential scan answers the rows that the pushed-down filters accept, each row
with the values of the bindings (`map_outputColumns`), and a reference above the get
reads the value of its binding (`resolve_map`).

Key definitions: `LogicalGet.columnBindings`, `LogicalGet.outputColumns`,
`LogicalGet.bindingValue`, `LogicalGet.seqScan`, `resolve`.
-/
import MobilityDuck.OptimizeScan
import MobilityDuck.Transaction
import MobilityDuck.Lib.Select

namespace MobilityDuck

open Lib

namespace LogicalGet

variable (get : LogicalGet)

/-- The columns a get returns, as positions among those it reads. -/
def outputPositions : List ℕ :=
  if get.projectionIds = [] then List.range get.columnIds.length else get.projectionIds

/-- `LogicalGet::GetColumnBindings`. -/
def columnBindings : List ColumnBinding := get.outputPositions.map (ColumnBinding.mk get.tableIndex)

/-- The storage columns behind what a get reads. -/
def storageColumns : List StorageIndex := get.columnIds.map (ColumnIndex.storage get.table.columns)

/-- The storage columns its bindings name. -/
def outputColumns : List StorageIndex := select get.storageColumns get.outputPositions

/-- The value of a column of the table in a row. -/
def columnValue (logical : ℕ) (r : ReadRow) : Value :=
  cell r.1 r.2 (ColumnIndex.storage get.table.columns (.column logical))

/-- The value of a binding in a row. -/
def bindingValue (r : ReadRow) (b : ColumnBinding) : Value :=
  cell r.1 r.2 (get.storageColumns.getD b.columnIndex .rowId)

variable (I : Interpretation) (t : Transaction)

/-- A pushed-down filter accepts a row. -/
def accepts (r : ReadRow) (f : ℕ × TableFilter) : Bool :=
  f.2.expr.accepts I (get.columnValue f.1 r) fun _ => .null

/-- The rows that all filters accept. -/
def filteredRows : List ReadRow := t.seqRows.filter fun r => get.tableFilters.all (get.accepts I r)

/-- The sequential scan: these rows, as the bindings name their columns. -/
def seqScan : Chunk := (get.filteredRows I t).map fun r => get.outputColumns.map (cell r.1 r.2)

end LogicalGet

/-- A reference reads the column of a chunk under its binding. -/
def resolve (bindings : List ColumnBinding) (row : List Value) (b : ColumnBinding) : Value :=
  (readName bindings row b).getD .null

/-- Of a row of values of the bindings, it reads the value of its own. -/
theorem resolve_map (value : ColumnBinding → Value) {bindings : List ColumnBinding} {b : ColumnBinding}
    (hb : b ∈ bindings) : resolve bindings (bindings.map value) b = value b := by
  rw [resolve, readName_map value hb]
  rfl

namespace LogicalGet

variable {get : LogicalGet}

@[simp] theorem length_storageColumns (get : LogicalGet) :
    get.storageColumns.length = get.columnIds.length :=
  List.length_map _

theorem WellFormed.outputPositions_lt (hget : get.WellFormed) :
    ∀ p ∈ get.outputPositions, p < get.columnIds.length := by
  intro p hp
  unfold outputPositions at hp
  split at hp
  · exact List.mem_range.mp hp
  · exact hget.projectionIds_lt p hp

/-- The returned columns are those of the bindings. -/
theorem outputColumns_eq (hlt : ∀ p ∈ get.outputPositions, p < get.columnIds.length) :
    get.outputColumns = get.columnBindings.map fun b => get.storageColumns.getD b.columnIndex .rowId := by
  have hlt' : ∀ p ∈ get.outputPositions, p < get.storageColumns.length := by simpa using hlt
  rw [outputColumns, columnBindings, select_eq_map .rowId hlt', List.map_map]
  rfl

/-- And a returned row holds the values of the bindings. -/
theorem map_outputColumns (hlt : ∀ p ∈ get.outputPositions, p < get.columnIds.length) (r : ReadRow) :
    get.outputColumns.map (cell r.1 r.2) = get.columnBindings.map (get.bindingValue r) := by
  rw [outputColumns_eq hlt, List.map_map]
  rfl

/-- A column is filtered once. -/
theorem WellFormed.filter_eq (hget : get.WellFormed) {key : ℕ} {filter filter' : TableFilter}
    (h : (key, filter) ∈ get.tableFilters) (h' : (key, filter') ∈ get.tableFilters) :
    filter = filter' := by
  have hkeys : (get.tableFilters.map (·.1)).Nodup :=
    List.pairwise_map.mpr (hget.filters_sorted.imp ne_of_lt)
  exact (Prod.mk.inj (List.inj_on_of_nodup_map hkeys h h' rfl)).2

theorem position?_lt {logical position : ℕ} (h : get.position? logical = some position) :
    position < get.columnIds.length := (List.getElem?_eq_some_iff.mp (position?_eq_some h)).1

/-- The binding at the position of a column has the value of the column. -/
theorem bindingValue_position {logical position : ℕ} (h : get.position? logical = some position)
    (r : ReadRow)
    (tableIndex : ℕ) : get.bindingValue r ⟨tableIndex, position⟩ = get.columnValue logical r := by
  have hstorage : get.storageColumns[position]? =
      some (ColumnIndex.storage get.table.columns (.column logical)) := by
    rw [storageColumns, List.getElem?_map, position?_eq_some h]
    rfl
  rw [bindingValue, List.getD_eq_getElem?_getD, hstorage]
  rfl

end LogicalGet

/-! ### Storage numbers of the columns of a get -/

theorem ColumnIndex.storage_inj {columns : ColumnList} {i j : ColumnIndex}
    (hi : ∀ logical, i = .column logical → (storageOid columns logical).isSome)
    (hj : ∀ logical, j = .column logical → (storageOid columns logical).isSome)
    (h : ColumnIndex.storage columns i = ColumnIndex.storage columns j) : i = j := by
  cases i with
  | rowId =>
    cases j with
    | rowId => rfl
    | column logical =>
      obtain ⟨p, hp⟩ := Option.isSome_iff_exists.mp (hj logical rfl)
      simp [ColumnIndex.storage, hp] at h
  | column logical =>
    obtain ⟨p, hp⟩ := Option.isSome_iff_exists.mp (hi logical rfl)
    cases j with
    | rowId => simp [ColumnIndex.storage, hp] at h
    | column logical' =>
      obtain ⟨p', hp'⟩ := Option.isSome_iff_exists.mp (hj logical' rfl)
      simp only [ColumnIndex.storage, hp, hp', StorageIndex.column.injEq] at h
      rw [storageOid_inj hp (h ▸ hp')]

namespace LogicalGet

variable {get : LogicalGet}

/-- Different columns of a get are stored apart. -/
theorem WellFormed.storage_inj (hget : get.WellFormed) {i j : ColumnIndex} (hi : i ∈ get.columnIds)
    (hj : j ∈ get.columnIds)
    (h : ColumnIndex.storage get.table.columns i = ColumnIndex.storage get.table.columns j) :
    i = j := by
  apply ColumnIndex.storage_inj _ _ h
  · intro logical heq
    exact hget.columnIds_stored logical (heq ▸ hi)
  · intro logical heq
    exact hget.columnIds_stored logical (heq ▸ hj)

theorem WellFormed.map_storage_inj (hget : get.WellFormed) : ∀ {is js : List ColumnIndex},
    is ⊆ get.columnIds → js ⊆ get.columnIds →
    is.map (ColumnIndex.storage get.table.columns) = js.map (ColumnIndex.storage get.table.columns) → is = js
  | [], [], _, _, _ => rfl
  | [], _ :: _, _, _, h => nomatch h
  | _ :: _, [], _, _, h => nomatch h
  | i :: is, j :: js, hi, hj, h => by
    rw [List.map_cons, List.map_cons, List.cons.injEq] at h
    rw [hget.storage_inj (hi List.mem_cons_self) (hj List.mem_cons_self) h.1,
      hget.map_storage_inj (List.subset_of_cons_subset hi) (List.subset_of_cons_subset hj) h.2]

end LogicalGet

end MobilityDuck
