/-
# The optimizer that puts an index join in the place of a nested loop

`TRTreeIndexJoinOptimizer` and `TSPTreeIndexJoinOptimizer` take an inner join
on one `&&` between a column of either side, look for an index on one side, the
larger one first (`attempts`), and make the other side the child of an index
join (`tryBuild`).

The join reads the probe value at the column index of its binding. A binding
numbers the column ids of the get, but the chunk of the probe side has its
projection, and the fetched columns of the other side come in the order of
their column ids. So the rewritten join returns what the nested loop did
exactly when the projection of the probe side has the same column at that
place, and the indexed side projects its columns in their order
(`joinReturnsSame_iff`).

Key definitions: `LogicalAnyJoin`, `JoinSides.tryBuild`,
`LogicalAnyJoin.tryOptimizeJoin`, `LogicalAnyJoin.run`,
`LogicalIndexJoin.ReturnsSame`. Key theorem: `joinReturnsSame_iff`.
-/
import MobilityDuck.Bindings
import MobilityDuck.IndexJoin
import MobilityDuck.ScanColumn
import MobilityDuck.Lib.NestedLoop

namespace MobilityDuck

open Lib

/-! ### Joins -/

/-- `JoinType`; the kinds other than `INNER` are not told apart. -/
inductive JoinType
  | inner
  | other
  deriving DecidableEq, Repr

/-- `LogicalAnyJoin`. -/
structure LogicalAnyJoin where
  joinType : JoinType
  condition : Option Expression
  children : List LogicalOperator
  estimatedCardinality : ℕ

/-- `BoundColumnRefExpression`. -/
structure ColumnRef where
  type : LogicalType
  binding : ColumnBinding

/-- The type of a column a get reads. -/
def LogicalGet.columnIdType (get : LogicalGet) : ColumnIndex → LogicalType
  | .rowId => ⟨.bigint, ""⟩
  | .column logical => get.columnType logical

/-- `LogicalGet::ResolveTypes`. -/
def LogicalGet.types (get : LogicalGet) : List LogicalType :=
  (select get.columnIds get.outputPositions).map get.columnIdType

/-- `LogicalRTreeIndexJoin`; its child is the probe side. -/
structure LogicalIndexJoin where
  indexTable : TableEntry
  index : IndexInfo
  probeColumn : ℕ
  probeIsTemporal : Bool
  indexTypes : List LogicalType
  indexColumns : List ℕ
  indexBindings : List ColumnBinding
  child : LogicalGet
  estimatedCardinality : ℕ

namespace LogicalIndexJoin

variable (plan : LogicalIndexJoin)

/-- `ResolveTypes`. -/
def types : List LogicalType := plan.child.types ++ plan.indexTypes

/-- `GetColumnBindings`. -/
def columnBindings : List ColumnBinding := plan.child.columnBindings ++ plan.indexBindings

/-- `CreatePlan`, with the index that was found. -/
def createPlan {n : ℕ} {meos : Meos n} (index : Index meos) : PhysicalIndexJoin meos :=
  ⟨plan.indexTable.columns, index, plan.types, plan.probeColumn, plan.probeIsTemporal, plan.indexColumns⟩

/-- The columns of the chunk the operator fills: those of the probe side, then the fetched ones. -/
def chunkColumns : List StorageIndex :=
  plan.child.outputColumns ++ plan.indexColumns.map fun id =>
    ColumnIndex.storage plan.indexTable.columns (.column id)

end LogicalIndexJoin

/-! ### The rewrite -/

/-- The sides of a join, with the operand that each reads. -/
structure JoinSides where
  indexed : LogicalGet
  probe : LogicalGet
  indexedRef : ColumnRef
  probeRef : ColumnRef

/-- The sides the other way round. -/
def JoinSides.swap (sides : JoinSides) : JoinSides :=
  ⟨sides.probe, sides.indexed, sides.probeRef, sides.indexedRef⟩

/-- `GetScan`. -/
def getScan : LogicalOperator → Option LogicalGet
  | .get g => if g.table.isDuckTable then some g else none
  | .filter .. | .projection .. | .topN .. | .other _ => none

def Expression.asColumnRef : Expression → Option ColumnRef
  | .columnRef type binding => some ⟨type, binding⟩
  | .reference _ | .constant _ | .function .. | .other .. => none

/-- `ProbeYieldsStbox`: whether the value is temporal, so that its box has to be derived. -/
def probeYieldsStbox (type : LogicalType) : Option Bool :=
  if type = .stbox then some false
  else if type = .tgeompoint ∨ type = .tgeogpoint ∨ type = .tgeometry ∨ type = .tgeography then some true
  else none

/-- The logical numbers of column ids; a row id has none. -/
def primaryIndexes : List ColumnIndex → Option (List ℕ)
  | [] => some []
  | .rowId :: _ => none
  | .column logical :: rest => (primaryIndexes rest).map (logical :: ·)

/-- `StorageOid` of a column the get reads. -/
def LogicalGet.storageOid? (get : LogicalGet) : ColumnIndex → Option ℕ
  | .column logical => storageOid get.table.columns logical
  | .rowId => none

/-- The index that serves a column: a bound index of the type over that storage column alone, with boxes
of space and time. -/
def TableEntry.findIndex (table : TableEntry) (indexType : IndexType) (storageId : ℕ) :
    Option IndexInfo :=
  table.indexes.find? fun info =>
    info.indexType = indexType && info.columnIds = [storageId] && info.bboxType = .stbox

/-- `TryBuild`. -/
def JoinSides.tryBuild (indexType : IndexType) (estimated : ℕ) (sides : JoinSides) :
    Option LogicalIndexJoin :=
  let get := sides.indexed
  if get.tableFilters ≠ [] then none
  else do
    let probeIsTemporal ← probeYieldsStbox sides.probeRef.type
    let column ← get.columnIds[sides.indexedRef.binding.columnIndex]?
    let indexColumns ← primaryIndexes get.columnIds
    let storageId ← get.storageOid? column
    let found ← get.table.findIndex indexType storageId
    if get.columnBindings.length ≠ indexColumns.length then none
    else
      some {
        indexTable := get.table
        index := found
        probeColumn := sides.probeRef.binding.columnIndex
        probeIsTemporal := probeIsTemporal
        indexTypes := indexColumns.map get.columnType
        indexColumns := indexColumns
        indexBindings := get.columnBindings
        child := sides.probe
        estimatedCardinality := estimated }

/-- The operand that reads from a get; of two, the last. -/
def LogicalGet.attached (get : LogicalGet) (refs : List ColumnRef) : Option ColumnRef :=
  (refs.filter (·.binding.tableIndex = get.tableIndex)).getLast?

namespace LogicalAnyJoin

variable (join : LogicalAnyJoin)

/-- What `TryOptimizeJoin` looks for: an inner join of two tables on one `&&` between a column of either.
The first side stands as the indexed one. -/
def sides : Option JoinSides :=
  match join.joinType, join.condition, join.children with
  | .inner, some (.function name _ [x, y]), [a, b] =>
    if name ≠ "&&" then none
    else do
      let x ← x.asColumnRef
      let y ← y.asColumnRef
      let left ← getScan a
      let right ← getScan b
      let leftRef ← left.attached [x, y]
      let rightRef ← right.attached [x, y]
      some ⟨left, right, leftRef, rightRef⟩
  | _, _, _ => none

/-- The two ways to serve the join; the larger side is indexed first. -/
def attempts : List JoinSides :=
  match join.sides with
  | some s =>
    if s.probe.estimatedCardinality ≤ s.indexed.estimatedCardinality then [s, s.swap] else [s.swap, s]
  | none => []

/-- `TryOptimizeJoin`. -/
def tryOptimizeJoin (indexType : IndexType) : Option LogicalIndexJoin :=
  join.attempts.findSome? (·.tryBuild indexType join.estimatedCardinality)

/-- The sides of the attempt that succeeds. -/
def served (indexType : IndexType) : Option JoinSides :=
  join.attempts.find? fun s => (s.tryBuild indexType join.estimatedCardinality).isSome

/-- `LogicalAnyJoin::GetColumnBindings`, of two gets. -/
def columnBindings : List ColumnBinding :=
  match join.children with
  | [.get l, .get r] => l.columnBindings ++ r.columnBindings
  | _ => []

/-- The nested-loop join of two gets: the pairs of rows the condition accepts. `view` is what the
transaction sees of the table of a get. -/
def run (I : Interpretation) (view : LogicalGet → Transaction) : Chunk :=
  match join.condition, join.children with
  | some condition, [.get l, .get r] =>
    (l.seqScan I (view l)).flatMap fun x =>
      ((r.seqScan I (view r)).map (x ++ ·)).filter fun row =>
        condition.accepts I .null (resolve (l.columnBindings ++ r.columnBindings) row)
  | _, _ => []

end LogicalAnyJoin

/-! ### What the rewrite has to keep -/

/-- The value of a binding of either get in a pair of rows. -/
def pairValue (l r : LogicalGet) (x y : ReadRow) (b : ColumnBinding) : Value :=
  if b.tableIndex = l.tableIndex then l.bindingValue x b else r.bindingValue y b

namespace JoinSides

variable (sides : JoinSides)

/-- The storage column a binding of either side names. -/
def columnOf (b : ColumnBinding) : StorageIndex :=
  if b.tableIndex = sides.probe.tableIndex then sides.probe.storageColumns.getD b.columnIndex .rowId
  else sides.indexed.storageColumns.getD b.columnIndex .rowId

/-- Its type. -/
def typeOf (b : ColumnBinding) : LogicalType :=
  if b.tableIndex = sides.probe.tableIndex then
    sides.probe.columnIdType (sides.probe.columnIds.getD b.columnIndex .rowId)
  else sides.indexed.columnIdType (sides.indexed.columnIds.getD b.columnIndex .rowId)

/-- What the planner promises of both sides: every table has an index of its own, and an operand reads a
column that its side returns. -/
structure WellFormed : Prop where
  indexed : sides.indexed.WellFormed
  probe : sides.probe.WellFormed
  tableIndex_ne : sides.indexed.tableIndex ≠ sides.probe.tableIndex
  indexedRef_mem : sides.indexedRef.binding ∈ sides.indexed.columnBindings
  probeRef_mem : sides.probeRef.binding ∈ sides.probe.columnBindings

/-- The index answers the condition: the matches of each probe value are rows the transaction sees, those
the condition accepts. -/
def Answered {n : ℕ} {meos : Meos n} (I : Interpretation) (condition : Expression)
    (join : PhysicalIndexJoin meos) (view : LogicalGet → Transaction) : Prop :=
  ∀ x ∈ (view sides.probe).seqRows, ∃ ids,
    join.probeMatches (sides.probe.bindingValue x sides.probeRef.binding) = .ok ids ∧
      (∀ id ∈ ids, (view sides.indexed).snapshot id ≠ none) ∧
      (rowsAt (view sides.indexed).snapshot ids).Perm ((view sides.indexed).seqRows.filter fun y =>
        condition.accepts I .null (pairValue sides.probe sides.indexed x y))

end JoinSides

/-- A rewritten join reads the probe value from its column, fills its chunk with the columns its bindings
name, has their types, and returns the rows of the nested loop, read by their bindings. -/
structure LogicalIndexJoin.ReturnsSame (plan : LogicalIndexJoin) (join : LogicalAnyJoin)
    (sides : JoinSides) : Prop where
  probeColumn : plan.child.outputColumns[plan.probeColumn]? = some (sides.columnOf sides.probeRef.binding)
  bindings : plan.columnBindings.Perm join.columnBindings
  chunk : plan.chunkColumns = plan.columnBindings.map sides.columnOf
  types : plan.types = plan.columnBindings.map sides.typeOf
  rows : ∀ {n : ℕ} {meos : Meos n} (I : Interpretation) (index : Index meos)
    (view : LogicalGet → Transaction) (reset : FetchBuffer → FetchBuffer) (memory : FetchBuffer) (inputs : List Chunk),
    (∀ condition, join.condition = some condition → sides.Answered I condition (plan.createPlan index) view) →
    inputs.flatten.Perm (sides.probe.seqScan I (view sides.probe)) →
    ∃ out, (∃ calls, ∀ fuel ≥ calls,
      (plan.createPlan index).joinRows (view sides.indexed).snapshot reset fuel inputs memory = .ok out) ∧
      (out.map fun row => join.columnBindings.map (resolve plan.columnBindings row)).Perm (join.run I view)

/-! ### What the optimizer accepts -/

section Accepts

variable {join : LogicalAnyJoin} {sides : JoinSides} {indexType : IndexType} {plan : LogicalIndexJoin}

theorem attached_eq_some {get : LogicalGet} {refs : List ColumnRef} {ref : ColumnRef}
    (h : get.attached refs = some ref) :
    ref ∈ refs ∧ ref.binding.tableIndex = get.tableIndex := by
  obtain ⟨hmem, htable⟩ := List.mem_filter.mp (List.mem_of_getLast? h)
  exact ⟨hmem, of_decide_eq_true htable⟩

theorem asColumnRef_eq_some {e : Expression} {ref : ColumnRef} (h : e.asColumnRef = some ref) :
    e = .columnRef ref.type ref.binding := by
  cases e with
  | columnRef type binding =>
    obtain rfl := Option.some.inj h
    rfl
  | reference | constant | function | other => cases h

theorem getScan_eq_some {op : LogicalOperator} {g : LogicalGet} (h : getScan op = some g) :
    op = .get g := by
  cases op with
  | get g' =>
    have h : (if g'.table.isDuckTable then some g' else none) = some g := h
    split at h
    · rw [Option.some.inj h]
    · simp at h
  | filter | projection | topN | other => cases h

/-- The joins that are looked at. -/
theorem sides_eq_some (h : join.sides = some sides) : ∃ type x y,
    join.condition = some (.function "&&" type [.columnRef x.type x.binding, .columnRef y.type y.binding]) ∧
      join.children = [.get sides.indexed, .get sides.probe] ∧
      sides.indexed.attached [x, y] = some sides.indexedRef ∧
      sides.probe.attached [x, y] = some sides.probeRef := by
  unfold LogicalAnyJoin.sides at h
  split at h
  · rename_i name type ex ey a b _ hcondition hchildren
    split at h
    · simp at h
    rename_i hname
    obtain ⟨x, hx, h⟩ := Option.bind_eq_some_iff.mp h
    obtain ⟨y, hy, h⟩ := Option.bind_eq_some_iff.mp h
    obtain ⟨left, hleft, h⟩ := Option.bind_eq_some_iff.mp h
    obtain ⟨right, hright, h⟩ := Option.bind_eq_some_iff.mp h
    obtain ⟨leftRef, hleftRef, h⟩ := Option.bind_eq_some_iff.mp h
    obtain ⟨rightRef, hrightRef, h⟩ := Option.bind_eq_some_iff.mp h
    obtain rfl := Option.some.inj h
    refine ⟨type, x, y, ?_, ?_, hleftRef, hrightRef⟩
    · rw [hcondition, not_not.mp hname, asColumnRef_eq_some hx, asColumnRef_eq_some hy]
    · rw [hchildren, getScan_eq_some hleft, getScan_eq_some hright]
  · simp at h

/-- An attempt takes the two sides of such a join, either way round. -/
theorem sides_of_mem_attempts (h : sides ∈ join.attempts) :
    join.sides = some sides ∨ join.sides = some sides.swap := by
  unfold LogicalAnyJoin.attempts at h
  split at h
  · rename_i s hs
    have hmem : sides = s ∨ sides = s.swap := by
      split at h <;> simp at h <;> tauto
    rcases hmem with rfl | rfl
    · exact .inl hs
    · exact .inr hs
  · simp at h

/-- Its operands are those of the two sides. -/
theorem attempts_spec (hwf : sides.WellFormed) (h : sides ∈ join.attempts) : ∃ type x y,
    join.condition = some (.function "&&" type [.columnRef x.type x.binding, .columnRef y.type y.binding]) ∧
      (join.children = [.get sides.probe, .get sides.indexed] ∨
        join.children = [.get sides.indexed, .get sides.probe]) ∧
      ((x = sides.indexedRef ∧ y = sides.probeRef) ∨ (x = sides.probeRef ∧ y = sides.indexedRef)) := by
  have hrefs : ∀ {x y : ColumnRef}, sides.indexed.attached [x, y] = some sides.indexedRef →
      sides.probe.attached [x, y] = some sides.probeRef →
      (x = sides.indexedRef ∧ y = sides.probeRef) ∨ (x = sides.probeRef ∧ y = sides.indexedRef) := by
    intro x y hindexed hprobe
    obtain ⟨hi, hitable⟩ := attached_eq_some hindexed
    obtain ⟨hp, hptable⟩ := attached_eq_some hprobe
    have hne : sides.indexedRef ≠ sides.probeRef := by
      intro heq
      rw [heq, hptable] at hitable
      exact hwf.tableIndex_ne hitable.symm
    simp only [List.mem_cons, List.not_mem_nil, or_false] at hi hp
    rcases hi with hi | hi <;> rcases hp with hp | hp
    · exact absurd (hi.trans hp.symm) hne
    · exact .inl ⟨hi.symm, hp.symm⟩
    · exact .inr ⟨hp.symm, hi.symm⟩
    · exact absurd (hi.trans hp.symm) hne
  rcases sides_of_mem_attempts h with h | h
  · obtain ⟨type, x, y, hcondition, hchildren, hindexed, hprobe⟩ := sides_eq_some h
    exact ⟨type, x, y, hcondition, .inr hchildren, hrefs hindexed hprobe⟩
  · obtain ⟨type, x, y, hcondition, hchildren, hprobe, hindexed⟩ := sides_eq_some h
    exact ⟨type, x, y, hcondition, .inl hchildren, hrefs hindexed hprobe⟩

theorem primaryIndexes_eq_some :
    ∀ {ids : List ColumnIndex} {columns : List ℕ}, primaryIndexes ids = some columns →
    ids = columns.map .column
  | [], columns, h => by
    obtain rfl := Option.some.inj h
    rfl
  | .rowId :: _, _, h => nomatch h
  | .column logical :: rest, columns, h => by
    obtain ⟨columns', hcolumns', rfl⟩ := Option.map_eq_some_iff.mp h
    rw [primaryIndexes_eq_some hcolumns', List.map_cons]

/-- What an attempt builds. -/
structure JoinSides.Builds (sides : JoinSides) (plan : LogicalIndexJoin) : Prop where
  tableFilters : sides.indexed.tableFilters = []
  indexTable : plan.indexTable = sides.indexed.table
  column : sides.indexed.storageColumns.getD sides.indexedRef.binding.columnIndex .rowId =
    .column plan.index.columnId
  probeColumn : plan.probeColumn = sides.probeRef.binding.columnIndex
  columnIds : sides.indexed.columnIds = plan.indexColumns.map .column
  indexTypes : plan.indexTypes = plan.indexColumns.map sides.indexed.columnType
  indexBindings : plan.indexBindings = sides.indexed.columnBindings
  length : sides.indexed.columnBindings.length = sides.indexed.columnIds.length
  child : plan.child = sides.probe

theorem builds_of_tryBuild {estimated : ℕ} (h : sides.tryBuild indexType estimated = some plan) :
    sides.Builds plan := by
  unfold JoinSides.tryBuild at h
  simp only at h
  split at h
  · simp at h
  rename_i hfilters
  obtain ⟨probeIsTemporal, -, h⟩ := Option.bind_eq_some_iff.mp h
  obtain ⟨column, hcolumn, h⟩ := Option.bind_eq_some_iff.mp h
  obtain ⟨indexColumns, hcolumns, h⟩ := Option.bind_eq_some_iff.mp h
  obtain ⟨storageId, hstorage, h⟩ := Option.bind_eq_some_iff.mp h
  obtain ⟨found, hfound, h⟩ := Option.bind_eq_some_iff.mp h
  split at h
  · simp at h
  rename_i hlength
  obtain rfl := Option.some.inj h
  have hids := primaryIndexes_eq_some hcolumns
  refine ⟨not_not.mp hfilters, rfl, ?_, rfl, hids, rfl, rfl, ?_, rfl⟩
  · -- the index is over the storage number of the operand's column
    rw [LogicalGet.storageColumns, List.getD_eq_getElem?_getD, List.getElem?_map, hcolumn]
    cases column with
    | rowId => cases hstorage
    | column logical =>
      have hstorage : storageOid sides.indexed.table.columns logical = some storageId := hstorage
      have hfound := List.find?_some hfound
      simp only [Bool.and_eq_true, decide_eq_true_eq] at hfound
      simp [ColumnIndex.storage, hstorage, IndexInfo.columnId, hfound.1.2]
  · rw [not_not.mp hlength, hids, List.length_map]

/-- The rewritten join is built from the sides that are served. -/
theorem tryBuild_of_served (hserved : join.served indexType = some sides)
    (hplan : join.tryOptimizeJoin indexType = some plan) :
    sides ∈ join.attempts ∧ sides.tryBuild indexType join.estimatedCardinality = some plan := by
  refine ⟨List.mem_of_find?_eq_some hserved, ?_⟩
  unfold LogicalAnyJoin.served at hserved
  unfold LogicalAnyJoin.tryOptimizeJoin at hplan
  generalize join.attempts = attempts at hserved hplan
  induction attempts with
  | nil => cases hserved
  | cons s rest ih =>
    rw [List.findSome?_cons] at hplan
    cases hs : s.tryBuild indexType join.estimatedCardinality with
    | none =>
      rw [List.find?_cons_of_neg (by simp [hs])] at hserved
      rw [hs] at hplan
      exact ih hserved hplan
    | some plan' =>
      rw [List.find?_cons_of_pos (by simp [hs])] at hserved
      rw [hs] at hplan
      obtain rfl := Option.some.inj hserved
      rw [hs, Option.some.inj hplan]

end Accepts

/-! ### Pairs of rows -/

section Pairs

variable {l r : LogicalGet} {x y : ReadRow}

theorem tableIndex_of_mem {get : LogicalGet} {b : ColumnBinding} (h : b ∈ get.columnBindings) :
    b.tableIndex = get.tableIndex := by
  obtain ⟨p, -, rfl⟩ := List.mem_map.mp h
  rfl

theorem pairValue_left {b : ColumnBinding} (hb : b ∈ l.columnBindings) :
    pairValue l r x y b = l.bindingValue x b :=
  if_pos (tableIndex_of_mem hb)

theorem pairValue_right (hne : l.tableIndex ≠ r.tableIndex) {b : ColumnBinding}
    (hb : b ∈ r.columnBindings) :
    pairValue l r x y b = r.bindingValue y b := by
  apply if_neg
  rw [tableIndex_of_mem hb]
  exact hne.symm

theorem pairValue_swap (hne : l.tableIndex ≠ r.tableIndex) {b : ColumnBinding}
    (hb : b ∈ l.columnBindings ++ r.columnBindings) : pairValue r l y x b = pairValue l r x y b := by
  rcases List.mem_append.mp hb with hb | hb
  · rw [pairValue_left hb, pairValue_right hne.symm hb]
  · rw [pairValue_right hne hb, pairValue_left hb]

/-- A pair of rows holds the values of the bindings of both. -/
theorem map_pair (hl : l.WellFormed) (hr : r.WellFormed) (hne : l.tableIndex ≠ r.tableIndex)
    (x y : ReadRow) :
    l.outputColumns.map (cell x.1 x.2) ++ r.outputColumns.map (cell y.1 y.2) =
      (l.columnBindings ++ r.columnBindings).map (pairValue l r x y) := by
  rw [LogicalGet.map_outputColumns hl.outputPositions_lt,
    LogicalGet.map_outputColumns hr.outputPositions_lt, List.map_append]
  congr 1
  · exact List.map_congr_left fun b hb => (pairValue_left hb).symm
  · exact List.map_congr_left fun b hb => (pairValue_right hne hb).symm

/-- A comparison of two columns looks at these only. -/
theorem accepts_congr (I : Interpretation) (value : Value) {name : String} {type : LogicalType}
    {a b : ColumnRef}
    {f g : ColumnBinding → Value} (ha : f a.binding = g a.binding) (hb : f b.binding = g b.binding) :
    (Expression.function name type [.columnRef a.type a.binding, .columnRef b.type b.binding]).accepts
        I value f =
      (Expression.function name type [.columnRef a.type a.binding, .columnRef b.type b.binding]).accepts
        I value g := by
  have heval : ∀ h : ColumnBinding → Value,
      (Expression.function name type [.columnRef a.type a.binding, .columnRef b.type b.binding]).eval I value h =
        I.function name [a.type, b.type] type [h a.binding, h b.binding] := fun _ => rfl
  rw [Expression.accepts, Expression.accepts, heval, heval, ha, hb]

/-- The nested loop over two gets, by pairs of rows. -/
theorem run_eq {join : LogicalAnyJoin} {condition : Expression} (I : Interpretation)
    (view : LogicalGet → Transaction)
    (hcondition : join.condition = some condition) (hchildren : join.children = [.get l, .get r])
    (hl : l.WellFormed) (hr : r.WellFormed) (hne : l.tableIndex ≠ r.tableIndex)
    (hreads : ∀ f g : ColumnBinding → Value, (∀ b ∈ l.columnBindings ++ r.columnBindings, f b = g b) →
      condition.accepts I .null f = condition.accepts I .null g) :
    join.run I view =
      (nestedLoop (fun x y => condition.accepts I .null (pairValue l r x y)) (l.filteredRows I (view l))
        (r.filteredRows I (view r))).map fun q => join.columnBindings.map (pairValue l r q.1 q.2) := by
  unfold LogicalAnyJoin.run LogicalAnyJoin.columnBindings nestedLoop
  rw [hcondition, hchildren]
  simp only [LogicalGet.seqScan, List.flatMap_map, List.map_flatMap, List.map_map]
  apply List.flatMap_congr
  intro x _
  rw [List.filter_map]
  have hrow : ∀ y : ReadRow, (l.outputColumns.map (cell x.1 x.2) ++ ·) (r.outputColumns.map (cell y.1 y.2)) =
      (l.columnBindings ++ r.columnBindings).map (pairValue l r x y) := fun y => map_pair hl hr hne x y
  have hfilter : ∀ y : ReadRow, condition.accepts I .null (resolve (l.columnBindings ++ r.columnBindings)
      ((l.columnBindings ++ r.columnBindings).map (pairValue l r x y))) =
        condition.accepts I .null (pairValue l r x y) :=
    fun y => hreads _ _ fun b hb => resolve_map _ hb
  simp only [Function.comp_def, hrow, hfilter]

end Pairs

/-! ### The rewritten join -/

/-- The rows of the indexed table behind the matches of a probe row. -/
def PhysicalIndexJoin.lookup {n : ℕ} {meos : Meos n} (join : PhysicalIndexJoin meos)
    (table : Snapshot) (row : List Value) :
    List ReadRow :=
  match join.rowMatches row with
  | .error _ => []
  | .ok ids => rowsAt table ids

/-- A joined row for each of them. -/
theorem joinedRows_flatten {n : ℕ} {meos : Meos n} (join : PhysicalIndexJoin meos) (table : Snapshot)
    (inputs : List Chunk) : join.joinedRows table inputs = inputs.flatten.flatMap fun row =>
      (join.lookup table row).map fun y =>
        row ++ join.storageIds.map (cell y.1 y.2) := by
  rw [PhysicalIndexJoin.joinedRows, List.flatten_eq_flatMap, List.flatMap_assoc]
  refine List.flatMap_congr fun input _ => List.flatMap_congr fun row _ => ?_
  unfold PhysicalIndexJoin.lookup
  cases join.rowMatches row with
  | error e => rfl
  | ok ids =>
    simp only [rowsAt, List.map_filterMap, Option.map_map]
    rfl

section Rewritten

variable {join : LogicalAnyJoin} {sides : JoinSides} {plan : LogicalIndexJoin}

/-- The fetched columns are those the indexed side reads. -/
theorem JoinSides.Builds.storage (h : sides.Builds plan) : plan.indexColumns.map
    (fun id => ColumnIndex.storage plan.indexTable.columns (.column id)) = sides.indexed.storageColumns := by
  rw [LogicalGet.storageColumns, h.columnIds, h.indexTable, List.map_map]
  rfl

theorem JoinSides.Builds.columnBindings (h : sides.Builds plan) :
    plan.columnBindings = sides.probe.columnBindings ++ sides.indexed.columnBindings := by
  rw [LogicalIndexJoin.columnBindings, h.child, h.indexBindings]

/-- Where the indexed side returns its columns in their order, the fetched ones are those its bindings
name. -/
theorem outputColumns_of_order (horder : select sides.indexed.columnIds sides.indexed.outputPositions =
    sides.indexed.columnIds) : sides.indexed.outputColumns = sides.indexed.storageColumns := by
  rw [LogicalGet.outputColumns, LogicalGet.storageColumns, ← map_select, horder]

/-- The value the join probes with is that of the operand. -/
theorem probe_value (hwf : sides.WellFormed)
    (hplace : plan.child.outputColumns[plan.probeColumn]? = some (sides.columnOf sides.probeRef.binding))
    (x : ReadRow) : (plan.child.outputColumns.map (cell x.1 x.2))[plan.probeColumn]? =
      some (sides.probe.bindingValue x sides.probeRef.binding) := by
  rw [List.getElem?_map, hplace, JoinSides.columnOf, if_pos (tableIndex_of_mem hwf.probeRef_mem)]
  rfl

/-- So the matches of a probe row are those of the operand. -/
theorem rowMatches_eq (hwf : sides.WellFormed) (h : sides.Builds plan)
    (hplace : plan.child.outputColumns[plan.probeColumn]? = some (sides.columnOf sides.probeRef.binding))
    {n : ℕ} {meos : Meos n} (index : Index meos) (x : ReadRow) :
    (plan.createPlan index).rowMatches (sides.probe.outputColumns.map (cell x.1 x.2)) =
      (plan.createPlan index).probeMatches (sides.probe.bindingValue x sides.probeRef.binding) := by
  have hvalue := probe_value hwf hplace x
  rw [h.child] at hvalue
  exact PhysicalIndexJoin.rowMatches_of_getElem? hvalue

/-- The join of one probe row. -/
theorem joined_row (hwf : sides.WellFormed) (h : sides.Builds plan)
    (horder : select sides.indexed.columnIds sides.indexed.outputPositions = sides.indexed.columnIds)
    {n : ℕ} {meos : Meos n} (index : Index meos) (table : Snapshot) (x : ReadRow) :
    let row := sides.probe.outputColumns.map (cell x.1 x.2)
    (((plan.createPlan index).lookup table row).map fun y =>
        row ++ (plan.createPlan index).storageIds.map (cell y.1 y.2)) =
      ((plan.createPlan index).lookup table row).map fun y =>
        plan.columnBindings.map (pairValue sides.probe sides.indexed x y) := by
  intro row
  have hstorage : (plan.createPlan index).storageIds = sides.indexed.outputColumns := by
    rw [outputColumns_of_order horder]
    exact h.storage
  rw [hstorage, h.columnBindings]
  exact List.map_congr_left fun y _ => map_pair hwf.probe hwf.indexed hwf.tableIndex_ne.symm x y

/-- The rows of the rewritten join are the pairs of the nested loop, with the probe side outside. -/
theorem joinedRows_perm (hwf : sides.WellFormed) (h : sides.Builds plan)
    (hplace : plan.child.outputColumns[plan.probeColumn]? = some (sides.columnOf sides.probeRef.binding))
    (horder : select sides.indexed.columnIds sides.indexed.outputPositions = sides.indexed.columnIds)
    {n : ℕ} {meos : Meos n} {I : Interpretation} {condition : Expression} {index : Index meos}
    {view : LogicalGet → Transaction} {inputs : List Chunk}
    (hanswered : sides.Answered I condition (plan.createPlan index) view)
    (hinputs : inputs.flatten.Perm (sides.probe.seqScan I (view sides.probe))) :
    ((plan.createPlan index).joinedRows (view sides.indexed).snapshot inputs).Perm
      ((nestedLoop (fun x y => condition.accepts I .null (pairValue sides.probe sides.indexed x y))
        (sides.probe.filteredRows I (view sides.probe)) (sides.indexed.filteredRows I (view sides.indexed))).map
        fun q => plan.columnBindings.map (pairValue sides.probe sides.indexed q.1 q.2)) := by
  have hall : sides.indexed.filteredRows I (view sides.indexed) = (view sides.indexed).seqRows := by
    rw [LogicalGet.filteredRows, h.tableFilters]
    exact List.filter_eq_self.mpr fun _ _ => rfl
  have hlookup : ∀ x ∈ sides.probe.filteredRows I (view sides.probe),
      ((plan.createPlan index).lookup (view sides.indexed).snapshot
        (sides.probe.outputColumns.map (cell x.1 x.2))).Perm
          ((sides.indexed.filteredRows I (view sides.indexed)).filter fun y =>
            condition.accepts I .null (pairValue sides.probe sides.indexed x y)) := by
    intro x hx
    obtain ⟨ids, hids, -, hperm⟩ := hanswered x (List.mem_filter.mp hx).1
    rw [hall, PhysicalIndexJoin.lookup, rowMatches_eq hwf h hplace index x, hids]
    exact hperm
  rw [joinedRows_flatten]
  apply (hinputs.flatMap_right _).trans
  rw [LogicalGet.seqScan, List.flatMap_map]
  have hrows := (lookups_perm hlookup).map fun q : ReadRow × ReadRow =>
    plan.columnBindings.map (pairValue sides.probe sides.indexed q.1 q.2)
  rw [List.map_flatMap] at hrows
  refine (List.Perm.of_eq (List.flatMap_congr fun x _ => ?_)).trans hrows
  rw [List.map_map]
  exact joined_row hwf h horder index (view sides.indexed).snapshot x

/-- The plan has the bindings of the join. -/
theorem columnBindings_perm (hwf : sides.WellFormed) (hmem : sides ∈ join.attempts)
    (h : sides.Builds plan) :
    plan.columnBindings.Perm join.columnBindings := by
  obtain ⟨_, _, _, -, hchildren, -⟩ := attempts_spec hwf hmem
  rw [h.columnBindings, LogicalAnyJoin.columnBindings]
  rcases hchildren with hchildren | hchildren <;> rw [hchildren]
  exact List.perm_append_comm

/-- Each row of the probe side can be looked up, and its matches are seen. -/
theorem seen_of_answered (hwf : sides.WellFormed) (h : sides.Builds plan)
    (hplace : plan.child.outputColumns[plan.probeColumn]? = some (sides.columnOf sides.probeRef.binding))
    {n : ℕ} {meos : Meos n} {I : Interpretation} {condition : Expression} {index : Index meos}
    {view : LogicalGet → Transaction} {inputs : List Chunk}
    (hanswered : sides.Answered I condition (plan.createPlan index) view)
    (hinputs : inputs.flatten.Perm (sides.probe.seqScan I (view sides.probe))) :
    (plan.createPlan index).Seen (view sides.indexed).snapshot inputs ∧
      ∀ input ∈ inputs, ∀ row ∈ input, row.length = (plan.createPlan index).probeColumnCount := by
  have hrow : ∀ input ∈ inputs, ∀ row ∈ input, ∃ x ∈ (view sides.probe).seqRows,
      row = plan.child.outputColumns.map (cell x.1 x.2) := by
    intro input hinput row hrow
    have hscan := hinputs.mem_iff.mp (List.mem_flatten_of_mem hinput hrow)
    obtain ⟨x, hx, rfl⟩ := List.mem_map.mp hscan
    exact ⟨x, (List.mem_filter.mp hx).1, by rw [h.child]⟩
  constructor
  · intro input hinput row hr
    obtain ⟨x, hx, rfl⟩ := hrow input hinput row hr
    obtain ⟨ids, hids, hseen, -⟩ := hanswered x hx
    refine ⟨ids, ?_, hseen⟩
    rw [h.child, rowMatches_eq hwf h hplace index x, hids]
  · intro input hinput row hr
    obtain ⟨x, -, rfl⟩ := hrow input hinput row hr
    have hlen : (plan.createPlan index).probeColumnCount =
        (plan.child.types ++ plan.indexTypes).length - plan.indexColumns.length := rfl
    rw [hlen, h.indexTypes, List.length_append, List.length_map, List.length_map, LogicalGet.types,
      List.length_map, LogicalGet.outputColumns, LogicalGet.storageColumns, ← map_select, List.length_map]
    omega

/-- Read by their bindings, the rows of the rewritten join are those of the nested loop. -/
theorem run_perm (hwf : sides.WellFormed) (hmem : sides ∈ join.attempts) (h : sides.Builds plan)
    (hplace : plan.child.outputColumns[plan.probeColumn]? = some (sides.columnOf sides.probeRef.binding))
    (horder : select sides.indexed.columnIds sides.indexed.outputPositions = sides.indexed.columnIds)
    {n : ℕ} {meos : Meos n} (I : Interpretation) (index : Index meos) (view : LogicalGet → Transaction)
    (reset : FetchBuffer → FetchBuffer) (memory : FetchBuffer) (inputs : List Chunk)
    (hanswered : ∀ condition, join.condition = some condition →
      sides.Answered I condition (plan.createPlan index) view)
    (hinputs : inputs.flatten.Perm (sides.probe.seqScan I (view sides.probe))) :
    ∃ out, (∃ calls, ∀ fuel ≥ calls,
      (plan.createPlan index).joinRows (view sides.indexed).snapshot reset fuel inputs memory = .ok out) ∧
      (out.map fun row => join.columnBindings.map (resolve plan.columnBindings row)).Perm
        (join.run I view) := by
  obtain ⟨type, a, b, hcondition, hchildren, hrefs⟩ := attempts_spec hwf hmem
  have hanswer := hanswered _ hcondition
  obtain ⟨hseen, hwidth⟩ := seen_of_answered hwf h hplace hanswer hinputs
  refine ⟨_, PhysicalIndexJoin.joinRows_of_seen reset memory hwidth hseen, ?_⟩
  have hperm := (joinedRows_perm hwf h hplace horder hanswer hinputs).map fun row =>
    join.columnBindings.map (resolve plan.columnBindings row)
  rw [List.map_map] at hperm
  -- every binding of the join is one of the plan
  have hread : ∀ q : ReadRow × ReadRow, join.columnBindings.map (resolve plan.columnBindings
      (plan.columnBindings.map (pairValue sides.probe sides.indexed q.1 q.2))) =
        join.columnBindings.map (pairValue sides.probe sides.indexed q.1 q.2) := by
    intro q
    refine List.map_congr_left fun b hb => resolve_map _ ?_
    exact (columnBindings_perm hwf hmem h).mem_iff.mpr hb
  simp only [Function.comp_def, hread] at hperm
  obtain ⟨ha, hb⟩ : a.binding ∈ sides.probe.columnBindings ++ sides.indexed.columnBindings ∧
      b.binding ∈ sides.probe.columnBindings ++ sides.indexed.columnBindings := by
    have hindexed := List.mem_append_right sides.probe.columnBindings hwf.indexedRef_mem
    have hprobe := List.mem_append_left sides.indexed.columnBindings hwf.probeRef_mem
    rcases hrefs with ⟨rfl, rfl⟩ | ⟨rfl, rfl⟩
    · exact ⟨hindexed, hprobe⟩
    · exact ⟨hprobe, hindexed⟩
  rcases hchildren with hchildren | hchildren
  · rw [run_eq I view hcondition hchildren hwf.probe hwf.indexed hwf.tableIndex_ne.symm]
    · exact hperm
    · intro f g hfg
      exact accepts_congr I .null (hfg _ ha) (hfg _ hb)
  · -- the indexed side is the outer one of the nested loop
    have hcomm : ∀ c ∈ sides.indexed.columnBindings ++ sides.probe.columnBindings,
        c ∈ sides.probe.columnBindings ++ sides.indexed.columnBindings := fun c hc =>
      List.perm_append_comm.mem_iff.mp hc
    rw [run_eq I view hcondition hchildren hwf.indexed hwf.probe hwf.tableIndex_ne]
    · refine hperm.trans (((nestedLoop_swap _ _ _).map _).trans ?_)
      rw [List.map_map]
      have hswap : ∀ (x y : ReadRow), ∀ c ∈ sides.probe.columnBindings ++ sides.indexed.columnBindings,
          pairValue sides.probe sides.indexed x y c = pairValue sides.indexed sides.probe y x c :=
        fun x y c hc => (pairValue_swap hwf.tableIndex_ne.symm hc).symm
      have hpredicate : (fun y x => (Expression.function "&&" type
          [.columnRef a.type a.binding, .columnRef b.type b.binding]).accepts I .null
            (pairValue sides.probe sides.indexed x y)) = fun y x => (Expression.function "&&" type
          [.columnRef a.type a.binding, .columnRef b.type b.binding]).accepts I .null
            (pairValue sides.indexed sides.probe y x) := by
        funext y x
        exact accepts_congr I .null (hswap x y _ ha) (hswap x y _ hb)
      rw [hpredicate]
      refine List.Perm.of_eq (List.map_congr_left fun q _ => List.map_congr_left fun c hc =>
        hswap q.2 q.1 c ?_)
      rw [LogicalAnyJoin.columnBindings, hchildren] at hc
      exact hcomm c hc
    · intro f g hfg
      have hmem : ∀ c ∈ sides.probe.columnBindings ++ sides.indexed.columnBindings, f c = g c :=
        fun c hc =>
        hfg c (List.perm_append_comm.mem_iff.mp hc)
      exact accepts_congr I .null (hmem _ ha) (hmem _ hb)

theorem columnIndex_lt (hwf : sides.WellFormed) :
    sides.probeRef.binding.columnIndex < sides.probe.columnIds.length := by
  obtain ⟨p, hp, heq⟩ := List.mem_map.mp hwf.probeRef_mem
  rw [← heq]
  exact hwf.probe.outputPositions_lt p hp

/-- The join probes with the column of the operand exactly when the projection of the probe side has it at
the place of its column id. -/
theorem probeColumn_iff (hwf : sides.WellFormed) (h : sides.Builds plan) :
    plan.child.outputColumns[plan.probeColumn]? = some (sides.columnOf sides.probeRef.binding) ↔
      (select sides.probe.columnIds sides.probe.outputPositions)[sides.probeRef.binding.columnIndex]? =
        sides.probe.columnIds[sides.probeRef.binding.columnIndex]? := by
  set k := sides.probeRef.binding.columnIndex with hk
  obtain ⟨c, hc⟩ : ∃ c, sides.probe.columnIds[k]? = some c :=
    ⟨_, List.getElem?_eq_getElem (columnIndex_lt hwf)⟩
  have hcolumn : sides.columnOf sides.probeRef.binding = ColumnIndex.storage sides.probe.table.columns c := by
    rw [JoinSides.columnOf, if_pos (tableIndex_of_mem hwf.probeRef_mem), LogicalGet.storageColumns,
      List.getD_eq_getElem?_getD, List.getElem?_map, ← hk, hc]
    rfl
  rw [h.child, h.probeColumn, hcolumn, LogicalGet.outputColumns, LogicalGet.storageColumns,
    ← map_select, List.getElem?_map, ← hk, hc, Option.map_eq_some_iff]
  constructor
  · intro hc
    rcases hc with ⟨c', hc', heq⟩
    have hmem : c' ∈ sides.probe.columnIds := mem_of_mem_select (List.mem_of_getElem? hc')
    rw [hc', hwf.probe.storage_inj hmem (List.mem_of_getElem? hc) heq]
  · exact fun hc' => ⟨c, hc', rfl⟩

theorem map_columnOf (hwf : sides.WellFormed) (h : sides.Builds plan) :
    plan.columnBindings.map sides.columnOf = sides.probe.outputColumns ++ sides.indexed.outputColumns := by
  rw [h.columnBindings, List.map_append, LogicalGet.outputColumns_eq hwf.probe.outputPositions_lt,
    LogicalGet.outputColumns_eq hwf.indexed.outputPositions_lt]
  congr 1
  · exact List.map_congr_left fun b hb => if_pos (tableIndex_of_mem hb)
  · refine List.map_congr_left fun b hb => if_neg ?_
    rw [tableIndex_of_mem hb]
    exact hwf.tableIndex_ne

/-- The chunk holds the columns of the bindings exactly when the indexed side returns its columns in their
order. -/
theorem chunkColumns_iff (hwf : sides.WellFormed) (h : sides.Builds plan) :
    plan.chunkColumns = plan.columnBindings.map sides.columnOf ↔
      select sides.indexed.columnIds sides.indexed.outputPositions = sides.indexed.columnIds := by
  rw [map_columnOf hwf h, LogicalIndexJoin.chunkColumns, h.storage, h.child, List.append_cancel_left_eq]
  constructor
  · intro heq
    rw [LogicalGet.outputColumns, LogicalGet.storageColumns, ← map_select] at heq
    exact (hwf.indexed.map_storage_inj (List.Subset.refl _) (fun _ => mem_of_mem_select) heq).symm
  · exact fun horder => (outputColumns_of_order horder).symm

theorem LogicalGet.WellFormed.types_eq {get : LogicalGet} (hget : get.WellFormed) :
    get.types = get.columnBindings.map fun b =>
      get.columnIdType (get.columnIds.getD b.columnIndex .rowId) := by
  rw [LogicalGet.types, LogicalGet.columnBindings, select_eq_map .rowId hget.outputPositions_lt,
    List.map_map, List.map_map]
  rfl

/-- Then it has their types as well. -/
theorem types_of_order (hwf : sides.WellFormed) (h : sides.Builds plan)
    (horder : select sides.indexed.columnIds sides.indexed.outputPositions = sides.indexed.columnIds) :
    plan.types = plan.columnBindings.map sides.typeOf := by
  have hindexed : plan.indexTypes = sides.indexed.types := by
    rw [LogicalGet.types, horder, h.columnIds, h.indexTypes, List.map_map]
    rfl
  rw [LogicalIndexJoin.types, h.child, hindexed, h.columnBindings, List.map_append, hwf.probe.types_eq,
    hwf.indexed.types_eq]
  congr 1
  · exact List.map_congr_left fun b hb => (if_pos (tableIndex_of_mem hb)).symm
  · refine List.map_congr_left fun b hb => (if_neg ?_).symm
    rw [tableIndex_of_mem hb]
    exact hwf.tableIndex_ne

end Rewritten

/-! ### A filter on a column of the probe side that the query does not select -/

/-- The filtered side of a join. -/
def filteredSide (columnIds : List ColumnIndex) (projectionIds : List ℕ) : LogicalGet where
  functionName := "seq_scan"
  table := secondColumn
  tableIndex := 0
  columnIds := columnIds
  projectionIds := projectionIds
  tableFilters := [(0, notNullFilter)]
  bindData := none
  estimatedCardinality := 0
  hasEstimatedCardinality := false

/-- The other side, over a column of boxes. -/
def boxSide : LogicalGet where
  functionName := "seq_scan"
  table := oneColumn
  tableIndex := 1
  columnIds := [.column 0]
  projectionIds := []
  tableFilters := []
  bindData := none
  estimatedCardinality := 0
  hasEstimatedCardinality := false

/-- The sides of the join, with the second indexed. -/
def filteredSides (columnIds : List ColumnIndex) (projectionIds : List ℕ) (column : ℕ) : JoinSides :=
  ⟨boxSide, filteredSide columnIds projectionIds, ⟨.stbox, ⟨1, 0⟩⟩, ⟨.stbox, ⟨0, column⟩⟩⟩

/-- Their join on `&&`. -/
def filteredJoin (columnIds : List ColumnIndex) (projectionIds : List ℕ) (column : ℕ) :
    LogicalAnyJoin where
  joinType := .inner
  condition := some (.function "&&" .boolean [.columnRef .stbox ⟨0, column⟩, .columnRef .stbox ⟨1, 0⟩])
  children := [.get (filteredSide columnIds projectionIds), .get boxSide]
  estimatedCardinality := 0

theorem filteredSides_wellFormed {columnIds : List ColumnIndex} {projectionIds : List ℕ} {column : ℕ}
    (hcolumns : ∀ i ∈ columnIds, i = .column 0 ∨ i = .column 1)
    (hlt : ∀ p ∈ projectionIds, p < columnIds.length)
    (hmem : ⟨0, column⟩ ∈ (filteredSide columnIds projectionIds).columnBindings) :
    (filteredSides columnIds projectionIds column).WellFormed where
  indexed := by
    refine ⟨fun i hi => ?_, List.Pairwise.nil, fun f hf => ?_, fun p hp => ?_⟩
    · obtain rfl := ColumnIndex.column.inj (List.mem_singleton.mp hi)
      rfl
    · cases hf
    · cases hp
  probe := by
    refine ⟨fun i hi => ?_, List.pairwise_singleton _ _, fun f hf => ?_, hlt⟩
    · rcases hcolumns _ hi with heq | heq <;> obtain rfl := ColumnIndex.column.inj heq <;> rfl
    · obtain rfl := List.mem_singleton.mp hf
      exact ⟨⟨⟨.integer, ""⟩, false⟩, rfl, rfl, rfl, trivial⟩
  tableIndex_ne := Nat.one_ne_zero
  indexedRef_mem := List.mem_singleton_self _
  probeRef_mem := hmem

/-- The index on the second side serves it. -/
theorem filteredJoin_served (columnIds : List ColumnIndex) (projectionIds : List ℕ) (column : ℕ) :
    (filteredJoin columnIds projectionIds column).served .trtree =
        some (filteredSides columnIds projectionIds column) ∧
      ∃ plan, (filteredJoin columnIds projectionIds column).tryOptimizeJoin .trtree = some plan :=
  ⟨rfl, _, rfl⟩

/-- **A rewritten join returns what the nested loop did exactly when** the projection of the probe side has
the column of the operand at the place of its column id, and the indexed side returns the columns it reads
in their order. -/
theorem joinReturnsSame_iff (indexType : IndexType) (join : LogicalAnyJoin) (sides : JoinSides)
    (plan : LogicalIndexJoin) (hserved : join.served indexType = some sides) (hwf : sides.WellFormed)
    (hplan : join.tryOptimizeJoin indexType = some plan) :
    plan.ReturnsSame join sides ↔
      (select sides.probe.columnIds sides.probe.outputPositions)[sides.probeRef.binding.columnIndex]? =
          sides.probe.columnIds[sides.probeRef.binding.columnIndex]? ∧
        select sides.indexed.columnIds sides.indexed.outputPositions = sides.indexed.columnIds := by
  obtain ⟨hmem, hbuild⟩ := tryBuild_of_served hserved hplan
  have hbuilds := builds_of_tryBuild hbuild
  constructor
  · intro h
    exact ⟨(probeColumn_iff hwf hbuilds).mp h.probeColumn, (chunkColumns_iff hwf hbuilds).mp h.chunk⟩
  · intro ⟨hplace, horder⟩
    have hplace := (probeColumn_iff hwf hbuilds).mpr hplace
    exact ⟨hplace, columnBindings_perm hwf hmem hbuilds, (chunkColumns_iff hwf hbuilds).mpr horder,
      types_of_order hwf hbuilds horder, run_perm hwf hmem hbuilds hplace horder⟩

theorem joinReturnsSame_filtered : ∃ plan,
    (filteredJoin [.column 1, .column 0] [0] 0).tryOptimizeJoin .trtree = some plan ∧
      plan.ReturnsSame (filteredJoin [.column 1, .column 0] [0] 0)
        (filteredSides [.column 1, .column 0] [0] 0) := by
  obtain ⟨hserved, plan, hplan⟩ := filteredJoin_served [.column 1, .column 0] [0] 0
  exact ⟨plan, hplan, (joinReturnsSame_iff .trtree (filteredJoin [.column 1, .column 0] [0] 0)
    (filteredSides [.column 1, .column 0] [0] 0) plan hserved
    (filteredSides_wellFormed (by decide) (by decide) (by decide)) hplan).mpr ⟨by decide, by decide⟩⟩

/-- The chunk of a probe side that returns its second column only has nothing at the place of the second
column. -/
theorem joinReturnsSame_unselected :
    ¬ ∀ (join : LogicalAnyJoin) (sides : JoinSides) (plan : LogicalIndexJoin),
    join.served .trtree = some sides → sides.WellFormed → join.tryOptimizeJoin .trtree = some plan →
    plan.ReturnsSame join sides := by
  intro hall
  obtain ⟨hserved, plan, hplan⟩ := filteredJoin_served [.column 0, .column 1] [1] 1
  have hwf := @filteredSides_wellFormed [.column 0, .column 1] [1] 1 (by decide) (by decide) (by decide)
  have hsame := hall _ _ plan hserved hwf hplan
  have hbuilds := builds_of_tryBuild (tryBuild_of_served hserved hplan).2
  have hplace := (probeColumn_iff hwf hbuilds).mp hsame.probeColumn
  exact absurd hplace (by decide)

end MobilityDuck
