/-
# The column a rewritten scan reads

An index keeps its column as a storage number; the filters and the column ids
of a get carry logical numbers, and so does the column the recheck of a
nearest-neighbour scan asks the table for. The optimizer compares the two
numbers as they are. It is right for every query of a table exactly when each
index stands on a number that means the same column both ways, or names no
stored column (`usesOwnColumn_iff`).

Key definitions: `UsesOwnColumn`. Key theorem: `usesOwnColumn_iff`.
-/
import MobilityDuck.OptimizeScan

namespace MobilityDuck

open Lib

/-- A column the get is ordered by: one that an operand of the ordering expression reads. -/
def OrdersBy (get : LogicalGet) (orderExpr : Expression) (logical : ℕ) : Prop :=
  ∃ name type operands t position, orderExpr = .function name type operands ∧
    .columnRef t ⟨get.tableIndex, position⟩ ∈ operands ∧ get.columnIds[position]? = some (.column logical)

/-- Every scan that an index of the table replaces filters or orders by the column the index was built
over, and the recheck reads that column. -/
structure UsesOwnColumn (sets : SetMatcher) (table : TableEntry) : Prop where
  filtered : ∀ indexType get plan matched scan, get.WellFormed → get.table = table →
    tryOptimizeLogicalGet sets indexType get = (true, plan) →
    get.findMatch sets indexType = some (matched, scan) →
    storageOid table.columns matched = some scan.index.columnId
  ordered : ∀ indexType orders limit offset children plan ordered scan logical,
    resolveOrderedGet orders limit offset children = some ordered → ordered.get.WellFormed →
    ordered.get.table = table →
    tryOptimizeLogicalTopN sets indexType orders limit offset children = (true, plan) →
    ordered.get.findNearest sets indexType ordered.orderExpr (offset + limit) = some scan →
    OrdersBy ordered.get ordered.orderExpr logical →
    storageOid table.columns logical = some scan.index.columnId ∧
      ∀ (n : ℕ) (meos : Meos n) (index : Index meos), index.info = scan.index →
        recheckColumn (scan.bindData table.columns index) = .column scan.index.columnId

/-- A box of zeros. -/
def zeroBox (t : MeosType) : Constant where
  type := t.logicalType
  value := .blob (List.replicate t.boxSize 0)
  holds := by
    refine ⟨t.logicalType_id, fun t' ht => ?_⟩
    have hsome : some t = some t' := by rw [← bboxTypeOf_logicalType t, ht, bboxTypeOf_logicalType]
    obtain rfl := Option.some.inj hsome
    exact List.length_replicate

theorem queryBytes_zeroBox (t : MeosType) :
    queryBytes (zeroBox t) = some (List.replicate t.boxSize 0) := by
  have hid : (zeroBox t).type.id = .blob := t.logicalType_id
  rw [queryBytes, if_pos hid]
  rfl

theorem overlaps_isSome (t : MeosType) : (indexSearchOpFromName "&&" t false).isSome := by
  cases t <;> decide

/-- An operand of the indexed type: the column itself if it is of that type, otherwise a function of it. -/
def indexedOperand (info : IndexInfo) (type : LogicalType) : Expression :=
  if type = info.columnType then .reference type else .function "f" info.columnType [.reference type]

theorem indexedOperand_spec (info : IndexInfo) (type : LogicalType) :
    (indexedOperand info type).returnType = info.columnType ∧ (indexedOperand info type).asConstant = none ∧
      (indexedOperand info type).Over type := by
  unfold indexedOperand
  split
  · rename_i htype
    exact ⟨htype, rfl, by rw [Expression.Over]⟩
  · exact ⟨rfl, rfl, by simp [Expression.Over, Expression.OverAll]⟩

/-- A predicate over a column of some type that an index takes. -/
def overlapsZero (info : IndexInfo) (type : LogicalType) : Expression :=
  .function "&&" .boolean [indexedOperand info type, .constant (zeroBox info.bboxType)]

theorem matchFilter_overlapsZero (sets : SetMatcher) (info : IndexInfo) (type : LogicalType) :
    info.matchFilter sets ⟨.expressionFilter, overlapsZero info type⟩ =
      some ⟨info, 1000, List.replicate info.bboxType.boxSize 0, "&&", false⟩ := by
  obtain ⟨htype, hconst, -⟩ := indexedOperand_spec info type
  have hc : [indexedOperand info type, .constant (zeroBox info.bboxType)].filterMap Expression.asConstant =
      [zeroBox info.bboxType] := by
    rw [List.filterMap_cons, hconst]
    rfl
  have hop := overlaps_isSome info.bboxType
  have hmatch := matchFilter_pair sets "&&" .boolean (.inl htype) hc (queryBytes_zeroBox _)
    (by rw [hconst]; exact hop)
  rwa [hconst] at hmatch

/-- A get with that one filter. -/
def overlapsGet (table : TableEntry) (info : IndexInfo) (column : ColumnDefinition) : LogicalGet where
  functionName := "seq_scan"
  table := table
  tableIndex := 0
  columnIds := [.column info.columnId]
  projectionIds := []
  tableFilters := [(info.columnId, ⟨.expressionFilter, overlapsZero info column.type⟩)]
  bindData := none
  estimatedCardinality := 0
  hasEstimatedCardinality := false

theorem overlapsGet_wellFormed {table : TableEntry} {info : IndexInfo} {column : ColumnDefinition}
    (hcolumn : table.columns[info.columnId]? = some column) (hstored : column.generated = false) :
    (overlapsGet table info column).WellFormed where
  columnIds_stored i hi := by
    obtain rfl := ColumnIndex.column.inj (List.mem_singleton.mp hi)
    show (storageOid table.columns info.columnId).isSome
    simp [storageOid, hcolumn, hstored]
  filters_sorted := List.pairwise_singleton _ _
  filters_over f hf := by
    obtain rfl := List.mem_singleton.mp hf
    refine ⟨column, hcolumn, hstored, ?_⟩
    simp [overlapsZero, Expression.Over, Expression.OverAll, (indexedOperand_spec info column.type).2.2]
  projectionIds_lt p hp := nomatch hp

/-- It is rewritten. -/
theorem overlapsGet_rewritten (sets : SetMatcher) {table : TableEntry}
    (hduck : table.isDuckTable = true)
    {info : IndexInfo} (hinfo : info ∈ table.indexes) (column : ColumnDefinition) :
    ∃ plan matched scan,
      tryOptimizeLogicalGet sets info.indexType (overlapsGet table info column) = (true, plan) ∧
      (overlapsGet table info column).findMatch sets info.indexType = some (matched, scan) ∧
      matched = info.columnId ∧ scan.index.columnId = info.columnId := by
  obtain ⟨⟨matched, scan⟩, hfind⟩ := Option.isSome_iff_exists.mp (findMatch_isSome sets
    (overlapsGet table info column) List.mem_cons_self hinfo rfl
    (matchFilter_overlapsZero sets info column.type))
  obtain ⟨filter, hfilter, -, -, hcol, -⟩ := findMatch_eq_some hfind
  obtain rfl : matched = info.columnId := (Prod.mk.inj (List.mem_singleton.mp hfilter)).1
  have hres : (overlapsGet table info column).residuals info.columnId
      (overlapsGet table info column).projectionIds (overlapsGet table info column).tableFilters [] =
        (true, overlapsGet table info column, []) := by
    show LogicalGet.residuals _ _ [(info.columnId, _)] _ _ = _
    rw [LogicalGet.residuals, if_pos rfl, LogicalGet.residuals]
  exact ⟨_, info.columnId, scan, tryOptimizeLogicalGet_of_residuals rfl hduck hfind hres, hfind, rfl, hcol⟩

/-- **The rewrites use every index for its own column exactly when** each index's number, where it is
the logical number of a stored column, is the storage number of that column as well. -/
theorem usesOwnColumn_iff (sets : SetMatcher) (table : TableEntry) (hduck : table.isDuckTable = true) :
    UsesOwnColumn sets table ↔ ∀ info ∈ table.indexes, ∀ column, table.columns[info.columnId]? = some column →
      column.generated = false → storageOid table.columns info.columnId = some info.columnId := by
  constructor
  · intro h info hinfo column hcolumn hstored
    obtain ⟨plan, matched, scan, hplan, hfind, rfl, hscan⟩ :=
      overlapsGet_rewritten sets hduck hinfo column
    have hown := h.filtered _ _ _ _ _ (overlapsGet_wellFormed hcolumn hstored) rfl hplan hfind
    rwa [hscan] at hown
  · intro h
    constructor
    · intro indexType get plan matched scan hget htable _ hfind
      obtain ⟨filter, hfilter, hinfo, -, rfl, -⟩ := findMatch_eq_some hfind
      obtain ⟨column, hcolumn, hstored, -⟩ := hget.filters_over _ hfilter
      rw [htable] at hinfo hcolumn
      exact h scan.index hinfo column hcolumn hstored
    · intro indexType orders limit offset children plan ordered scan logical _ hget htable _ hfind horders
      obtain ⟨hinfo, -, hmatch⟩ := findNearest_eq_some hfind
      obtain ⟨type, x, y, t, c, box, position, he, hpos, hoperands, -, -, -⟩ :=
        matchNearest_eq_some hmatch
      obtain ⟨name', type', operands, t', position', he', hmem, hlogical⟩ := horders
      -- the one column operand is the one at the position of the index's number
      obtain ⟨-, -, rfl⟩ := Expression.function.inj (he.symm.trans he')
      have hsame : t' = t ∧ position' = position := by
        rcases hoperands with ⟨rfl, rfl⟩ | ⟨rfl, rfl⟩ <;> simpa using hmem
      rw [hsame.2, position?_eq_some hpos] at hlogical
      obtain rfl := ColumnIndex.column.inj (Option.some.inj hlogical)
      obtain ⟨p, hp⟩ := Option.isSome_iff_exists.mp
        (hget.columnIds_stored _ (List.mem_of_getElem? (position?_eq_some hpos)))
      rw [htable] at hinfo hp
      obtain ⟨column, hcolumn, hstored, -⟩ := storageOid_eq_some hp
      have hown := h scan.index hinfo column hcolumn hstored
      refine ⟨hown, fun n meos index hindex => ?_⟩
      show ColumnIndex.storage table.columns (.column index.info.columnId) = _
      rw [hindex, ColumnIndex.storage, hown]

/-- A table of one column, indexed. -/
def oneColumn : TableEntry where
  columns := [⟨.stbox, false⟩]
  indexes := [⟨"i", .trtree, [0], .stbox, .stbox, bboxTypeOf_stbox⟩]
  isDuckTable := true
  cardinality := none
  created info hinfo := by
    obtain rfl := List.mem_singleton.mp hinfo
    exact ⟨0, ⟨.stbox, false⟩, rfl, rfl, rfl⟩

/-- Columns of integers and of boxes, of which the boxes are indexed, before a generated column and more boxes. -/
def beforeGenerated : TableEntry where
  columns := [⟨⟨.integer, ""⟩, false⟩, ⟨.stbox, false⟩, ⟨⟨.integer, ""⟩, true⟩, ⟨.stbox, false⟩]
  indexes := [⟨"i", .trtree, [1], .stbox, .stbox, bboxTypeOf_stbox⟩]
  isDuckTable := true
  cardinality := none
  created info hinfo := by
    obtain rfl := List.mem_singleton.mp hinfo
    exact ⟨1, ⟨.stbox, false⟩, rfl, rfl, rfl⟩

theorem usesOwnColumn_beforeGenerated : UsesOwnColumn .backtracking beforeGenerated := by
  apply (usesOwnColumn_iff .backtracking beforeGenerated rfl).mpr
  intro info hinfo column _ _
  obtain rfl := List.mem_singleton.mp hinfo
  rfl

/-- An indexed column of boxes behind a column of integers. -/
def secondColumn : TableEntry where
  columns := [⟨⟨.integer, ""⟩, false⟩, ⟨.stbox, false⟩]
  indexes := [⟨"i", .trtree, [1], .stbox, .stbox, bboxTypeOf_stbox⟩]
  isDuckTable := true
  cardinality := none
  created info hinfo := by
    obtain rfl := List.mem_singleton.mp hinfo
    exact ⟨1, ⟨.stbox, false⟩, rfl, rfl, rfl⟩

/-- A filter on the integers. -/
def notNullFilter : TableFilter :=
  ⟨.isNotNull, .other "IS NOT NULL" .boolean [.reference ⟨.integer, ""⟩]⟩

/-- A generated column before two columns of boxes, of which the second is indexed: its storage number
is the logical number of the first. -/
def behindGenerated : TableEntry where
  columns := [⟨⟨.integer, ""⟩, true⟩, ⟨.stbox, false⟩, ⟨.stbox, false⟩]
  indexes := [⟨"i", .trtree, [1], .stbox, .stbox, bboxTypeOf_stbox⟩]
  isDuckTable := true
  cardinality := none
  created info hinfo := by
    obtain rfl := List.mem_singleton.mp hinfo
    exact ⟨2, ⟨.stbox, false⟩, rfl, rfl, rfl⟩

/-- A filter on the first column of boxes is answered from the boxes of the second. -/
theorem usesOwnColumn_behindGenerated : ¬ UsesOwnColumn .backtracking behindGenerated := by
  intro h
  have hinfo : (⟨"i", .trtree, [1], .stbox, .stbox, bboxTypeOf_stbox⟩ : IndexInfo) ∈ behindGenerated.indexes :=
    List.mem_cons_self
  obtain ⟨plan, matched, scan, hplan, hfind, rfl, hscan⟩ :=
    overlapsGet_rewritten .backtracking rfl hinfo ⟨.stbox, false⟩
  have hown := h.filtered _ _ _ _ _ (overlapsGet_wellFormed rfl rfl) rfl hplan hfind
  rw [hscan] at hown
  exact absurd hown (by decide)

end MobilityDuck
