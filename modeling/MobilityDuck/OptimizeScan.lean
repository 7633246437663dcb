/-
# The optimizer that puts an index in the place of a scan

`TRTreeIndexScanOptimizer` and `TSPTreeIndexScanOptimizer` look at two kinds
of plan. A get with pushed-down filters (`tryOptimizeLogicalGet`) is rewritten
when an index answers one of the filters; the others become residual
predicates of a filter above, which needs their columns and drops them again.
A TopN that orders by one distance (`tryOptimizeLogicalTopN`) is rewritten
when an index can read its rows nearest first.

The scan that takes the place is a `PlannedScan`; what the optimizer takes for
its query is said by `matchFilter_eq_some` and `matchNearest_eq_some`, and
what it does to the plan by `tryOptimizeLogicalGet_eq_true` and
`tryOptimizeLogicalTopN_eq_true`.

Key definitions: `TableEntry`, `PlannedScan`, `LogicalGet`,
`LogicalOperator`, `IndexInfo.matchFilter`, `tryOptimizeLogicalGet`,
`IndexInfo.matchNearest`, `tryOptimizeLogicalTopN`.
-/
import MobilityDuck.Expression

namespace MobilityDuck

open Lib

/-! ### Tables and plans -/

/-- `PhysicalCreateTRTreeIndex`: the index is created with the storage numbers of its columns. -/
def physicalCreateIndex (columns : ColumnList) (name : String) (indexType : IndexType)
    (columnIds : List ℕ) (types : List LogicalType) : Except Exception IndexInfo :=
  IndexInfo.create name indexType (columnIds.filterMap (storageOid columns)) types

/-- The index was created over this column of the table. -/
def IndexInfo.CreatedOn (info : IndexInfo) (columns : ColumnList) (logical : ℕ) : Prop :=
  ∃ column, columns[logical]? = some column ∧ column.generated = false ∧
    physicalCreateIndex columns info.name info.indexType [logical] [column.type] = .ok info

/-- `DuckTableEntry`, with its bound indexes and the cardinality its sequential scan reports. -/
structure TableEntry where
  columns : ColumnList
  indexes : List IndexInfo
  isDuckTable : Bool
  cardinality : Option ℕ
  created : ∀ info ∈ indexes, ∃ logical, info.CreatedOn columns logical

/-- `TableFilterType`. -/
inductive TableFilterType
  | constantComparison
  | isNull
  | isNotNull
  | conjunction
  | expressionFilter
  | other
  deriving DecidableEq, Repr

/-- A filter pushed down to a column: its kind, and the predicate it stands for. -/
structure TableFilter where
  filterType : TableFilterType
  expr : Expression

/-- The bind data of an index scan, as the planner fills it; the index is known by what it was created
with. -/
structure PlannedScan where
  index : IndexInfo
  limit : ℕ
  queryBox : List UInt8
  operation : String
  queryOnLeft : Bool

/-- The bind data, over an index with its rows. -/
def PlannedScan.bindData {n : ℕ} {meos : Meos n} (scan : PlannedScan) (columns : ColumnList)
    (index : Index meos) :
    IndexScanBindData meos :=
  ⟨columns, index, scan.limit, scan.queryBox, scan.operation, scan.queryOnLeft⟩

/-- `LogicalGet`; `tableFilters` are sorted by the logical number of their column. -/
structure LogicalGet where
  functionName : String
  table : TableEntry
  tableIndex : ℕ
  columnIds : List ColumnIndex
  projectionIds : List ℕ
  tableFilters : List (ℕ × TableFilter)
  bindData : Option PlannedScan
  estimatedCardinality : ℕ
  hasEstimatedCardinality : Bool

/-- What the planner promises of a get: it reads and filters stored columns only, a filter reads its
own column, and projection ids are positions among the column ids. -/
structure LogicalGet.WellFormed (get : LogicalGet) : Prop where
  columnIds_stored : ∀ i, .column i ∈ get.columnIds → (storageOid get.table.columns i).isSome
  filters_sorted : get.tableFilters.Pairwise (·.1 < ·.1)
  filters_over : ∀ f ∈ get.tableFilters, ∃ column, get.table.columns[f.1]? = some column ∧
    column.generated = false ∧ f.2.expr.Over column.type
  projectionIds_lt : ∀ p ∈ get.projectionIds, p < get.columnIds.length

/-- `BoundOrderByNode`. -/
structure OrderByNode where
  descending : Bool
  nullsFirst : Bool
  expression : Expression

/-- The plans the optimizers tell apart. -/
inductive LogicalOperator
  | get (get : LogicalGet)
  | filter (expressions : List Expression) (projectionMap : List ℕ) (children : List LogicalOperator)
  | projection (tableIndex : ℕ) (expressions : List Expression) (children : List LogicalOperator)
  | topN (orders : List OrderByNode) (limit offset : ℕ) (children : List LogicalOperator)
  | other (children : List LogicalOperator)

/-- The name of the index scan (`GetFunction`). -/
def IndexType.scanName : IndexType → String
  | .trtree => "mobility rtree index"
  | .tsptree => "mobility sptree index"

/-! ### The query of a filter -/

def epochOffsetMicros : Int64 := 10957 * 86400000000

/-- `DuckDBToMeosTimestamp`. -/
def duckDBToMeosTimestamp (micros : Int64) : Int64 := micros - epochOffsetMicros

/-- The bytes the optimizer hands to the scan for a constant. -/
def queryBytes (c : Constant) : Option (List UInt8) :=
  if c.type.id = .blob then
    match c.value with
    | .blob bytes => some bytes
    | _ => none
  else if c.type.id = .timestampTz then
    match c.value with
    | .timestampTz micros => some (encodeInt64 (duckDBToMeosTimestamp micros))
    | _ => none
  else none

/-- `const_expr`: the last constant among the bindings. -/
def constantOf (bindings : List Expression) : Option Constant :=
  (bindings.filterMap Expression.asConstant).getLast?

/-- `query_on_left`. -/
def queryOnLeft (children : List Expression) : Bool :=
  children.length = 2 && (children.head?.bind Expression.asConstant).isSome

/-- The callback of `TryOptimizeLogicalGet` on an index over the filtered column. -/
def IndexInfo.matchFilter (sets : SetMatcher) (info : IndexInfo) (filter : TableFilter) :
    Option PlannedScan :=
  if filter.filterType ≠ .expressionFilter then none
  else
    (info.tryMatchDistanceFunction sets filter.expr).bind fun bindings =>
      match filter.expr with
      | .function name _ children =>
        (indexSearchOpFromName name info.bboxType (queryOnLeft children)).bind fun _ =>
          ((constantOf bindings).bind queryBytes).map fun box => ⟨info, 1000, box, name, queryOnLeft children⟩
      | _ => none

/-- The loop over the filters and the indexes: the matched column, and the scan. -/
def LogicalGet.findMatch (sets : SetMatcher) (indexType : IndexType) (get : LogicalGet) :
    Option (ℕ × PlannedScan) :=
  get.tableFilters.findSome? fun f =>
    get.table.indexes.findSome? fun info =>
      if info.indexType ≠ indexType then none
      else if info.columnId ≠ f.1 then none
      else (info.matchFilter sets f.2).map (f.1, ·)

/-! ### Rewriting a get -/

/-- `GetColumnType`. -/
def LogicalGet.columnType (get : LogicalGet) (logical : ℕ) : LogicalType :=
  match get.table.columns[logical]? with
  | some column => column.type
  | none => ⟨.other, ""⟩

/-- The position of a table column among the columns the get reads. -/
def LogicalGet.position? (get : LogicalGet) (logical : ℕ) : Option ℕ :=
  get.columnIds.findIdx? (· = .column logical)

/-- The projection with one more column, unless it is there or everything is projected. -/
def extendProjection (original projectionIds : List ℕ) (position : ℕ) : List ℕ :=
  if original ≠ [] ∧ position ∉ projectionIds then projectionIds ++ [position] else projectionIds

/-- The loop that builds the residual predicates. It extends the projection as it goes, also when it
gives up at a later filter. -/
def LogicalGet.residuals (matched : ℕ) (original : List ℕ) : List (ℕ × TableFilter) → LogicalGet →
    List Expression → Bool × LogicalGet × List Expression
  | [], get, residual => (true, get, residual)
  | (key, filter) :: rest, get, residual =>
    if key = matched then residuals matched original rest get residual
    else
      match get.position? key with
      | none => (false, get, residual)
      | some position =>
        residuals matched original rest
          { get with projectionIds := extendProjection original get.projectionIds position }
          (residual ++ [filter.expr.over (.columnRef (get.columnType key) ⟨get.tableIndex, position⟩)])

/-- The get that reads the index. -/
def LogicalGet.readIndex (get : LogicalGet) (indexType : IndexType) (scan : PlannedScan) : LogicalGet :=
  { get with
    functionName := indexType.scanName
    bindData := some scan
    estimatedCardinality := get.table.cardinality.getD 0
    hasEstimatedCardinality := get.table.cardinality.isSome }

/-- The get under the filter of the residual predicates: it keeps the matched filter only. -/
def LogicalGet.onlyFilter (get : LogicalGet) (matched : ℕ) : LogicalGet :=
  { get with tableFilters := get.tableFilters.filter (·.1 = matched) }

/-- The rewritten plan: the get that reads the index, under the filter of the residual predicates if
there are any. -/
def LogicalGet.rewritten (get : LogicalGet) (indexType : IndexType) (matched : ℕ) (scan : PlannedScan)
    (original : List ℕ) (residual : List Expression) : LogicalOperator :=
  if residual.isEmpty then .get (get.readIndex indexType scan)
  else .filter residual (List.range original.length) [.get ((get.readIndex indexType scan).onlyFilter matched)]

/-- `TryOptimizeLogicalGet`: whether the plan was rewritten, and the plan. -/
def tryOptimizeLogicalGet (sets : SetMatcher) (indexType : IndexType) (get : LogicalGet) :
    Bool × LogicalOperator :=
  if get.functionName ≠ "seq_scan" ∨ get.table.isDuckTable = false then (false, .get get)
  else
    match get.findMatch sets indexType with
    | none => (false, .get get)
    | some (matched, scan) =>
      match get.residuals matched get.projectionIds get.tableFilters [] with
      | (false, get', _) => (false, .get get')
      | (true, get', residual) => (true, get'.rewritten indexType matched scan get.projectionIds residual)

/-! ### Rewriting a TopN -/

/-- What `ResolveOrderedGet` finds below a TopN, and the plan around the get. -/
structure OrderedGet where
  get : LogicalGet
  orderExpr : Expression
  around : LogicalGet → LogicalOperator

/-- `ResolveOrderedGet`. -/
def resolveOrderedGet (orders : List OrderByNode) (limit offset : ℕ) (children : List LogicalOperator) :
    Option OrderedGet :=
  match children, orders with
  | [.get get], order :: _ => some ⟨get, order.expression, fun g => .topN orders limit offset [.get g]⟩
  | [.projection tableIndex expressions [.get get]], order :: _ =>
    match order.expression with
    | .columnRef _ binding =>
      if binding.tableIndex ≠ tableIndex then none
      else expressions[binding.columnIndex]?.map fun e =>
        ⟨get, e, fun g => .topN orders limit offset [.projection tableIndex expressions [.get g]]⟩
    | _ => none
  | _, _ => none

/-- Whether an operand reads a position of the get. -/
def readsPosition (tableIndex position : ℕ) : Expression → Bool
  | .columnRef _ binding => binding = ⟨tableIndex, position⟩
  | _ => false

/-- The bytes of a constant of a box type. -/
def Constant.blobBytes (c : Constant) : Option (List UInt8) :=
  match c.value with
  | .blob bytes => some bytes
  | _ => none

/-- The callback of `TryOptimizeLogicalTopN`. -/
def IndexInfo.matchNearest (sets : SetMatcher) (info : IndexInfo) (get : LogicalGet)
    (orderExpr : Expression) (limit : ℕ) : Option PlannedScan :=
  (info.tryMatchNearestFunction sets orderExpr).bind fun bindings =>
    (get.position? info.columnId).bind fun indexedPosition =>
      if bindings.any (readsPosition get.tableIndex indexedPosition) then
        ((constantOf bindings).bind Constant.blobBytes).map fun box => ⟨info, limit, box, nnOperation, false⟩
      else none

/-- The loop over the indexes. -/
def LogicalGet.findNearest (sets : SetMatcher) (indexType : IndexType) (get : LogicalGet)
    (orderExpr : Expression) (limit : ℕ) : Option PlannedScan :=
  get.table.indexes.findSome? fun info =>
    if info.indexType ≠ indexType then none else info.matchNearest sets get orderExpr limit

/-- The get that reads the index nearest first. -/
def LogicalGet.readNearest (get : LogicalGet) (indexType : IndexType) (scan : PlannedScan) :
    LogicalGet :=
  { get with
    functionName := indexType.scanName
    bindData := some scan
    estimatedCardinality := scan.limit
    hasEstimatedCardinality := true }

/-- `TryOptimizeLogicalTopN`: whether the plan was rewritten, and the plan. -/
def tryOptimizeLogicalTopN (sets : SetMatcher) (indexType : IndexType) (orders : List OrderByNode)
    (limit offset : ℕ) (children : List LogicalOperator) : Bool × LogicalOperator :=
  let plan := LogicalOperator.topN orders limit offset children
  if orders.length ≠ 1 ∨ orders.any (·.descending) ∨ limit = 0 then (false, plan)
  else
    match resolveOrderedGet orders limit offset children with
    | none => (false, plan)
    | some ordered =>
      let get := ordered.get
      if get.functionName ≠ "seq_scan" ∨ get.table.isDuckTable = false ∨ get.tableFilters ≠ [] then
        (false, plan)
      else
        match get.findNearest sets indexType ordered.orderExpr (offset + limit) with
        | none => (false, plan)
        | some scan => (true, ordered.around (get.readNearest indexType scan))

/-! ### What the optimizer accepts -/

section Accepts

variable {sets : SetMatcher} {indexType : IndexType} {info : IndexInfo} {scan : PlannedScan}

/-- The constant the optimizer takes is one of the operands. -/
theorem constant_of_constantOf {name : String} {type : LogicalType} {x y : Expression}
    {bindings : List Expression}
    (hp : bindings.Perm [.function name type [x, y], x, y]) {c : Constant}
    (h : constantOf bindings = some c) :
    x = .constant c ∨ y = .constant c := by
  obtain ⟨e, he, hc⟩ := List.mem_filterMap.mp (List.mem_of_getLast? h)
  have hconst : e = .constant c := by
    cases e with
    | constant c' =>
      obtain rfl := Option.some.inj hc
      rfl
    | reference | columnRef | function | other => cases hc
  rw [hp.mem_iff, hconst] at he
  simp only [List.mem_cons, reduceCtorEq, false_or, List.not_mem_nil, or_false] at he
  exact he.imp Eq.symm Eq.symm

/-- If there is one constant operand, it is taken. -/
theorem constantOf_eq_some {name : String} {type : LogicalType} {x y : Expression}
    {bindings : List Expression}
    (hp : bindings.Perm [.function name type [x, y], x, y]) {c : Constant}
    (h : [x, y].filterMap Expression.asConstant = [c]) : constantOf bindings = some c := by
  have hperm : (bindings.filterMap Expression.asConstant).Perm [c] := by
    rw [← h]
    exact hp.filterMap Expression.asConstant
  rw [constantOf, List.perm_singleton.mp hperm]
  rfl

@[simp] theorem queryOnLeft_pair (x y : Expression) : queryOnLeft [x, y] = x.asConstant.isSome := rfl

theorem operandMatcher_some {type : LogicalType} {e : Expression} :
    operandMatcher (some type) e = true ↔ e.returnType = type := by
  simp [operandMatcher]

/-- What an index takes for its query: an operator it answers between two operands, one of them of the
column's type, and one of them a constant. -/
theorem matchFilter_eq_some {filter : TableFilter} (h : info.matchFilter sets filter = some scan) :
    ∃ name type x y c box, filter.filterType = .expressionFilter ∧
    filter.expr = .function name type [x, y] ∧
      (x.returnType = info.columnType ∨ y.returnType = info.columnType) ∧
      (x = .constant c ∨ y = .constant c) ∧ queryBytes c = some box ∧
      (indexSearchOpFromName name info.bboxType x.asConstant.isSome).isSome ∧
      scan = ⟨info, 1000, box, name, x.asConstant.isSome⟩ := by
  unfold IndexInfo.matchFilter at h
  split at h
  · simp at h
  rename_i hkind
  obtain ⟨bindings, hmatch, h⟩ := Option.bind_eq_some_iff.mp h
  obtain ⟨name, type, x, y, he, -, hp, htype⟩ := match_pair_eq_some hmatch
  rw [he] at h hp
  obtain ⟨op, hop, h⟩ := Option.bind_eq_some_iff.mp h
  obtain ⟨box, hbox, rfl⟩ := Option.map_eq_some_iff.mp h
  obtain ⟨c, hc, hbytes⟩ := Option.bind_eq_some_iff.mp hbox
  rw [queryOnLeft_pair] at hop
  refine ⟨name, type, x, y, c, box, not_not.mp hkind, he, ?_, constant_of_constantOf hp hc, hbytes, ?_, rfl⟩
  · exact htype.imp (fun h => operandMatcher_some.mp h.1) fun h => operandMatcher_some.mp h.1
  · exact Option.isSome_iff_exists.mpr ⟨op, hop⟩

/-- And it takes every such predicate with one constant. -/
theorem matchFilter_pair (sets : SetMatcher) (name : String) (type : LogicalType) {x y : Expression}
    {c : Constant} {box : List UInt8}
    (htype : x.returnType = info.columnType ∨ y.returnType = info.columnType)
    (hc : [x, y].filterMap Expression.asConstant = [c]) (hbox : queryBytes c = some box)
    (hop : (indexSearchOpFromName name info.bboxType x.asConstant.isSome).isSome) :
    info.matchFilter sets ⟨.expressionFilter, .function name type [x, y]⟩ =
      some ⟨info, 1000, box, name, x.asConstant.isSome⟩ := by
  obtain ⟨op, hop⟩ := Option.isSome_iff_exists.mp hop
  have hname : name ∈ indexOperatorNames info.bboxType := mem_indexOperatorNames hop
  have hoperands : (operandMatcher (some info.columnType) x = true ∧ operandMatcher none y = true) ∨
      (operandMatcher (some info.columnType) y = true ∧ operandMatcher none x = true) :=
    htype.imp (fun h => ⟨operandMatcher_some.mpr h, rfl⟩) fun h => ⟨operandMatcher_some.mpr h, rfl⟩
  obtain ⟨bindings, hmatch⟩ := Option.isSome_iff_exists.mp (match_pair_isSome sets type hname hoperands)
  obtain ⟨name', type', x', y', he, -, hp, -⟩ := match_pair_eq_some hmatch
  obtain ⟨rfl, rfl, hchildren⟩ := Expression.function.inj he
  obtain ⟨rfl, rfl⟩ : x = x' ∧ y = y' := by simpa using hchildren
  unfold IndexInfo.matchFilter
  rw [if_neg (not_not.mpr rfl), IndexInfo.tryMatchDistanceFunction, IndexInfo.makeFunctionMatcher,
    hmatch]
  simp only [Option.bind_some, queryOnLeft_pair, hop, constantOf_eq_some hp hc, hbox, Option.map_some]

/-- The matched filter is one of the get's, and the index found for it keeps the number of its column. -/
theorem findMatch_eq_some {get : LogicalGet} {matched : ℕ}
    (h : get.findMatch sets indexType = some (matched, scan)) :
    ∃ filter, (matched, filter) ∈ get.tableFilters ∧ scan.index ∈ get.table.indexes ∧
      scan.index.indexType = indexType ∧ scan.index.columnId = matched ∧
      scan.index.matchFilter sets filter = some scan := by
  obtain ⟨⟨key, filter⟩, hf, h⟩ := List.exists_of_findSome?_eq_some h
  obtain ⟨info, hinfo, h⟩ := List.exists_of_findSome?_eq_some h
  by_cases htype : info.indexType ≠ indexType
  · rw [if_pos htype] at h
    simp at h
  by_cases hcol : info.columnId ≠ key
  · rw [if_neg htype, if_pos hcol] at h
    simp at h
  rw [if_neg htype, if_neg hcol] at h
  obtain ⟨scan', hscan, heq⟩ := Option.map_eq_some_iff.mp h
  obtain ⟨rfl, rfl⟩ := Prod.mk.inj heq
  have hindex : scan'.index = info := by
    obtain ⟨_, _, _, _, _, _, -, -, -, -, -, -, rfl⟩ := matchFilter_eq_some hscan
    rfl
  rw [hindex]
  exact ⟨filter, hf, hinfo, not_not.mp htype, not_not.mp hcol, hscan⟩

/-- A match is found where an index answers the filter of its own number. -/
theorem findMatch_isSome (sets : SetMatcher) (get : LogicalGet) {f : ℕ × TableFilter}
    (hf : f ∈ get.tableFilters) (hinfo : info ∈ get.table.indexes) (hcol : info.columnId = f.1)
    (hscan : info.matchFilter sets f.2 = some scan) :
    (get.findMatch sets info.indexType).isSome := by
  refine List.findSome?_isSome_iff.mpr ⟨f, hf, List.findSome?_isSome_iff.mpr ⟨info, hinfo, ?_⟩⟩
  rw [if_neg (not_not.mpr rfl), if_neg (not_not.mpr hcol), hscan]
  rfl

/-- How a get is rewritten. -/
theorem tryOptimizeLogicalGet_eq_true {get : LogicalGet} {plan : LogicalOperator}
    (h : tryOptimizeLogicalGet sets indexType get = (true, plan)) :
    ∃ matched scan get' residual, get.findMatch sets indexType = some (matched, scan) ∧
      get.residuals matched get.projectionIds get.tableFilters [] = (true, get', residual) ∧
      plan = get'.rewritten indexType matched scan get.projectionIds residual := by
  unfold tryOptimizeLogicalGet at h
  split at h
  · simp at h
  cases hfind : get.findMatch sets indexType with
  | none =>
    rw [hfind] at h
    simp at h
  | some found =>
    obtain ⟨matched, scan⟩ := found
    rw [hfind] at h
    obtain ⟨r, hr⟩ : ∃ r, get.residuals matched get.projectionIds get.tableFilters [] = r := ⟨_, rfl⟩
    obtain ⟨ok, get', residual⟩ := r
    simp only [hr] at h
    cases ok with
    | false => cases h
    | true => exact ⟨matched, scan, get', residual, rfl, hr, (Prod.mk.inj h).2.symm⟩

/-- A get whose filter an index answers and whose other columns it reads is rewritten. -/
theorem tryOptimizeLogicalGet_of_residuals {get get' : LogicalGet} {matched : ℕ}
    {residual : List Expression}
    (hname : get.functionName = "seq_scan") (hduck : get.table.isDuckTable = true)
    (hfind : get.findMatch sets indexType = some (matched, scan))
    (hres : get.residuals matched get.projectionIds get.tableFilters [] = (true, get', residual)) :
    tryOptimizeLogicalGet sets indexType get =
      (true, get'.rewritten indexType matched scan get.projectionIds residual) := by
  have hscan : ¬ (get.functionName ≠ "seq_scan" ∨ get.table.isDuckTable = false) := by simp [hname, hduck]
  unfold tryOptimizeLogicalGet
  rw [if_neg hscan, hfind]
  simp only [hres]

theorem position?_eq_some {get : LogicalGet} {logical position : ℕ}
    (h : get.position? logical = some position) :
    get.columnIds[position]? = some (.column logical) := by
  obtain ⟨hlt, hp, -⟩ := List.findIdx?_eq_some_iff_getElem.mp h
  rw [List.getElem?_eq_getElem hlt, of_decide_eq_true hp]

/-- What an index takes for a nearest-neighbour query: the distance between the column at the position
of its number and a constant. -/
theorem matchNearest_eq_some {get : LogicalGet} {e : Expression} {limit : ℕ}
    (h : info.matchNearest sets get e limit = some scan) :
    ∃ type x y t c box position, e = .function nnOperation type [x, y] ∧
      get.position? info.columnId = some position ∧
      ((x = .columnRef t ⟨get.tableIndex, position⟩ ∧ y = .constant c) ∨
        (y = .columnRef t ⟨get.tableIndex, position⟩ ∧ x = .constant c)) ∧
      ((t = info.columnType ∧ c.type = info.bboxType.logicalType) ∨
        (t = info.bboxType.logicalType ∧ c.type = info.columnType)) ∧
      c.blobBytes = some box ∧ scan = ⟨info, limit, box, nnOperation, false⟩ := by
  obtain ⟨bindings, hmatch, h⟩ := Option.bind_eq_some_iff.mp h
  obtain ⟨position, hpos, h⟩ := Option.bind_eq_some_iff.mp h
  split at h
  · rename_i hreads
    obtain ⟨box, hbox, rfl⟩ := Option.map_eq_some_iff.mp h
    obtain ⟨c, hc, hbytes⟩ := Option.bind_eq_some_iff.mp hbox
    obtain ⟨m, hm, hmatch⟩ := Option.bind_eq_some_iff.mp hmatch
    unfold IndexInfo.makeNearestMatcher at hm
    split at hm
    · obtain rfl := Option.some.inj hm
      obtain ⟨name, type, x, y, rfl, hname, hp, htypes⟩ := match_pair_eq_some hmatch
      obtain rfl := List.mem_singleton.mp hname
      simp only [operandMatcher_some] at htypes
      obtain ⟨b, hb, hread⟩ := List.any_eq_true.mp hreads
      obtain ⟨t, rfl⟩ : ∃ t, b = .columnRef t ⟨get.tableIndex, position⟩ := by
        cases b with
        | columnRef t binding =>
          have hbinding : binding = ⟨get.tableIndex, position⟩ := of_decide_eq_true hread
          exact ⟨t, by rw [hbinding]⟩
        | reference | constant | function | other => cases hread
      rw [hp.mem_iff] at hb
      simp only [List.mem_cons, reduceCtorEq, false_or, List.not_mem_nil, or_false] at hb
      rcases constant_of_constantOf hp hc with rfl | rfl
      · obtain rfl : .columnRef t ⟨get.tableIndex, position⟩ = y := by simpa using hb
        exact ⟨type, _, _, t, c, box, position, rfl, hpos, .inr ⟨rfl, rfl⟩,
          htypes.symm.imp id fun h => ⟨h.2, h.1⟩, hbytes, rfl⟩
      · obtain rfl : .columnRef t ⟨get.tableIndex, position⟩ = x := by simpa using hb
        exact ⟨type, _, _, t, c, box, position, rfl, hpos, .inl ⟨rfl, rfl⟩,
          htypes.imp id fun h => ⟨h.2, h.1⟩, hbytes, rfl⟩
    · simp at hm
  · simp at h

/-- The index found for a nearest-neighbour query is one of the table's. -/
theorem findNearest_eq_some {get : LogicalGet} {e : Expression} {limit : ℕ}
    (h : get.findNearest sets indexType e limit = some scan) :
    scan.index ∈ get.table.indexes ∧ scan.index.indexType = indexType ∧
      scan.index.matchNearest sets get e limit = some scan := by
  obtain ⟨info, hinfo, h⟩ := List.exists_of_findSome?_eq_some h
  by_cases htype : info.indexType ≠ indexType
  · rw [if_pos htype] at h
    simp at h
  rw [if_neg htype] at h
  have hindex : scan.index = info := by
    obtain ⟨_, _, _, _, _, _, _, -, -, -, -, -, rfl⟩ := matchNearest_eq_some h
    rfl
  rw [hindex]
  exact ⟨hinfo, not_not.mp htype, h⟩

/-- How a TopN is rewritten. -/
theorem tryOptimizeLogicalTopN_eq_true {orders : List OrderByNode} {limit offset : ℕ}
    {children : List LogicalOperator} {plan : LogicalOperator}
    (h : tryOptimizeLogicalTopN sets indexType orders limit offset children = (true, plan)) :
    ∃ ordered scan, resolveOrderedGet orders limit offset children = some ordered ∧
      ordered.get.findNearest sets indexType ordered.orderExpr (offset + limit) = some scan ∧
      plan = ordered.around (ordered.get.readNearest indexType scan) := by
  unfold tryOptimizeLogicalTopN at h
  simp only at h
  split at h
  · simp at h
  split at h
  · simp at h
  · rename_i ordered hordered
    split at h
    · simp at h
    split at h
    · simp at h
    · rename_i scan hscan
      exact ⟨ordered, scan, hordered, hscan, (Prod.mk.inj h).2.symm⟩

end Accepts

end MobilityDuck
