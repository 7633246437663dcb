/-
# What a rewritten get returns

The filters that an index does not answer move above the scan, and the columns
they read are appended to the projection, behind what the query asked for; a
projection map drops them again. The scan, though, applies its projection only
where that leaves columns out (`canRemoveFilterColumns`): a projection of all
of its columns in another order is not applied, and every column above is read
in the place of another.

So a rewritten get returns what the original did exactly when it projects
nothing, or leaves columns out, or projects all of them in their order
(`returnsSame_iff`).

Key definitions: `LogicalGet.chunkColumns`, `FilteredGet.run`,
`FilteredGet.ReturnsSame`. Key theorem: `returnsSame_iff`.
-/
import MobilityDuck.ScanColumn
import MobilityDuck.Bindings

namespace MobilityDuck

open Lib

/-! ### Bindings -/

/-- What the index scan is opened with. -/
def LogicalGet.initInput (get : LogicalGet) : InitInput := ⟨get.columnIds, get.projectionIds⟩

/-- The storage columns in the chunk of the index scan. -/
def LogicalGet.chunkColumns (get : LogicalGet) : List StorageIndex :=
  if get.initInput.canRemoveFilterColumns then select get.storageColumns get.projectionIds
  else get.storageColumns

/-- `MapBindings`: what a filter passes on. -/
def mapBindings {α : Type} (entries : List α) (projectionMap : List ℕ) : List α :=
  if projectionMap = [] then entries else select entries projectionMap

/-- A get, and the filter above it. -/
structure FilteredGet where
  get : LogicalGet
  expressions : List Expression
  projectionMap : List ℕ

/-- A plan of a get, with or without a filter above it. -/
def LogicalOperator.filteredGet? : LogicalOperator → Option FilteredGet
  | .get g => some ⟨g, [], []⟩
  | .filter expressions projectionMap [.get g] => some ⟨g, expressions, projectionMap⟩
  | .filter .. | .projection .. | .topN .. | .other _ => none

/-- The bindings of the plan. -/
def FilteredGet.columnBindings (plan : FilteredGet) : List ColumnBinding :=
  mapBindings plan.get.columnBindings plan.projectionMap

/-! ### Rows -/

section Run

variable {n : ℕ} {meos : Meos n} {δ : Type} [LinearOrder δ] (I : Interpretation) (near : Nearest meos δ)
  (index : Index meos) (t : Transaction) (fuel : ℕ)

/-- A scan; an index scan declares `filter_pushdown = false`, and applies none of its filters. -/
def LogicalGet.run (get : LogicalGet) : Except Exception Chunk :=
  match get.bindData with
  | none => .ok (get.seqScan I t)
  | some scan => do
    let bind := scan.bindData get.table.columns index
    let s ← initGlobal near bind (t.localRows.map (·.2)) get.initInput
    scanRows near bind t.snapshot fuel s

/-- The filter above a get keeps the rows all of its predicates accept, and passes on the columns of its
projection map. -/
def FilteredGet.run (plan : FilteredGet) : Except Exception Chunk :=
  (plan.get.run I near index t fuel).map fun chunk =>
    (chunk.filter fun row => plan.expressions.all fun e =>
      e.accepts I .null (resolve plan.get.columnBindings row)).map (mapBindings · plan.projectionMap)

end Run

/-- The filters the index does not answer. -/
def LogicalGet.residualFilters (get : LogicalGet) (matched : ℕ) : List (ℕ × TableFilter) :=
  get.tableFilters.filter (·.1 ≠ matched)

/-- The filter it answers. -/
def LogicalGet.matchedFilters (get : LogicalGet) (matched : ℕ) : List (ℕ × TableFilter) :=
  get.tableFilters.filter (·.1 = matched)

/-- The index answers the matched filter: its hits are rows the transaction sees, those the filter
accepts. -/
structure LogicalGet.Answered {n : ℕ} {meos : Meos n} (get : LogicalGet) (I : Interpretation)
    (index : Index meos)
    (t : Transaction) (matched : ℕ) (scan : PlannedScan) (hits : List RowId) : Prop where
  search : index.initializeScan scan.queryBox scan.operation scan.queryOnLeft = .ok hits
  seen : ∀ id ∈ hits, t.snapshot id ≠ none
  perm : (rowsAt t.snapshot hits).Perm
    (t.seqRows.filter fun r => (get.matchedFilters matched).all (get.accepts I r))

/-- A rewritten plan returns what the get did: the columns it names, in its chunk and above, each
residual predicate over its own column, and the rows. -/
structure FilteredGet.ReturnsSame (plan : FilteredGet) (get : LogicalGet) (matched : ℕ)
    (scan : PlannedScan) : Prop where
  bindings : plan.columnBindings = get.columnBindings
  chunk : plan.get.chunkColumns = plan.get.outputColumns
  residual : ∀ (I : Interpretation) (r : ReadRow),
    plan.expressions.map (fun e =>
      e.accepts I .null (resolve plan.get.columnBindings (plan.get.chunkColumns.map (cell r.1 r.2)))) =
        (get.residualFilters matched).map (get.accepts I r)
  rows : ∀ {n : ℕ} {meos : Meos n} {δ : Type} [LinearOrder δ] (I : Interpretation) (near : Nearest meos δ)
    (index : Index meos) (t : Transaction) (hits : List RowId) (fuel : ℕ),
    get.Answered I index t matched scan hits → hits.length < fuel →
    ∃ out, plan.run I near index t fuel = .ok out ∧ out.Perm (get.seqScan I t)

/-! ### The loop over the other filters -/

/-- The predicate of a filter, over its column of the get. -/
def LogicalGet.residual (get : LogicalGet) (f : ℕ × TableFilter) : Expression :=
  f.2.expr.over (.columnRef (get.columnType f.1) ⟨get.tableIndex, (get.position? f.1).getD 0⟩)

/-- The positions of the columns the residual predicates read. -/
def LogicalGet.residualPositions (get : LogicalGet) (matched : ℕ) : List ℕ :=
  (get.residualFilters matched).filterMap fun f => get.position? f.1

/-- The projection ids, and behind them the positions the residual predicates need besides. -/
def LogicalGet.extended (get : LogicalGet) (matched : ℕ) : List ℕ :=
  get.projectionIds ++ (get.residualPositions matched).filter (· ∉ get.projectionIds)

/-- What the loop leaves behind when it does not give up. -/
theorem residuals_eq_true {matched : ℕ} {original : List ℕ} : ∀ {filters : List (ℕ × TableFilter)}
    {get get' : LogicalGet} {residual residual' : List Expression},
    LogicalGet.residuals matched original filters get residual = (true, get', residual') →
    (∀ f ∈ filters.filter (·.1 ≠ matched), (get.position? f.1).isSome) ∧
      get' = { get with
        projectionIds := ((filters.filter (·.1 ≠ matched)).filterMap fun f => get.position? f.1).foldl
          (extendProjection original) get.projectionIds } ∧
      residual' = residual ++ (filters.filter (·.1 ≠ matched)).map get.residual
  | [], get, get', residual, residual', h => by
    obtain ⟨-, h⟩ := Prod.mk.inj h
    obtain ⟨rfl, rfl⟩ := Prod.mk.inj h
    simp
  | (key, filter) :: rest, get, get', residual, residual', h => by
    rw [LogicalGet.residuals] at h
    by_cases hkey : key = matched
    · rw [if_pos hkey] at h
      have hdrop : ((key, filter) :: rest).filter (·.1 ≠ matched) = rest.filter (·.1 ≠ matched) :=
        List.filter_cons_of_neg (by simp [hkey])
      rw [hdrop]
      exact residuals_eq_true h
    · rw [if_neg hkey] at h
      have hkeep : ((key, filter) :: rest).filter (·.1 ≠ matched) =
          (key, filter) :: rest.filter (·.1 ≠ matched) :=
        List.filter_cons_of_pos (by simp [hkey])
      rw [hkeep]
      cases hpos : get.position? key with
      | none =>
        rw [hpos] at h
        simp at h
      | some position =>
        rw [hpos] at h
        obtain ⟨hsome, hget, hresidual⟩ := residuals_eq_true h
        refine ⟨?_, ?_, ?_⟩
        · intro f hf
          rcases List.mem_cons.mp hf with rfl | hf
          · exact Option.isSome_iff_exists.mpr ⟨position, hpos⟩
          · exact hsome f hf
        · rw [hget, List.filterMap_cons, hpos]
          rfl
        · have hfirst : filter.expr.over (.columnRef (get.columnType key) ⟨get.tableIndex, position⟩) =
              get.residual (key, filter) := by
            rw [LogicalGet.residual, hpos, Option.getD_some]
          rw [hresidual, hfirst, List.map_cons, List.append_assoc]
          rfl

/-- It gives up only on a filter whose column the get does not read. -/
theorem exists_residuals {matched : ℕ} {original : List ℕ} :
    ∀ {filters : List (ℕ × TableFilter)} {get : LogicalGet}
    {residual : List Expression}, (∀ f ∈ filters, f.1 ≠ matched → (get.position? f.1).isSome) →
    ∃ get' residual', LogicalGet.residuals matched original filters get residual = (true, get', residual')
  | [], get, residual, _ => ⟨get, residual, rfl⟩
  | (key, filter) :: rest, get, residual, h => by
    have hrest : ∀ f ∈ rest, f.1 ≠ matched → (get.position? f.1).isSome :=
      fun f hf => h f (List.mem_cons_of_mem _ hf)
    rw [LogicalGet.residuals]
    by_cases hkey : key = matched
    · rw [if_pos hkey]
      exact exists_residuals hrest
    · obtain ⟨position, hpos⟩ := Option.isSome_iff_exists.mp (h _ List.mem_cons_self hkey)
      rw [if_neg hkey, hpos]
      apply exists_residuals
      exact hrest

/-- A get that projects nothing stays so. -/
theorem foldl_extendProjection_nil (ps projectionIds : List ℕ) :
    ps.foldl (extendProjection []) projectionIds = projectionIds := by
  induction ps generalizing projectionIds with
  | nil => rfl
  | cons p ps ih =>
    rw [List.foldl_cons, extendProjection, if_neg (by simp)]
    exact ih projectionIds

/-- The positions that are missing are appended, each once. -/
theorem foldl_extendProjection {original : List ℕ} (horiginal : original ≠ []) {ps : List ℕ}
    (hps : ps.Nodup) (projectionIds : List ℕ) : ps.foldl (extendProjection original) projectionIds =
      projectionIds ++ ps.filter (· ∉ projectionIds) := by
  induction ps generalizing projectionIds with
  | nil => simp
  | cons p ps ih =>
    obtain ⟨hp, hps⟩ := List.nodup_cons.mp hps
    rw [List.foldl_cons, extendProjection, ih hps]
    by_cases hmem : p ∈ projectionIds
    · simp [horiginal, hmem]
    · have hfilter : ps.filter (· ∉ projectionIds ++ [p]) = ps.filter (· ∉ projectionIds) := by
        apply List.filter_congr
        intro q hq
        have hne : q ≠ p := fun heq => hp (heq ▸ hq)
        simp [hne]
      rw [if_pos ⟨horiginal, hmem⟩, hfilter, List.filter_cons_of_pos (by simpa using hmem),
        List.append_assoc]
      rfl

/-! ### The rewritten plan -/

/-- What the optimizer makes of a get. -/
structure FilteredGet.Rewrites (plan : FilteredGet) (get : LogicalGet) (matched : ℕ)
    (scan : PlannedScan) : Prop where
  columnIds : plan.get.columnIds = get.columnIds
  table : plan.get.table = get.table
  tableIndex : plan.get.tableIndex = get.tableIndex
  projectionIds : plan.get.projectionIds = if get.projectionIds = [] then [] else get.extended matched
  bindData : plan.get.bindData = some scan
  operation : scan.operation ≠ nnOperation
  expressions : plan.expressions = (get.residualFilters matched).map get.residual
  projectionMap : plan.projectionMap = List.range get.projectionIds.length ∨
    get.residualFilters matched = [] ∧ plan.projectionMap = []
  positions : ∀ f ∈ get.residualFilters matched, (get.position? f.1).isSome

section Rewrites

variable {sets : SetMatcher} {indexType : IndexType} {get : LogicalGet} {matched : ℕ}
    {scan : PlannedScan}

/-- The filters are on different columns, and so are their positions. -/
theorem residualPositions_nodup (hget : get.WellFormed) (matched : ℕ) :
    (get.residualPositions matched).Nodup := by
  refine List.Pairwise.filterMap _ ?_ (hget.filters_sorted.filter _)
  intro f f' hlt p hp p' hp' heq
  have hcolumn := position?_eq_some hp
  rw [heq, position?_eq_some hp'] at hcolumn
  obtain heq := ColumnIndex.column.inj (Option.some.inj hcolumn)
  omega

/-- No index searches for the operation of a nearest-neighbour scan. -/
theorem indexSearchOpFromName_nnOperation (t : MeosType) (left : Bool) :
    indexSearchOpFromName nnOperation t left = none := by
  cases t <;> cases left <;> decide

theorem rewrites_of_tryOptimizeLogicalGet (hget : get.WellFormed) {plan : LogicalOperator}
    (hplan : tryOptimizeLogicalGet sets indexType get = (true, plan))
    (hfind : get.findMatch sets indexType = some (matched, scan)) :
    ∃ plan', plan.filteredGet? = some plan' ∧ plan'.Rewrites get matched scan := by
  obtain ⟨matched', scan', get', residual, hfind', hres, rfl⟩ := tryOptimizeLogicalGet_eq_true hplan
  obtain ⟨rfl, rfl⟩ := Prod.mk.inj (Option.some.inj (hfind.symm.trans hfind'))
  obtain ⟨hpositions, hget', hresidual⟩ := residuals_eq_true hres
  rw [List.nil_append] at hresidual
  have hprojected : get'.projectionIds = if get.projectionIds = [] then [] else get.extended matched := by
    rw [hget']
    show List.foldl _ _ (get.residualPositions matched) = _
    by_cases hnil : get.projectionIds = []
    · rw [if_pos hnil, hnil, foldl_extendProjection_nil]
    · rw [if_neg hnil, foldl_extendProjection hnil (residualPositions_nodup hget matched)]
      rfl
  have hoperation : scan.operation ≠ nnOperation := by
    obtain ⟨_, -, -, -, -, hmatch⟩ := findMatch_eq_some hfind
    obtain ⟨name, _, _, _, _, _, -, -, -, -, -, hop, hscan⟩ := matchFilter_eq_some hmatch
    intro hnn
    rw [hscan] at hnn
    rw [show name = nnOperation from hnn, indexSearchOpFromName_nnOperation] at hop
    simp at hop
  unfold LogicalGet.rewritten
  by_cases hempty : residual.isEmpty = true
  · have hnil : residual = [] := List.isEmpty_iff.mp hempty
    have hnone : get.residualFilters matched = [] := List.map_eq_nil_iff.mp (hresidual.symm.trans hnil)
    rw [if_pos hempty]
    refine ⟨_, rfl, ?_, ?_, ?_, hprojected, rfl, hoperation, ?_, .inr ⟨hnone, rfl⟩, hpositions⟩
    · rw [hget']
      rfl
    · rw [hget']
      rfl
    · rw [hget']
      rfl
    · rw [hnone]
      rfl
  · rw [if_neg hempty]
    refine ⟨_, rfl, ?_, ?_, ?_, hprojected, rfl, hoperation, hresidual, .inl rfl, hpositions⟩ <;>
      rw [hget'] <;> rfl

variable {plan : FilteredGet}

namespace FilteredGet.Rewrites

theorem outputPositions (h : plan.Rewrites get matched scan) : plan.get.outputPositions =
    if get.projectionIds = [] then List.range get.columnIds.length else get.extended matched := by
  have hne : get.projectionIds ≠ [] → get.extended matched ≠ [] := by
    intro hne hnil
    exact hne (List.append_eq_nil_iff.mp hnil).1
  rw [LogicalGet.outputPositions, h.projectionIds, h.columnIds]
  by_cases hnil : get.projectionIds = []
  · rw [if_pos hnil, if_pos hnil, if_pos rfl]
  · rw [if_neg hnil, if_neg hnil, if_neg (hne hnil)]

/-- The positions are those of columns the get reads. -/
theorem outputPositions_lt (h : plan.Rewrites get matched scan) (hget : get.WellFormed) :
    ∀ p ∈ plan.get.outputPositions, p < get.columnIds.length := by
  intro p hp
  rw [h.outputPositions] at hp
  split at hp
  · exact List.mem_range.mp hp
  · rcases List.mem_append.mp hp with hp | hp
    · exact hget.projectionIds_lt p hp
    · obtain ⟨f, -, hf⟩ := List.mem_filterMap.mp (List.mem_filter.mp hp).1
      exact LogicalGet.position?_lt hf

/-- The projection map leaves of any row what the get returned of it. -/
theorem mapBindings_select (h : plan.Rewrites get matched scan) (hget : get.WellFormed) {α : Type}
    {row : List α} (hrow : row.length = get.columnIds.length) :
    mapBindings (select row plan.get.outputPositions) plan.projectionMap =
      select row get.outputPositions := by
  rw [h.outputPositions, LogicalGet.outputPositions]
  by_cases hnil : get.projectionIds = []
  · have hmap : plan.projectionMap = [] := by
      rcases h.projectionMap with hmap | ⟨-, hmap⟩
      · rw [hmap, hnil]
        rfl
      · exact hmap
    rw [if_pos hnil, if_pos hnil, mapBindings, if_pos hmap]
  · rw [if_neg hnil, if_neg hnil, LogicalGet.extended]
    rcases h.projectionMap with hmap | ⟨hnone, hmap⟩
    · have hne : plan.projectionMap ≠ [] := by
        rw [hmap]
        simpa using hnil
      rw [mapBindings, if_neg hne, hmap]
      apply select_range_append
      intro p hp
      rw [hrow]
      exact hget.projectionIds_lt p hp
    · rw [mapBindings, if_pos hmap, LogicalGet.residualPositions, hnone]
      simp

theorem storageColumns (h : plan.Rewrites get matched scan) :
    plan.get.storageColumns = get.storageColumns := by
  rw [LogicalGet.storageColumns, LogicalGet.storageColumns, h.columnIds, h.table]

/-- The plan has the bindings of the get. -/
theorem columnBindings (h : plan.Rewrites get matched scan) (hget : get.WellFormed) :
    plan.columnBindings = get.columnBindings := by
  have hplan : plan.get.columnBindings =
      select ((List.range get.columnIds.length).map (ColumnBinding.mk get.tableIndex))
        plan.get.outputPositions := by
    rw [← map_select, select_range_eq_self (h.outputPositions_lt hget), LogicalGet.columnBindings,
      h.tableIndex]
  have hown : get.columnBindings =
      select ((List.range get.columnIds.length).map (ColumnBinding.mk get.tableIndex))
        get.outputPositions := by
    rw [← map_select, select_range_eq_self hget.outputPositions_lt, LogicalGet.columnBindings]
  rw [FilteredGet.columnBindings, hplan, hown]
  exact h.mapBindings_select hget (by simp)

/-- Every residual predicate finds its column in the output. -/
theorem position_mem (h : plan.Rewrites get matched scan) {f : ℕ × TableFilter}
    (hf : f ∈ get.residualFilters matched)
    {p : ℕ} (hp : get.position? f.1 = some p) : p ∈ plan.get.outputPositions := by
  rw [h.outputPositions]
  by_cases hnil : get.projectionIds = []
  · rw [if_pos hnil]
    exact List.mem_range.mpr (LogicalGet.position?_lt hp)
  · rw [if_neg hnil, LogicalGet.extended, List.mem_append, List.mem_filter]
    by_cases hmem : p ∈ get.projectionIds
    · exact .inl hmem
    · exact .inr ⟨List.mem_filterMap.mpr ⟨f, hf, hp⟩, by simpa using hmem⟩

/-- A reference to the position reads the column, where the chunk holds what the bindings name. -/
theorem resolve_position (h : plan.Rewrites get matched scan) (hget : get.WellFormed)
    {f : ℕ × TableFilter}
    (hf : f ∈ get.residualFilters matched) {p : ℕ} (hp : get.position? f.1 = some p) (r : ReadRow) :
    resolve plan.get.columnBindings (plan.get.outputColumns.map (cell r.1 r.2)) ⟨get.tableIndex, p⟩ =
      get.columnValue f.1 r := by
  have hlt : ∀ q ∈ plan.get.outputPositions, q < plan.get.columnIds.length := by
    rw [h.columnIds]
    exact h.outputPositions_lt hget
  have hmem : ⟨get.tableIndex, p⟩ ∈ plan.get.columnBindings := by
    rw [LogicalGet.columnBindings, h.tableIndex]
    exact List.mem_map_of_mem (h.position_mem hf hp)
  rw [LogicalGet.map_outputColumns hlt, resolve_map _ hmem,
    ← LogicalGet.bindingValue_position hp r get.tableIndex,
    LogicalGet.bindingValue, LogicalGet.bindingValue, h.storageColumns]

/-- So a residual predicate says of a row what the filter did. -/
theorem accepts_residual (h : plan.Rewrites get matched scan) (hget : get.WellFormed)
    (I : Interpretation)
    {f : ℕ × TableFilter} (hf : f ∈ get.residualFilters matched) (r : ReadRow) :
    (get.residual f).accepts I .null
      (resolve plan.get.columnBindings (plan.get.outputColumns.map (cell r.1 r.2))) = get.accepts I r f := by
  obtain ⟨p, hp⟩ := Option.isSome_iff_exists.mp (h.positions f hf)
  obtain ⟨column, hcolumn, -, hover⟩ := hget.filters_over f (List.mem_filter.mp hf).1
  have htype : (Expression.columnRef (get.columnType f.1) ⟨get.tableIndex, p⟩).returnType = column.type := by
    show get.columnType f.1 = column.type
    rw [LogicalGet.columnType, hcolumn]
  rw [LogicalGet.residual, LogicalGet.accepts, Expression.accepts, Expression.accepts, hp,
    Option.getD_some,
    Expression.eval_over I .null _ htype hover, Expression.eval, h.resolve_position hget hf hp r,
    Expression.eval_congr I _ _ (fun _ => .null) hover]

/-- All residual predicates together. -/
theorem all_residual (h : plan.Rewrites get matched scan) (hget : get.WellFormed)
    (I : Interpretation) (r : ReadRow) :
    plan.expressions.map (fun e =>
      e.accepts I .null (resolve plan.get.columnBindings (plan.get.outputColumns.map (cell r.1 r.2)))) =
        (get.residualFilters matched).map (get.accepts I r) := by
  rw [h.expressions, List.map_map]
  exact List.map_congr_left fun f hf => h.accepts_residual hget I hf r

end FilteredGet.Rewrites

/-- A row passes all filters when it passes the matched one and the others. -/
theorem all_split (get : LogicalGet) (matched : ℕ) (p : ℕ × TableFilter → Bool) :
    get.tableFilters.all p = ((get.matchedFilters matched).all p && (get.residualFilters matched).all p) := by
  rw [Bool.eq_iff_iff]
  simp only [Bool.and_eq_true, List.all_eq_true, LogicalGet.matchedFilters,
    LogicalGet.residualFilters, List.mem_filter, decide_eq_true_eq]
  constructor
  · exact fun h => ⟨fun f hf => h f hf.1, fun f hf => h f hf.1⟩
  · intro ⟨hm, hr⟩ f hf
    by_cases hkey : f.1 = matched
    · exact hm f ⟨hf, hkey⟩
    · exact hr f ⟨hf, hkey⟩

/-- A scan opened for a get emits the columns of its chunk. -/
theorem emitRow_chunkColumns {δ : Type} {g : LogicalGet}
    (hlt : ∀ p ∈ g.projectionIds, p < g.columnIds.length)
    {s : GlobalState δ} (hcolumns : s.columnIds = g.storageColumns)
    (hprojection : s.projectionIds = if g.initInput.canRemoveFilterColumns then g.projectionIds else [])
    (r : ReadRow) : emitRow s r.1 r.2 = g.chunkColumns.map (cell r.1 r.2) := by
  unfold emitRow LogicalGet.chunkColumns
  rw [hcolumns, hprojection]
  by_cases hremove : g.initInput.canRemoveFilterColumns = true
  · have hne : g.projectionIds ≠ [] := by
      intro hnil
      simp [InitInput.canRemoveFilterColumns, LogicalGet.initInput, hnil] at hremove
    rw [if_pos hremove, if_pos hremove, if_neg hne, map_select, select_eq_map .null]
    intro p hp
    rw [List.length_map, LogicalGet.length_storageColumns]
    exact hlt p hp
  · rw [if_neg hremove, if_neg hremove, if_pos rfl]

/-- The chunk of the index scan, row by row. -/
theorem run_of_answered {n : ℕ} {meos : Meos n} {δ : Type} [LinearOrder δ] {I : Interpretation}
    {near : Nearest meos δ}
    {index : Index meos} {t : Transaction} {hits : List RowId} {fuel : ℕ} {g : LogicalGet}
    (hbind : g.bindData = some scan)
    (hoperation : scan.operation ≠ nnOperation) (hlt : ∀ p ∈ g.projectionIds, p < g.columnIds.length)
    (hanswered : get.Answered I index t matched scan hits) (hfuel : hits.length < fuel) :
    g.run I near index t fuel =
      .ok ((rowsAt t.snapshot hits).map fun r => g.chunkColumns.map (cell r.1 r.2)) := by
  obtain ⟨s, hinit, hrem, hcolumns, hprojection⟩ : ∃ s,
      initGlobal near (scan.bindData g.table.columns index) (t.localRows.map (·.2)) g.initInput = .ok s ∧
        Remaining near (scan.bindData g.table.columns index) t.snapshot hits s ∧
        s.columnIds = g.storageColumns ∧
        s.projectionIds = if g.initInput.canRemoveFilterColumns then g.projectionIds else [] :=
    ⟨_, initGlobal_search near hoperation hanswered.search _ _, rfl, rfl, rfl⟩
  unfold LogicalGet.run
  rw [hbind]
  simp only [hinit]
  show scanRows near _ t.snapshot fuel s = _
  rw [scanRows_of_seen hrem hanswered.seen hfuel, emit_eq_rowsAt]
  exact congrArg Except.ok (List.map_congr_left fun r _ => emitRow_chunkColumns hlt hcolumns hprojection r)

/-- The rows of the plan, where the chunk holds what the bindings name. -/
theorem FilteredGet.Rewrites.rows (h : plan.Rewrites get matched scan) (hget : get.WellFormed)
    (hchunk : plan.get.chunkColumns = plan.get.outputColumns) {n : ℕ} {meos : Meos n} {δ : Type}
    [LinearOrder δ]
    (I : Interpretation) (near : Nearest meos δ) (index : Index meos) (t : Transaction)
    (hits : List RowId) (fuel : ℕ)
    (hanswered : get.Answered I index t matched scan hits) (hfuel : hits.length < fuel) :
    ∃ out, plan.run I near index t fuel = .ok out ∧ out.Perm (get.seqScan I t) := by
  have hlt : ∀ p ∈ plan.get.projectionIds, p < plan.get.columnIds.length := by
    intro p hp
    rw [h.columnIds]
    apply h.outputPositions_lt hget
    have hne : plan.get.projectionIds ≠ [] := List.ne_nil_of_mem hp
    rwa [LogicalGet.outputPositions, if_neg hne]
  -- a row as the scan emits it, and as the filter passes it on
  have hpasses : ∀ r : ReadRow, (plan.expressions.all fun e => e.accepts I .null
      (resolve plan.get.columnBindings (plan.get.outputColumns.map (cell r.1 r.2)))) =
        (get.residualFilters matched).all (get.accepts I r) := by
    intro r
    have hall := congrArg (fun l => l.all id) (h.all_residual hget I r)
    simpa only [List.all_map, Function.id_comp] using hall
  have hpassed : ∀ r : ReadRow, mapBindings (plan.get.outputColumns.map (cell r.1 r.2)) plan.projectionMap =
      get.outputColumns.map (cell r.1 r.2) := by
    intro r
    rw [LogicalGet.outputColumns, LogicalGet.outputColumns, map_select, map_select, h.storageColumns]
    apply h.mapBindings_select hget
    rw [List.length_map, LogicalGet.length_storageColumns]
  refine ⟨_, by rw [FilteredGet.run, run_of_answered h.bindData h.operation hlt hanswered hfuel]; rfl, ?_⟩
  simp only [hchunk, List.filter_map, List.map_map, Function.comp_def, hpasses, hpassed]
  rw [LogicalGet.seqScan]
  apply List.Perm.map
  have hfilter := hanswered.perm.filter fun r => (get.residualFilters matched).all (get.accepts I r)
  rw [List.filter_filter] at hfilter
  refine hfilter.trans (List.Perm.of_eq (List.filter_congr fun r _ => ?_))
  rw [all_split get matched, Bool.and_comm]

/-! ### The chunk, and what its bindings name -/

/-- The chunk holds what the bindings name exactly when the projection is not applied to all columns in
another order. -/
theorem FilteredGet.Rewrites.chunkColumns_eq_iff (h : plan.Rewrites get matched scan)
    (hget : get.WellFormed) :
    plan.get.chunkColumns = plan.get.outputColumns ↔
      get.projectionIds = [] ∨ (get.extended matched).length ≠ get.columnIds.length ∨
        select get.columnIds (get.extended matched) = get.columnIds := by
  rw [LogicalGet.outputColumns, LogicalGet.chunkColumns, h.outputPositions, h.storageColumns]
  by_cases hnil : get.projectionIds = []
  · have hall : select get.storageColumns (List.range get.columnIds.length) = get.storageColumns := by
      have hlen : get.storageColumns.length = get.columnIds.length := by simp [LogicalGet.storageColumns]
      rw [← hlen, select_range_length]
    have hkeep : plan.get.initInput.canRemoveFilterColumns = false := by
      simp [InitInput.canRemoveFilterColumns, LogicalGet.initInput, h.projectionIds, hnil]
    rw [if_pos hnil, hall, hkeep]
    simp [hnil]
  · have hne : get.extended matched ≠ [] := by
      intro heq
      exact hnil (List.append_eq_nil_iff.mp heq).1
    have hremove : plan.get.initInput.canRemoveFilterColumns = true ↔
        (get.extended matched).length ≠ get.columnIds.length := by
      simp [InitInput.canRemoveFilterColumns, LogicalGet.initInput, h.projectionIds, h.columnIds,
        hnil, hne]
    rw [if_neg hnil, h.projectionIds, if_neg hnil]
    by_cases hlen : (get.extended matched).length ≠ get.columnIds.length
    · rw [if_pos (hremove.mpr hlen)]
      simp [hlen]
    · rw [if_neg fun htrue => hlen (hremove.mp htrue)]
      simp only [hnil, hlen, false_or]
      rw [LogicalGet.storageColumns, ← map_select]
      constructor
      · intro heq
        exact (hget.map_storage_inj (List.Subset.refl _) (fun _ => mem_of_mem_select) heq).symm
      · intro heq
        rw [heq]

end Rewrites

/-! ### A filter on a column the query does not select -/

/-- A get with a filter on each of the two. -/
def notNullGet (columnIds : List ColumnIndex) (projectionIds : List ℕ) : LogicalGet where
  functionName := "seq_scan"
  table := secondColumn
  tableIndex := 0
  columnIds := columnIds
  projectionIds := projectionIds
  tableFilters := [(0, notNullFilter),
    (1, ⟨.expressionFilter, overlapsZero ⟨"i", .trtree, [1], .stbox, .stbox, bboxTypeOf_stbox⟩ .stbox⟩)]
  bindData := none
  estimatedCardinality := 0
  hasEstimatedCardinality := false

section NotNullGet

variable {columnIds : List ColumnIndex} {projectionIds : List ℕ}

theorem notNullGet_wellFormed (hcolumns : ∀ i ∈ columnIds, i = .column 0 ∨ i = .column 1)
    (hlt : ∀ p ∈ projectionIds, p < columnIds.length) :
    (notNullGet columnIds projectionIds).WellFormed where
  columnIds_stored i hi := by
    rcases hcolumns _ hi with heq | heq <;> obtain rfl := ColumnIndex.column.inj heq <;> rfl
  filters_sorted := by simp [notNullGet]
  filters_over f hf := by
    have hspec := indexedOperand_spec ⟨"i", .trtree, [1], .stbox, .stbox, bboxTypeOf_stbox⟩ .stbox
    simp only [notNullGet, List.mem_cons, List.not_mem_nil, or_false] at hf
    rcases hf with rfl | rfl
    · exact ⟨⟨⟨.integer, ""⟩, false⟩, rfl, rfl, rfl, trivial⟩
    · exact ⟨⟨.stbox, false⟩, rfl, rfl, hspec.2.2, trivial, trivial⟩
  projectionIds_lt := hlt

/-- The index answers the filter on the boxes. -/
theorem notNullGet_findMatch : ∃ scan,
    (notNullGet columnIds projectionIds).findMatch .backtracking .trtree = some (1, scan) := by
  have hinfo : (⟨"i", .trtree, [1], .stbox, .stbox, bboxTypeOf_stbox⟩ : IndexInfo) ∈ secondColumn.indexes :=
    List.mem_cons_self
  obtain ⟨⟨matched, scan⟩, hfind⟩ := Option.isSome_iff_exists.mp (findMatch_isSome .backtracking
    (notNullGet columnIds projectionIds) (List.mem_cons_of_mem _ List.mem_cons_self) hinfo rfl
    (matchFilter_overlapsZero .backtracking ⟨"i", .trtree, [1], .stbox, .stbox, bboxTypeOf_stbox⟩ .stbox))
  obtain ⟨_, -, hindex, -, hcolumn, -⟩ := findMatch_eq_some hfind
  have hmatched : matched = 1 := by
    rw [← hcolumn, List.mem_singleton.mp hindex]
    rfl
  exact ⟨scan, by rw [hfind, hmatched]⟩

/-- The get is rewritten where it reads the other column. -/
theorem notNullGet_rewritten (hzero : .column 0 ∈ columnIds) :
    ∃ plan, tryOptimizeLogicalGet .backtracking .trtree (notNullGet columnIds projectionIds) =
      (true, plan) := by
  obtain ⟨scan, hfind⟩ := @notNullGet_findMatch columnIds projectionIds
  have hpos : ((notNullGet columnIds projectionIds).position? 0).isSome := by
    rw [LogicalGet.position?, List.findIdx?_isSome, List.any_eq_true]
    exact ⟨_, hzero, decide_eq_true rfl⟩
  obtain ⟨get', residual, hres⟩ :=
    @exists_residuals 1 projectionIds (notNullGet columnIds projectionIds).tableFilters
    (notNullGet columnIds projectionIds) [] fun f hf hne => by
      simp only [notNullGet, List.mem_cons, List.not_mem_nil, or_false] at hf
      rcases hf with rfl | rfl
      · exact hpos
      · exact absurd rfl hne
  exact ⟨_, tryOptimizeLogicalGet_of_residuals rfl rfl hfind hres⟩

end NotNullGet

/-- **A rewritten get returns what the original did exactly when** it projects nothing, or its
projection with the columns the residual predicates need leaves out a column, or takes all of them in
their order. -/
theorem returnsSame_iff (sets : SetMatcher) (indexType : IndexType) (get : LogicalGet)
    (plan : LogicalOperator) (matched : ℕ) (scan : PlannedScan) (hget : get.WellFormed)
    (hplan : tryOptimizeLogicalGet sets indexType get = (true, plan))
    (hfind : get.findMatch sets indexType = some (matched, scan)) :
    (∃ plan', plan.filteredGet? = some plan' ∧ plan'.ReturnsSame get matched scan) ↔
      get.projectionIds = [] ∨ (get.extended matched).length ≠ get.columnIds.length ∨
        select get.columnIds (get.extended matched) = get.columnIds := by
  obtain ⟨plan', hplan', hrewrites⟩ := rewrites_of_tryOptimizeLogicalGet hget hplan hfind
  rw [← hrewrites.chunkColumns_eq_iff hget]
  constructor
  · intro ⟨plan'', hplan'', hsame⟩
    obtain rfl := Option.some.inj (hplan'.symm.trans hplan'')
    exact hsame.chunk
  · intro hchunk
    refine ⟨plan', hplan', hrewrites.columnBindings hget, hchunk, fun I r => ?_, ?_⟩
    · rw [hchunk]
      exact hrewrites.all_residual hget I r
    · exact hrewrites.rows hget hchunk

theorem returnsSame_notNull : ∃ plan scan,
    tryOptimizeLogicalGet .backtracking .trtree (notNullGet [.column 1, .column 0] [0]) = (true, plan) ∧
      ∃ plan', plan.filteredGet? = some plan' ∧
        plan'.ReturnsSame (notNullGet [.column 1, .column 0] [0]) 1 scan := by
  obtain ⟨scan, hfind⟩ := @notNullGet_findMatch [.column 1, .column 0] [0]
  obtain ⟨plan, hplan⟩ := @notNullGet_rewritten [.column 1, .column 0] [0] (by decide)
  have hget : (notNullGet [.column 1, .column 0] [0]).WellFormed :=
    notNullGet_wellFormed (by decide) (by decide)
  refine ⟨plan, scan, hplan, ?_⟩
  exact (returnsSame_iff .backtracking .trtree (notNullGet [.column 1, .column 0] [0]) plan 1 scan hget hplan
    hfind).mpr (.inr (.inr (by decide)))

/-- The column the query selects second comes second in its chunk, where the plan reads the first. -/
theorem returnsSame_swapped :
    ¬ ∀ (get : LogicalGet) (plan : LogicalOperator) (matched : ℕ) (scan : PlannedScan),
    get.WellFormed → tryOptimizeLogicalGet .backtracking .trtree get = (true, plan) →
    get.findMatch .backtracking .trtree = some (matched, scan) →
    ∃ plan', plan.filteredGet? = some plan' ∧ plan'.ReturnsSame get matched scan := by
  intro hall
  have hget : (notNullGet [.column 0, .column 1] [1]).WellFormed :=
    notNullGet_wellFormed (by decide) (by decide)
  obtain ⟨scan, hfind⟩ := @notNullGet_findMatch [.column 0, .column 1] [1]
  obtain ⟨plan, hplan⟩ := @notNullGet_rewritten [.column 0, .column 1] [1] (by decide)
  obtain ⟨plan', hplan', hsame⟩ := hall _ plan 1 scan hget hplan hfind
  obtain ⟨plan'', hplan'', hrewrites⟩ := rewrites_of_tryOptimizeLogicalGet hget hplan hfind
  obtain rfl := Option.some.inj (hplan'.symm.trans hplan'')
  rcases (hrewrites.chunkColumns_eq_iff hget).mp hsame.chunk with hnil | hlen | hselect
  · exact absurd hnil (by decide)
  · exact hlen (by decide)
  · exact absurd hselect (by decide)

end MobilityDuck
