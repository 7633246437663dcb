/-
# The rules for scans are right

A get over an index answers the rows of the sequential scan, with the filter
above it that keeps the other predicates (`get_improves`); a TopN over one, or
over a projection of one, takes from the nearest rows what it would take from
all of them (`topN_improves`).

Key definition: `Relation.Gives`. Key theorems: `get_improves`,
`topN_improves`.
-/
import MobilityDuck.OptimizePlan

namespace MobilityDuck

open Lib

/-! ### What gets answer -/

/-- A relation that does not fail, and answers these rows in some order. -/
structure Relation.Gives (r : Relation) (all : List Row) : Prop where
  perm : ∀ rows, r.answers rows → rows.Perm all
  fails : ¬ r.fails

namespace Database

variable {δ : Type} [LinearOrder δ] {db : Database δ} {sets : SetMatcher}

section Gets

variable {get : LogicalGet} {chunk : Chunk}

theorem Scans.unique {chunk' : Chunk} (h : db.Scans get chunk) (h' : db.Scans get chunk') : chunk = chunk' := by
  unfold Scans at h h'
  cases hbind : get.bindData with
  | none =>
    rw [hbind] at h h'
    exact Eq.trans h (Eq.symm h')
  | some scan =>
    rw [hbind] at h h'
    obtain ⟨calls, hcalls⟩ := h
    obtain ⟨calls', hcalls'⟩ := h'
    have hrun := hcalls (max calls calls') (le_max_left _ _)
    rw [hcalls' (max calls calls') (le_max_right _ _)] at hrun
    exact (Except.ok.inj hrun).symm

theorem scans_of_none (h : get.bindData = none) : db.Scans get (get.seqScan db.interpretation (db.viewOf get)) := by
  rw [Scans, h]

theorem gives_get (h : db.Scans get chunk) : (db.getRelation get).Gives (chunk.map (Row.named get.columnBindings)) where
  perm := by
    intro rows hanswers
    obtain ⟨chunk', hchunk', hrows⟩ := hanswers
    rwa [h.unique hchunk']
  fails hnone := hnone ⟨chunk, h⟩

variable (db) in
theorem gives_filter {r : Relation} {all : List Row} (h : r.Gives all) (expressions : List Expression)
    (projectionMap : List ℕ) : (db.filterRelation expressions projectionMap r).Gives
      ((all.filter fun row => expressions.all (db.accepts row)).map
        (Row.restrict · (mapBindings r.bindings projectionMap))) where
  perm := by
    rintro rows ⟨input, hinput, rfl⟩
    exact ((h.perm _ hinput).filter _).map _
  fails := h.fails

/-- The row of a get is the values of its bindings. -/
theorem named_outputColumns (hlt : ∀ p ∈ get.outputPositions, p < get.columnIds.length) (r : ReadRow) :
    Row.named get.columnBindings (get.outputColumns.map (cell r.1 r.2)) = get.namedRow r := by
  rw [LogicalGet.map_outputColumns hlt, Row.named_map]
  rfl

theorem named_seqScan (hlt : ∀ p ∈ get.outputPositions, p < get.columnIds.length) (I : Interpretation)
    (t : Transaction) :
    (get.seqScan I t).map (Row.named get.columnBindings) = (get.filteredRows I t).map get.namedRow := by
  rw [LogicalGet.seqScan, List.map_map]
  exact List.map_congr_left fun r _ => named_outputColumns hlt r

end Gets

/-! ### A get over an index -/

section Scan

variable {indexType : IndexType} {get : LogicalGet} {matched : ℕ} {scan : PlannedScan} {plan : FilteredGet}

/-- What the index and the residual predicates leave of the rows is what all filters do. -/
theorem perm_filteredRows {n : ℕ} {meos : Meos n} {I : Interpretation} {index : Index meos} {t : Transaction}
    {hits : List RowId} (h : get.Answered I index t matched scan hits) :
    ((rowsAt t.snapshot hits).filter fun r => (get.residualFilters matched).all (get.accepts I r)).Perm
      (get.filteredRows I t) := by
  have hfilter := h.perm.filter fun r => (get.residualFilters matched).all (get.accepts I r)
  rw [List.filter_filter] at hfilter
  refine hfilter.trans (List.Perm.of_eq (List.filter_congr fun r _ => ?_))
  rw [all_split get matched, Bool.and_comm]

theorem projectionIds_lt (h : plan.Rewrites get matched scan) (hget : get.WellFormed) :
    ∀ p ∈ plan.get.projectionIds, p < plan.get.columnIds.length := by
  intro p hp
  rw [h.columnIds]
  apply h.outputPositions_lt hget
  rwa [LogicalGet.outputPositions, if_neg (List.ne_nil_of_mem hp)]

/-- The get under the residual predicates returns a row for each hit of the index. -/
theorem scans_rewritten (h : plan.Rewrites get matched scan) (hget : get.WellFormed)
    (hchunk : plan.get.chunkColumns = plan.get.outputColumns) {hits : List RowId}
    (hanswered : get.Answered db.interpretation (db.index get.table scan.index) (db.viewOf get) matched scan hits) :
    db.Scans plan.get ((rowsAt (db.viewOf get).snapshot hits).map fun r => plan.get.outputColumns.map (cell r.1 r.2)) := by
  rw [Scans, h.bindData]
  refine ⟨hits.length + 1, fun fuel hfuel => ?_⟩
  have hview : db.viewOf plan.get = db.viewOf get := by rw [viewOf, viewOf, h.table]
  rw [← h.table] at hanswered
  rw [← hchunk, hview]
  exact run_of_answered h.bindData h.operation (projectionIds_lt h hget) hanswered hfuel

theorem mapBindings_subset {α : Type} (entries : List α) (projectionMap : List ℕ) :
    mapBindings entries projectionMap ⊆ entries := by
  unfold mapBindings
  split
  · exact List.Subset.refl _
  · exact fun _ h => mem_of_mem_select h

/-- It names a row as the get does, but for the columns the projection map drops. -/
theorem namedRow_restrict (h : plan.Rewrites get matched scan) (hget : get.WellFormed) (r : ReadRow) :
    (plan.get.namedRow r).restrict (mapBindings plan.get.columnBindings plan.projectionMap) = get.namedRow r := by
  have hbindings : mapBindings plan.get.columnBindings plan.projectionMap = get.columnBindings :=
    h.columnBindings hget
  have hvalue : plan.get.bindingValue r = get.bindingValue r := by
    funext b
    rw [LogicalGet.bindingValue, LogicalGet.bindingValue, h.storageColumns]
  rw [LogicalGet.namedRow, Row.restrict_restrict _ (mapBindings_subset _ _), hbindings, hvalue]
  rfl

/-- The residual predicates say of it what the filters do. -/
theorem accepts_namedRow (h : plan.Rewrites get matched scan) (hget : get.WellFormed) (r : ReadRow) :
    plan.expressions.all (db.accepts (plan.get.namedRow r)) =
      (get.residualFilters matched).all (get.accepts db.interpretation r) := by
  have hlt : ∀ p ∈ plan.get.outputPositions, p < plan.get.columnIds.length := by
    rw [h.columnIds]
    exact h.outputPositions_lt hget
  have hall := congrArg (fun l => l.all id) (h.all_residual hget db.interpretation r)
  have hlength : (plan.get.outputColumns.map (cell r.1 r.2)).length ≤ plan.get.columnBindings.length := by
    rw [LogicalGet.map_outputColumns hlt, List.length_map]
  rw [← named_outputColumns hlt, Row.named_eq_resolve hlength]
  simp only [List.all_map, Function.id_comp] at hall
  exact hall

/-- **A get put over an index** under the residual predicates gives the rows of the get. -/
theorem gives_rewritten (h : plan.Rewrites get matched scan) (hget : get.WellFormed)
    (hchunk : plan.get.chunkColumns = plan.get.outputColumns) {hits : List RowId}
    (hanswered : get.Answered db.interpretation (db.index get.table scan.index) (db.viewOf get) matched scan hits) :
    (db.filterRelation plan.expressions plan.projectionMap (db.getRelation plan.get)).Gives
      ((get.seqScan db.interpretation (db.viewOf get)).map (Row.named get.columnBindings)) := by
  have hlt : ∀ p ∈ plan.get.outputPositions, p < plan.get.columnIds.length := by
    rw [h.columnIds]
    exact h.outputPositions_lt hget
  have hgives := gives_filter db (gives_get (scans_rewritten h hget hchunk hanswered)) plan.expressions
    plan.projectionMap
  refine ⟨fun rows hanswer => (hgives.perm rows hanswer).trans ?_, hgives.fails⟩
  rw [named_seqScan hget.outputPositions_lt, List.map_map, List.filter_map, List.map_map]
  simp only [Function.comp_def, named_outputColumns hlt, accepts_namedRow h hget]
  refine List.Perm.trans (List.Perm.of_eq ?_) ((perm_filteredRows hanswered).map get.namedRow)
  exact List.map_congr_left fun r _ => namedRow_restrict h hget r

end Scan

/-- What gives the rows that may be answered refines. -/
theorem refines_of_gives {r r' : Relation} {all : List Row} (hbindings : r'.bindings = r.bindings) (h : r'.Gives all)
    (hall : ∀ rows, rows.Perm all → r.answers rows) : r.Refines true r' where
  bindings := .of_eq hbindings
  positions _ := hbindings
  answers rows hrows := hall rows (h.perm rows hrows)
  fails hfails := absurd hfails h.fails

section Steps

variable {m : Bool} {indexType : IndexType}

/-- A get that is no sequential scan comes in the place of one. -/
theorem turns_get {get get' : LogicalGet} {ts : List Plan} (h : db.Becomes get get') :
    db.Turns (.node (.get get) ts) (Plan.overGet none get') := by
  intro p get'' heq
  cases p with
  | none =>
    obtain rfl := LogicalOperator.get.inj heq
    exact ⟨get, rfl, h⟩
  | some p => cases heq

theorem holds_get {get : LogicalGet} (h : get.functionName = "seq_scan" → db.ScanServed sets get) :
    (db.served sets).Holds m (Plan.overGet none get) :=
  .node h fun _ hmem => nomatch hmem

/-- **The rule for gets.** -/
theorem get_improves {get : LogicalGet} {ts : List Plan} {optimized : LogicalOperator} {plan : Plan}
    (hserved : get.functionName = "seq_scan" → db.ScanServed sets get)
    (h : tryOptimizeLogicalGet sets indexType get = (true, optimized)) (hplan : Plan.ofLogical optimized = some plan) :
    (db.served sets).Improves m (.node (.get get) ts) plan := by
  have hname : get.functionName = "seq_scan" := by
    by_contra hne
    rw [tryOptimizeLogicalGet_of_scanned hne] at h
    cases h
  obtain ⟨hbind, hget, -, hprojection, hanswers⟩ := hserved hname
  obtain ⟨matched, scan, hfind, hcases⟩ := tryOptimizeLogicalGet_cases h
  obtain ⟨plan', hplan', hrewrites⟩ := rewrites_of_tryOptimizeLogicalGet hget h hfind
  obtain ⟨hits, hanswered⟩ := hanswers _ _ _ hfind
  have hchunk := (hrewrites.chunkColumns_eq_iff hget).mpr (hprojection _ _ _ hfind)
  have hall : ∀ rows : List Row, rows.Perm ((get.seqScan db.interpretation (db.viewOf get)).map
      (Row.named get.columnBindings)) → (db.getRelation get).answers rows :=
    fun rows hrows => ⟨_, scans_of_none hbind, hrows⟩
  rcases hcases with rfl | ⟨expressions, projectionMap, g, rfl, hg⟩
  · obtain rfl := Option.some.inj hplan
    obtain rfl := Option.some.inj hplan'
    have hscans := scans_rewritten hrewrites hget hchunk hanswered
    have hnone : get.residualFilters matched = [] := List.map_eq_nil_iff.mp hrewrites.expressions.symm
    have hperm := perm_filteredRows hanswered
    simp only [hnone, List.all_nil, List.filter_true] at hperm
    have hrows := hperm.map fun r : ReadRow => get.outputColumns.map (cell r.1 r.2)
    refine ⟨holds_get fun hseq => absurd hseq (scanName_ne indexType), ?_, ?_⟩
    · show Relation.Refines m (db.getRelation get) (db.getRelation (get.readIndex indexType scan))
      have hgives := gives_get hscans
      refine Relation.Refines.of_positional ?_ m
      exact refines_of_gives rfl ⟨fun rows hanswer => (hgives.perm rows hanswer).trans (hrows.map _), hgives.fails⟩
        hall
    · refine turns_get (.scanned ⟨rfl, rfl, rfl, rfl, rfl⟩ (scanName_ne indexType) ⟨_, hscans, hrows⟩)
  · obtain rfl := Option.some.inj hplan
    obtain rfl := Option.some.inj hplan'
    refine ⟨.node trivial fun t ht => ?_, ?_, ?_⟩
    · obtain rfl := List.mem_singleton.mp ht
      exact holds_get fun hseq => absurd (hg.symm.trans hseq) (scanName_ne indexType)
    · refine Relation.Refines.of_positional ?_ m
      exact refines_of_gives (hrewrites.columnBindings hget) (gives_rewritten hrewrites hget hchunk hanswered) hall
    · intro p get' heq
      rcases p with - | p <;> cases heq

end Steps

/-! ### A TopN over an index -/

section TopN

variable {order : OrderByNode} {limit offset : ℕ} {p : Option (ℕ × List Expression)} {get : LogicalGet}
  {scan : PlannedScan} {indexType : IndexType}

variable (db) in
/-- The relation of a get, or of a projection over it. -/
def relationOver : Option (ℕ × List Expression) → LogicalGet → Relation
  | none, get => db.getRelation get
  | some (tableIndex, expressions), get => db.projectionRelation tableIndex expressions (db.getRelation get)

theorem eval_eq_relationOver {plan : Plan} (h : plan.toLogical = (Plan.overGet p get).toLogical) :
    db.eval plan = db.relationOver p get := by
  rcases p with - | ⟨tableIndex, expressions⟩
  · obtain ⟨ts, rfl⟩ := Plan.toLogical_eq_get h
    rfl
  · obtain ⟨ts, rfl, hts⟩ := Plan.toLogical_eq_projection h
    obtain ⟨t, rfl, ht⟩ := List.map_eq_singleton_iff.mp hts
    obtain ⟨ts, rfl⟩ := Plan.toLogical_eq_get ht
    rfl

theorem overGet_injective {p' : Option (ℕ × List Expression)} {get' : LogicalGet}
    (h : (Plan.overGet p get).toLogical = (Plan.overGet p' get').toLogical) : get' = get := by
  rcases p with - | ⟨tableIndex, expressions⟩ <;> rcases p' with - | ⟨tableIndex', expressions'⟩ <;> cases h <;> rfl

/-- The rows above a get that returns these. -/
theorem gives_over (p : Option (ℕ × List Expression)) {rows : List ReadRow}
    (h : db.Scans get (rows.map fun r => get.outputColumns.map (cell r.1 r.2)))
    (hlt : ∀ q ∈ get.outputPositions, q < get.columnIds.length) :
    (db.relationOver p get).Gives (rows.map (db.rowOver p get)) ∧
      (db.relationOver p get).answers (rows.map (db.rowOver p get)) := by
  have hgives := gives_get h
  have hrows : (rows.map fun r => get.outputColumns.map (cell r.1 r.2)).map (Row.named get.columnBindings) =
      rows.map get.namedRow := by
    rw [List.map_map]
    exact List.map_congr_left fun r _ => named_outputColumns hlt r
  rw [hrows] at hgives
  have hanswers : (db.getRelation get).answers (rows.map get.namedRow) := ⟨_, h, List.Perm.of_eq hrows.symm⟩
  rcases p with - | ⟨tableIndex, expressions⟩
  · exact ⟨hgives, hanswers⟩
  · refine ⟨⟨?_, hgives.fails⟩, _, hanswers, by rw [List.map_map]; rfl⟩
    rintro out ⟨input, hinput, rfl⟩
    have hmap := (hgives.perm _ hinput).map (db.project tableIndex expressions)
    rwa [List.map_map] at hmap

omit [LinearOrder δ] in
/-- The columns a scan is opened with. -/
theorem columns_of_initGlobal {n : ℕ} {meos : Meos n} {near : Nearest meos δ} {bind : IndexScanBindData meos}
    {localStorage : List StoredRow} {input : InitInput} {s : GlobalState δ}
    (h : initGlobal near bind localStorage input = .ok s) :
    s.columnIds = input.columnIds.map (ColumnIndex.storage bind.columns) ∧
      s.projectionIds = if input.canRemoveFilterColumns then input.projectionIds else [] := by
  simp only [initGlobal] at h
  split at h <;>
    obtain ⟨state, -, hs⟩ := except_bind_eq_ok.mp h <;>
    obtain rfl := Except.ok.inj hs <;>
    exact ⟨rfl, rfl⟩

variable (db) in
/-- The get that reads the index nearest first returns the rows of the answer. -/
theorem scans_nearest (indexType : IndexType) (hget : get.WellFormed) (hchunk : get.chunkColumns = get.outputColumns)
    {key : ReadRow → Option δ} (h : TopNRight (db.near scan.index.bboxType)
      (scan.bindData get.table.columns (db.index get.table scan.index)) order limit offset (db.viewOf get) key) :
    ∃ ids, nearestIds (db.near scan.index.bboxType) (scan.bindData get.table.columns (db.index get.table scan.index))
        (db.viewOf get).snapshot = .ok ids ∧
      db.Scans (get.readNearest indexType scan)
        ((rowsAt (db.viewOf get).snapshot ids).map fun r => get.outputColumns.map (cell r.1 r.2)) ∧
      topN order.nullsFirst limit offset ((rowsAt (db.viewOf get).snapshot ids).map key) =
        topN order.nullsFirst limit offset ((db.viewOf get).seqRows.map key) := by
  obtain ⟨ids, hids, hdeliver, hkeys⟩ := h
  obtain ⟨s, hinit, hrun⟩ := hdeliver get.initInput
  obtain ⟨hcolumns, hprojection⟩ := columns_of_initGlobal hinit
  have hemit : ∀ r : ReadRow, emitRow s r.1 r.2 = get.outputColumns.map (cell r.1 r.2) := by
    intro r
    rw [← hchunk]
    exact emitRow_chunkColumns hget.projectionIds_lt hcolumns hprojection r
  refine ⟨ids, hids, ⟨ids.length + 1, fun fuel hfuel => ?_⟩, hkeys⟩
  have hscan := hrun fuel hfuel
  simp only [hemit] at hscan
  exact except_bind_eq_ok.mpr ⟨s, hinit, hscan⟩

/-- **The rule for TopN.** -/
theorem topN_improves {m : Bool} {child : Plan} {ordered : OrderedGet}
    (hserved : db.Served sets m (.topN [order] limit offset) [child])
    (hchild : child.toLogical = (Plan.overGet p ordered.get).toLogical)
    (hordered : resolveOrderedGet [order] limit offset [child.toLogical] = some ordered)
    (hname : ordered.get.functionName = "seq_scan") (hfilters : ordered.get.tableFilters = [])
    (hscan : ordered.get.findNearest sets indexType ordered.orderExpr (offset + limit) = some scan) :
    (db.served sets).Improves m (.node (.topN [order] limit offset) [child])
      (.node (.topN [order] limit offset) [Plan.overGet p (ordered.get.readNearest indexType scan)]) := by
  obtain ⟨hbind, hget, hchunk, key, hright, hpart, hkeys⟩ :=
    hserved p ordered indexType scan hchild hordered hname hscan
  generalize ordered.get = get at *
  set t := db.viewOf get with ht
  have hname' : (get.readNearest indexType scan).functionName ≠ "seq_scan" := scanName_ne indexType
  obtain ⟨ids, hids, hscans, hwindow⟩ := scans_nearest db indexType hget hchunk hright
  have hsub := hpart ids hids
  have hseq : db.Scans get (t.seqRows.map fun r => get.outputColumns.map (cell r.1 r.2)) := by
    have h : db.Scans get _ := scans_of_none hbind
    rw [LogicalGet.seqScan, LogicalGet.filteredRows, hfilters] at h
    simpa using h
  obtain ⟨hgives, -⟩ := gives_over p hscans hget.outputPositions_lt
  obtain ⟨-, hanswers⟩ := gives_over p hseq hget.outputPositions_lt
  have hrow : db.rowOver p (get.readNearest indexType scan) = db.rowOver p get := by
    cases p <;> rfl
  have hmem : ∀ r ∈ rowsAt t.snapshot ids, r ∈ t.seqRows := fun r hr => hsub.subset hr
  refine ⟨?_, ?_, ?_⟩
  · have hholds : (db.served sets).Holds m (Plan.overGet p (get.readNearest indexType scan)) := by
      rcases p with - | p
      · exact holds_get fun hseq => absurd hseq hname'
      · refine .node trivial fun t ht => ?_
        obtain rfl := List.mem_singleton.mp ht
        exact holds_get fun hseq => absurd hseq hname'
    refine .node ?_ fun t ht => ?_
    · intro p' ordered' _ _ hchild' _ hseq _
      rw [overGet_injective hchild'] at hseq
      exact absurd hseq hname'
    · obtain rfl := List.mem_singleton.mp ht
      exact hholds
  · show Relation.Refines m (db.topNRelation [order] limit offset (db.eval child))
      (db.topNRelation [order] limit offset (db.eval (Plan.overGet p (get.readNearest indexType scan))))
    rw [eval_eq_relationOver hchild, eval_eq_relationOver rfl]
    have hbindings : (db.relationOver p (get.readNearest indexType scan)).bindings = (db.relationOver p get).bindings := by
      cases p <;> rfl
    refine ⟨.of_eq hbindings, fun _ => hbindings, ?_, fun hfails => absurd hfails hgives.fails⟩
    intro rows hrows
    obtain ⟨input, hinput, htakes⟩ := hrows
    -- the window is one of the rows that the index scan delivers, so one of all rows
    have htakes := htakes.perm (hgives.perm input hinput)
    rw [hrow] at htakes
    obtain ⟨out, hout, rfl⟩ := htakes.exists_of_map
      (r := fun x y => keyLe order.nullsFirst (key x) (key y)) fun x hx y hy hle =>
        (hkeys x (hmem x hx) y (hmem y hy)).mp hle
    have hall := hout.of_part hsub fun keys hwindows => by
      rw [hwindows.unique (takes_topN order.nullsFirst limit offset _), hwindow]
      exact takes_topN order.nullsFirst limit offset _
    exact ⟨_, hanswers, hall.map fun x hx y hy hle => (hkeys x hx y hy).mpr hle⟩
  · intro p' get' heq
    rcases p' with - | p' <;> cases heq

end TopN

end Database

end MobilityDuck
