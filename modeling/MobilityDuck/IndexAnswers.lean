/-
# Rewritten queries over an index of the rows

The rewrites were judged by what they ask of an index: that its hits are the
rows a predicate accepts. Here the index is one built over the rows a
transaction sees (`Index.Over`), and the operators agree with its boxes. Then
a rewritten get whose filter compares the index's own column with a box
constant, under a projection the scan applies, returns the rows of the
sequential scan (`rewritten_get_rows`); and a rewritten join whose operand is
where its column index says returns the rows of the nested loop
(`rewritten_join_rows`).

Key definitions: `Index.Over`, `PhysicalIndexJoin.probeBox`,
`Interpretation.AgreesOverlap`. Key theorems: `rewritten_get_rows`,
`rewritten_join_rows`.
-/
import MobilityDuck.OptimizeJoin
import MobilityDuck.ScanPredicate
import MobilityDuck.ScanProjection

namespace MobilityDuck

open Lib

variable {n : ℕ} {meos : Meos n}

/-- The rows of a table, with one stored column. -/
def Transaction.columnRows (t : Transaction) (oid : ℕ) : List (RowId × Value) :=
  t.seqRows.map fun r => (r.1, cell r.1 r.2 (.column oid))

/-- The index was built over the rows the transaction sees, none of which are its own, and over values of
the column's type. -/
structure Index.Over (index : Index meos) (info : IndexInfo) (t : Transaction) : Prop where
  localRows : t.localRows = []
  typed : ∀ r ∈ t.columnRows info.columnId, r.2 = .null ∨ info.columnType.Holds r.2
  built : ∃ alloc memory, index.Built alloc memory info (t.columnRows info.columnId)

section Over

variable {index : Index meos} {info : IndexInfo} {t : Transaction}

theorem mem_columnRows (h : t.localRows = []) {oid : ℕ} {id : RowId} {value : Value} :
    (id, value) ∈ t.columnRows oid ↔ ∃ row, t.snapshot id = some row ∧ value = cell id row (.column oid) := by
  rw [Transaction.columnRows, seqRows_of_localRows h, List.mem_map]
  constructor
  · intro ⟨r, hr, heq⟩
    obtain ⟨rfl, rfl⟩ := Prod.mk.inj heq
    exact ⟨r.2, (mem_rowsAt.mp hr).2, rfl⟩
  · intro ⟨row, hrow, heq⟩
    exact ⟨(id, row), mem_rowsAt.mpr ⟨t.stored id (by simp [hrow]), hrow⟩, by rw [heq]⟩

theorem nodup_columnRows (h : t.localRows = []) (oid : ℕ) : ((t.columnRows oid).map (·.1)).Nodup := by
  rw [Transaction.columnRows, seqRows_of_localRows h, List.map_map, rowsAt]
  refine List.pairwise_map.mpr (List.Pairwise.filterMap _ ?_ t.nodup)
  intro id id' hne r hr r' hr'
  obtain ⟨_, -, rfl⟩ := Option.map_eq_some_iff.mp hr
  obtain ⟨_, -, rfl⟩ := Option.map_eq_some_iff.mp hr'
  exact hne

/-- Hits that are the ids whose value satisfies something are the rows that satisfy it. -/
theorem rowsAt_of_columnRows (h : t.localRows = []) {oid : ℕ} {hits : List RowId} (hnodup : hits.Nodup)
    {P : Value → Prop} (hhits : ∀ id, id ∈ hits ↔ ∃ value, (id, value) ∈ t.columnRows oid ∧ P value)
    {accepts : ReadRow → Bool}
    (haccepts : ∀ r ∈ t.seqRows, accepts r = true ↔ P (cell r.1 r.2 (.column oid))) :
    (∀ id ∈ hits, t.snapshot id ≠ none) ∧ (rowsAt t.snapshot hits).Perm (t.seqRows.filter accepts) := by
  constructor
  · intro id hid hnone
    obtain ⟨value, hvalue, -⟩ := (hhits id).mp hid
    obtain ⟨row, hrow, -⟩ := (mem_columnRows h).mp hvalue
    rw [hnone] at hrow
    simp at hrow
  · rw [seqRows_of_localRows h]
    apply rowsAt_hits hnodup
    intro id row hrow
    rw [haccepts _ (mem_seqRows hrow), hhits]
    constructor
    · intro ⟨value, hvalue, hP⟩
      obtain ⟨row', hrow', rfl⟩ := (mem_columnRows h).mp hvalue
      obtain rfl := Option.some.inj (hrow.symm.trans hrow')
      exact hP
    · exact fun hP => ⟨_, (mem_columnRows h).mpr ⟨row, hrow, rfl⟩, hP⟩

/-- No search of the index answers an id twice. -/
theorem Index.Over.nodup_search (hmeos : meos.Lawful) (h : index.Over info t) (q : Box n)
    (op : IndexSearchOp) :
    (index.search q op).Nodup := by
  obtain ⟨alloc, memory, hbuilt⟩ := h.built
  exact (hbuilt.exact hmeos (nodup_columnRows h.localRows _)).nodup_search hmeos q op

/-- A scan is one search. -/
theorem exists_search {query : List UInt8} {operation : String} {left : Bool} {hits : List RowId}
    (h : index.initializeScan query operation left = .ok hits) : ∃ q op, hits = index.search q op := by
  unfold Index.initializeScan at h
  split at h
  · simp at h
  · rename_i op _
    cases hq : prepareQuery meos index.info.bboxType operation query with
    | error e =>
      rw [hq] at h
      cases h
    | ok q =>
      rw [hq] at h
      exact ⟨q, op, (Except.ok.inj h).symm⟩

end Over

/-! ### A table of two boxes -/

/-- Operators compare boxes whole; of two boxes, neither is a time. -/
def boxInterpretation : Interpretation where
  function _ types _ args := .boolean ((types ≠ [.stbox, .stbox] || args.all fun a => a matches .blob _) &&
    sameBox boxIndex.bboxType.boxSize args)
  other _ _ _ _ := .null

theorem holds_stbox {bytes : List UInt8} (h : bytes.length = 80) : LogicalType.stbox.Holds (.blob bytes) := by
  obtain ⟨hid, hlength⟩ : LogicalType.stbox.Holds (.blob (List.replicate 80 0)) := (zeroBox .stbox).holds
  refine ⟨hid, fun t ht => ?_⟩
  rw [h, ← hlength t ht, List.length_replicate]

theorem sameBox_null {n : ℕ} (left : Bool) (b : Value) : sameBox n (operands left .null b) = false := by
  cases left <;> simp [operands, sameBox, operandBytes]

theorem boxInterpretation_agrees :
    boxInterpretation.Agrees (wholeMeos boxIndex.bboxType.boxSize) boxIndex where
  query c bytes hc hbytes := by
    refine ⟨Box.copy _ bytes, prepareQuery_wholeMeos hc hbytes, ?_⟩
    intro name left op _ value o hvalue hbox
    show Value.boolean _ = .boolean true ↔ _
    rw [Value.boolean.injEq, Bool.and_eq_true]
    cases value with
    | null =>
      obtain rfl := Except.ok.inj hbox
      simp [sameBox_null]
    | blob data =>
      have hdata : boxIndex.columnType.Holds (.blob data) := by simpa using hvalue
      obtain rfl := Except.ok.inj ((columnBox_wholeMeos hdata).symm.trans hbox)
      have hboxes : (decide (operands left boxIndex.columnType c.type ≠ [.stbox, .stbox]) ||
          (operands left (.blob data) c.value).all fun a => a matches .blob _) = true := by
        rcases hc with hc | ⟨hid, -⟩
        · rw [value_of_queryBytes (by rw [hc]; exact MeosType.logicalType_id _) hbytes]
          cases left <;> simp [operands]
        · have hne : c.type ≠ .stbox := fun h => by rw [h] at hid; cases hid
          cases left <;> simp [operands, hne]
      rw [sameBox_operands _ left rfl (operandBytes_of_queryBytes hbytes)]
      exact (and_iff_right hboxes).trans (by simp [wholeMeos])
    | boolean | bigint | timestampTz => simp [LogicalType.Holds, boxIndex, LogicalType.stbox] at hvalue

theorem nodup_boxRowIds : ([7, 8] : List RowId).Nodup := by decide

/-- Two rows, one with a box of zeros. -/
def boxRows : Transaction where
  rowIds := [7, 8]
  snapshot id :=
    if id = 7 then some [.blob (List.replicate 80 0)]
    else if id = 8 then some [.blob (List.replicate 80 1)]
    else none
  localRows := []
  nodup := nodup_boxRowIds
  stored id h := by
    by_cases h7 : id = 7
    · exact h7 ▸ List.mem_cons_self
    by_cases h8 : id = 8
    · exact h8 ▸ List.mem_cons_of_mem _ List.mem_cons_self
    rw [if_neg h7, if_neg h8] at h
    exact absurd rfl h

/-- An index over a column of them. -/
def boxRowsIndex (info : IndexInfo) : Index (wholeMeos info.bboxType.boxSize) :=
  ((Index.new _ info (emptyMemory _)).append .bump ((boxRows.columnRows info.columnId).map indexedRow)).1

theorem mem_boxRows {r : RowId × Value} (h : r ∈ boxRows.columnRows boxIndex.columnId) :
    ∃ bytes : List UInt8, r.2 = .blob bytes ∧ bytes.length = 80 := by
  have h : r ∈ [((7 : RowId), Value.blob (List.replicate 80 0)), (8, .blob (List.replicate 80 1))] := h
  simp only [List.mem_cons, List.not_mem_nil, or_false] at h
  rcases h with rfl | rfl
  · exact ⟨_, rfl, List.length_replicate⟩
  · exact ⟨_, rfl, List.length_replicate⟩

theorem over_boxRows : (boxRowsIndex boxIndex).Over boxIndex boxRows where
  localRows := rfl
  typed r hr := by
    obtain ⟨bytes, hbytes, hlength⟩ := mem_boxRows hr
    rw [hbytes]
    exact .inr (holds_stbox hlength)
  built := by
    refine ⟨.bump, emptyMemory _, Prod.ext rfl (construct_of_columnBox _ fun r hr => ?_)⟩
    obtain ⟨bytes, hbytes, hlength⟩ := mem_boxRows hr
    rw [hbytes]
    exact ⟨_, columnBox_wholeMeos (holds_stbox hlength)⟩

/-- A cursor over nothing. -/
def noNearest (n : ℕ) : Nearest (wholeMeos n) ℕ where
  cursor _ _ := []
  temporalType _ := none
  nadTintTbox _ _ := .ok 0
  nadTbigintTbox _ _ := .ok 0
  nadTfloatTbox _ _ := .ok 0
  nadTgeoStbox _ _ := .ok 0
  max := 0

/-- A get of the rows whose box is of zeros. -/
def boxGet : LogicalGet := predicateGet (.reference .stbox)

theorem boxGet_wellFormed : boxGet.WellFormed := predicateGet_wellFormed rfl

/-- The index scan that takes its place. -/
theorem boxGet_rewritten : tryOptimizeLogicalGet .backtracking .trtree boxGet =
    (true, .get (boxGet.readIndex .trtree boxScan)) :=
  predicateGet_rewritten rfl rfl

/-! ### A rewritten get -/

section Get

variable {get : LogicalGet} {matched : ℕ} {scan : PlannedScan} {filter : TableFilter}

/-- The matched filters are the one that was matched. -/
theorem all_matchedFilters (hget : get.WellFormed) (hfilter : (matched, filter) ∈ get.tableFilters)
    (p : ℕ × TableFilter → Bool) : (get.matchedFilters matched).all p = p (matched, filter) := by
  rw [Bool.eq_iff_iff, List.all_eq_true]
  constructor
  · exact fun h => h _ (List.mem_filter.mpr ⟨hfilter, decide_eq_true rfl⟩)
  · intro h f hf
    obtain ⟨hmem, hkey⟩ := List.mem_filter.mp hf
    obtain ⟨key, filter'⟩ := f
    obtain rfl : key = matched := of_decide_eq_true hkey
    rwa [hget.filter_eq hmem hfilter]

/-- An index over its rows answers the filter of its own column that its scan is exact for. -/
theorem answered_of_exact (hget : get.WellFormed) (hfilter : (matched, filter) ∈ get.tableFilters)
    (hown : storageOid get.table.columns matched = some scan.index.columnId)
    (hexact : scan.Exact filter.expr)
    {meos : Meos scan.index.bboxType.boxSize} (hmeos : meos.Lawful) {I : Interpretation}
    (hI : I.Agrees meos scan.index) {index : Index meos} {t : Transaction}
    (hover : index.Over scan.index t) :
    ∃ hits, get.Answered I index t matched scan hits := by
  obtain ⟨alloc, memory, hbuilt⟩ := hover.built
  obtain ⟨hits, hscan, hhits⟩ :=
    hexact meos I alloc memory _ index hmeos hI (nodup_columnRows hover.localRows _) hover.typed hbuilt
  obtain ⟨q, op, rfl⟩ := exists_search hscan
  have haccepts : ∀ r ∈ t.seqRows, (get.matchedFilters matched).all (get.accepts I r) = true ↔
      filter.expr.accepts I (cell r.1 r.2 (.column scan.index.columnId)) (fun _ => .null) = true := by
    intro r _
    rw [all_matchedFilters hget hfilter, LogicalGet.accepts, LogicalGet.columnValue,
      ColumnIndex.storage, hown]
  obtain ⟨hseen, hperm⟩ :=
    rowsAt_of_columnRows hover.localRows (hover.nodup_search hmeos q op) hhits haccepts
  exact ⟨_, hscan, hseen, hperm⟩

/-- **A rewritten get returns the rows of the sequential scan**, from an index over its rows, where the
index is over the filtered column, the filter compares that column with a box constant, and the scan applies
the projection. -/
theorem rewritten_get_rows {sets : SetMatcher} {indexType : IndexType} {plan : LogicalOperator}
    (hget : get.WellFormed) (hplan : tryOptimizeLogicalGet sets indexType get = (true, plan))
    (hfind : get.findMatch sets indexType = some (matched, scan))
    (hfilter : (matched, filter) ∈ get.tableFilters)
    (hown : storageOid get.table.columns matched = some scan.index.columnId) {c : Constant}
    (hc : IsBoxConstant scan.index c)
    (hshape : filter.expr = comparison scan.operation scan.queryOnLeft (.reference scan.index.columnType) c)
    (hprojection : get.projectionIds = [] ∨ (get.extended matched).length ≠ get.columnIds.length ∨
      select get.columnIds (get.extended matched) = get.columnIds)
    {meos : Meos scan.index.bboxType.boxSize} (hmeos : meos.Lawful) {δ : Type} [LinearOrder δ]
    (I : Interpretation)
    (hI : I.Agrees meos scan.index) (near : Nearest meos δ) (index : Index meos) (t : Transaction)
    (hover : index.Over scan.index t) : ∃ plan', plan.filteredGet? = some plan' ∧
      ∃ calls, ∀ fuel ≥ calls, ∃ out, plan'.run I near index t fuel = .ok out ∧
      out.Perm (get.seqScan I t) := by
  obtain ⟨plan', hplan', hrewrites⟩ := rewrites_of_tryOptimizeLogicalGet hget hplan hfind
  obtain ⟨filter', hfilter', -, -, -, hmatch⟩ := findMatch_eq_some hfind
  obtain rfl := hget.filter_eq hfilter hfilter'
  have hexact := exact_of_matchFilter hmatch hc hshape
  obtain ⟨hits, hanswered⟩ := answered_of_exact hget hfilter hown hexact hmeos hI hover
  have hchunk := (hrewrites.chunkColumns_eq_iff hget).mpr hprojection
  refine ⟨plan', hplan', hits.length + 1, fun fuel hfuel => ?_⟩
  exact hrewrites.rows hget hchunk I near index t hits fuel hanswered hfuel

theorem rewritten_get_rows_boxRows : ∃ plan', (LogicalOperator.get (boxGet.readIndex .trtree boxScan)).filteredGet? =
      some plan' ∧ ∃ calls, ∀ fuel ≥ calls, ∃ out,
        plan'.run boxInterpretation (noNearest _) (boxRowsIndex boxIndex) boxRows fuel = .ok out ∧
          out.Perm (boxGet.seqScan boxInterpretation boxRows) := by
  have hfind := findMatch_of_scan? boxGet_rewritten rfl
  exact rewritten_get_rows boxGet_wellFormed boxGet_rewritten hfind List.mem_cons_self rfl (c := zeroBox .stbox)
    (.inl rfl) rfl (.inl rfl) (wholeMeos_lawful _) boxInterpretation boxInterpretation_agrees (noNearest _)
    (boxRowsIndex boxIndex) boxRows over_boxRows


end Get

/-! ### A rewritten join -/

/-- The box a probe value is looked up with. -/
def PhysicalIndexJoin.probeBox (join : PhysicalIndexJoin meos) :
    Value → Except Exception (Option (Box n))
  | .blob bytes =>
    if join.probeIsTemporal then do
      match ← callMeos (meos.tspatialToStbox bytes) with
      | none => pure none
      | some box => (normalizeStbox meos box).map some
    else if meos.hasX (Box.copy n bytes) then do
      let srid ← callMeos (meos.stboxSrid (Box.copy n bytes))
      if srid = 0 then pure (some (Box.copy n bytes)) else callMeos (meos.stboxSetSrid (Box.copy n bytes) 0)
    else pure (some (Box.copy n bytes))
  | _ => .ok none

/-- A probe is one search with that box. -/
theorem probeMatches_of_probeBox {join : PhysicalIndexJoin meos} {value : Value} {o : Option (Box n)}
    (h : join.probeBox value = .ok o) :
    join.probeMatches value = .ok (o.elim [] fun q => join.index.search q .overlaps) := by
  cases value with
  | blob bytes =>
    rw [PhysicalIndexJoin.probeBox] at h
    rw [PhysicalIndexJoin.probeMatches]
    by_cases htemporal : join.probeIsTemporal = true
    · rw [if_pos htemporal] at h ⊢
      cases hbox : callMeos (meos.tspatialToStbox bytes) with
      | error e =>
        rw [hbox] at h
        cases h
      | ok derived =>
        rw [hbox] at h
        cases derived with
        | none =>
          obtain rfl := Except.ok.inj h
          rfl
        | some box =>
          have h : (normalizeStbox meos box).map some = .ok o := h
          show (normalizeStbox meos box).map _ = _
          cases hnormal : normalizeStbox meos box with
          | error e =>
            rw [hnormal] at h
            cases h
          | ok normalized =>
            rw [hnormal] at h
            obtain rfl := Except.ok.inj h
            rfl
    · rw [if_neg htemporal] at h ⊢
      by_cases hx : meos.hasX (Box.copy n bytes) = true
      · rw [if_pos hx] at h ⊢
        cases hsrid : callMeos (meos.stboxSrid (Box.copy n bytes)) with
        | error e =>
          rw [hsrid] at h
          cases h
        | ok srid =>
          rw [hsrid] at h
          have h : (if srid = 0 then pure (some (Box.copy n bytes))
            else callMeos (meos.stboxSetSrid (Box.copy n bytes) 0)) = Except.ok o := h
          show (if srid = 0 then _ else _) = _
          by_cases hzero : srid = 0
          · rw [if_pos hzero] at h ⊢
            obtain rfl := Except.ok.inj h
            rfl
          · rw [if_neg hzero] at h ⊢
            rw [h]
            cases o <;> rfl
      · rw [if_neg hx] at h ⊢
        obtain rfl := Except.ok.inj h
        rfl
  | null | boolean | bigint | timestampTz =>
    obtain rfl := Except.ok.inj h
    rfl

/-- `&&` agrees with the search of a join: between a probe value and a value of the indexed column, either
way round, it holds when both have a box and the boxes overlap. -/
structure JoinSides.AgreesOverlap (sides : JoinSides) (I : Interpretation) (info : IndexInfo)
    (join : PhysicalIndexJoin meos) : Prop where
  overlap : ∀ left type v w o o', join.probeBox v = .ok o → (w = .null ∨ info.columnType.Holds w) →
    columnBox meos info w = .ok o' →
    (I.function "&&" (operands left sides.indexedRef.type sides.probeRef.type) type (operands left w v) =
      .boolean true ↔ ∃ q b, o = some q ∧ o' = some b ∧ meos.satisfies .overlaps b q = true)

/-! Of the table of two boxes. -/

/-- The box of a probe value is its bytes. -/
theorem probeBox_wholeMeos {n : ℕ} {join : PhysicalIndexJoin (wholeMeos n)} (h : join.probeIsTemporal = false)
    (v : Value) : join.probeBox v = .ok (match v with
      | .blob bytes => some (Box.copy n bytes)
      | _ => none) := by
  cases v with
  | blob bytes =>
    rw [PhysicalIndexJoin.probeBox, if_neg (by simp [h]), if_neg (by simp [wholeMeos])]
    rfl
  | null | boolean | bigint | timestampTz => rfl

theorem boxInterpretation_overlap {sides : JoinSides} {join : PhysicalIndexJoin (wholeMeos boxIndex.bboxType.boxSize)}
    (hindexed : sides.indexedRef.type = .stbox) (hprobe : sides.probeRef.type = .stbox)
    (hjoin : join.probeIsTemporal = false) : sides.AgreesOverlap boxInterpretation boxIndex join where
  overlap left type v w o o' ho hw ho' := by
    have htypes : operands left sides.indexedRef.type sides.probeRef.type = [.stbox, .stbox] := by
      rw [hindexed, hprobe]
      cases left <;> rfl
    show Value.boolean _ = .boolean true ↔ _
    rw [Value.boolean.injEq, Bool.and_eq_true, htypes]
    obtain rfl := Except.ok.inj ((probeBox_wholeMeos hjoin v).symm.trans ho)
    cases w with
    | null =>
      obtain rfl := Except.ok.inj ho'
      simp [sameBox_null]
    | blob data =>
      have hdata : boxIndex.columnType.Holds (.blob data) := by simpa using hw
      obtain rfl := Except.ok.inj ((columnBox_wholeMeos hdata).symm.trans ho')
      cases v with
      | blob bytes =>
        rw [sameBox_operands _ left rfl rfl]
        cases left <;> simp [operands]
      | null | boolean | bigint | timestampTz => cases left <;> simp [operands]
    | boolean | bigint | timestampTz => simp [LogicalType.Holds, boxIndex, LogicalType.stbox] at hw

/-- The sides of their join, the second indexed. -/
def boxSides (probe indexed : LogicalGet) : JoinSides := ⟨indexed, probe, ⟨.stbox, ⟨1, 0⟩⟩, ⟨.stbox, ⟨0, 0⟩⟩⟩

theorem boxSides_wellFormed {probe indexed : LogicalGet} (hprobe : probe.WellFormed) (hindexed : indexed.WellFormed)
    (hmem : ⟨0, 0⟩ ∈ probe.columnBindings) (hmem' : ⟨1, 0⟩ ∈ indexed.columnBindings) :
    (boxSides probe indexed).WellFormed where
  indexed := hindexed
  probe := hprobe
  tableIndex_ne := by
    show indexed.tableIndex ≠ probe.tableIndex
    rw [← tableIndex_of_mem hmem, ← tableIndex_of_mem hmem']
    exact Nat.one_ne_zero
  indexedRef_mem := hmem'
  probeRef_mem := hmem

theorem boxSide_wellFormed : boxSide.WellFormed := by
  refine ⟨fun i hi => ?_, List.Pairwise.nil, fun f hf => ?_, fun p hp => ?_⟩
  · obtain rfl := ColumnIndex.column.inj (List.mem_singleton.mp hi)
    rfl
  · cases hf
  · cases hp

/-- Their join on `&&`. -/
def boxJoin (probe indexed : LogicalGet) (estimated : ℕ) : LogicalAnyJoin where
  joinType := .inner
  condition := some (.function "&&" .boolean [.columnRef .stbox ⟨0, 0⟩, .columnRef .stbox ⟨1, 0⟩])
  children := [.get probe, .get indexed]
  estimatedCardinality := estimated

/-- The index join that takes its place. -/
def boxPlan (probe : LogicalGet) (estimated : ℕ) : LogicalIndexJoin where
  indexTable := oneColumn
  index := boxIndex
  probeColumn := 0
  probeIsTemporal := false
  indexTypes := [.stbox]
  indexColumns := [0]
  indexBindings := [⟨1, 0⟩]
  child := probe
  estimatedCardinality := estimated

section Join

variable {join : LogicalAnyJoin} {sides : JoinSides} {plan : LogicalIndexJoin} {I : Interpretation}
  {index : Index meos} {view : LogicalGet → Transaction}

variable (I) in
/-- The value of a condition on a pair of rows. -/
theorem eval_pair (hwf : sides.WellFormed) (hbuilds : sides.Builds plan) (type : LogicalType)
    {a b : ColumnRef}
    (hrefs : (a = sides.indexedRef ∧ b = sides.probeRef) ∨ (a = sides.probeRef ∧ b = sides.indexedRef))
    (x y : ReadRow) : ∃ left,
    (Expression.function "&&" type [.columnRef a.type a.binding, .columnRef b.type b.binding]).eval I .null
      (pairValue sides.probe sides.indexed x y) =
        I.function "&&" (operands left sides.indexedRef.type sides.probeRef.type) type
          (operands left (cell y.1 y.2 (.column plan.index.columnId))
            (sides.probe.bindingValue x sides.probeRef.binding)) := by
  have hprobe : pairValue sides.probe sides.indexed x y sides.probeRef.binding =
      sides.probe.bindingValue x sides.probeRef.binding := pairValue_left hwf.probeRef_mem
  have hindexed : pairValue sides.probe sides.indexed x y sides.indexedRef.binding =
      cell y.1 y.2 (.column plan.index.columnId) := by
    rw [pairValue_right hwf.tableIndex_ne.symm hwf.indexedRef_mem, LogicalGet.bindingValue,
      hbuilds.column]
  rw [← hprobe, ← hindexed]
  rcases hrefs with ⟨rfl, rfl⟩ | ⟨rfl, rfl⟩
  · exact ⟨false, rfl⟩
  · exact ⟨true, rfl⟩

/-- An index over its rows answers the condition of a join, where no probe value raises. -/
theorem answered_of_over (hwf : sides.WellFormed) (hmem : sides ∈ join.attempts)
    (hbuilds : sides.Builds plan)
    (hmeos : meos.Lawful) (hagrees : sides.AgreesOverlap I plan.index (plan.createPlan index))
    (hover : index.Over plan.index (view sides.indexed))
    (hprobe : ∀ x ∈ (view sides.probe).seqRows,
      ∃ o, (plan.createPlan index).probeBox (sides.probe.bindingValue x sides.probeRef.binding) = .ok o)
    (condition : Expression) (hcondition : join.condition = some condition) :
    sides.Answered I condition (plan.createPlan index) view := by
  obtain ⟨type, a, b, hcondition', -, hrefs⟩ := attempts_spec hwf hmem
  obtain rfl := Option.some.inj (hcondition'.symm.trans hcondition)
  obtain ⟨alloc, memory, hbuilt⟩ := hover.built
  have hids := nodup_columnRows hover.localRows plan.index.columnId
  intro x hx
  obtain ⟨o, ho⟩ := hprobe x hx
  let P : Value → Prop := fun w => ∃ q b, o = some q ∧ columnBox meos plan.index w = .ok (some b) ∧
    meos.satisfies .overlaps b q = true
  have hnodup : (o.elim [] fun q => index.search q .overlaps).Nodup := by
    cases o with
    | none => exact List.nodup_nil
    | some q => exact hover.nodup_search hmeos q .overlaps
  have hhits : ∀ id, (id ∈ o.elim [] fun q => index.search q .overlaps) ↔
      ∃ value, (id, value) ∈ (view sides.indexed).columnRows plan.index.columnId ∧ P value := by
    intro id
    cases o with
    | none => simp [P]
    | some q =>
      show id ∈ index.search q .overlaps ↔ _
      rw [hbuilt.mem_search hmeos hids]
      constructor
      · intro ⟨value, b, hvalue, hbox, hsat⟩
        exact ⟨value, hvalue, q, b, rfl, hbox, hsat⟩
      · intro ⟨value, hvalue, q', b, hq, hbox, hsat⟩
        obtain rfl := Option.some.inj hq
        exact ⟨value, b, hvalue, hbox, hsat⟩
  have haccepts : ∀ y ∈ (view sides.indexed).seqRows,
      (Expression.function "&&" type [.columnRef a.type a.binding, .columnRef b.type b.binding]).accepts
        I .null (pairValue sides.probe sides.indexed x y) = true ↔
          P (cell y.1 y.2 (.column plan.index.columnId)) := by
    intro y hy
    have hrow : (y.1, cell y.1 y.2 (.column plan.index.columnId)) ∈
        (view sides.indexed).columnRows plan.index.columnId := List.mem_map.mpr ⟨y, hy, rfl⟩
    obtain ⟨o', ho'⟩ := hbuilt.columnBox_ok _ hrow
    obtain ⟨left, heval⟩ := eval_pair I hwf hbuilds type hrefs x y
    rw [Expression.accepts, heval, decide_eq_true_eq,
      hagrees.overlap left type _ _ o o' ho (hover.typed _ hrow) ho']
    simp only [P, ho', Except.ok.injEq]
  obtain ⟨hseen, hperm⟩ := rowsAt_of_columnRows hover.localRows hnodup hhits haccepts
  exact ⟨_, probeMatches_of_probeBox ho, hseen, hperm⟩

/-- **A rewritten join returns the rows of the nested loop**, from an index over the rows of the indexed
side, where the operand of the probe side is where its column index says and the indexed side returns its
columns in their order. -/
theorem rewritten_join_rows {indexType : IndexType} (hserved : join.served indexType = some sides)
    (hwf : sides.WellFormed) (hplan : join.tryOptimizeJoin indexType = some plan)
    (hplace :
      (select sides.probe.columnIds sides.probe.outputPositions)[sides.probeRef.binding.columnIndex]? =
      sides.probe.columnIds[sides.probeRef.binding.columnIndex]?)
    (horder : select sides.indexed.columnIds sides.indexed.outputPositions = sides.indexed.columnIds)
    (hmeos : meos.Lawful) (hagrees : sides.AgreesOverlap I plan.index (plan.createPlan index))
    (hover : index.Over plan.index (view sides.indexed))
    (hprobe : ∀ x ∈ (view sides.probe).seqRows,
      ∃ o, (plan.createPlan index).probeBox (sides.probe.bindingValue x sides.probeRef.binding) = .ok o)
    (reset : FetchBuffer → FetchBuffer) (memory : FetchBuffer) (inputs : List Chunk)
    (hinputs : inputs.flatten.Perm (sides.probe.seqScan I (view sides.probe))) :
    ∃ out, (∃ calls, ∀ fuel ≥ calls,
      (plan.createPlan index).joinRows (view sides.indexed).snapshot reset fuel inputs memory = .ok out) ∧
      (out.map fun row => join.columnBindings.map (resolve plan.columnBindings row)).Perm
        (join.run I view) := by
  obtain ⟨hmem, hbuild⟩ := tryBuild_of_served hserved hplan
  have hbuilds := builds_of_tryBuild hbuild
  exact run_perm hwf hmem hbuilds ((probeColumn_iff hwf hbuilds).mpr hplace) horder I index view reset
    memory inputs
    (answered_of_over hwf hmem hbuilds hmeos hagrees hover hprobe) hinputs

theorem rewritten_join_rows_boxRows : ∃ out,
    (∃ calls, ∀ fuel ≥ calls, ((boxPlan boxGet 0).createPlan (boxRowsIndex boxIndex)).joinRows boxRows.snapshot id fuel
      [boxGet.seqScan boxInterpretation boxRows] (fun _ => []) = .ok out) ∧
      (out.map fun row => (boxJoin boxGet boxSide 0).columnBindings.map
        (resolve (boxPlan boxGet 0).columnBindings row)).Perm
          ((boxJoin boxGet boxSide 0).run boxInterpretation fun _ => boxRows) := by
  have hserved : (boxJoin boxGet boxSide 0).served .trtree = some (boxSides boxGet boxSide) := rfl
  have hplan : (boxJoin boxGet boxSide 0).tryOptimizeJoin .trtree = some (boxPlan boxGet 0) := rfl
  have hwf : (boxSides boxGet boxSide).WellFormed :=
    boxSides_wellFormed boxGet_wellFormed boxSide_wellFormed List.mem_cons_self List.mem_cons_self
  refine @rewritten_join_rows _ _ _ _ _ _ (boxRowsIndex boxIndex) (fun _ => boxRows) _ hserved hwf hplan rfl rfl
    (wholeMeos_lawful _) (boxInterpretation_overlap rfl rfl rfl) over_boxRows ?_ id (fun _ => []) _ ?_
  · exact fun x _ => ⟨_, probeBox_wholeMeos rfl _⟩
  · rw [List.flatten_singleton]
    exact .refl _

end Join

end MobilityDuck
