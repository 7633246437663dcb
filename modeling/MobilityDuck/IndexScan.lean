/-
# The scan of an index

A predicate the index answers is opened by `initializeScan`, which prepares
the query box and searches the tree once; the hits are then handed out in
batches of `standardVectorSize`. A nearest-neighbour scan reads candidates in
the order of a bound on their distance (`gatherNearest`), measures each
against the value its row holds, and keeps the `limit` least.

`execute` is one call of the scan: a batch of row ids, fetched for the
transaction, cut to the projected columns. DuckDB calls it until it answers
an empty chunk (`scanRows`).

Key definitions: `IndexScanBindData`, `initializeScan`, `GlobalState`,
`gatherNearest`, `initGlobal`, `execute`, `scanRows`.
-/
import MobilityDuck.IndexRuns
import MobilityDuck.Lib.Pull
import MobilityDuck.Lib.TopK
import MobilityDuck.Table
import Mathlib.Data.Prod.Lex

namespace MobilityDuck

open Lib

/-- `STANDARD_VECTOR_SIZE`. -/
def standardVectorSize : ℕ := 2048

/-- Row ids are ordered as numbers. -/
instance instLinearOrderInt64 : LinearOrder Int64 where
  le_refl := Int64.le_refl
  le_trans _ _ _ := Int64.le_trans
  le_antisymm _ _ := Int64.le_antisymm
  le_total := Int64.le_total
  lt_iff_le_not_ge a b := by
    rw [Int64.not_le]
    constructor
    · exact fun h => ⟨Int64.le_of_lt h, h⟩
    · exact fun h => h.2
  toDecidableLE := inferInstance

variable {n : ℕ} {meos : Meos n}

/-! ### Queries of the index -/

/-- The query box `InitializeScan` prepares. The search reads `n` bytes from it; what lies behind a
shorter value is no part of the query, and stands as zero here. -/
def prepareQuery (meos : Meos n) (bboxType : MeosType) (operation : String) (query : List UInt8) :
    Except Exception (Box n) :=
  if bboxType = .tstzspan ∧ query.length ≠ n then
    if query.length ≠ 8 then
      .error (.invalidInput ("Invalid query box size for " ++ operation ++ " operation. Expected " ++ toString 8 ++
        ", got " ++ toString query.length))
    else .ok (meos.spanAt (decodeInt64 query))
  else if bboxType = .stbox ∧ meos.hasX (Box.copy n query) then normalizeStbox meos (Box.copy n query)
  else .ok (Box.copy n query)

/-- `InitializeScan`: the hits. -/
def Index.initializeScan (s : Index meos) (query : List UInt8) (operation : String)
    (queryOnLeft : Bool) :
    Except Exception (List RowId) :=
  match indexSearchOpFromName operation s.info.bboxType queryOnLeft with
  | none => .error (.invalidInput ("Unsupported " ++
      (if s.info.indexType = .trtree then "R-Tree" else "SP-Tree") ++ " operation: " ++ operation ++
      " for bbox_type: " ++ toString (meos.typeNumber s.info.bboxType)))
  | some op => (prepareQuery meos s.info.bboxType operation query).map fun box => s.search box op

/-- The state of a search: its hits, and how many have been handed out. -/
structure SearchState where
  searchResults : List RowId
  currentPosition : ℕ

/-- `Scan`: the next hits, a vector at most. -/
def SearchState.scan (state : SearchState) : List RowId × SearchState :=
  let batch := (state.searchResults.drop state.currentPosition).take standardVectorSize
  (batch, { state with currentPosition := state.currentPosition + batch.length })

/-- The base type of a temporal value (`temptype`), as far as `ExactDistance` tells it. -/
inductive TemporalType
  | tint
  | tbigint
  | tfloat
  | other
  deriving DecidableEq, Repr

/-- What a nearest-neighbour scan uses of MEOS, with distances in `δ`. -/
structure Nearest (meos : Meos n) (δ : Type) where
  /-- The pairs of a tree by a bound on the distance to a box: the row ids a cursor yields. -/
  cursor : meos.Tree → Box n → List (RowId × δ)
  /-- `BlobToTemporal`, and the type of the value. -/
  temporalType : List UInt8 → Option TemporalType
  nadTintTbox : List UInt8 → List UInt8 → Except String δ
  nadTbigintTbox : List UInt8 → List UInt8 → Except String δ
  nadTfloatTbox : List UInt8 → List UInt8 → Except String δ
  nadTgeoStbox : List UInt8 → List UInt8 → Except String δ
  /-- `numeric_limits<double>::max()`. -/
  max : δ

/-- `InitializeNNScan`: the candidates. -/
def Index.initializeNNScan {δ : Type} (near : Nearest meos δ) (s : Index meos) (query : List UInt8) :
    Except Exception (List (RowId × δ)) :=
  if s.info.bboxType = .stbox ∧ meos.hasX (Box.copy n query) then
    (normalizeStbox meos (Box.copy n query)).map (near.cursor s.tree)
  else .ok (near.cursor s.tree (Box.copy n query))

/-- `ExactDistance`. -/
def exactDistance {δ : Type} (near : Nearest meos δ) (bboxType : MeosType) (value query : List UInt8) :
    Except Exception δ :=
  match near.temporalType value with
  | none => .ok near.max
  | some type =>
    if bboxType = .tbox then
      match type with
      | .tint => callMeos (near.nadTintTbox value query)
      | .tbigint => callMeos (near.nadTbigintTbox value query)
      | .tfloat => callMeos (near.nadTfloatTbox value query)
      | .other => .ok near.max
    else callMeos (near.nadTgeoStbox value query)

/-! ### The scan -/

/-- `NN_OPERATION`. -/
def nnOperation : String := "|=|"

/-- `TRTreeIndexScanBindData`; the table is known by its columns. -/
structure IndexScanBindData (meos : Meos n) where
  columns : ColumnList
  index : Index meos
  limit : ℕ
  queryBox : List UInt8
  operation : String
  queryOnLeft : Bool

/-- A column of a scan: a logical column of the table, or the row id. -/
inductive ColumnIndex
  | column (logical : ℕ)
  | rowId
  deriving DecidableEq, Repr

/-- `TableFunctionInitInput`. -/
structure InitInput where
  columnIds : List ColumnIndex
  projectionIds : List ℕ

/-- `CanRemoveFilterColumns`. -/
def InitInput.canRemoveFilterColumns (input : InitInput) : Bool :=
  !input.projectionIds.isEmpty && input.projectionIds.length != input.columnIds.length

/-- The storage column behind a column of a scan. A scan reads no generated column. -/
def ColumnIndex.storage (columns : ColumnList) : ColumnIndex → StorageIndex
  | .rowId => .rowId
  | .column logical =>
    match storageOid columns logical with
    | some oid => .column oid
    | none => .rowId

/-- The opened index: the hits of a search, or the candidates of a nearest-neighbour scan. -/
inductive IndexScanState (δ : Type)
  | search (state : SearchState)
  | nearest (candidates : List (RowId × δ))

/-- `RTreeIndexScanGlobalState`. The rows of the transaction's local storage are part of it:
`localStorage` is initialised, and read nowhere. -/
structure GlobalState (δ : Type) where
  columnIds : List StorageIndex
  projectionIds : List ℕ
  localStorage : List StoredRow
  indexState : IndexScanState δ
  nearest : List RowId
  nearestPosition : ℕ
  nearestGathered : Bool

variable {δ : Type}

/-- `RTreeIndexScanInitGlobal`. -/
def initGlobal (near : Nearest meos δ) (bind : IndexScanBindData meos) (localStorage : List StoredRow)
    (input : InitInput) : Except Exception (GlobalState δ) := do
  let columnIds := input.columnIds.map (ColumnIndex.storage bind.columns)
  let projectionIds := if input.canRemoveFilterColumns then input.projectionIds else []
  let indexState ←
    if bind.operation = nnOperation then
      (bind.index.initializeNNScan near bind.queryBox).map IndexScanState.nearest
    else
      (bind.index.initializeScan bind.queryBox bind.operation bind.queryOnLeft).map fun hits =>
        IndexScanState.search ⟨hits, 0⟩
  pure ⟨columnIds, projectionIds, localStorage, indexState, [], 0, false⟩

/-- A search is opened with its hits, none of them handed out. -/
theorem initGlobal_search (near : Nearest meos δ) {bind : IndexScanBindData meos}
    (hop : bind.operation ≠ nnOperation) {hits : List RowId}
    (hscan : bind.index.initializeScan bind.queryBox bind.operation bind.queryOnLeft = .ok hits)
    (localStorage : List StoredRow) (input : InitInput) : initGlobal near bind localStorage input =
      .ok ⟨input.columnIds.map (ColumnIndex.storage bind.columns),
        if input.canRemoveFilterColumns then input.projectionIds else [], localStorage,
        .search ⟨hits, 0⟩, [], 0, false⟩ := by
  unfold initGlobal
  rw [if_neg hop, hscan]
  rfl

/-- A nearest-neighbour scan is opened with its candidates, none of them read. -/
theorem initGlobal_nearest {near : Nearest meos δ} {bind : IndexScanBindData meos}
    (hop : bind.operation = nnOperation) {candidates : List (RowId × δ)}
    (hscan : bind.index.initializeNNScan near bind.queryBox = .ok candidates)
    (localStorage : List StoredRow) (input : InitInput) : initGlobal near bind localStorage input =
      .ok ⟨input.columnIds.map (ColumnIndex.storage bind.columns),
        if input.canRemoveFilterColumns then input.projectionIds else [], localStorage,
        .nearest candidates, [], 0, false⟩ := by
  unfold initGlobal
  rw [if_pos hop, hscan]
  rfl

/-- The chunk a batch of row ids becomes: the rows the transaction sees, cut to the projection. -/
def emit (table : Snapshot) (s : GlobalState δ) (batch : List RowId) : Chunk :=
  if s.projectionIds = [] then fetch table s.columnIds batch
  else (fetch table s.columnIds batch).map fun row => s.projectionIds.map fun i => row.getD i .null

/-- The cells of one row, as the scan emits them. -/
def emitRow (s : GlobalState δ) (id : RowId) (row : StoredRow) : List Value :=
  let cells := s.columnIds.map (cell id row)
  if s.projectionIds = [] then cells else s.projectionIds.map fun i => cells.getD i .null

/-- A batch is emitted row by row. -/
theorem emit_eq (table : Snapshot) (s : GlobalState δ) (batch : List RowId) :
    emit table s batch = batch.filterMap fun id => (table id).map (emitRow s id) := by
  unfold emit fetch emitRow
  split
  · rfl
  · rw [List.map_filterMap]
    apply List.filterMap_congr
    intro id _
    rw [Option.map_map]
    rfl

@[simp] theorem emit_nil (table : Snapshot) (s : GlobalState δ) : emit table s [] = [] := by
  unfold emit
  split <;> rfl

theorem emit_append (table : Snapshot) (s : GlobalState δ) (ids ids' : List RowId) :
    emit table s (ids ++ ids') = emit table s ids ++ emit table s ids' := by
  unfold emit
  rw [fetch_append]
  split
  · rfl
  · rw [List.map_append]

theorem emit_eq_nil_iff {table : Snapshot} {s : GlobalState δ} {ids : List RowId} :
    emit table s ids = [] ↔ ∀ id ∈ ids, table id = none := by
  rw [← fetch_eq_nil_iff table s.columnIds]
  unfold emit
  split
  · rfl
  · rw [List.map_eq_nil_iff]

theorem emit_congr {table : Snapshot} {s s' : GlobalState δ} (hc : s'.columnIds = s.columnIds)
    (hp : s'.projectionIds = s.projectionIds)
    (ids : List RowId) : emit table s' ids = emit table s ids := by
  unfold emit
  rw [hc, hp]

variable [LinearOrder δ]

/-- The loop of `GatherNearest`: `value` is the value a row holds in the indexed column, unless the
transaction does not see the row or the value is `NULL`; `best` holds the `k` nearest so far, worst
first, and the loop ends at a bound that reaches the worst of `k`. -/
def gatherLoop (k : ℕ) (value : RowId → Option (List UInt8)) (exact : List UInt8 → Except Exception δ) :
    List (RowId × δ) → List (δ ×ₗ RowId) → Except Exception (List (δ ×ₗ RowId))
  | [], best => .ok best
  | (id, bound) :: rest, best =>
    if k ≤ best.length ∧ ∀ w ∈ best.head?, (ofLex w).1 ≤ bound then .ok best
    else
      match value id with
      | none => gatherLoop k value exact rest best
      | some v =>
        match exact v with
        | .error e => .error e
        | .ok d => gatherLoop k value exact rest (push k (toLex (d, id)) best)

/-- `GetColumnIds()[0]`, the storage number of the indexed column. -/
def IndexInfo.columnId (info : IndexInfo) : ℕ := info.columnIds.headD 0

/-- The column the recheck fetches: the one of the table whose logical number is the index's column
id. -/
def recheckColumn (bind : IndexScanBindData meos) : StorageIndex :=
  ColumnIndex.storage bind.columns (.column bind.index.info.columnId)

/-- The value `GatherNearest` reads for a row. -/
def recheckValue (bind : IndexScanBindData meos) (table : Snapshot) (id : RowId) :
    Option (List UInt8) :=
  match fetch table [recheckColumn bind] [id] with
  | [[.blob bytes]] => some bytes
  | _ => none

/-- `GatherNearest`: the row ids of the nearest rows, nearest first. -/
def gatherNearest (near : Nearest meos δ) (bind : IndexScanBindData meos) (table : Snapshot)
    (candidates : List (RowId × δ)) : Except Exception (List RowId) :=
  if bind.limit = 0 then .ok []
  else
    (gatherLoop bind.limit (recheckValue bind table)
      (fun v => exactDistance near bind.index.info.bboxType v bind.queryBox) candidates []).map
      fun best => best.reverse.map fun p => (ofLex p).2

/-- `GatherNearest`, on the first call only. -/
def gathered (near : Nearest meos δ) (bind : IndexScanBindData meos) (table : Snapshot)
    (s : GlobalState δ) (candidates : List (RowId × δ)) : Except Exception (List RowId) :=
  if s.nearestGathered then .ok s.nearest else gatherNearest near bind table candidates

/-- The next row ids `Execute` asks for. -/
def nextBatch (near : Nearest meos δ) (bind : IndexScanBindData meos) (table : Snapshot)
    (s : GlobalState δ) :
    Except Exception (List RowId × GlobalState δ) :=
  match s.indexState with
  | .search state =>
    let (batch, state) := state.scan
    .ok (batch, { s with indexState := .search state })
  | .nearest candidates =>
    (gathered near bind table s candidates).map fun nearest =>
      let batch := (nearest.drop s.nearestPosition).take standardVectorSize
      (batch, { s with
        nearest := nearest, nearestGathered := true
        nearestPosition := s.nearestPosition + batch.length })

/-- `RTreeIndexScanExecute`. -/
def execute (near : Nearest meos δ) (bind : IndexScanBindData meos) (table : Snapshot)
    (s : GlobalState δ) :
    Except Exception (Chunk × GlobalState δ) :=
  (nextBatch near bind table s).map fun (batch, s') => (if batch = [] then [] else emit table s batch, s')

/-- The rows of a scan: DuckDB calls `Execute` until it answers an empty chunk. -/
def scanRows (near : Nearest meos δ) (bind : IndexScanBindData meos) (table : Snapshot) :
    ℕ → GlobalState δ → Except Exception Chunk :=
  pull (execute near bind table) .diverges

/-! ### What a scan delivers -/

section Deliver

variable {near : Nearest meos δ} {bind : IndexScanBindData meos} {table : Snapshot} {s : GlobalState δ}

/-- The scan in state `s` still has the row ids `hits` to work off. -/
def Remaining (near : Nearest meos δ) (bind : IndexScanBindData meos) (table : Snapshot)
    (hits : List RowId) (s : GlobalState δ) : Prop :=
  match s.indexState with
  | .search state => state.searchResults.drop state.currentPosition = hits
  | .nearest candidates => (gathered near bind table s candidates).map (·.drop s.nearestPosition) = .ok hits

/-- One call asks for the next row ids, a vector at most, and leaves the others. -/
theorem nextBatch_step {hits : List RowId} (h : Remaining near bind table hits s) :
    ∃ s', nextBatch near bind table s = .ok (hits.take standardVectorSize, s') ∧
      Remaining near bind table (hits.drop standardVectorSize) s' ∧ s'.columnIds = s.columnIds ∧
      s'.projectionIds = s.projectionIds := by
  have hdrop : ∀ l : List RowId, l.drop (l.take standardVectorSize).length = l.drop standardVectorSize := by
    intro l
    rw [List.length_take]
    rcases Nat.le_total standardVectorSize l.length with hl | hl
    · rw [min_eq_left hl]
    · rw [min_eq_right hl, List.drop_length, List.drop_eq_nil_of_le hl]
  unfold Remaining at h
  unfold nextBatch
  cases hs : s.indexState with
  | search state =>
    rw [hs] at h
    simp only at h
    subst h
    refine ⟨_, rfl, ?_, rfl, rfl⟩
    show List.drop (_ + _) _ = _
    rw [← List.drop_drop, hdrop]
  | nearest candidates =>
    rw [hs] at h
    simp only at h
    cases hg : gathered near bind table s candidates with
    | error e =>
      rw [hg] at h
      cases h
    | ok nearest =>
      rw [hg] at h
      obtain rfl := Except.ok.inj h
      simp only [hg]
      refine ⟨_, rfl, ?_, rfl, rfl⟩
      show Except.ok (List.drop (_ + _) nearest) = _
      rw [← List.drop_drop, hdrop]

/-- So one call answers the rows of these that the transaction sees. -/
theorem execute_step {hits : List RowId} (h : Remaining near bind table hits s) :
    ∃ s', execute near bind table s = .ok (emit table s (hits.take standardVectorSize), s') ∧
      Remaining near bind table (hits.drop standardVectorSize) s' ∧ s'.columnIds = s.columnIds ∧
      s'.projectionIds = s.projectionIds := by
  obtain ⟨s', hb, hR, hc, hp⟩ := nextBatch_step h
  refine ⟨s', ?_, hR, hc, hp⟩
  unfold execute
  rw [hb]
  show Except.ok (if hits.take standardVectorSize = [] then [] else _, s') = _
  by_cases hnil : hits.take standardVectorSize = []
  · rw [if_pos hnil, hnil, emit_nil]
  · rw [if_neg hnil]

/-- One call after the other, under the columns the scan was opened with. -/
theorem execute_steps (l : List RowId) (t : GlobalState δ) (h : Remaining near bind table l t ∧
    t.columnIds = s.columnIds ∧ t.projectionIds = s.projectionIds) :
    ∃ t', execute near bind table t = .ok (emit table s (l.take standardVectorSize), t') ∧
      Remaining near bind table (l.drop standardVectorSize) t' ∧ t'.columnIds = s.columnIds ∧
      t'.projectionIds = s.projectionIds := by
  obtain ⟨hR, hc, hp⟩ := h
  obtain ⟨t', he, hR', hc', hp'⟩ := execute_step hR
  rw [emit_congr hc hp] at he
  exact ⟨t', he, hR', hc'.trans hc, hp'.trans hp⟩

/-- The scan delivers what all of its row ids become exactly when no batch that becomes nothing is
followed by one that becomes something. -/
theorem scanRows_emit_iff {hits : List RowId} (h : Remaining near bind table hits s) {fuel : ℕ}
    (hfuel : hits.length < fuel) : scanRows near bind table fuel s = .ok (emit table s hits) ↔
      (batches standardVectorSize hits.length hits).Pairwise fun batch later =>
        emit table s batch = [] → emit table s later = [] :=
  pull_batches_eq_iff Exception.diverges (emit_append table s) (execute_steps (s := s)) (by decide)
    ⟨h, rfl, rfl⟩ hfuel

/-- Where the transaction sees all of the rows, the scan delivers them all. -/
theorem scanRows_of_seen {hits : List RowId} (h : Remaining near bind table hits s)
    (hseen : ∀ id ∈ hits, table id ≠ none) {fuel : ℕ} (hfuel : hits.length < fuel) :
    scanRows near bind table fuel s = .ok (emit table s hits) := by
  rw [scanRows_emit_iff h hfuel]
  apply List.pairwise_of_forall_mem_list
  intro batch hbatch _ _ hnil
  -- no batch becomes nothing
  obtain ⟨hne, hsub⟩ := mem_batches (by decide) hbatch
  obtain ⟨id, hid⟩ := List.exists_mem_of_ne_nil _ hne
  exact absurd (emit_eq_nil_iff.mp hnil id hid) (hseen id (hsub hid))

/-- What the scan delivers is a part of that. -/
theorem scanRows_sublist {hits : List RowId} (h : Remaining near bind table hits s) {fuel : ℕ}
    (hfuel : hits.length < fuel) :
    ∃ out, scanRows near bind table fuel s = .ok out ∧ out.Sublist (emit table s hits) :=
  pull_batches_sublist Exception.diverges (emit_append table s) (execute_steps (s := s)) (by decide)
    ⟨h, rfl, rfl⟩ hfuel

/-- A first batch of which the transaction sees no row ends the scan. -/
theorem scanRows_eq_nil {hits : List RowId} (h : Remaining near bind table hits s)
    (hnone : ∀ id ∈ hits.take standardVectorSize, table id = none) {fuel : ℕ} (hfuel : 0 < fuel) :
    scanRows near bind table fuel s = .ok [] := by
  obtain ⟨s', he, -⟩ := execute_step h
  rw [emit_eq_nil_iff.mpr hnone] at he
  cases fuel with
  | zero => omega
  | succ fuel =>
    show pull _ _ _ _ = _
    rw [pull, he]

/-- **The scan delivers every hit the transaction sees, each once and in order**, exactly when no
batch of which it sees none is followed by one of which it sees some. -/
theorem scanRows_all_iff (near : Nearest meos δ) (bind : IndexScanBindData meos) (table : Snapshot)
    (s : GlobalState δ) (hits : List RowId) (h : Remaining near bind table hits s) (fuel : ℕ)
    (hfuel : hits.length < fuel) :
    scanRows near bind table fuel s =
        .ok (hits.filterMap fun id => (table id).map (emitRow s id)) ↔
      (batches standardVectorSize hits.length hits).Pairwise fun batch later =>
        (∀ id ∈ batch, table id = none) → ∀ id ∈ later, table id = none := by
  have hiff := scanRows_emit_iff h hfuel
  simp only [emit_eq_nil_iff] at hiff
  rwa [emit_eq] at hiff

end Deliver

/-- A cursor that yields nothing. -/
def Nearest.none (meos : Meos n) : Nearest meos ℕ where
  cursor _ _ := []
  temporalType _ := Option.none
  nadTintTbox _ _ := .ok 0
  nadTbigintTbox _ _ := .ok 0
  nadTfloatTbox _ _ := .ok 0
  nadTgeoStbox _ _ := .ok 0
  max := 0

/-- A scan of the row ids of a new index over one column. -/
def spanBind : IndexScanBindData (Meos.listed 24) where
  columns := [⟨.intspan, false⟩]
  index := .new _ (.intspan .trtree) fun _ => ⟨.null, 0, fun _ => 0⟩
  limit := 1000
  queryBox := List.replicate 24 0
  operation := "~="
  queryOnLeft := false

/-- The scan of some hits that emits the row id. -/
def hitsState (hits : List RowId) : GlobalState ℕ := ⟨[.rowId], [], [], .search ⟨hits, 0⟩, [], 0, false⟩

/-- The row ids of a full vector. -/
def vectorIds (i : ℕ) : List RowId :=
  (List.range standardVectorSize).map fun j => Int64.ofNat (standardVectorSize * i + j)

theorem length_vectorIds (i : ℕ) : (vectorIds i).length = standardVectorSize := by
  rw [vectorIds, List.length_map, List.length_range]

/-- The even rows of two vectors are deleted, and all of the third. -/
theorem scanRows_all_vectors :
    let left : RowId → Prop := fun id => id % 2 = 1 ∧ id < 4096
    let hits := vectorIds 0 ++ (vectorIds 1 ++ vectorIds 2)
    scanRows (Nearest.none _) spanBind (fun id => if left id then some [] else none) 6145 (hitsState hits) =
      .ok ((hits.filter fun id => left id).map fun id => [.bigint id]) := by
  intro left hits
  have hlen : hits.length = 6144 := by
    simp only [hits, List.length_append, length_vectorIds]
    rfl
  have hrows : (hits.filter fun id => left id).map (fun id => [Value.bigint id]) =
      hits.filterMap fun id =>
        (if left id then some [] else none : Option StoredRow).map (emitRow (hitsState hits) id) := by
    rw [← List.filterMap_eq_map, List.filterMap_filter]
    refine List.filterMap_congr fun id _ => ?_
    by_cases h : left id
    · simp only [h, decide_true, if_true]
      rfl
    · simp only [h, decide_false, if_false, Bool.false_eq_true]
      rfl
  rw [hrows]
  refine (scanRows_all_iff (Nearest.none _) spanBind _ (hitsState hits) hits rfl 6145 (by omega)).mpr ?_
  have hlast : batches standardVectorSize 6142 (vectorIds 2) = [vectorIds 2] := by
    have h := batches_append (by decide) (length_vectorIds 2) 6141 []
    rwa [List.append_nil] at h
  rw [hlen, batches_append (by decide) (length_vectorIds 0) 6143,
    batches_append (by decide) (length_vectorIds 1) 6142, hlast]
  -- the first two batches hold a row that is left
  have hseen : ∀ i, i < 2 → ∃ id ∈ vectorIds i, left id := by
    intro i hi
    refine ⟨Int64.ofNat (standardVectorSize * i + 1), List.mem_map.mpr ⟨1, List.mem_range.mpr (by decide), rfl⟩, ?_⟩
    obtain rfl | rfl : i = 0 ∨ i = 1 := by omega
    · decide
    · decide
  refine List.Pairwise.cons (fun _ _ hnone => ?_) (.cons (fun _ _ hnone => ?_) (List.pairwise_singleton _ _))
  · obtain ⟨id, hid, hleft⟩ := hseen 0 (by decide)
    exact absurd (hnone id hid) (by simp [hleft])
  · obtain ⟨id, hid, hleft⟩ := hseen 1 (by decide)
    exact absurd (hnone id hid) (by simp [hleft])
/-- A vector of rows deleted in the transaction, and one that is not: the scan ends without it. -/
theorem scanRows_loses :
    ¬ ∀ (table : Snapshot) (s : GlobalState ℕ) (hits : List RowId) (fuel : ℕ),
      Remaining (Nearest.none _) spanBind table hits s → hits.length < fuel →
      scanRows (Nearest.none _) spanBind table fuel s =
        .ok (hits.filterMap fun id => (table id).map (emitRow s id)) := by
  intro hall
  let last : RowId := Int64.ofNat standardVectorSize
  let deleted : List RowId := (List.range standardVectorSize).map Int64.ofNat
  let table : Snapshot := fun id => if id = last then some [] else none
  have hrem : Remaining (Nearest.none _) spanBind table (deleted ++ [last])
      (hitsState (deleted ++ [last])) := rfl
  have hnil := scanRows_eq_nil hrem ?_ (Nat.succ_pos (deleted ++ [last]).length)
  · have hscan := hall table (hitsState (deleted ++ [last])) _ _ hrem (Nat.lt_succ_self _)
    rw [hnil] at hscan
    have hlast : table last = some [] := if_pos rfl
    have hmem : [Value.bigint last] ∈ (deleted ++ [last]).filterMap fun id =>
        (table id).map (emitRow (hitsState (deleted ++ [last])) id) := by
      refine List.mem_filterMap.mpr ⟨last, List.mem_append_right _ (List.mem_singleton_self last), ?_⟩
      rw [hlast]
      rfl
    rw [← Except.ok.inj hscan] at hmem
    simp at hmem
  · intro id hid
    have htake : (deleted ++ [last]).take standardVectorSize = deleted :=
      List.take_left' (by rw [List.length_map, List.length_range])
    rw [htake] at hid
    obtain ⟨i, hi, rfl⟩ := List.mem_map.mp hid
    have hi : i < standardVectorSize := List.mem_range.mp hi
    apply if_neg
    intro heq
    have htoInt := congrArg Int64.toInt heq
    have hv : standardVectorSize = 2048 := rfl
    rw [Int64.toInt_ofNat_of_lt (by omega), Int64.toInt_ofNat_of_lt (by omega)] at htoInt
    omega

end MobilityDuck
