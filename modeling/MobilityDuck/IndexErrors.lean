/-
# Errors an index leaves out

A sequential scan and a nested-loop join evaluate the predicate on every row
the transaction sees, and raise what MEOS raises there, such as for two boxes
of different SRIDs. The index answers the same predicate without evaluating
it: its boxes and its query have their SRID cleared, and `Search` prints an
exception of the tree search and answers no row. So a scan of the index raises
for no query (`not_raises_scan`), and a join for no probe (`not_raises_join`),
and neither reports an error exactly when there is one to report
(`errors_reported_iff`).

Key definitions: `Raises`, `Transaction.columnBytes`, `ScanReports`,
`JoinReports`. Key theorem: `errors_reported_iff`.
-/
import MobilityDuck.BoxNormalisation
import MobilityDuck.IndexAnswers

namespace MobilityDuck

open Lib

variable {n : ℕ} {meos : Meos n} {δ : Type} [LinearOrder δ]

/-! ### What should be reported -/

/-- A run raises, given the calls it needs. -/
def Raises (run : ℕ → Except Exception Chunk) : Prop :=
  ∃ e calls, ∀ fuel ≥ calls, run fuel = .error e

theorem not_raises_of_ok {run : ℕ → Except Exception Chunk}
    (h : ∃ calls, ∀ fuel ≥ calls, ∃ out, run fuel = .ok out) : ¬ Raises run := by
  intro ⟨e, calls, hraise⟩
  obtain ⟨calls', hok⟩ := h
  obtain ⟨out, hout⟩ := hok _ (le_max_right calls calls')
  rw [hraise _ (le_max_left calls calls')] at hout
  cases hout

/-- The values of a column in the rows a transaction sees, `NULL` apart: those a predicate on the
column has to be decided on. -/
def Transaction.columnBytes (t : Transaction) (column : StorageIndex) : List (List UInt8) :=
  t.seqRows.filterMap fun r =>
    match cell r.1 r.2 column with
    | .blob bytes => some bytes
    | _ => none

/-- A scan of the index, from its opening on. -/
def IndexScanBindData.run (near : Nearest meos δ) (bind : IndexScanBindData meos) (t : Transaction)
    (input : InitInput) (fuel : ℕ) : Except Exception Chunk := do
  let s ← initGlobal near bind (t.localRows.map (·.2)) input
  scanRows near bind t.snapshot fuel s

/-- `compare` is the predicate of MEOS, between a value of the column and the other operand. -/
abbrev Comparison := List UInt8 → List UInt8 → Except String Bool

/-- There is nothing for a scan to report: the predicate can be evaluated on every row, and the tree
search raises nothing. -/
def ScanUneventful (compare : Comparison) (bind : IndexScanBindData meos) (t : Transaction)
    (column : StorageIndex) (op : IndexSearchOp) : Prop :=
  (∀ v ∈ t.columnBytes column, ∀ e, compare v bind.queryBox ≠ .error e) ∧
    ∀ box, prepareQuery meos bind.index.info.bboxType bind.operation bind.queryBox = .ok box →
      ∀ e, meos.search bind.index.tree op box ≠ .error e

/-- The scan raises where the predicate raises on a row, or MEOS in the tree search. -/
def ScanReports (compare : Comparison) (near : Nearest meos δ) (bind : IndexScanBindData meos)
    (t : Transaction) (input : InitInput) (column : StorageIndex) (op : IndexSearchOp) : Prop :=
  ¬ ScanUneventful compare bind t column op → Raises (bind.run near t input)

/-- There is nothing for a join to report. -/
def JoinUneventful (compare : Comparison) (join : PhysicalIndexJoin meos) (t : Transaction)
    (column : StorageIndex) (inputs : List Chunk) : Prop :=
  ∀ input ∈ inputs, ∀ row ∈ input, ∀ bytes, row[join.probeColumn]? = some (.blob bytes) →
    (∀ v ∈ t.columnBytes column, ∀ e, compare v bytes ≠ .error e) ∧
      ∀ box, join.probeBox (.blob bytes) = .ok (some box) →
        ∀ e, meos.search join.index.tree .overlaps box ≠ .error e

/-- The join raises where the predicate raises on a pair of rows, or MEOS in a tree search. -/
def JoinReports (compare : Comparison) (join : PhysicalIndexJoin meos) (t : Transaction)
    (column : StorageIndex) (inputs : List Chunk) (reset : FetchBuffer → FetchBuffer)
    (memory : FetchBuffer) : Prop :=
  ¬ JoinUneventful compare join t column inputs →
    Raises fun fuel => join.joinRows t.snapshot reset fuel inputs memory

/-! ### What is reported -/

/-- A query is a box of the index's kind, or an instant against a time span. -/
def IsQuery (info : IndexInfo) (n : ℕ) (query : List UInt8) : Prop :=
  query.length = n ∨ (info.bboxType = .tstzspan ∧ query.length = 8)

/-- A query can be prepared. -/
theorem exists_prepareQuery (hmeos : meos.Spatial) {info : IndexInfo} {query : List UInt8}
    (hquery : IsQuery info n query) (operation : String) :
    ∃ box, prepareQuery meos info.bboxType operation query = .ok box := by
  unfold prepareQuery
  by_cases hinstant : info.bboxType = .tstzspan ∧ query.length ≠ n
  · rw [if_pos hinstant]
    rcases hquery with hlen | ⟨-, hlen⟩
    · exact absurd hlen hinstant.2
    · rw [if_neg (not_not.mpr hlen)]
      exact ⟨_, rfl⟩
  · rw [if_neg hinstant]
    by_cases hx : info.bboxType = .stbox ∧ meos.hasX (Box.copy n query) = true
    · rw [if_pos hx, normalizeStbox_of_hasX hmeos hx.2]
      exact ⟨_, rfl⟩
    · rw [if_neg hx]
      exact ⟨_, rfl⟩

/-- No scan raises. -/
theorem not_raises_scan (hmeos : meos.Spatial) (near : Nearest meos δ) {bind : IndexScanBindData meos}
    (t : Transaction) (input : InitInput) {op : IndexSearchOp} (hnn : bind.operation ≠ nnOperation)
    (hop : indexSearchOpFromName bind.operation bind.index.info.bboxType bind.queryOnLeft = some op)
    (hquery : IsQuery bind.index.info n bind.queryBox) : ¬ Raises (bind.run near t input) := by
  obtain ⟨box, hbox⟩ := exists_prepareQuery hmeos hquery bind.operation
  have hscan : bind.index.initializeScan bind.queryBox bind.operation bind.queryOnLeft =
      .ok (bind.index.search box op) := by
    unfold Index.initializeScan
    rw [hop]
    simp only [hbox]
    rfl
  have hopen := initGlobal_search near hnn hscan (t.localRows.map (·.2)) input
  apply not_raises_of_ok
  refine ⟨(bind.index.search box op).length + 1, fun fuel hfuel => ?_⟩
  unfold IndexScanBindData.run
  rw [hopen]
  set s : GlobalState δ := ⟨input.columnIds.map (ColumnIndex.storage bind.columns),
    if input.canRemoveFilterColumns then input.projectionIds else [], t.localRows.map (·.2),
    .search ⟨bind.index.search box op, 0⟩, [], 0, false⟩
  have hremaining : Remaining near bind t.snapshot (bind.index.search box op) s := rfl
  have hlt : (bind.index.search box op).length < fuel := by omega
  obtain ⟨out, hout, -⟩ := pull_batches_sublist Exception.diverges (emit_append t.snapshot s)
    (execute_steps (s := s)) (by decide) ⟨hremaining, rfl, rfl⟩ hlt
  exact ⟨out, hout⟩

/-- Every probe row has the probe column, with a box in it or a value that has a box or none. -/
def ProbesBoxes (join : PhysicalIndexJoin meos) (inputs : List Chunk) : Prop :=
  ∀ input ∈ inputs, ∀ row ∈ input, ∃ value, row[join.probeColumn]? = some value ∧
    ∀ bytes, value = .blob bytes → join.probeIsTemporal = true → ∃ o, meos.tspatialToStbox bytes = .ok o

omit [LinearOrder δ] in
theorem exists_probeBox (hmeos : meos.Spatial) {join : PhysicalIndexJoin meos} {value : Value}
    (hvalue : ∀ bytes, value = .blob bytes → join.probeIsTemporal = true →
      ∃ o, meos.tspatialToStbox bytes = .ok o) :
    ∃ o, join.probeBox value = .ok o := by
  cases value with
  | blob bytes =>
    rw [PhysicalIndexJoin.probeBox]
    by_cases htemporal : join.probeIsTemporal = true
    · obtain ⟨o, ho⟩ := hvalue bytes rfl htemporal
      rw [if_pos htemporal, ho]
      cases o with
      | none => exact ⟨none, rfl⟩
      | some b =>
        show ∃ o, (normalizeStbox meos b).map some = .ok o
        rw [normalizeStbox_of_hasX hmeos (hmeos.hasX_derived bytes b ho)]
        exact ⟨_, rfl⟩
    · rw [if_neg htemporal]
      by_cases hx : meos.hasX (Box.copy n bytes) = true
      · rw [if_pos hx]
        obtain ⟨srid, hsrid, ⟨rfl, -⟩ | ⟨hne, hset⟩⟩ := cleared_cases hmeos hx
        · rw [hsrid]
          exact ⟨_, rfl⟩
        · rw [hsrid]
          show ∃ o, (if srid = 0 then pure (some (Box.copy n bytes))
            else callMeos (meos.stboxSetSrid (Box.copy n bytes) 0)) = Except.ok o
          rw [if_neg hne, hset]
          exact ⟨_, rfl⟩
      · rw [if_neg hx]
        exact ⟨_, rfl⟩
  | null | boolean | bigint | timestampTz => exact ⟨none, rfl⟩

omit [LinearOrder δ] in
/-- No join raises. -/
theorem not_raises_join (hmeos : meos.Spatial) {join : PhysicalIndexJoin meos} (table : Snapshot)
    {inputs : List Chunk} (reset : FetchBuffer → FetchBuffer) (memory : FetchBuffer)
    (hprobes : ProbesBoxes join inputs) :
    ¬ Raises fun fuel => join.joinRows table reset fuel inputs memory := by
  have hfail : (join.work inputs).failure = none := by
    apply PhysicalIndexJoin.work_failure_eq_none_iff.mpr
    intro input hinput row hrow
    obtain ⟨value, hvalue, hprobe⟩ := hprobes input hinput row hrow
    obtain ⟨o, ho⟩ := exists_probeBox hmeos hprobe
    rw [PhysicalIndexJoin.rowWork, PhysicalIndexJoin.rowMatches_of_getElem? hvalue,
      probeMatches_of_probeBox ho]
  obtain ⟨calls, hspec⟩ := PhysicalIndexJoin.joinRows_spec join table reset inputs memory
  unfold Work.Answered at hspec
  rw [hfail] at hspec
  apply not_raises_of_ok
  refine ⟨calls, fun fuel hfuel => ?_⟩
  obtain ⟨out, hout, -⟩ := hspec fuel hfuel
  exact ⟨out, hout⟩

/-! ### When nothing is left out -/

/-- A run that raises nothing reports what there is exactly when there is nothing. -/
theorem reports_iff {uneventful : Prop} {run : ℕ → Except Exception Chunk} (h : ¬ Raises run) :
    (¬ uneventful → Raises run) ↔ uneventful := by
  constructor
  · intro hreports
    by_contra hevent
    exact h (hreports hevent)
  · exact fun hnone hevent => absurd hnone hevent

/-- **The index reports an error where the scan or the nested loop would exactly when** there is none:
the predicate raises on no row, and MEOS in no tree search. -/
theorem errors_reported_iff (hmeos : meos.Spatial) (compare : Comparison) (near : Nearest meos δ)
    (t : Transaction) (column : StorageIndex) :
    (∀ (bind : IndexScanBindData meos) (input : InitInput) (op : IndexSearchOp),
      bind.operation ≠ nnOperation →
      indexSearchOpFromName bind.operation bind.index.info.bboxType bind.queryOnLeft = some op →
      IsQuery bind.index.info n bind.queryBox →
      (ScanReports compare near bind t input column op ↔ ScanUneventful compare bind t column op)) ∧
    ∀ (join : PhysicalIndexJoin meos) (inputs : List Chunk) (reset : FetchBuffer → FetchBuffer)
      (memory : FetchBuffer), ProbesBoxes join inputs →
      (JoinReports compare join t column inputs reset memory ↔
        JoinUneventful compare join t column inputs) := by
  constructor
  · intro bind input op hnn hop hquery
    exact reports_iff (not_raises_scan hmeos near t input hnn hop hquery)
  · intro join inputs reset memory hprobes
    exact reports_iff (not_raises_join hmeos t.snapshot reset memory hprobes)

/-- MEOS refuses to compare a value with a box of another SRID. -/
def RefusesMixed (meos : Meos n) (info : IndexInfo) (compare : Comparison) : Prop :=
  ∀ v b (q : Box n), info.HasBox meos v b → meos.hasX b = true → meos.hasX q = true →
    meos.stboxSrid b ≠ meos.stboxSrid q → ∃ e, compare v q.val = .error e

/-- So a scan for a box never reports a row of another SRID. -/
theorem not_scanReports_of_mixed (hmeos : meos.Spatial) {compare : Comparison} (near : Nearest meos δ)
    {t : Transaction} {column : StorageIndex} {bind : IndexScanBindData meos} (input : InitInput)
    {op : IndexSearchOp} (hrefuses : RefusesMixed meos bind.index.info compare)
    (hnn : bind.operation ≠ nnOperation)
    (hop : indexSearchOpFromName bind.operation bind.index.info.bboxType bind.queryOnLeft = some op)
    {q : Box n} (hquery : bind.queryBox = q.val) (hxq : meos.hasX q = true) {v : List UInt8} {b : Box n}
    (hv : v ∈ t.columnBytes column) (hbox : bind.index.info.HasBox meos v b) (hxb : meos.hasX b = true)
    (hne : meos.stboxSrid b ≠ meos.stboxSrid q) : ¬ ScanReports compare near bind t input column op := by
  intro hreports
  obtain ⟨e, he⟩ := hrefuses v b q hbox hxb hxq hne
  have hevent : ¬ ScanUneventful compare bind t column op := by
    intro hnone
    rw [← hquery] at he
    exact hnone.1 v hv e he
  have hlen : IsQuery bind.index.info n bind.queryBox := .inl (by rw [hquery]; exact q.property)
  exact not_raises_scan hmeos near t input hnn hop hlen (hreports hevent)

/-! ### A table of boxes with an SRID -/

/-- `&&` between boxes, which MEOS refuses for two SRIDs. -/
def sridCompare : Comparison := fun v q =>
  if sridMeos.hasX (Box.copy 80 v) ∧ sridMeos.hasX (Box.copy 80 q) ∧
      sridOf (Box.copy 80 v) ≠ sridOf (Box.copy 80 q) then .error "Operation on mixed SRID"
  else .ok true

theorem nodup_sridRowIds : [(7 : RowId)].Nodup := List.nodup_singleton 7

/-- Row 7 holds a box with the SRID 4326. -/
def sridTransaction : Transaction where
  rowIds := [7]
  snapshot id := if id = 7 then some [.blob (flaggedBox 4326 0x10).val] else none
  localRows := []
  nodup := nodup_sridRowIds
  stored id h := by
    by_contra hid
    exact h (if_neg fun heq => hid (List.mem_singleton.mpr heq))

/-- A scan for a box with some SRID. -/
def sridScan (srid : ℕ) : IndexScanBindData sridMeos where
  columns := [⟨.stbox, false⟩]
  index := boxColumn.putEntry .bump (7, flaggedBox 0 0x10)
  limit := 1000
  queryBox := (flaggedBox srid 0x10).val
  operation := "&&"
  queryOnLeft := false

/-- A join with the table. -/
def sridJoin : PhysicalIndexJoin sridMeos where
  columns := [⟨.stbox, false⟩]
  index := boxColumn.putEntry .bump (7, flaggedBox 0 0x10)
  types := [.stbox, .stbox]
  probeColumn := 0
  probeIsTemporal := false
  indexColumns := [0]

theorem errors_reported_srid :
    (ScanReports sridCompare noDistance (sridScan 4326) sridTransaction ⟨[.column 0], []⟩ (.column 0)
      .overlaps ↔ ScanUneventful sridCompare (sridScan 4326) sridTransaction (.column 0) .overlaps) ∧
    (JoinReports sridCompare sridJoin sridTransaction (.column 0) [[[.blob (flaggedBox 4326 0x10).val]]] id
      (fun _ => []) ↔
        JoinUneventful sridCompare sridJoin sridTransaction (.column 0)
          [[[.blob (flaggedBox 4326 0x10).val]]]) := by
  have h := errors_reported_iff sridMeos_spatial sridCompare noDistance sridTransaction (.column 0)
  refine ⟨h.1 (sridScan 4326) ⟨[.column 0], []⟩ .overlaps (by decide) rfl (.inl rfl), ?_⟩
  refine h.2 sridJoin _ id _ fun input hinput row hrow => ?_
  obtain rfl := List.mem_singleton.mp hinput
  obtain rfl := List.mem_singleton.mp hrow
  exact ⟨_, rfl, fun _ _ htemporal => nomatch htemporal⟩

/-- A scan for a box with the SRID 3857 answers, where `&&` raises on the row. -/
theorem mixedSrid_unreported : ¬ ∀ srid, ScanReports sridCompare noDistance (sridScan srid) sridTransaction
    ⟨[.column 0], []⟩ (.column 0) .overlaps := by
  intro h
  have hrefuses : RefusesMixed sridMeos (sridScan 3857).index.info sridCompare := by
    intro v b q hbox hxb hxq hne
    obtain rfl : v = b.val := hbox
    refine ⟨"Operation on mixed SRID", if_pos ?_⟩
    rw [Box.copy_val, Box.copy_val]
    refine ⟨hxb, hxq, fun heq => hne ?_⟩
    have hb : sridMeos.stboxSrid b = .ok (sridOf b) := if_pos (of_decide_eq_true hxb)
    have hq : sridMeos.stboxSrid q = .ok (sridOf q) := if_pos (of_decide_eq_true hxq)
    rw [hb, hq, heq]
  exact not_scanReports_of_mixed sridMeos_spatial noDistance ⟨[.column 0], []⟩ hrefuses (by decide) rfl
    (q := flaggedBox 3857 0x10) rfl (by decide) (b := flaggedBox 4326 0x10) (List.mem_singleton.mpr rfl) rfl
    (by decide) (by decide) (h 3857)

end MobilityDuck
