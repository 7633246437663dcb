/-
# The constant a rewritten scan searches for

Every value of an extension type is a `BLOB`, and the optimizer takes the
bytes of any `BLOB` constant of a filter for a query box. For a nearest-neighbour
scan the matcher asks for the column's type on one side and the box type on
the other, in any order; that the column is on its side is not asked, and the
column at the index's number may be one of boxes. So a constant reaches the
search as a box of the index exactly when it is one, or a timestamp against an
index of time spans, or neither rewrite takes the query
(`reachesAsBox_iff`). Otherwise the bytes of another type are read as a box,
or, against an index of time spans, the scan raises.

Key definitions: `comparison`, `ReachesAsBox`, `IsBoxConstant`,
`ReadsBoxColumn`. Key theorem: `reachesAsBox_iff`.
-/
import MobilityDuck.ScanColumn

namespace MobilityDuck

open Lib

/-- Two operands, the query on the left or on the right. -/
def operands {α : Type} (queryOnLeft : Bool) (column query : α) : List α :=
  if queryOnLeft then [query, column] else [column, query]

/-- An operator between a column operand and a constant. -/
def comparison (name : String) (left : Bool) (x : Expression) (c : Constant) : Expression :=
  .function name .boolean (operands left x (.constant c))

/-- The types of a query of an index: its boxes, and timestamps against time spans. -/
def IndexInfo.IsQueryType (info : IndexInfo) (type : LogicalType) : Prop :=
  type = info.bboxType.logicalType ∨ (type.id = .timestampTz ∧ info.bboxType = .tstzspan)

instance (info : IndexInfo) (type : LogicalType) : Decidable (info.IsQueryType type) :=
  inferInstanceAs (Decidable (_ ∨ _))

/-- The constant is a box of the index, or a timestamp against time spans. -/
def IsBoxConstant (info : IndexInfo) (c : Constant) : Prop := info.IsQueryType c.type

/-- A box as the search takes it, with the SRID of a spatial one set aside. -/
def searchBox {n : ℕ} (meos : Meos n) (t : MeosType) (b : Box n) : Except Exception (Box n) :=
  if t = .stbox ∧ meos.hasX b then normalizeStbox meos b else .ok b

/-- The scan searches for the box that the constant is, or for the instant that it is. -/
def PlannedScan.SearchesFor (scan : PlannedScan) (c : Constant) : Prop :=
  (∃ bytes, c.type = scan.index.bboxType.logicalType ∧ c.value = .blob bytes ∧
    ∀ meos : Meos scan.index.bboxType.boxSize,
      prepareQuery meos scan.index.bboxType scan.operation scan.queryBox =
        searchBox meos scan.index.bboxType (Box.copy _ bytes)) ∨
  ∃ micros, scan.index.bboxType = .tstzspan ∧ c.value = .timestampTz micros ∧
    ∀ meos : Meos scan.index.bboxType.boxSize,
      prepareQuery meos scan.index.bboxType scan.operation scan.queryBox =
        .ok (meos.spanAt (duckDBToMeosTimestamp micros))

/-- The constant of a predicate, or of a distance a get is ordered by, reaches the search as a box of
the index, or the query stays on the sequential scan. -/
structure ReachesAsBox (sets : SetMatcher) (info : IndexInfo) (get : LogicalGet) (name : String)
    (left : Bool) (x : Expression) (c : Constant) : Prop where
  filter : ∀ scan, info.matchFilter sets ⟨.expressionFilter, comparison name left x c⟩ = some scan →
    scan.SearchesFor c
  nearest : ∀ limit scan, info.matchNearest sets get (comparison name left x c) limit = some scan →
    c.type = info.bboxType.logicalType ∧ c.value = .blob scan.queryBox

/-- The operand is the column of the get at the index's number, and that is a column of boxes. -/
def ReadsBoxColumn (info : IndexInfo) (get : LogicalGet) (x : Expression) : Prop :=
  ∃ position, get.position? info.columnId = some position ∧
    x = .columnRef info.bboxType.logicalType ⟨get.tableIndex, position⟩

/-! ### The query of a constant -/

section QueryBytes

variable {c : Constant} {bytes : List UInt8}

/-- A constant gives a query when it is a `BLOB` or a timestamp. -/
theorem queryBytes_isSome_iff :
    (queryBytes c).isSome ↔ c.type.id = .blob ∨ c.type.id = .timestampTz := by
  have hholds := c.holds
  unfold queryBytes
  cases hv : c.value with
  | null =>
    rw [hv] at hholds
    exact hholds.elim
  | boolean b =>
    rw [hv] at hholds
    have hid : c.type.id = .boolean := hholds
    simp [hid]
  | bigint x =>
    rw [hv] at hholds
    obtain ⟨-, htz, hblob⟩ := hholds
    simp [htz, hblob]
  | timestampTz micros =>
    rw [hv] at hholds
    have hid : c.type.id = .timestampTz := hholds
    simp [hid]
  | blob bytes =>
    rw [hv] at hholds
    simp [hholds.1]

/-- The query of a `BLOB` is its bytes. -/
theorem value_of_queryBytes (hid : c.type.id = .blob) (h : queryBytes c = some bytes) :
    c.value = .blob bytes := by
  unfold queryBytes at h
  rw [if_pos hid] at h
  split at h
  · rename_i hv
    rw [hv, Option.some.inj h]
  · simp at h

/-- The query of a timestamp is the timestamp of MEOS. -/
theorem timestamp_of_queryBytes (hid : c.type.id = .timestampTz) (h : queryBytes c = some bytes) :
    ∃ micros, c.value = .timestampTz micros ∧ bytes = encodeInt64 (duckDBToMeosTimestamp micros) := by
  unfold queryBytes at h
  rw [if_neg (by simp [hid]), if_pos hid] at h
  split at h
  · rename_i micros hv
    exact ⟨micros, hv, (Option.some.inj h).symm⟩
  · simp at h

end QueryBytes

/-- A box constant is searched for as it is. -/
theorem prepareQuery_box {t : MeosType} (meos : Meos t.boxSize) (operation : String)
    {bytes : List UInt8} (hlen : bytes.length = t.boxSize) :
    prepareQuery meos t operation bytes = searchBox meos t (Box.copy _ bytes) := by
  unfold prepareQuery searchBox
  rw [if_neg (by simp [hlen])]

/-- A timestamp is searched for as an instant. -/
theorem prepareQuery_timestamp {t : MeosType} (ht : t = .tstzspan) (meos : Meos t.boxSize)
    (operation : String)
    (micros : Int64) : prepareQuery meos t operation (encodeInt64 micros) = .ok (meos.spanAt micros) := by
  have hlen : (encodeInt64 micros).length = 8 := length_encodeInt64 micros
  have hsize : (encodeInt64 micros).length ≠ t.boxSize := by
    rw [hlen, ht]
    decide
  unfold prepareQuery
  rw [if_pos ⟨ht, hsize⟩, if_neg (not_not.mpr hlen), decode_encodeInt64]

/-- A scan that takes a box constant searches for it. -/
theorem searchesFor_of_isBoxConstant {scan : PlannedScan} {c : Constant}
    (hc : IsBoxConstant scan.index c)
    (hbytes : queryBytes c = some scan.queryBox) : scan.SearchesFor c := by
  rcases hc with htype | ⟨hid, ht⟩
  · have hv := value_of_queryBytes (by rw [htype]; exact MeosType.logicalType_id _) hbytes
    have hholds := c.holds
    rw [hv] at hholds
    exact .inl ⟨scan.queryBox, htype, hv, fun meos => prepareQuery_box meos _ (hholds.2 _ htype)⟩
  · obtain ⟨micros, hv, hquery⟩ := timestamp_of_queryBytes hid hbytes
    refine .inr ⟨micros, ht, hv, fun meos => ?_⟩
    rw [hquery]
    exact prepareQuery_timestamp ht meos _ _

/-- And only such a scan does. -/
theorem isBoxConstant_of_searchesFor {scan : PlannedScan} {c : Constant} (h : scan.SearchesFor c) :
    IsBoxConstant scan.index c := by
  rcases h with ⟨_, htype, -⟩ | ⟨micros, ht, hv, -⟩
  · exact .inl htype
  · have hholds := c.holds
    rw [hv] at hholds
    exact .inr ⟨hholds, ht⟩

/-! ### The comparison of a column operand with a constant -/

section Comparison

variable {sets : SetMatcher} {info : IndexInfo} {name : String} {left : Bool} {x : Expression}
    {c : Constant}

/-- What an index takes for its query in a comparison. -/
theorem matchFilter_comparison_eq_some (hx : x.asConstant = none) {scan : PlannedScan}
    (h : info.matchFilter sets ⟨.expressionFilter, comparison name left x c⟩ = some scan) :
    scan.index = info ∧ queryBytes c = some scan.queryBox ∧ scan.operation = name ∧ scan.queryOnLeft = left ∧
      (indexSearchOpFromName name info.bboxType left).isSome ∧
      (x.returnType = info.columnType ∨ c.type = info.columnType) := by
  obtain ⟨name', type', a, b, c', box, -, he, htype, hconst, hbox, hop, rfl⟩ := matchFilter_eq_some h
  obtain ⟨rfl, rfl, hoperands⟩ := Expression.function.inj he
  cases left with
  | false =>
    obtain ⟨rfl, rfl⟩ : x = a ∧ .constant c = b := by simpa [operands] using hoperands
    rcases hconst with rfl | hc
    · cases hx
    · obtain rfl := Expression.constant.inj hc
      rw [hx] at hop ⊢
      exact ⟨rfl, hbox, rfl, rfl, hop, htype⟩
  | true =>
    obtain ⟨rfl, rfl⟩ : .constant c = a ∧ x = b := by simpa [operands] using hoperands
    rcases hconst with hc | rfl
    · obtain rfl := Expression.constant.inj hc
      exact ⟨rfl, hbox, rfl, rfl, hop, htype.symm⟩
    · cases hx

/-- A comparison that the index has a search for is taken where one of the operands, be it the constant,
is of the column's type. -/
theorem matchFilter_comparison (hx : x.asConstant = none)
    (htype : x.returnType = info.columnType ∨ c.type = info.columnType)
    (hop : (indexSearchOpFromName name info.bboxType left).isSome) {box : List UInt8}
    (hbox : queryBytes c = some box) :
    info.matchFilter sets ⟨.expressionFilter, comparison name left x c⟩ =
      some ⟨info, 1000, box, name, left⟩ := by
  cases left with
  | false =>
    have hc : [x, .constant c].filterMap Expression.asConstant = [c] := by
      rw [List.filterMap_cons, hx]
      rfl
    have hmatch := matchFilter_pair sets name .boolean htype hc hbox (by rw [hx]; exact hop)
    rwa [hx] at hmatch
  | true =>
    have hc : [.constant c, x].filterMap Expression.asConstant = [c] := by
      rw [List.filterMap_cons, List.filterMap_cons, hx]
      rfl
    exact matchFilter_pair sets name .boolean htype.symm hc hbox hop

/-- The constant of a distance is a box of the index, or a value of the column's type where the column
at the index's number is one of boxes. -/
theorem matchNearest_comparison (hx : x.asConstant = none) {get : LogicalGet} {limit : ℕ}
    {scan : PlannedScan} (h : info.matchNearest sets get (comparison name left x c) limit = some scan) :
    name = nnOperation ∧ info.makeNearestMatcher.isSome ∧ c.value = .blob scan.queryBox ∧
      (c.type = info.bboxType.logicalType ∨ (c.type = info.columnType ∧ ReadsBoxColumn info get x)) := by
  obtain ⟨_, hmatch, -⟩ := Option.bind_eq_some_iff.mp h
  obtain ⟨_, hmatcher, -⟩ := Option.bind_eq_some_iff.mp hmatch
  obtain ⟨type, a, b, t, c', box, position, he, hpos, hoperands, htypes, hbox, rfl⟩ :=
    matchNearest_eq_some h
  obtain ⟨rfl, -, hargs⟩ := Expression.function.inj he
  -- the column reference is the operand that is no constant
  have hsame : x = .columnRef t ⟨get.tableIndex, position⟩ ∧ c = c' := by
    rcases hoperands with ⟨rfl, rfl⟩ | ⟨rfl, rfl⟩ <;> cases left
    · simpa [operands] using hargs
    · simp [operands] at hargs
    · simp [operands] at hargs
    · simpa [operands, and_comm] using hargs
  obtain ⟨rfl, rfl⟩ := hsame
  refine ⟨rfl, Option.isSome_iff_exists.mpr ⟨_, hmatcher⟩, ?_, ?_⟩
  · unfold Constant.blobBytes at hbox
    split at hbox
    · rename_i hv
      rw [hv, Option.some.inj hbox]
    · simp at hbox
  · rcases htypes with ⟨-, hc⟩ | ⟨rfl, hc⟩
    · exact .inl hc
    · exact .inr ⟨hc, position, hpos, rfl⟩

/-- A value of an indexed type is a `BLOB`. -/
theorem blobBytes_of_columnType (hc : c.type = info.columnType) :
    ∃ bytes, c.blobBytes = some bytes := by
  have hid : c.type.id = .blob := by rw [hc, id_of_bboxTypeOf info.bboxType_eq]
  have hholds := c.holds
  unfold Constant.blobBytes
  cases hv : c.value with
  | null =>
    rw [hv] at hholds
    exact hholds.elim
  | boolean b =>
    rw [hv] at hholds
    exact absurd (hid.symm.trans hholds) (by decide)
  | bigint v =>
    rw [hv] at hholds
    exact absurd hid hholds.2.2
  | timestampTz micros =>
    rw [hv] at hholds
    exact absurd (hid.symm.trans hholds) (by decide)
  | blob bytes => exact ⟨bytes, rfl⟩

/-- A distance between that column and a value of the indexed type is taken. -/
theorem matchNearest_readsBoxColumn (sets : SetMatcher) (left : Bool) (limit : ℕ) {get : LogicalGet}
    (hmatcher : info.makeNearestMatcher.isSome) (hc : c.type = info.columnType)
    (hreads : ReadsBoxColumn info get x) :
    ∃ scan, info.matchNearest sets get (comparison nnOperation left x c) limit = some scan := by
  obtain ⟨position, hpos, rfl⟩ := hreads
  obtain ⟨box, hbox⟩ := blobBytes_of_columnType hc
  have hbbox : info.bboxType = .stbox ∨ info.bboxType = .tbox := by
    by_contra hnot
    rw [IndexInfo.makeNearestMatcher, if_neg hnot] at hmatcher
    cases hmatcher
  obtain ⟨a, b, hargs, htypes, hconst, hread⟩ : ∃ a b,
      operands left (.columnRef info.bboxType.logicalType ⟨get.tableIndex, position⟩) (.constant c) =
        [a, b] ∧
      ((operandMatcher (some info.columnType) a = true ∧
          operandMatcher (some info.bboxType.logicalType) b = true) ∨
        (operandMatcher (some info.columnType) b = true ∧
          operandMatcher (some info.bboxType.logicalType) a = true)) ∧
      [a, b].filterMap Expression.asConstant = [c] ∧
      .columnRef info.bboxType.logicalType ⟨get.tableIndex, position⟩ ∈ [a, b] := by
    cases left with
    | false => exact ⟨_, _, rfl, .inr ⟨operandMatcher_some.mpr hc, operandMatcher_some.mpr rfl⟩, rfl, by simp⟩
    | true => exact ⟨_, _, rfl, .inl ⟨operandMatcher_some.mpr hc, operandMatcher_some.mpr rfl⟩, rfl, by simp⟩
  obtain ⟨bindings, hmatch⟩ := Option.isSome_iff_exists.mp
    (match_pair_isSome sets .boolean (List.mem_singleton.mpr rfl) htypes)
  obtain ⟨name', type', a', b', he, -, hp, -⟩ := match_pair_eq_some hmatch
  obtain ⟨rfl, rfl, hchildren⟩ := Expression.function.inj he
  obtain ⟨rfl, rfl⟩ : a = a' ∧ b = b' := by simpa using hchildren
  have hany : bindings.any (readsPosition get.tableIndex position) = true :=
    List.any_eq_true.mpr ⟨_, hp.mem_iff.mpr (List.mem_cons_of_mem _ hread), by simp [readsPosition]⟩
  refine ⟨⟨info, limit, box, nnOperation, false⟩, ?_⟩
  rw [IndexInfo.matchNearest, IndexInfo.tryMatchNearestFunction, IndexInfo.makeNearestMatcher,
    if_pos hbbox, comparison, hargs, Option.bind_some, hmatch, Option.bind_some, hpos, Option.bind_some,
    if_pos hany, constantOf_eq_some hp hconst, Option.bind_some, hbox, Option.map_some]

/-- The constant of a filter reaches the search as a box of the index exactly when it is one or an
instant against time spans, or the filter is not taken. -/
theorem filter_reachesAsBox_iff (sets : SetMatcher) (info : IndexInfo) (name : String) (left : Bool)
    (c : Constant) (hx : x.asConstant = none) :
    (∀ scan, info.matchFilter sets ⟨.expressionFilter, comparison name left x c⟩ = some scan →
        scan.SearchesFor c) ↔
      IsBoxConstant info c ∨ indexSearchOpFromName name info.bboxType left = none ∨
        (c.type.id ≠ .blob ∧ c.type.id ≠ .timestampTz) ∨
        (x.returnType ≠ info.columnType ∧ c.type ≠ info.columnType) := by
  constructor
  · intro h
    by_cases hop : indexSearchOpFromName name info.bboxType left = none
    · exact .inr (.inl hop)
    by_cases hid : c.type.id = .blob ∨ c.type.id = .timestampTz
    · by_cases htype : x.returnType = info.columnType ∨ c.type = info.columnType
      · -- the comparison is taken, so the constant is what the scan searches for
        obtain ⟨box, hbox⟩ := Option.isSome_iff_exists.mp (queryBytes_isSome_iff.mpr hid)
        have hmatch : info.matchFilter sets ⟨.expressionFilter, comparison name left x c⟩ =
            some ⟨info, 1000, box, name, left⟩ :=
          matchFilter_comparison hx htype (Option.isSome_iff_ne_none.mpr hop) hbox
        exact .inl (isBoxConstant_of_searchesFor (h _ hmatch))
      · exact .inr (.inr (.inr (not_or.mp htype)))
    · exact .inr (.inr (.inl (not_or.mp hid)))
  · intro h scan hscan
    obtain ⟨hindex, hbox, -, -, hop, htype⟩ := matchFilter_comparison_eq_some hx hscan
    apply searchesFor_of_isBoxConstant _ hbox
    rw [hindex]
    rcases h with hc | hnone | ⟨hblob, htz⟩ | ⟨hcolumn, hconst⟩
    · exact hc
    · rw [hnone] at hop
      simp at hop
    · rcases queryBytes_isSome_iff.mp (Option.isSome_iff_exists.mpr ⟨_, hbox⟩) with hid | hid
      · exact absurd hid hblob
      · exact absurd hid htz
    · rcases htype with htype | htype
      · exact absurd htype hcolumn
      · exact absurd htype hconst

/-- The constant of a distance does exactly when it is a box, or the distance is not taken. -/
theorem nearest_reachesAsBox_iff (sets : SetMatcher) (info : IndexInfo) (get : LogicalGet) (name : String)
    (left : Bool) (c : Constant) (hx : x.asConstant = none) :
    (∀ limit scan, info.matchNearest sets get (comparison name left x c) limit = some scan →
        c.type = info.bboxType.logicalType ∧ c.value = .blob scan.queryBox) ↔
      c.type = info.bboxType.logicalType ∨
        ¬ (name = nnOperation ∧ info.makeNearestMatcher.isSome ∧ c.type = info.columnType ∧
          ReadsBoxColumn info get x) := by
  constructor
  · intro h
    by_contra hnot
    obtain ⟨hbox, htaken⟩ := not_or.mp hnot
    obtain ⟨rfl, hmatcher, hc, hreads⟩ := not_not.mp htaken
    obtain ⟨scan, hscan⟩ := matchNearest_readsBoxColumn sets left 0 hmatcher hc hreads
    exact hbox (h 0 scan hscan).1
  · intro h limit scan hscan
    obtain ⟨hname, hmatcher, hvalue, hc⟩ := matchNearest_comparison hx hscan
    refine ⟨?_, hvalue⟩
    rcases hc with hc | ⟨hc, hreads⟩
    · exact hc
    · exact h.resolve_right (not_not.mpr ⟨hname, hmatcher, hc, hreads⟩)

/-- **A constant reaches the search as a box of the index exactly when** it is one or an instant against
time spans, or neither rewrite takes the query: not that of a filter, because the index does not answer
the operator, or the constant is neither a `BLOB` nor a timestamp, or no operand is of the column's
type; and not that of an ordering, because the column at the index's number is not one of boxes beside
a constant of the column's type. -/
theorem reachesAsBox_iff (sets : SetMatcher) (info : IndexInfo) (get : LogicalGet) (name : String)
    (left : Bool) (x : Expression) (c : Constant) (hx : x.asConstant = none) :
    ReachesAsBox sets info get name left x c ↔
      IsBoxConstant info c ∨
        (indexSearchOpFromName name info.bboxType left = none ∨
          (c.type.id ≠ .blob ∧ c.type.id ≠ .timestampTz) ∨
          (x.returnType ≠ info.columnType ∧ c.type ≠ info.columnType)) ∧
        ¬ (name = nnOperation ∧ info.makeNearestMatcher.isSome ∧ c.type = info.columnType ∧
          ReadsBoxColumn info get x) := by
  have hfilter := filter_reachesAsBox_iff sets info name left c hx
  have hnearest := nearest_reachesAsBox_iff sets info get name left c hx
  constructor
  · intro h
    rcases hfilter.mp h.filter with hc | huntaken
    · exact .inl hc
    · rcases hnearest.mp h.nearest with hc | hkept
      · exact .inl (.inl hc)
      · exact .inr ⟨huntaken, hkept⟩
  · intro h
    constructor
    · exact hfilter.mpr (h.imp id And.left)
    · refine hnearest.mpr ?_
      rcases h with (hc | ⟨hid, -⟩) | ⟨-, hkept⟩
      · exact .inl hc
      · -- a timestamp is of no indexed type
        refine .inr fun ⟨_, _, hc, _⟩ => ?_
        rw [hc, id_of_bboxTypeOf info.bboxType_eq] at hid
        cases hid
      · exact .inr hkept

end Comparison

/-- A generated column before a column of boxes and an indexed column of points: the storage number of
the points is the logical number of the boxes. -/
def pointsBehindGenerated : TableEntry where
  columns := [⟨⟨.integer, ""⟩, true⟩, ⟨.stbox, false⟩, ⟨.tgeompoint, false⟩]
  indexes := [⟨"i", .trtree, [1], .tgeompoint, .stbox, bboxTypeOf_tgeompoint⟩]
  isDuckTable := true
  cardinality := none
  created info hinfo := by
    obtain rfl := List.mem_singleton.mp hinfo
    exact ⟨2, ⟨.tgeompoint, false⟩, rfl, rfl, rfl⟩

/-- A scan of its boxes. -/
def boxesGet : LogicalGet where
  functionName := "seq_scan"
  table := pointsBehindGenerated
  tableIndex := 0
  columnIds := [.column 1]
  projectionIds := []
  tableFilters := []
  bindData := none
  estimatedCardinality := 0
  hasEstimatedCardinality := false

theorem reachesAsBox_zeroBox :
    ReachesAsBox .backtracking ⟨"i", .trtree, [1], .tgeompoint, .stbox, bboxTypeOf_tgeompoint⟩ boxesGet
      "&&" false (.columnRef .tgeompoint ⟨0, 1⟩) (zeroBox .stbox) :=
  (reachesAsBox_iff .backtracking ⟨"i", .trtree, [1], .tgeompoint, .stbox, bboxTypeOf_tgeompoint⟩ boxesGet
    "&&" false (.columnRef .tgeompoint ⟨0, 1⟩) (zeroBox .stbox) rfl).mpr (.inl (.inl rfl))

/-- A constant of a temporal type, of one byte. -/
def pointConstant : Constant where
  type := .tgeompoint
  value := .blob [0]
  holds := by
    refine ⟨rfl, fun t ht => ?_⟩
    cases t <;> exact absurd ht (by decide)

/-- The bytes of a temporal point are searched for as a box, by a filter on points and by an ordering of
boxes. -/
theorem reachesAsBox_point :
    ¬ ReachesAsBox .backtracking ⟨"i", .trtree, [1], .tgeompoint, .stbox, bboxTypeOf_tgeompoint⟩ boxesGet
        "&&" false (.reference .tgeompoint) pointConstant ∧
      ¬ ReachesAsBox .backtracking ⟨"i", .trtree, [1], .tgeompoint, .stbox, bboxTypeOf_tgeompoint⟩ boxesGet
        nnOperation false (.columnRef .stbox ⟨0, 0⟩) pointConstant := by
  constructor
  · intro h
    have hsearch := isBoxConstant_of_searchesFor (h.filter _
      (matchFilter_comparison rfl (.inl rfl) (by decide) rfl))
    rcases hsearch with htype | ⟨hid, -⟩
    · exact absurd htype (by decide)
    · exact absurd hid (by decide)
  · intro h
    have hreads : ReadsBoxColumn ⟨"i", .trtree, [1], .tgeompoint, .stbox, bboxTypeOf_tgeompoint⟩ boxesGet
        (.columnRef .stbox ⟨0, 0⟩) := ⟨0, rfl, rfl⟩
    have hpoint : pointConstant.type = .tgeompoint := rfl
    obtain ⟨scan, hscan⟩ := matchNearest_readsBoxColumn .backtracking false 1 rfl hpoint hreads
    exact absurd (h.nearest 1 scan hscan).1 (by decide)

end MobilityDuck
