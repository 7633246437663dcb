/-
# The predicate a rewritten scan answers

The scan that takes the place of a filter evaluates nothing: the row ids it
asks for are the hits of one search. Where the operators agree with the index
(`Interpretation.Agrees`), these are the rows the predicate accepts, over
every content of the table, exactly when the predicate compares the column
itself with a box constant (`exact_iff`). The matcher asks less: an operand of
the column's type may be any expression of that type.

Necessity is shown over a MEOS whose boxes satisfy a search when they are the
same (`wholeMeos`), with functions that return one value whatever they are
given (`flatInterpretation`): every other predicate then accepts all rows or
none, while a search tells two rows apart.

Key definitions: `Index.Built`, `Interpretation.Agrees`,
`PlannedScan.Exact`. Key theorem: `exact_iff`.
-/
import MobilityDuck.ScanConstant
import MobilityDuck.Bindings

namespace MobilityDuck

open Lib

variable {n : ℕ} {meos : Meos n}

/-! ### An index over the rows of a table -/

/-- The value of the indexed column in a row, as an append reads it. -/
def indexedRow (r : RowId × Value) : IndexedRow :=
  (r.1, match r.2 with
    | .blob data => some data
    | _ => none)

/-- The box a value of the indexed column has, if any. -/
def columnBox (meos : Meos n) (info : IndexInfo) : Value → Except Exception (Option (Box n))
  | .blob data => deriveBox meos info data
  | _ => .ok none

/-- An index was built over these rows. -/
def Index.Built (alloc : Allocation n) (memory : ℕ → Segment n) (info : IndexInfo)
    (rows : List (RowId × Value)) (index : Index meos) : Prop :=
  (Index.new meos info memory).append alloc (rows.map indexedRow) = (index, none)

section Built

variable {alloc : Allocation n} {memory : ℕ → Segment n} {info : IndexInfo}

/-- Where nothing raises, the entries are those of the rows that have a box. -/
theorem entriesOf_indexedRow : ∀ {rows : List (RowId × Value)},
    (∀ r ∈ rows, ∃ o, columnBox meos info r.2 = .ok o) →
    entriesOf meos info (rows.map indexedRow) = rows.filterMap fun r =>
      match columnBox meos info r.2 with
      | .ok (some b) => some (r.1, b)
      | _ => none
  | [], _ => rfl
  | (id, value) :: rows, h => by
    obtain ⟨o, ho⟩ := h _ List.mem_cons_self
    have ih := entriesOf_indexedRow fun r hr => h r (List.mem_cons_of_mem _ hr)
    rw [List.map_cons, List.filterMap_cons]
    cases value with
    | blob data =>
      have hbox : deriveBox meos info data = .ok o := ho
      have hbox' : columnBox meos info (.blob data) = .ok o := ho
      simp only [indexedRow, entriesOf, hbox, hbox']
      cases o with
      | none => exact ih
      | some b => exact congrArg _ ih
    | null | boolean | bigint | timestampTz => exact ih

/-- Nothing was raised, so every row's box could be derived. -/
theorem columnBox_of_construct : ∀ {rows : List (RowId × Value)} {s : Index meos},
    (s.construct alloc (rows.map indexedRow)).2 = none →
    ∀ r ∈ rows, ∃ o, columnBox meos s.info r.2 = .ok o
  | [], _, _, r, hr => nomatch hr
  | (id, value) :: rows, s, h, r, hr => by
    cases value with
    | blob data =>
      rw [List.map_cons] at h
      simp only [indexedRow, Index.construct] at h
      cases hbox : deriveBox meos s.info data with
      | error e =>
        rw [hbox] at h
        simp at h
      | ok o =>
        rw [hbox] at h
        have hrest : ∀ r ∈ rows, ∃ o, columnBox meos s.info r.2 = .ok o := by
          cases o with
          | none => exact columnBox_of_construct h
          | some b => exact columnBox_of_construct (s := s.putEntry alloc (id, b)) h
        rcases List.mem_cons.mp hr with rfl | hr
        · exact ⟨o, hbox⟩
        · exact hrest r hr
    | null | boolean | bigint | timestampTz =>
      rcases List.mem_cons.mp hr with rfl | hr
      · exact ⟨none, rfl⟩
      · have hrest : ∀ r ∈ rows, ∃ o, columnBox meos s.info r.2 = .ok o := columnBox_of_construct h
        exact hrest r hr

/-- Where every row's box can be derived, an index can be built. -/
theorem construct_of_columnBox : ∀ {rows : List (RowId × Value)} (s : Index meos),
    (∀ r ∈ rows, ∃ o, columnBox meos s.info r.2 = .ok o) →
    (s.construct alloc (rows.map indexedRow)).2 = none
  | [], _, _ => rfl
  | (id, value) :: rows, s, h => by
    have hrest : ∀ r ∈ rows, ∃ o, columnBox meos s.info r.2 = .ok o :=
      fun r hr => h r (List.mem_cons_of_mem _ hr)
    cases value with
    | blob data =>
      obtain ⟨o, hbox⟩ := h _ List.mem_cons_self
      have hbox : deriveBox meos s.info data = .ok o := hbox
      rw [List.map_cons]
      simp only [indexedRow, Index.construct, hbox]
      cases o with
      | none => exact construct_of_columnBox s hrest
      | some b => exact construct_of_columnBox (s.putEntry alloc (id, b)) hrest
    | null | boolean | bigint | timestampTz =>
      have hconstruct : (s.construct alloc (rows.map indexedRow)).2 = none :=
        construct_of_columnBox s hrest
      exact hconstruct

theorem Index.Built.exists_of_columnBox (alloc : Allocation n) (memory : ℕ → Segment n)
    {rows : List (RowId × Value)} (h : ∀ r ∈ rows, ∃ o, columnBox meos info r.2 = .ok o) :
    ∃ index : Index meos, index.Built alloc memory info rows :=
  ⟨_, Prod.ext rfl (construct_of_columnBox (Index.new meos info memory) h)⟩

variable {rows : List (RowId × Value)} {index : Index meos}

theorem info_foldl_putEntry (es : Log n) (s : Index meos) :
    (es.foldl (Index.putEntry alloc) s).info = s.info := by
  induction es generalizing s with
  | nil => rfl
  | cons e es ih => rw [List.foldl_cons, ih, Index.info_putEntry]

theorem Index.Built.eq_foldl (h : Index.Built alloc memory info rows index) :
    index = (entriesOf meos info (rows.map indexedRow)).foldl (Index.putEntry alloc)
      (Index.new meos info memory) := by
  have hindex := Index.construct_eq alloc (rows.map indexedRow) (Index.new meos info memory)
  have happend : ((Index.new meos info memory).construct alloc (rows.map indexedRow)).1 = index :=
    congrArg Prod.fst h
  rw [← happend, hindex]
  rfl

theorem Index.Built.info_eq (h : Index.Built alloc memory info rows index) : index.info = info := by
  rw [h.eq_foldl, info_foldl_putEntry]
  rfl

/-- The entries of rows whose boxes can be derived. -/
theorem mem_entriesOf_indexedRow (hok : ∀ r ∈ rows, ∃ o, columnBox meos info r.2 = .ok o)
    {id : RowId} {b : Box n} :
    (id, b) ∈ entriesOf meos info (rows.map indexedRow) ↔
      ∃ value, (id, value) ∈ rows ∧ columnBox meos info value = .ok (some b) := by
  rw [entriesOf_indexedRow hok, List.mem_filterMap]
  constructor
  · intro ⟨r, hr, hb⟩
    split at hb
    · rename_i b' hbox
      obtain ⟨rfl, rfl⟩ := Prod.mk.inj (Option.some.inj hb)
      exact ⟨r.2, hr, hbox⟩
    · simp at hb
  · intro ⟨value, hr, hbox⟩
    exact ⟨(id, value), hr, by rw [hbox]⟩

/-- Distinct rows have distinct entries. -/
theorem nodup_entriesOf_indexedRow (hok : ∀ r ∈ rows, ∃ o, columnBox meos info r.2 = .ok o)
    (hids : (rows.map (·.1)).Nodup) :
    ((entriesOf meos info (rows.map indexedRow)).map (·.1)).Nodup := by
  rw [entriesOf_indexedRow hok]
  refine List.pairwise_map.mpr (List.Pairwise.filterMap _ ?_ (List.pairwise_map.mp hids))
  intro r r' hne e he e' he'
  split at he
  · split at he'
    · obtain rfl := Option.some.inj he
      obtain rfl := Option.some.inj he'
      exact hne
    · simp at he'
  · simp at he

/-- Nothing was raised, so the box of every row could be derived. -/
theorem Index.Built.columnBox_ok (h : Index.Built alloc memory info rows index) :
    ∀ r ∈ rows, ∃ o, columnBox meos info r.2 = .ok o := by
  have hnone : ((Index.new meos info memory).construct alloc (rows.map indexedRow)).2 = none :=
    congrArg Prod.snd h
  exact columnBox_of_construct hnone

/-- An index built over distinct rows holds their entries. -/
theorem Index.Built.exact (hmeos : meos.Lawful) (h : Index.Built alloc memory info rows index)
    (hids : (rows.map (·.1)).Nodup) : index.Exact (entriesOf meos info (rows.map indexedRow)) := by
  have hnew : (Index.new meos info memory).Exact [] := by
    refine ⟨?_, ?_⟩ <;> simp [Index.new, hmeos.entries_create]
  have hput := Index.putEntries_exact alloc hmeos (entriesOf meos info (rows.map indexedRow)) rfl hnew
    (nodup_entriesOf_indexedRow h.columnBox_ok hids) (by simp [Index.new, hmeos.entries_create])
  rwa [List.nil_append, ← h.eq_foldl] at hput

/-- What a search of an index built over distinct rows answers. -/
theorem Index.Built.mem_search (hmeos : meos.Lawful) (h : Index.Built alloc memory info rows index)
    (hids : (rows.map (·.1)).Nodup) (q : Box n) (op : IndexSearchOp) (id : RowId) :
    id ∈ index.search q op ↔ ∃ value b, (id, value) ∈ rows ∧ columnBox meos info value = .ok (some b) ∧
      meos.satisfies op b q = true := by
  rw [(Index.search_perm hmeos (h.exact hmeos hids) q op).mem_iff, List.mem_map]
  constructor
  · intro ⟨⟨id', b⟩, he, hid⟩
    obtain rfl : id' = id := hid
    obtain ⟨he, hsat⟩ := List.mem_filter.mp he
    obtain ⟨value, hr, hbox⟩ := (mem_entriesOf_indexedRow h.columnBox_ok).mp he
    exact ⟨value, b, hr, hbox, hsat⟩
  · intro ⟨value, b, hr, hbox, hsat⟩
    have he := (mem_entriesOf_indexedRow h.columnBox_ok).mpr ⟨value, hr, hbox⟩
    exact ⟨(id, b), List.mem_filter.mpr ⟨he, hsat⟩, rfl⟩

/-- A scan of the index prepares its query and searches once. -/
theorem initializeScan_eq {operation : String} {left : Bool} {op : IndexSearchOp}
    (hop : indexSearchOpFromName operation index.info.bboxType left = some op) (query : List UInt8) :
    index.initializeScan query operation left =
      (prepareQuery meos index.info.bboxType operation query).map fun q => index.search q op := by
  rw [Index.initializeScan, hop]

end Built

/-! ### Operators that agree with an index -/

/-- The operators an index answers agree with the search over its boxes: between a value of the column
and a box constant, either way round, the operator holds when the box of the value satisfies the
search. -/
structure Interpretation.Agrees (I : Interpretation) (meos : Meos n) (info : IndexInfo) : Prop where
  query : ∀ c bytes, IsBoxConstant info c → queryBytes c = some bytes →
    ∃ q, (∀ operation, prepareQuery meos info.bboxType operation bytes = .ok q) ∧
      ∀ name left op, indexSearchOpFromName name info.bboxType left = some op →
        ∀ value o, value = .null ∨ info.columnType.Holds value → columnBox meos info value = .ok o →
          (I.function name (operands left info.columnType c.type) .boolean (operands left value c.value) =
            .boolean true ↔ ∃ b, o = some b ∧ meos.satisfies op b q = true)

/-- The scan asks for exactly the rows the predicate accepts, over every content of the table. -/
def PlannedScan.Exact (scan : PlannedScan) (e : Expression) : Prop :=
  ∀ (meos : Meos scan.index.bboxType.boxSize) (I : Interpretation)
    (alloc : Allocation scan.index.bboxType.boxSize) (memory : ℕ → Segment scan.index.bboxType.boxSize)
    (rows : List (RowId × Value)) (index : Index meos),
    meos.Lawful → I.Agrees meos scan.index → (rows.map (·.1)).Nodup →
    (∀ r ∈ rows, r.2 = .null ∨ scan.index.columnType.Holds r.2) →
    index.Built alloc memory scan.index rows →
    ∃ hits, index.initializeScan scan.queryBox scan.operation scan.queryOnLeft = .ok hits ∧
      ∀ id, id ∈ hits ↔ ∃ value, (id, value) ∈ rows ∧ e.accepts I value (fun _ => .null) = true

/-- The value of a comparison. -/
theorem eval_comparison (I : Interpretation) (value : Value) (columns : ColumnBinding → Value)
    (name : String)
    (left : Bool) (x : Expression) (c : Constant) : (comparison name left x c).eval I value columns =
      I.function name (operands left x.returnType c.type) .boolean
        (operands left (x.eval I value columns) c.value) := by
  cases left <;> rfl

/-- A comparison of the column itself with a box constant is answered exactly. -/
theorem exact_of_comparison {scan : PlannedScan} {c : Constant} (hc : IsBoxConstant scan.index c)
    (hbytes : queryBytes c = some scan.queryBox)
    (hop : (indexSearchOpFromName scan.operation scan.index.bboxType scan.queryOnLeft).isSome) :
    scan.Exact (comparison scan.operation scan.queryOnLeft (.reference scan.index.columnType) c) := by
  intro meos I alloc memory rows index hmeos hI hids hvalues hbuilt
  obtain ⟨op, hop⟩ := Option.isSome_iff_exists.mp hop
  obtain ⟨q, hq, hagree⟩ := hI.query c scan.queryBox hc hbytes
  refine ⟨index.search q op, ?_, fun id => ?_⟩
  · rw [initializeScan_eq (by rw [hbuilt.info_eq]; exact hop), hbuilt.info_eq, hq]
    rfl
  · rw [hbuilt.mem_search hmeos hids]
    have haccepts : ∀ value o, (id, value) ∈ rows → columnBox meos scan.index value = .ok o →
        ((comparison scan.operation scan.queryOnLeft (.reference scan.index.columnType) c).accepts I value
          (fun _ => .null) = true ↔ ∃ b, o = some b ∧ meos.satisfies op b q = true) := by
      intro value o hr hbox
      rw [Expression.accepts, eval_comparison, decide_eq_true_eq]
      exact hagree _ _ _ hop value o (hvalues _ hr) hbox
    constructor
    · intro ⟨value, b, hr, hbox, hsat⟩
      exact ⟨value, hr, (haccepts value (some b) hr hbox).mpr ⟨b, rfl, hsat⟩⟩
    · intro ⟨value, hr, hacc⟩
      obtain ⟨o, hbox⟩ := hbuilt.columnBox_ok _ hr
      obtain ⟨b, rfl, hsat⟩ := (haccepts value o hr hbox).mp hacc
      exact ⟨value, b, hr, hbox, hsat⟩

/-! ### A MEOS that tells any two rows apart -/

/-- Boxes compared whole, by every search. -/
def wholeMeos (n : ℕ) : Meos n :=
  { Meos.listed n with
    tspatialToStbox := fun data => .ok (some (Box.copy n data))
    hasX := fun _ => false
    satisfies := fun _ b q => b = q
    search := fun t _ q => .ok ((t.filter fun e => e.2 = q).map (·.1)) }

theorem wholeMeos_lawful (n : ℕ) : (wholeMeos n).Lawful where
  entries_create := rfl
  entries_insert _ _ _ := List.Perm.refl _
  entries_load t l t' h := by
    obtain rfl := Option.some.inj h
    exact List.Perm.refl _
  search_exact _ _ _ := ⟨_, rfl, List.Perm.refl _⟩

@[simp] theorem satisfies_wholeMeos (op : IndexSearchOp) (b q : Box n) :
    (wholeMeos n).satisfies op b q = decide (b = q) := rfl

/-- The box of a value of the column is its bytes. -/
theorem columnBox_wholeMeos {info : IndexInfo} {data : List UInt8}
    (h : info.columnType.Holds (.blob data)) :
    columnBox (wholeMeos info.bboxType.boxSize) info (.blob data) = .ok (some (Box.copy _ data)) := by
  show deriveBox _ _ _ = _
  unfold deriveBox
  rw [if_neg (not_not.mpr h.1)]
  rcases bboxTypeOf_eq_some info.bboxType_eq with htype | htemporal
  · have hnot : indexesTemporal info.columnType = false := by
      rw [htype]
      exact indexesTemporal_logicalType _
    rw [if_neg (by simp [hnot]), if_neg (not_not.mpr (h.2 _ htype))]
    split <;> rfl
  · rw [if_pos htemporal]
    split <;> rfl

/-- The bytes of an operand. -/
def operandBytes : Value → Option (List UInt8)
  | .blob bytes => some bytes
  | .timestampTz micros => some (encodeInt64 (duckDBToMeosTimestamp micros))
  | _ => none

/-- Two operands have the same box. -/
def sameBox (n : ℕ) : List Value → Bool
  | [a, b] =>
    match operandBytes a, operandBytes b with
    | some x, some y => Box.copy n x = Box.copy n y
    | _, _ => false
  | _ => false

/-- The types of a column value and a box constant, either way round. -/
def boxOperands (info : IndexInfo) : List LogicalType → Bool
  | [a, b] => (a = info.columnType && info.IsQueryType b) || (b = info.columnType && info.IsQueryType a)
  | _ => false

/-- Operators compare boxes whole; a function of any other type returns one value, and a predicate over
other operands accepts nothing. -/
def flatInterpretation (info : IndexInfo) : Interpretation where
  function _ types type args :=
    if type = .boolean then .boolean (boxOperands info types && sameBox info.bboxType.boxSize args)
    else .blob []
  other _ _ _ _ := .blob []

section Flat

variable {info : IndexInfo} {c : Constant}

theorem operandBytes_of_queryBytes {bytes : List UInt8} (h : queryBytes c = some bytes) :
    operandBytes c.value = some bytes := by
  rcases queryBytes_isSome_iff.mp (Option.isSome_iff_exists.mpr ⟨bytes, h⟩) with hid | hid
  · rw [value_of_queryBytes hid h]
    rfl
  · obtain ⟨micros, hv, rfl⟩ := timestamp_of_queryBytes hid h
    rw [hv]
    rfl

theorem prepareQuery_wholeMeos {bytes : List UInt8} (hc : IsBoxConstant info c)
    (h : queryBytes c = some bytes) (operation : String) :
    prepareQuery (wholeMeos info.bboxType.boxSize) info.bboxType operation bytes =
      .ok (Box.copy _ bytes) := by
  rcases hc with htype | ⟨hid, ht⟩
  · have hv := value_of_queryBytes (by rw [htype]; exact MeosType.logicalType_id _) h
    have hholds := c.holds
    rw [hv] at hholds
    rw [prepareQuery_box _ _ (hholds.2 _ htype), searchBox, if_neg (by simp [wholeMeos])]
  · obtain ⟨micros, -, rfl⟩ := timestamp_of_queryBytes hid h
    exact prepareQuery_timestamp ht _ _ _

theorem boxOperands_operands (left : Bool) {type : LogicalType} (h : info.IsQueryType type) :
    boxOperands info (operands left info.columnType type) = true := by
  cases left <;> simp [operands, boxOperands, h]

theorem sameBox_operands (n : ℕ) (left : Bool) {a b : Value} {x y : List UInt8}
    (ha : operandBytes a = some x) (hb : operandBytes b = some y) :
    sameBox n (operands left a b) = true ↔ Box.copy n x = Box.copy n y := by
  cases left <;> simp [operands, sameBox, ha, hb, eq_comm]

/-- The operators agree with an index over that MEOS. -/
theorem flatInterpretation_agrees (info : IndexInfo) :
    (flatInterpretation info).Agrees (wholeMeos info.bboxType.boxSize) info where
  query c bytes hc hbytes := by
    refine ⟨Box.copy _ bytes, prepareQuery_wholeMeos hc hbytes, ?_⟩
    intro name left op _ value o hvalue hbox
    show Value.boolean (boxOperands info (operands left info.columnType c.type) &&
      sameBox info.bboxType.boxSize (operands left value c.value)) = .boolean true ↔ _
    rw [boxOperands_operands left hc, Bool.true_and, Value.boolean.injEq]
    have hid := id_of_bboxTypeOf info.bboxType_eq
    cases value with
    | null =>
      obtain rfl := Except.ok.inj hbox
      have hnone : sameBox info.bboxType.boxSize (operands left .null c.value) = false := by
        cases left <;> simp [operands, sameBox, operandBytes]
      simp [hnone]
    | blob data =>
      have hdata : info.columnType.Holds (.blob data) := by simpa using hvalue
      obtain rfl := Except.ok.inj ((columnBox_wholeMeos hdata).symm.trans hbox)
      rw [sameBox_operands _ left rfl (operandBytes_of_queryBytes hbytes)]
      simp [wholeMeos]
    | boolean | bigint | timestampTz => simp [LogicalType.Holds, hid] at hvalue

/-- An expression of another type than `BOOLEAN` that is not the column has one value. -/
theorem eval_flatInterpretation {z : Expression} (hz : z.Over info.columnType)
    (href : z ≠ .reference info.columnType) (htype : z.returnType ≠ .boolean) :
    ∃ w, ∀ value columns, z.eval (flatInterpretation info) value columns = w := by
  cases z with
  | reference t => exact absurd (congrArg Expression.reference hz) href
  | columnRef => exact hz.elim
  | constant c => exact ⟨c.value, fun _ _ => rfl⟩
  | function name t children =>
    refine ⟨.blob [], fun value columns => ?_⟩
    rw [Expression.eval]
    exact if_neg htype
  | other kind t children => exact ⟨.blob [], fun _ _ => by rw [Expression.eval]; rfl⟩

theorem ne_boolean_of_boxOperands {a b : LogicalType} (h : boxOperands info [a, b] = true) :
    a ≠ .boolean ∧ b ≠ .boolean := by
  have hcolumn : info.columnType ≠ .boolean := by
    intro heq
    have hid := id_of_bboxTypeOf info.bboxType_eq
    rw [heq] at hid
    cases hid
  have hquery : ∀ t, info.IsQueryType t → t ≠ .boolean := by
    intro t ht heq
    rcases ht with ht | ⟨ht, -⟩
    · have hid := MeosType.logicalType_id info.bboxType
      rw [← ht, heq] at hid
      cases hid
    · rw [heq] at ht
      cases ht
  simp only [boxOperands, Bool.or_eq_true, Bool.and_eq_true, decide_eq_true_eq] at h
  rcases h with ⟨rfl, hb⟩ | ⟨rfl, ha⟩
  · exact ⟨hcolumn, hquery _ hb⟩
  · exact ⟨hquery _ ha, hcolumn⟩

/-- Opposite the column stands a box constant. -/
theorem isQueryType_of_boxOperands {type : LogicalType}
    (h : boxOperands info [type, info.columnType] = true ∨ boxOperands info [info.columnType, type] = true) :
    info.IsQueryType type := by
  simp only [boxOperands, Bool.or_eq_true, Bool.and_eq_true, decide_eq_true_eq] at h
  rcases h with (⟨rfl, h⟩ | ⟨-, h⟩) | (⟨-, h⟩ | ⟨rfl, h⟩) <;> exact h

/-- Every predicate with a constant operand accepts all values or none, unless it compares the column
itself with a box constant. -/
theorem accepts_flatInterpretation {name : String} {x y : Expression}
    (hover : (Expression.function name .boolean [x, y]).Over info.columnType)
    (hc : x = .constant c ∨ y = .constant c)
    (hnot : ∀ left, IsBoxConstant info c →
      Expression.function name .boolean [x, y] ≠ comparison name left (.reference info.columnType) c) :
    ∃ r, ∀ value columns,
      (Expression.function name .boolean [x, y]).accepts (flatInterpretation info) value columns = r := by
  have heval : ∀ value columns,
      (Expression.function name .boolean [x, y]).eval (flatInterpretation info) value columns =
      .boolean (boxOperands info [x.returnType, y.returnType] && sameBox info.bboxType.boxSize
        [x.eval (flatInterpretation info) value columns, y.eval (flatInterpretation info) value columns]) :=
    fun _ _ => rfl
  obtain ⟨hx, hy, -⟩ := hover
  by_cases hbox : boxOperands info [x.returnType, y.returnType] = true
  · obtain ⟨hxne, hyne⟩ := ne_boolean_of_boxOperands hbox
    rcases hc with rfl | rfl
    · have href : y ≠ .reference info.columnType := by
        intro heq
        rw [heq] at hbox
        refine hnot true ?_ (by rw [heq]; rfl)
        exact isQueryType_of_boxOperands (.inl hbox)
      obtain ⟨w, hw⟩ := eval_flatInterpretation hy href hyne
      exact ⟨decide (Value.boolean (_ && sameBox _ [c.value, w]) = .boolean true), fun value columns => by
        rw [Expression.accepts, heval, hw, Expression.eval]⟩
    · have href : x ≠ .reference info.columnType := by
        intro heq
        rw [heq] at hbox
        refine hnot false ?_ (by rw [heq]; rfl)
        exact isQueryType_of_boxOperands (.inr hbox)
      obtain ⟨w, hw⟩ := eval_flatInterpretation hx href hxne
      exact ⟨decide (Value.boolean (_ && sameBox _ [w, c.value]) = .boolean true), fun value columns => by
        rw [Expression.accepts, heval, hw, Expression.eval]⟩
  · refine ⟨false, fun value columns => ?_⟩
    rw [Expression.accepts, heval, Bool.eq_false_iff.mpr hbox]
    rfl

end Flat

theorem exists_box_ne (hn : 0 < n) (q : Box n) : ∃ b : Box n, b ≠ q := by
  by_contra hall
  have heq : ∀ b : Box n, b = q := fun b => not_not.mp fun h => hall ⟨b, h⟩
  have hzero := heq ⟨List.replicate n 0, List.length_replicate⟩
  have hone := heq ⟨List.replicate n 1, List.length_replicate⟩
  have hbytes := congrArg Subtype.val (hzero.trans hone.symm)
  simp only [List.replicate_inj] at hbytes
  rcases hbytes.2 with h | h
  · omega
  · exact absurd h (by decide)

/-- Memory of an index that holds nothing. -/
def emptyMemory (n : ℕ) : ℕ → Segment n := fun _ => ⟨.null, 0, fun _ => 0⟩

/-- A scan that is exact for a predicate of one value finds all rows or none, whatever the rows. -/
theorem PlannedScan.Exact.mem_search {scan : PlannedScan} {e : Expression} (hexact : scan.Exact e)
    {op : IndexSearchOp}
    (hop : indexSearchOpFromName scan.operation scan.index.bboxType scan.queryOnLeft = some op)
    {r : Bool} (he : ∀ value columns, e.accepts (flatInterpretation scan.index) value columns = r)
    {rows : List (RowId × Value)} (hids : (rows.map (·.1)).Nodup)
    (hvalues : ∀ row ∈ rows, scan.index.columnType.Holds row.2) :
    ∃ q, prepareQuery (wholeMeos scan.index.bboxType.boxSize) scan.index.bboxType scan.operation
        scan.queryBox = .ok q ∧
      ∀ id, (∃ value b, (id, value) ∈ rows ∧
        columnBox (wholeMeos scan.index.bboxType.boxSize) scan.index value = .ok (some b) ∧ b = q) ↔
        (∃ value, (id, value) ∈ rows) ∧ r = true := by
  have hid := id_of_bboxTypeOf scan.index.bboxType_eq
  have hbox : ∀ row ∈ rows,
      ∃ o, columnBox (wholeMeos scan.index.bboxType.boxSize) scan.index row.2 = .ok o := by
    intro row hrow
    have hholds := hvalues row hrow
    cases hv : row.2 with
    | blob data =>
      rw [hv] at hholds
      exact ⟨_, columnBox_wholeMeos hholds⟩
    | null | boolean | bigint | timestampTz => exact ⟨none, rfl⟩
  obtain ⟨index, hbuilt⟩ := Index.Built.exists_of_columnBox .bump (emptyMemory _) hbox
  obtain ⟨hits, hscan, hhits⟩ :=
    hexact _ _ _ _ rows index (wholeMeos_lawful _) (flatInterpretation_agrees _) hids
    (fun row hrow => .inr (hvalues row hrow)) hbuilt
  rw [initializeScan_eq (by rw [hbuilt.info_eq]; exact hop), hbuilt.info_eq] at hscan
  cases hq : prepareQuery (wholeMeos scan.index.bboxType.boxSize) scan.index.bboxType scan.operation
    scan.queryBox with
  | error e =>
    rw [hq] at hscan
    cases hscan
  | ok q =>
    rw [hq] at hscan
    obtain rfl := Except.ok.inj hscan
    refine ⟨q, rfl, fun id => ?_⟩
    have hsearch := hbuilt.mem_search (wholeMeos_lawful _) hids q op id
    simp only [satisfies_wholeMeos, decide_eq_true_eq] at hsearch
    rw [← hsearch]
    apply (hhits id).trans
    simp only [he, exists_and_right]

/-- A scan tells two rows apart, so it is not exact for a predicate that accepts all values or none. -/
theorem not_exact_of_accepts {scan : PlannedScan} {e : Expression} {r : Bool}
    (hop : (indexSearchOpFromName scan.operation scan.index.bboxType scan.queryOnLeft).isSome)
    (he : ∀ value columns, e.accepts (flatInterpretation scan.index) value columns = r) :
    ¬ scan.Exact e := by
  intro hexact
  obtain ⟨op, hop⟩ := Option.isSome_iff_exists.mp hop
  have hholds : ∀ b : Box scan.index.bboxType.boxSize, scan.index.columnType.Holds (.blob b.val) := by
    intro b
    refine ⟨id_of_bboxTypeOf scan.index.bboxType_eq, fun t ht => ?_⟩
    have hsome := scan.index.bboxType_eq
    rw [ht, bboxTypeOf_logicalType] at hsome
    rw [b.property, Option.some.inj hsome]
  have hcolumn : ∀ b : Box scan.index.bboxType.boxSize,
      columnBox (wholeMeos scan.index.bboxType.boxSize) scan.index (.blob b.val) = .ok (some b) := by
    intro b
    rw [columnBox_wholeMeos (hholds b), Box.copy_val]
  -- the query does not depend on the rows
  have hnone : ∀ row ∈ ([] : List (RowId × Value)), scan.index.columnType.Holds row.2 := by simp
  obtain ⟨q, hq, -⟩ := hexact.mem_search hop he (by simp) hnone
  obtain ⟨b, hb⟩ := exists_box_ne (by cases scan.index.bboxType <;> decide) q
  have hboth : ∀ row ∈ [((0 : RowId), Value.blob q.val), (1, .blob b.val)],
      scan.index.columnType.Holds row.2 := by
    simpa using ⟨hholds q, hholds b⟩
  obtain ⟨q', hq', hhits⟩ := hexact.mem_search hop he (by simp) hboth
  obtain rfl := Except.ok.inj (hq.symm.trans hq')
  have htrue : r = true := ((hhits 0).mp ⟨_, q, List.mem_cons_self, hcolumn q, rfl⟩).2
  obtain ⟨value, b', hmem, hbox, heq⟩ := (hhits 1).mpr ⟨⟨.blob b.val, by simp⟩, htrue⟩
  obtain rfl : value = .blob b.val := by simpa using hmem
  rw [hcolumn b] at hbox
  exact hb ((Option.some.inj (Except.ok.inj hbox)).trans heq)

/-- The scan a rewritten get became. -/
def LogicalOperator.scan? : LogicalOperator → Option PlannedScan
  | .get g | .filter _ _ [.get g] => g.bindData
  | .filter .. | .projection .. | .topN .. | .other _ => none

/-- The scan of a rewritten get is the one found for its matched filter. -/
theorem findMatch_of_scan? {sets : SetMatcher} {indexType : IndexType} {get : LogicalGet}
    {plan : LogicalOperator}
    (h : tryOptimizeLogicalGet sets indexType get = (true, plan)) {scan : PlannedScan}
    (hscan : plan.scan? = some scan) :
    get.findMatch sets indexType = some (scan.index.columnId, scan) := by
  obtain ⟨matched, scan', get', residual, hfind, -, rfl⟩ := tryOptimizeLogicalGet_eq_true h
  have hsame : scan' = scan := by
    unfold LogicalGet.rewritten at hscan
    split at hscan <;> exact Option.some.inj hscan
  obtain ⟨_, -, -, -, hcolumn, -⟩ := findMatch_eq_some hfind
  rw [hfind, ← hsame, hcolumn]

/-! ### A column of boxes -/

/-- The index of that column. -/
def boxIndex : IndexInfo := ⟨"i", .trtree, [0], .stbox, .stbox, bboxTypeOf_stbox⟩

/-- A predicate on an operand over that column. -/
def boxPredicate (x : Expression) : Expression := comparison "&&" false x (zeroBox .stbox)

/-- The scan that takes its place. -/
def boxScan : PlannedScan := ⟨boxIndex, 1000, List.replicate 80 0, "&&", false⟩

/-- A get with that one filter. -/
def predicateGet (x : Expression) : LogicalGet :=
  { overlapsGet oneColumn boxIndex ⟨.stbox, false⟩ with
    tableFilters := [(0, ⟨.expressionFilter, boxPredicate x⟩)] }

section PredicateGet

variable {x : Expression}

theorem predicateGet_wellFormed (hover : x.Over .stbox) : (predicateGet x).WellFormed where
  columnIds_stored i hi := by
    obtain rfl := ColumnIndex.column.inj (List.mem_singleton.mp hi)
    rfl
  filters_sorted := List.pairwise_singleton _ _
  filters_over f hf := by
    obtain rfl := List.mem_singleton.mp hf
    exact ⟨⟨.stbox, false⟩, rfl, rfl, hover, trivial, trivial⟩
  projectionIds_lt p hp := nomatch hp

/-- It is rewritten, whatever the operand. -/
theorem predicateGet_rewritten (hx : x.asConstant = none) (htype : x.returnType = .stbox) :
    tryOptimizeLogicalGet .backtracking .trtree (predicateGet x) =
      (true, .get ((predicateGet x).readIndex .trtree boxScan)) := by
  have hmatch : boxIndex.matchFilter .backtracking ⟨.expressionFilter, boxPredicate x⟩ = some boxScan :=
    matchFilter_comparison hx (.inl htype) (overlaps_isSome .stbox) (queryBytes_zeroBox .stbox)
  have hfind : (predicateGet x).findMatch .backtracking .trtree = some (0, boxScan) := by
    show List.findSome? _ [((0 : ℕ), (⟨.expressionFilter, boxPredicate x⟩ : TableFilter))] = _
    rw [List.findSome?_singleton]
    show List.findSome? _ [boxIndex] = _
    rw [List.findSome?_singleton, hmatch]
    rfl
  have hres : (predicateGet x).residuals 0 (predicateGet x).projectionIds (predicateGet x).tableFilters [] =
      (true, predicateGet x, []) := by
    show LogicalGet.residuals 0 _ [(0, _)] _ _ = _
    rw [LogicalGet.residuals, if_pos rfl, LogicalGet.residuals]
  exact tryOptimizeLogicalGet_of_residuals rfl rfl hfind hres

end PredicateGet

/-- Of a comparison of the column with a box constant, an index makes an exact scan. -/
theorem exact_of_matchFilter {sets : SetMatcher} {scan : PlannedScan} {filter : TableFilter}
    (hmatch : scan.index.matchFilter sets filter = some scan) {c : Constant}
    (hc : IsBoxConstant scan.index c)
    (heq : filter.expr = comparison scan.operation scan.queryOnLeft (.reference scan.index.columnType) c) :
    scan.Exact filter.expr := by
  obtain ⟨kind, e⟩ := filter
  obtain ⟨_, _, _, _, _, _, hkind, -⟩ := matchFilter_eq_some hmatch
  obtain rfl : kind = .expressionFilter := hkind
  obtain rfl : e = _ := heq
  obtain ⟨-, hbytes, -, -, hop, -⟩ := matchFilter_comparison_eq_some rfl hmatch
  exact exact_of_comparison hc hbytes hop

/-- **A rewritten scan asks for exactly the rows its predicate accepts**, over every content of the
table, exactly when the predicate compares the column itself with a box constant. -/
theorem exact_iff (sets : SetMatcher) (indexType : IndexType) (get : LogicalGet)
    (plan : LogicalOperator) (scan : PlannedScan) (filter : TableFilter) (hget : get.WellFormed)
    (hplan : tryOptimizeLogicalGet sets indexType get = (true, plan)) (hscan : plan.scan? = some scan)
    (hfilter : (scan.index.columnId, filter) ∈ get.tableFilters)
    (hover : filter.expr.Over scan.index.columnType) (htype : filter.expr.returnType = .boolean) :
    scan.Exact filter.expr ↔
      ∃ c, IsBoxConstant scan.index c ∧
        filter.expr = comparison scan.operation scan.queryOnLeft (.reference scan.index.columnType) c := by
  obtain ⟨filter', hfilter', -, -, -, hmatch⟩ := findMatch_eq_some (findMatch_of_scan? hplan hscan)
  obtain rfl := hget.filter_eq hfilter hfilter'
  obtain ⟨name, type, x, y, c, box, -, he, -, hconst, -, hop, hscaneq⟩ := matchFilter_eq_some hmatch
  have hoperation : scan.operation = name := by rw [hscaneq]
  have hleft : scan.queryOnLeft = x.asConstant.isSome := by rw [hscaneq]
  rw [← hoperation, ← hleft] at hop
  constructor
  · intro hexact
    by_contra hnone
    rw [he] at htype hover hexact hnone
    obtain rfl : type = .boolean := htype
    have hnot : ∀ left, IsBoxConstant scan.index c →
        Expression.function name .boolean [x, y] ≠
          comparison name left (.reference scan.index.columnType) c := by
      intro left hc heq
      apply hnone
      refine ⟨c, hc, ?_⟩
      obtain ⟨-, -, hargs⟩ := Expression.function.inj heq
      rw [heq, hoperation, hleft]
      cases left <;>
        simp only [operands, Bool.false_eq_true, if_false, if_true, List.cons.injEq, and_true] at hargs <;>
        rw [hargs.1] <;> rfl
    obtain ⟨r, hr⟩ := accepts_flatInterpretation hover hconst hnot
    exact not_exact_of_accepts hop hr hexact
  · intro hc
    rcases hc with ⟨c', hc', heq⟩
    exact exact_of_matchFilter hmatch hc' heq

theorem exact_reference : boxScan.Exact (boxPredicate (.reference .stbox)) :=
  (exact_iff .backtracking .trtree (predicateGet (.reference .stbox)) _ boxScan
    ⟨.expressionFilter, boxPredicate (.reference .stbox)⟩ (predicateGet_wellFormed rfl)
    (predicateGet_rewritten rfl rfl) rfl List.mem_cons_self ⟨rfl, trivial, trivial⟩ rfl).mpr
    ⟨zeroBox .stbox, .inl rfl, rfl⟩

/-- A predicate on a function of the column is answered from the boxes of the column. -/
theorem not_exact_function :
    ¬ ∀ (get : LogicalGet) (plan : LogicalOperator) (scan : PlannedScan) (filter : TableFilter),
    get.WellFormed → tryOptimizeLogicalGet .backtracking .trtree get = (true, plan) →
    plan.scan? = some scan → (scan.index.columnId, filter) ∈ get.tableFilters → filter.expr.Over scan.index.columnType →
    filter.expr.returnType = .boolean → scan.Exact filter.expr := by
  intro hall
  let shifted : Expression := .function "shift" .stbox [.reference .stbox]
  have hover : shifted.Over .stbox := ⟨rfl, trivial⟩
  have hpredicate : (boxPredicate shifted).Over .stbox := ⟨hover, trivial, trivial⟩
  have hexact := hall (predicateGet shifted) _ boxScan ⟨.expressionFilter, boxPredicate shifted⟩
    (predicateGet_wellFormed hover) (predicateGet_rewritten rfl rfl) rfl List.mem_cons_self hpredicate rfl
  have hone : ∃ r, ∀ value columns,
      (boxPredicate shifted).accepts (flatInterpretation boxIndex) value columns = r := by
    apply accepts_flatInterpretation hpredicate (.inr rfl)
    intro left _ heq
    obtain ⟨-, -, hargs⟩ := Expression.function.inj heq
    cases left <;> simp [operands, shifted] at hargs
  obtain ⟨r, hr⟩ := hone
  exact not_exact_of_accepts (overlaps_isSome .stbox) hr hexact

end MobilityDuck
