/-
# TopN over a nearest-neighbour scan

`tryOptimizeLogicalTopN` replaces the scan under an `ORDER BY .. |=| .. LIMIT`
by an index scan that hands on `limit + offset` rows. The operator is NULL
for a NULL value, and for a value whose distance is the greatest number there
is (`genNad`): the index has no pair for the first, and ranks the second
last. The rewrite looks at neither, nor at the null order of the sort key. A
column of stboxes is ranked as if it held temporal values, which MEOS refuses.

The TopN takes the same keys from the rows of the index scan as from all rows
exactly when the NULL values it was not given do not show, and no stored
stbox has to be ranked (`topN_nearest_iff`).

Key definitions: `genNad`, `boxOverload`, `SortsBy`, `InStep`,
`TopNRight`. Key theorem: `topN_nearest_iff`.
-/
import MobilityDuck.NearestRuns
import MobilityDuck.Bindings
import MobilityDuck.ScanColumn
import MobilityDuck.Lib.NullOrder

namespace MobilityDuck

open Lib

variable {n : ℕ} {meos : Meos n} {δ : Type} [LinearOrder δ]

/-! ### The operator -/

/-- What the generated distance functions share: a NULL operand is passed on, and the greatest number
stands for no distance. -/
def genNad (nad : List UInt8 → List UInt8 → Except String δ) (max : δ) (value box : Value) :
    Except Exception (Option δ) :=
  match value, box with
  | .blob v, .blob q => (callMeos (nad v q)).map fun r => if r = max then none else some r
  | _, _ => .ok none

/-- An overload of `|=|`, on the values of its operands. -/
abbrev DistanceOperator (δ : Type) := Value → Value → Except Exception (Option δ)

section Operators

variable (near : Nearest meos δ) (intMax : δ) (nadStboxStbox : List UInt8 → List UInt8 → Except String δ)

/-- `Gen_nad_tint_tbox`; `intMax` is `numeric_limits<int32_t>::max()` as a distance. -/
def genNadTintTbox (value box : Value) : Except Exception (Option δ) :=
  genNad near.nadTintTbox intMax value box

/-- `Gen_nad_tint_tbox_rev`. -/
def genNadTintTboxRev (box value : Value) : Except Exception (Option δ) :=
  genNad near.nadTintTbox intMax value box

/-- `Gen_nad_tfloat_tbox`. -/
def genNadTfloatTbox (value box : Value) : Except Exception (Option δ) :=
  genNad near.nadTfloatTbox near.max value box

/-- `Gen_nad_tfloat_tbox_rev`. -/
def genNadTfloatTboxRev (box value : Value) : Except Exception (Option δ) :=
  genNad near.nadTfloatTbox near.max value box

/-- `Gen_nad_tgeo_stbox`. -/
def genNadTgeoStbox (value box : Value) : Except Exception (Option δ) :=
  genNad near.nadTgeoStbox near.max value box

/-- The overloads of `|=|` between an indexed temporal type and a box. -/
def distanceOverload (left right : LogicalType) : Option (DistanceOperator δ) :=
  if left = .tint ∧ right = .tbox then some (genNadTintTbox near intMax)
  else if left = .tbox ∧ right = .tint then some (genNadTintTboxRev near intMax)
  else if left = .tfloat ∧ right = .tbox then some (genNadTfloatTbox near)
  else if left = .tbox ∧ right = .tfloat then some (genNadTfloatTboxRev near)
  else if (left = .tgeompoint ∨ left = .tgeogpoint ∨ left = .tgeometry ∨ left = .tgeography) ∧
    right = .stbox then some (genNadTgeoStbox near)
  else none

/-- `Gen_nad_stbox_stbox_v1`. -/
def genNadStboxStboxV1 : DistanceOperator δ := genNad nadStboxStbox near.max

/-- The overloads of `|=|` between a type an index can be over and the box that index holds. -/
def boxOverload (left right : LogicalType) : Option (DistanceOperator δ) :=
  if left = .stbox ∧ right = .stbox then some (genNadStboxStboxV1 near nadStboxStbox)
  else distanceOverload near intMax left right

/-- The kind of the values of an indexed temporal type (`temptype`). -/
def LogicalType.temporalType (type : LogicalType) : TemporalType :=
  if type = .tint then .tint else if type = .tfloat then .tfloat else .other

/-- The distance to a box of an indexed temporal type. -/
def Nearest.nad (type : LogicalType) : List UInt8 → List UInt8 → Except String δ :=
  if type = .tint then near.nadTintTbox
  else if type = .tfloat then near.nadTfloatTbox
  else near.nadTgeoStbox

/-- The greatest number of the distances of a type. -/
def maxDistance (type : LogicalType) : δ := if type = .tint then intMax else near.max

end Operators

/-! ### The rows a TopN is given -/

/-- An ordering expression gives rows their keys: it is the distance operator between two operands, and
raises for no row. -/
def SortsBy (near : Nearest meos δ) (intMax : δ) (nadStboxStbox : List UInt8 → List UInt8 → Except String δ)
    (I : Interpretation) (get : LogicalGet) (e : Expression) (rows : List ReadRow)
    (key : ReadRow → Option δ) : Prop :=
  ∃ type x y op, e = .function nnOperation type [x, y] ∧
    boxOverload near intMax nadStboxStbox x.returnType y.returnType = some op ∧
    ∀ r ∈ rows, op (x.eval I .null (get.bindingValue r)) (y.eval I .null (get.bindingValue r)) = .ok (key r)

/-- A reference to the indexed column has the type of the index. -/
def ReadsIndexed (get : LogicalGet) (info : IndexInfo) (e : Expression) : Prop :=
  ∀ name type operands, e = .function name type operands → ∀ t position,
    .columnRef t ⟨get.tableIndex, position⟩ ∈ operands →
      get.columnIds[position]? = some (.column info.columnId) → t = info.columnType

/-- The value of the indexed column in a row. -/
def indexedCell (bind : IndexScanBindData meos) (r : ReadRow) : Value :=
  cell r.1 r.2 (recheckColumn bind)

/-- The index is in step with what a transaction reads: the transaction inserted no row itself, a value
of the column is read as a temporal value of its type, it is indexed under its box, and no stale pair is
seen. The bytes of a stbox are read as a value of none of the numbers. -/
structure InStep (near : Nearest meos δ) (bind : IndexScanBindData meos) (t : Transaction) (l : Log n) :
    Prop where
  localRows : t.localRows = []
  typed : ∀ id row, t.snapshot id = some row → indexedCell bind (id, row) = .null ∨
    ∃ v, indexedCell bind (id, row) = .blob v ∧
      near.temporalType v = some bind.index.info.columnType.temporalType
  indexed : ∀ id v, recheckValue bind t.snapshot id = some v →
    ∃ b, l.current id = some b ∧ deriveBox meos bind.index.info v = .ok (some b)
  unseen : ∀ e ∈ bind.index.stale l, recheckValue bind t.snapshot e.1 = none

/-- The documented behaviour of the distances of MEOS: no value is nearer to a box than its own box is,
nor further than the greatest number. -/
def Nearest.Measures (near : Nearest meos δ) (dist : Box n → Box n → δ) (intMax : δ) (info : IndexInfo)
    (query : List UInt8) (box : Box n) : Prop :=
  ∀ v b d, near.temporalType v = some info.columnType.temporalType →
    deriveBox meos info v = .ok (some b) → exactDistance near info.bboxType v query = .ok d →
      dist b box ≤ d ∧ d ≤ maxDistance near intMax info.columnType

/-- The documented behaviour of MEOS on a stored stbox: it is no temporal value to measure. -/
def RefusesBoxes (near : Nearest meos δ) (bind : IndexScanBindData meos) (snapshot : Snapshot) : Prop :=
  bind.index.info.columnType = .stbox → ∀ id v, recheckValue bind snapshot id = some v →
    ∃ e, near.nadTgeoStbox v bind.queryBox = .error e

/-- The index scan delivers rows of which the TopN takes the keys it would take of all rows. -/
def TopNRight (near : Nearest meos δ) (bind : IndexScanBindData meos) (order : OrderByNode)
    (limit offset : ℕ) (t : Transaction) (key : ReadRow → Option δ) : Prop :=
  ∃ ids, nearestIds near bind t.snapshot = .ok ids ∧
    (∀ input, ∃ s, initGlobal near bind (t.localRows.map (·.2)) input = .ok s ∧
      ∀ fuel > ids.length, scanRows near bind t.snapshot fuel s =
        .ok ((rowsAt t.snapshot ids).map fun r => emitRow s r.1 r.2)) ∧
    topN order.nullsFirst limit offset ((rowsAt t.snapshot ids).map key) =
      topN order.nullsFirst limit offset (t.seqRows.map key)

section Keys

variable {near : Nearest meos δ} {intMax : δ} {nadStboxStbox : List UInt8 → List UInt8 → Except String δ}
  {bind : IndexScanBindData meos} {snapshot : Snapshot}

omit [LinearOrder δ] in
/-- The value a recheck reads is that of the indexed column. -/
theorem recheckValue_of_seen (bind : IndexScanBindData meos) {id : RowId} {row : StoredRow} (h : snapshot id = some row) :
    recheckValue bind snapshot id =
      match indexedCell bind (id, row) with
      | .blob v => some v
      | _ => none := by
  have hfetch : fetch snapshot [recheckColumn bind] [id] = [[indexedCell bind (id, row)]] := by
    simp [fetch, h, indexedCell]
  rw [recheckValue, hfetch]
  cases indexedCell bind (id, row) <;> rfl

/-- The overloads are distances between an indexed type and its boxes, either way around. -/
theorem distanceOverload_eq_some {left right : LogicalType} {op : DistanceOperator δ}
    (h : distanceOverload near intMax left right = some op) :
    (∃ t, bboxTypeOf left = some t ∧ right = t.logicalType ∧
      ∀ value box, op value box = genNad (near.nad left) (maxDistance near intMax left) value box) ∨
    (∃ t, bboxTypeOf right = some t ∧ left = t.logicalType ∧
      ∀ value box, op box value = genNad (near.nad right) (maxDistance near intMax right) value box) := by
  unfold distanceOverload at h
  split at h
  · rename_i hsides
    obtain ⟨rfl, rfl⟩ := hsides
    obtain rfl := Option.some.inj h
    exact .inl ⟨.tbox, rfl, rfl, fun _ _ => rfl⟩
  split at h
  · rename_i hsides
    obtain ⟨rfl, rfl⟩ := hsides
    obtain rfl := Option.some.inj h
    exact .inr ⟨.tbox, rfl, rfl, fun _ _ => rfl⟩
  split at h
  · rename_i hsides
    obtain ⟨rfl, rfl⟩ := hsides
    obtain rfl := Option.some.inj h
    exact .inl ⟨.tbox, rfl, rfl, fun _ _ => rfl⟩
  split at h
  · rename_i hsides
    obtain ⟨rfl, rfl⟩ := hsides
    obtain rfl := Option.some.inj h
    exact .inr ⟨.tbox, rfl, rfl, fun _ _ => rfl⟩
  split at h
  · rename_i hsides
    obtain ⟨hgeo, rfl⟩ := hsides
    obtain rfl := Option.some.inj h
    rcases hgeo with rfl | rfl | rfl | rfl <;> exact .inl ⟨.stbox, rfl, rfl, fun _ _ => rfl⟩
  · simp at h

omit [LinearOrder δ] in
/-- The scan measures a temporal value with the function of its type. -/
theorem exactDistance_of_typed {type : LogicalType} {bboxType : MeosType} {v query : List UInt8}
    (hbox : bboxTypeOf type = some bboxType) (htemporal : indexesTemporal type = true)
    (hv : near.temporalType v = some type.temporalType) :
    exactDistance near bboxType v query = callMeos (near.nad type v query) := by
  simp only [indexesTemporal, decide_eq_true_eq] at htemporal
  rw [exactDistance, hv]
  rcases htemporal with rfl | rfl | rfl | rfl | rfl | rfl | rfl | rfl <;>
    obtain rfl := Option.some.inj hbox.symm <;> rfl

theorem value_of_blobBytes {c : Constant} {bytes : List UInt8} (h : c.blobBytes = some bytes) :
    c.value = .blob bytes := by
  unfold Constant.blobBytes at h
  split at h
  · rename_i hv
    rw [hv, Option.some.inj h]
  · simp at h

/-- Beside the column of the index stands a constant of its box. -/
theorem operands_of_matchNearest {sets : SetMatcher} {get : LogicalGet} {e : Expression} {limit : ℕ}
    {scan : PlannedScan} (hmatch : scan.index.matchNearest sets get e limit = some scan)
    (hreads : ReadsIndexed get scan.index e) :
    ∃ type x y c position, e = .function nnOperation type [x, y] ∧
      get.position? scan.index.columnId = some position ∧ c.value = .blob scan.queryBox ∧
      c.type = scan.index.bboxType.logicalType ∧
      ((x = .columnRef scan.index.columnType ⟨get.tableIndex, position⟩ ∧ y = .constant c) ∨
        (y = .columnRef scan.index.columnType ⟨get.tableIndex, position⟩ ∧ x = .constant c)) := by
  obtain ⟨type, x, y, t, c, box, position, rfl, hpos, hoperands, htypes, hbox, hscan⟩ :=
    matchNearest_eq_some hmatch
  have hquery : box = scan.queryBox := by rw [hscan]
  have hvalue := value_of_blobBytes hbox
  rw [hquery] at hvalue
  have ht : t = scan.index.columnType := by
    refine hreads _ _ _ rfl t position ?_ (position?_eq_some hpos)
    rcases hoperands with ⟨rfl, -⟩ | ⟨rfl, -⟩ <;> simp
  have hc : c.type = scan.index.bboxType.logicalType := by
    rcases htypes with ⟨-, hc⟩ | ⟨hbbox, hc⟩
    · exact hc
    · rw [hc, ← ht, hbbox]
  rw [ht] at hoperands
  exact ⟨type, x, y, c, position, rfl, hpos, hvalue, hc, hoperands⟩

/-- Where the optimizer takes the scan, the key of a row is the distance of its indexed column to the
query box. -/
theorem genNad_of_sortsBy {sets : SetMatcher} {I : Interpretation} {get : LogicalGet} {e : Expression}
    {limit : ℕ} {scan : PlannedScan} {rows : List ReadRow} {key : ReadRow → Option δ}
    (hmatch : scan.index.matchNearest sets get e limit = some scan)
    (htemporal : indexesTemporal scan.index.columnType = true) (hreads : ReadsIndexed get scan.index e)
    (hsort : SortsBy near intMax nadStboxStbox I get e rows key) : ∀ r ∈ rows,
    genNad (near.nad scan.index.columnType) (maxDistance near intMax scan.index.columnType)
      (get.columnValue scan.index.columnId r) (.blob scan.queryBox) = .ok (key r) := by
  obtain ⟨type, x, y, c, position, rfl, hpos, hvalue, -, hoperands⟩ :=
    operands_of_matchNearest hmatch hreads
  obtain ⟨type', x', y', op, he, hop, hkey⟩ := hsort
  obtain ⟨-, -, hargs⟩ := Expression.function.inj he
  obtain ⟨rfl, rfl⟩ : x = x' ∧ y = y' := by simpa using hargs
  have hboxless : ∀ t' : MeosType, t'.logicalType ≠ scan.index.columnType := by
    intro t' ht'
    rw [← ht', indexesTemporal_logicalType] at htemporal
    cases htemporal
  have hoverload : distanceOverload near intMax x.returnType y.returnType = some op := by
    rw [boxOverload, if_neg] at hop
    · exact hop
    · rintro ⟨hx, hy⟩
      rcases hoperands with ⟨rfl, -⟩ | ⟨rfl, -⟩
      · exact hboxless .stbox hx.symm
      · exact hboxless .stbox hy.symm
  intro r hr
  have hr := hkey r hr
  rcases hoperands with ⟨rfl, rfl⟩ | ⟨rfl, rfl⟩
  · simp only [Expression.returnType] at hoverload
    simp only [Expression.eval, LogicalGet.bindingValue_position hpos, hvalue] at hr
    rcases distanceOverload_eq_some hoverload with ⟨t', -, -, hnad⟩ | ⟨t', -, hleft, -⟩
    · rwa [hnad] at hr
    · exact absurd hleft.symm (hboxless t')
  · simp only [Expression.returnType] at hoverload
    simp only [Expression.eval, LogicalGet.bindingValue_position hpos, hvalue] at hr
    rcases distanceOverload_eq_some hoverload with ⟨t', -, hright, -⟩ | ⟨t', -, -, hnad⟩
    · exact absurd hright.symm (hboxless t')
    · rwa [hnad] at hr

/-- The scan is over a temporal type, or over stboxes; then a NULL value has no key. -/
theorem stbox_of_sortsBy {sets : SetMatcher} {I : Interpretation} {get : LogicalGet} {e : Expression}
    {limit : ℕ} {scan : PlannedScan} {rows : List ReadRow} {key : ReadRow → Option δ}
    (hmatch : scan.index.matchNearest sets get e limit = some scan)
    (hboxes : indexesTemporal scan.index.columnType = false) (hreads : ReadsIndexed get scan.index e)
    (hsort : SortsBy near intMax nadStboxStbox I get e rows key) :
    scan.index.columnType = .stbox ∧
      ∀ r ∈ rows, get.columnValue scan.index.columnId r = .null → key r = none := by
  obtain ⟨type, x, y, c, position, rfl, hpos, hvalue, hc, hoperands⟩ :=
    operands_of_matchNearest hmatch hreads
  obtain ⟨type', x', y', op, he, hop, hkey⟩ := hsort
  obtain ⟨-, -, hargs⟩ := Expression.function.inj he
  obtain ⟨rfl, rfl⟩ : x = x' ∧ y = y' := by simpa using hargs
  have hself : scan.index.columnType = scan.index.bboxType.logicalType := by
    rcases bboxTypeOf_eq_some scan.index.bboxType_eq with hself | htemporal
    · exact hself
    · rw [hboxes] at htemporal
      cases htemporal
  have htypes : x.returnType = scan.index.bboxType.logicalType ∧
      y.returnType = scan.index.bboxType.logicalType := by
    rcases hoperands with ⟨rfl, rfl⟩ | ⟨rfl, rfl⟩
    · exact ⟨hself, hc⟩
    · exact ⟨hc, hself⟩
  rw [htypes.1, htypes.2] at hop
  -- of the boxes only two stboxes have a distance
  obtain ⟨hbbox, rfl⟩ : scan.index.bboxType = .stbox ∧ genNadStboxStboxV1 near nadStboxStbox = op := by
    cases hb : scan.index.bboxType <;> rw [hb] at hop <;> cases hop
    exact ⟨rfl, rfl⟩
  refine ⟨by rw [hself, hbbox]; rfl, fun r hr hnull => ?_⟩
  have hr := hkey r hr
  rcases hoperands with ⟨rfl, rfl⟩ | ⟨rfl, rfl⟩
  · simp only [Expression.eval, LogicalGet.bindingValue_position hpos, hvalue, hnull] at hr
    exact (Except.ok.inj hr).symm
  · simp only [Expression.eval, LogicalGet.bindingValue_position hpos, hvalue, hnull] at hr
    exact (Except.ok.inj hr).symm

end Keys

/-! ### A scan that is in step -/

section Step

variable {near : Nearest meos δ} {dist : Box n → Box n → δ} {intMax : δ}
  {bind : IndexScanBindData meos} {t : Transaction} {l : Log n} {box : Box n} {key : ReadRow → Option δ}

/-- The rows of a NULL value, which have no pair in the index. -/
def nullRows (bind : IndexScanBindData meos) (t : Transaction) : ℕ :=
  t.seqRows.countP fun r => indexedCell bind r = .null

omit [LinearOrder δ] in
/-- The rows the index has a pair for are those whose value is not NULL. -/
theorem InStep.mem_indexedRows (h : InStep near bind t l) {id : RowId} {row : StoredRow}
    (hrow : t.snapshot id = some row) :
    id ∈ indexedRows bind t.snapshot l ↔ indexedCell bind (id, row) ≠ .null := by
  have hvalue := recheckValue_of_seen bind hrow
  rw [indexedRows, List.mem_filter, mem_map_currents]
  constructor
  · rintro ⟨-, hsome⟩ hnull
    rw [hvalue, hnull] at hsome
    cases hsome
  · intro hne
    rcases h.typed id row hrow with hnull | ⟨v, hv, -⟩
    · exact absurd hnull hne
    · rw [hv] at hvalue
      obtain ⟨b, hb, -⟩ := h.indexed id v hvalue
      refine ⟨?_, by rw [hvalue]; rfl⟩
      obtain ⟨e, he, -⟩ := Option.map_eq_some_iff.mp hb
      have hid : e.1 = id := by simpa using List.find?_some he
      exact List.mem_map.mpr ⟨e, List.mem_reverse.mp (List.mem_of_find?_eq_some he), hid⟩

variable (hranked : ∀ id v, recheckValue bind t.snapshot id = some v →
    exactDistance near bind.index.info.bboxType v bind.queryBox =
      callMeos (near.nad bind.index.info.columnType v bind.queryBox))
  (hstep : InStep near bind t l) (hmeasures : near.Measures dist intMax bind.index.info bind.queryBox box)
  (hkey : ∀ r ∈ t.seqRows, genNad (near.nad bind.index.info.columnType)
    (maxDistance near intMax bind.index.info.columnType) (indexedCell bind r) (.blob bind.queryBox) =
      .ok (key r))

include hranked hstep hmeasures hkey in
/-- A value the recheck reads is indexed, and its row has the exact distance for its key unless that is
the greatest number. -/
theorem key_of_recheckValue {id : RowId} {v : List UInt8}
    (hv : recheckValue bind t.snapshot id = some v) :
    ∃ row b d, t.snapshot id = some row ∧ l.current id = some b ∧
      exactDistance near bind.index.info.bboxType v bind.queryBox = .ok d ∧ dist b box ≤ d ∧
      d ≤ maxDistance near intMax bind.index.info.columnType ∧
      key (id, row) = if d = maxDistance near intMax bind.index.info.columnType then none else some d := by
  obtain ⟨row, hrow⟩ := snapshot_of_recheckValue hv
  obtain ⟨b, hb, hbox⟩ := hstep.indexed id v hv
  have hexact := hranked id v hv
  rw [recheckValue_of_seen bind hrow] at hv
  rcases hstep.typed id row hrow with hnull | ⟨v', hcell, htype⟩
  · rw [hnull] at hv
    cases hv
  rw [hcell] at hv
  obtain rfl := Option.some.inj hv
  have hr := hkey _ (mem_seqRows hrow)
  rw [hcell, genNad, ← hexact] at hr
  cases hd : exactDistance near bind.index.info.bboxType v' bind.queryBox with
  | error e =>
    rw [hd] at hr
    cases hr
  | ok d =>
    rw [hd] at hr
    obtain ⟨hle, hmax⟩ := hmeasures v' b d htype hbox hd
    exact ⟨row, b, d, hrow, hb, rfl, hle, hmax, (Except.ok.inj hr).symm⟩

omit hmeasures in
include hstep hkey in
/-- The keys of all rows are those of the indexed ones, and NULL for each row of a NULL value. -/
theorem keys_perm : (t.seqRows.map key).Perm
    ((rowsAt t.snapshot (indexedRows bind t.snapshot l)).map key ++
      List.replicate (nullRows bind t) none) := by
  have hseq := seqRows_of_localRows hstep.localRows
  have hnodup : (indexedRows bind t.snapshot l).Nodup := (currents_nodup l).filter _
  have hheld := rowsAt_perm hnodup t.nodup fun id _ => t.stored id
  have hmem : ∀ r ∈ rowsAt t.snapshot t.rowIds,
      (r.1 ∉ indexedRows bind t.snapshot l ↔ indexedCell bind r = .null) := by
    intro r hr
    rw [hstep.mem_indexedRows (mem_rowsAt.mp hr).2, not_not]
  have hsplit := List.filter_append_perm (fun r : ReadRow => decide (r.1 ∈ indexedRows bind t.snapshot l))
    (rowsAt t.snapshot t.rowIds)
  have hnull : ((rowsAt t.snapshot t.rowIds).filter
      fun r => !decide (r.1 ∈ indexedRows bind t.snapshot l)).map key =
        List.replicate (nullRows bind t) none := by
    rw [List.eq_replicate_iff]
    constructor
    · rw [List.length_map, ← List.countP_eq_length_filter, nullRows, hseq]
      refine List.countP_congr fun r hr => ?_
      simpa using hmem r hr
    · intro d hd
      obtain ⟨r, hr, rfl⟩ := List.mem_map.mp hd
      obtain ⟨hr, hout⟩ := List.mem_filter.mp hr
      have hcell := (hmem r hr).mp (by simpa using hout)
      have hr := hkey r (hseq ▸ hr)
      rw [hcell] at hr
      exact (Except.ok.inj hr).symm
  rw [hseq]
  refine (hsplit.symm.map key).trans ?_
  rw [List.map_append, hnull]
  exact (hheld.symm.map key).append_right _

theorem seen_of_indexedRows {id : RowId} (h : id ∈ indexedRows bind t.snapshot l) :
    ∃ v, recheckValue bind t.snapshot id = some v :=
  Option.isSome_iff_exists.mp (List.mem_filter.mp h).2

include hranked hstep hmeasures hkey in
/-- A row at a greater distance has a greater key. -/
theorem toTop_key_le {x y : RowId} (hx : x ∈ indexedRows bind t.snapshot l)
    (hy : y ∈ indexedRows bind t.snapshot l)
    (h : rowDistance near bind t.snapshot y ≤ rowDistance near bind t.snapshot x) :
    toTop (key (rowOf t.snapshot y)) ≤ toTop (key (rowOf t.snapshot x)) := by
  have hrow : ∀ {id : RowId}, id ∈ indexedRows bind t.snapshot l →
      ∃ d : δ, rowDistance near bind t.snapshot id = d ∧
        d ≤ maxDistance near intMax bind.index.info.columnType ∧ key (rowOf t.snapshot id) =
          if d = maxDistance near intMax bind.index.info.columnType then none else some d := by
    intro id hid
    obtain ⟨v, hv⟩ := seen_of_indexedRows hid
    obtain ⟨row, b, d, hrow, -, hd, -, hmax, hr⟩ := key_of_recheckValue hranked hstep hmeasures hkey hv
    refine ⟨d, by simp only [rowDistance, hv, hd], hmax, ?_⟩
    show key (id, (t.snapshot id).getD []) = _
    rw [hrow]
    exact hr
  obtain ⟨d, hd, hmax, hkx⟩ := hrow hx
  obtain ⟨d', hd', -, hky⟩ := hrow hy
  rw [hd, hd', WithTop.coe_le_coe] at h
  rw [hkx, hky]
  by_cases htop : d = maxDistance near intMax bind.index.info.columnType
  · rw [if_pos htop]
    exact le_top
  · have hbelow : d' ≠ maxDistance near intMax bind.index.info.columnType := by
      intro heq
      exact htop (le_antisymm hmax (heq ▸ h))
    rw [if_neg htop, if_neg hbelow]
    exact WithTop.coe_le_coe.mpr h

include hranked hstep hmeasures hkey in
/-- Over an index in step, the TopN is given what it needs exactly when the rows of a NULL value do not
show. -/
theorem topNRight_iff {order : OrderByNode} {limit offset : ℕ} (hnear : near.Lawful dist)
    (hsub : l.Subperm (meos.entries bind.index.tree)) (hop : bind.operation = nnOperation)
    (hscan : bind.index.initializeNNScan near bind.queryBox = .ok (near.cursor bind.index.tree box))
    (hlimit : 0 < limit) (hk : bind.limit = offset + limit) :
    TopNRight near bind order limit offset t key ↔
      Shows order.nullsFirst limit offset (nullRows bind t) (t.seqRows.map key) := by
  have hbound : BoxesBound near dist bind t.snapshot l box := by
    intro id b v hb hv
    obtain ⟨row, b', d, -, hb', hd, hle, -, -⟩ := key_of_recheckValue hranked hstep hmeasures hkey hv
    obtain rfl := Option.some.inj (hb.symm.trans hb')
    exact ⟨d, hd, hle⟩
  obtain ⟨answer, hids, -, hseen, htop, hdeliver⟩ :=
    right_of_stale bind hnear hsub hop hscan hbound hstep.unseen
  have hindexed : rowsAt t.snapshot (indexedRows bind t.snapshot l) =
      (indexedRows bind t.snapshot l).map (rowOf t.snapshot) := by
    refine rowsAt_of_seen fun id hid => ?_
    obtain ⟨v, hv⟩ := seen_of_indexedRows hid
    obtain ⟨row, hrow⟩ := snapshot_of_recheckValue hv
    rw [hrow]
    exact Option.some_ne_none row
  have htopRows : IsTop (fun r => toTop (key r)) (offset + limit)
      (rowsAt t.snapshot (indexedRows bind t.snapshot l)) (rowsAt t.snapshot answer) := by
    rw [hindexed, rowsAt_of_seen hseen, ← hk]
    exact htop.map (rowOf t.snapshot) fun x hx y hy hle =>
      toTop_key_le hranked hstep hmeasures hkey hx hy hle
  have hshows : topN order.nullsFirst limit offset ((rowsAt t.snapshot answer).map key) =
      topN order.nullsFirst limit offset (t.seqRows.map key) ↔
        Shows order.nullsFirst limit offset (nullRows bind t) (t.seqRows.map key) :=
    topN_eq_iff hlimit htopRows (keys_perm hstep hkey)
  constructor
  · rintro ⟨ids, hids', -, hkeys⟩
    obtain rfl := Except.ok.inj (hids.symm.trans hids')
    exact hshows.mp hkeys
  · intro h
    refine ⟨answer, hids, fun input => ?_, hshows.mpr h⟩
    obtain ⟨s, hinit, hrun⟩ := hdeliver (t.localRows.map (·.2)) input
    refine ⟨s, hinit, fun fuel hfuel => ?_⟩
    rw [hrun fuel hfuel, ← emit_eq, emit_eq_rowsAt]

omit [LinearOrder δ] in
/-- A column of temporal values is ranked by the distance of its type. -/
theorem InStep.ranked (hstep : InStep near bind t l)
    (htemporal : indexesTemporal bind.index.info.columnType = true) {id : RowId} {v : List UInt8}
    (hv : recheckValue bind t.snapshot id = some v) :
    exactDistance near bind.index.info.bboxType v bind.queryBox =
      callMeos (near.nad bind.index.info.columnType v bind.queryBox) := by
  obtain ⟨row, hrow⟩ := snapshot_of_recheckValue hv
  rw [recheckValue_of_seen bind hrow] at hv
  rcases hstep.typed id row hrow with hnull | ⟨v', hcell, htype⟩
  · rw [hnull] at hv
    cases hv
  · rw [hcell] at hv
    obtain rfl := Option.some.inj hv
    exact exactDistance_of_typed bind.index.info.bboxType_eq htemporal htype

omit [LinearOrder δ] in
/-- A stored stbox cannot be ranked. -/
theorem InStep.refused (hstep : InStep near bind t l) (hstbox : bind.index.info.columnType = .stbox)
    (hrefuses : RefusesBoxes near bind t.snapshot) {id : RowId} {v : List UInt8}
    (hv : recheckValue bind t.snapshot id = some v) :
    ∃ e, exactDistance near bind.index.info.bboxType v bind.queryBox = .error e := by
  obtain ⟨e, he⟩ := hrefuses hstbox id v hv
  obtain ⟨row, hrow⟩ := snapshot_of_recheckValue hv
  rw [recheckValue_of_seen bind hrow] at hv
  have hbbox : bind.index.info.bboxType = .stbox := by
    have hself := bind.index.info.bboxType_eq
    rw [hstbox] at hself
    exact (Option.some.inj hself).symm
  rcases hstep.typed id row hrow with hnull | ⟨v', hcell, htype⟩
  · rw [hnull] at hv
    cases hv
  · rw [hcell] at hv
    obtain rfl := Option.some.inj hv
    rw [exactDistance, htype, hbbox, hstbox]
    exact ⟨_, congrArg callMeos he⟩

/-- So the scan raises at the first one it reads. -/
theorem not_topNRight_of_refused {order : OrderByNode} {limit offset : ℕ} (hnear : near.Lawful dist)
    (hstep : InStep near bind t l) (hsub : l.Subperm (meos.entries bind.index.tree))
    (hscan : bind.index.initializeNNScan near bind.queryBox = .ok (near.cursor bind.index.tree box))
    (hlimit : bind.limit ≠ 0)
    (hraises : ∀ id v, recheckValue bind t.snapshot id = some v →
      ∃ e, exactDistance near bind.index.info.bboxType v bind.queryBox = .error e)
    {id : RowId} {v : List UInt8} (hv : recheckValue bind t.snapshot id = some v) :
    ¬ TopNRight near bind order limit offset t key := by
  rintro ⟨ids, hids, -, -⟩
  obtain ⟨b, hb, -⟩ := hstep.indexed id v hv
  obtain ⟨e, he, -⟩ := Option.map_eq_some_iff.mp hb
  have hid : e.1 = id := by simpa using List.find?_some he
  have hentry : e ∈ meos.entries bind.index.tree :=
    hsub.subset (List.mem_reverse.mp (List.mem_of_find?_eq_some he))
  have hcandidate : (e.1, dist e.2 box) ∈ near.cursor bind.index.tree box :=
    (hnear.cursor_perm bind.index.tree box).mem_iff.mpr (List.mem_map_of_mem hentry)
  obtain ⟨error, herror⟩ := gatherLoop_error (Nat.pos_of_ne_zero hlimit) hraises
    ⟨_, hcandidate, Option.isSome_iff_exists.mpr ⟨v, by rw [hid]; exact hv⟩⟩
  rw [nearestIds, hscan] at hids
  have hgather : gatherNearest near bind t.snapshot (near.cursor bind.index.tree box) = .error error := by
    rw [gatherNearest, if_neg hlimit, herror]
    rfl
  exact absurd (hgather.symm.trans hids) (by simp)

/-- Where every value is NULL, none is read. -/
theorem recheckValue_of_null (hnull : ∀ r ∈ t.seqRows, indexedCell bind r = .null) (id : RowId) :
    recheckValue bind t.snapshot id = none := by
  by_contra hne
  obtain ⟨v, hv⟩ := Option.ne_none_iff_exists'.mp hne
  obtain ⟨row, hrow⟩ := snapshot_of_recheckValue hv
  rw [recheckValue_of_seen bind hrow, hnull _ (mem_seqRows hrow)] at hv
  cases hv

/-- A scan over stboxes, which it reads and cannot rank: it is right where every value is NULL, as far as the NULLs
show. -/
theorem topNRight_boxes_iff {order : OrderByNode} {limit offset : ℕ} (hnear : near.Lawful dist)
    (hstep : InStep near bind t l) (hmeasures : near.Measures dist intMax bind.index.info bind.queryBox box)
    (hsub : l.Subperm (meos.entries bind.index.tree)) (hop : bind.operation = nnOperation)
    (hscan : bind.index.initializeNNScan near bind.queryBox = .ok (near.cursor bind.index.tree box))
    (hlimit : 0 < limit) (hk : bind.limit = offset + limit) (hstbox : bind.index.info.columnType = .stbox)
    (hrefuses : RefusesBoxes near bind t.snapshot)
    (hnone : ∀ r ∈ t.seqRows, indexedCell bind r = .null → key r = none) :
    TopNRight near bind order limit offset t key ↔
      (∀ r ∈ t.seqRows, indexedCell bind r = .null) ∧
        Shows order.nullsFirst limit offset (nullRows bind t) (t.seqRows.map key) := by
  by_cases hnull : ∀ r ∈ t.seqRows, indexedCell bind r = .null
  · have hkey : ∀ r ∈ t.seqRows, genNad (near.nad bind.index.info.columnType)
        (maxDistance near intMax bind.index.info.columnType) (indexedCell bind r) (.blob bind.queryBox) =
          .ok (key r) := by
      intro r hr
      rw [hnull r hr, hnone r hr (hnull r hr)]
      rfl
    have hranked : ∀ id v, recheckValue bind t.snapshot id = some v →
        exactDistance near bind.index.info.bboxType v bind.queryBox =
          callMeos (near.nad bind.index.info.columnType v bind.queryBox) := by
      intro id v hv
      rw [recheckValue_of_null hnull] at hv
      cases hv
    rw [topNRight_iff hranked hstep hmeasures hkey hnear hsub hop hscan hlimit hk]
    exact ⟨fun h => ⟨hnull, h⟩, And.right⟩
  · refine ⟨fun hright => absurd hright ?_, fun h => absurd h.1 hnull⟩
    obtain ⟨r, hr, hne⟩ : ∃ r ∈ t.seqRows, indexedCell bind r ≠ .null := by
      by_contra hall
      exact hnull fun r hr => not_not.mp fun hne => hall ⟨r, hr, hne⟩
    rw [seqRows_of_localRows hstep.localRows] at hr
    have hrow := (mem_rowsAt.mp hr).2
    rcases hstep.typed r.1 r.2 hrow with hcellNull | ⟨v, hv, -⟩
    · exact absurd hcellNull hne
    · have hread : recheckValue bind t.snapshot r.1 = some v := by
        rw [recheckValue_of_seen bind hrow]
        simp only [hv]
      exact not_topNRight_of_refused hnear hstep hsub hscan (by omega)
        (fun _ _ h => hstep.refused hstbox hrefuses h) hread

end Step

/-- A rewritten TopN takes at least one row. -/
theorem limit_pos_of_rewritten {sets : SetMatcher} {indexType : IndexType} {orders : List OrderByNode}
    {limit offset : ℕ} {children : List LogicalOperator} {plan : LogicalOperator}
    (h : tryOptimizeLogicalTopN sets indexType orders limit offset children = (true, plan)) :
    0 < limit := by
  by_contra hzero
  have hcheck : orders.length ≠ 1 ∨ orders.any (·.descending) ∨ limit = 0 := .inr (.inr (by omega))
  unfold tryOptimizeLogicalTopN at h
  simp only at h
  rw [if_pos hcheck] at h
  cases h

/-- **What a TopN answers over the scan it was rewritten to.** The index is in step with what the
transaction reads. Then the TopN takes from the rows of the index scan the keys it takes from all rows
exactly when the rows of a NULL value do not show, and a column of stboxes has NULL values only. -/
theorem topN_nearest_iff {near : Nearest meos δ} {dist : Box n → Box n → δ} {intMax : δ}
    {nadStboxStbox : List UInt8 → List UInt8 → Except String δ}
    (hmeos : meos.Lawful) (hnear : near.Lawful dist) (alloc : Allocation n) (memory : ℕ → Segment n)
    {sets : SetMatcher} {indexType : IndexType} {order : OrderByNode} {limit offset : ℕ}
    {children : List LogicalOperator} {plan : LogicalOperator}
    (hplan : tryOptimizeLogicalTopN sets indexType [order] limit offset children = (true, plan))
    {ordered : OrderedGet} (hordered : resolveOrderedGet [order] limit offset children = some ordered)
    {scan : PlannedScan}
    (hfind : ordered.get.findNearest sets indexType ordered.orderExpr (offset + limit) = some scan)
    (hreads : ReadsIndexed ordered.get scan.index ordered.orderExpr)
    (ops : List Operation) (hops : ∀ op ∈ ops, op.RealRowIds) {index : Index meos}
    (hrun : run (Index.step alloc) (Index.new meos scan.index memory) ops = .ok index) {box : Box n}
    (hscan : index.initializeNNScan near scan.queryBox = .ok (near.cursor index.tree box))
    (hmeasures : near.Measures dist intMax scan.index scan.queryBox box) {t : Transaction}
    (hrefuses : RefusesBoxes near (scan.bindData ordered.get.table.columns index) t.snapshot)
    (hstep : InStep near (scan.bindData ordered.get.table.columns index) t
      (ops.foldl (Log.step meos scan.index) []))
    {I : Interpretation} {key : ReadRow → Option δ}
    (hsort : SortsBy near intMax nadStboxStbox I ordered.get ordered.orderExpr t.seqRows key) :
    plan = ordered.around (ordered.get.readNearest indexType scan) ∧
      (TopNRight near (scan.bindData ordered.get.table.columns index) order limit offset t key ↔
        (scan.index.columnType = .stbox →
          ∀ r ∈ t.seqRows, indexedCell (scan.bindData ordered.get.table.columns index) r = .null) ∧
        Shows order.nullsFirst limit offset
          (nullRows (scan.bindData ordered.get.table.columns index) t) (t.seqRows.map key)) := by
  obtain ⟨hinfo, hsub⟩ := Index.run_subperm alloc hmeos hops hrun
  obtain ⟨-, -, hmatch⟩ := findNearest_eq_some hfind
  constructor
  · obtain ⟨ordered', scan', hordered', hfind', rfl⟩ := tryOptimizeLogicalTopN_eq_true hplan
    obtain rfl := Option.some.inj (hordered.symm.trans hordered')
    obtain rfl := Option.some.inj (hfind.symm.trans hfind')
    rfl
  set bind := scan.bindData ordered.get.table.columns index with hbind
  have hbindInfo : bind.index.info = scan.index := hinfo
  have hpos := limit_pos_of_rewritten hplan
  have hoperation : bind.operation = nnOperation ∧ bind.limit = offset + limit := by
    obtain ⟨_, _, _, _, _, _, _, -, -, -, -, -, heq⟩ := matchNearest_eq_some hmatch
    rw [hbind, heq]
    exact ⟨rfl, rfl⟩
  have hcell : ∀ r, ordered.get.columnValue scan.index.columnId r = indexedCell bind r := by
    intro r
    rw [← hbindInfo]
    rfl
  rw [← hbindInfo] at hmeasures
  by_cases htemporal : indexesTemporal scan.index.columnType = true
  · have hkey := genNad_of_sortsBy hmatch htemporal hreads hsort
    have hnot : scan.index.columnType ≠ .stbox := by
      intro heq
      rw [heq] at htemporal
      cases htemporal
    simp only [hcell] at hkey
    rw [← hbindInfo] at hkey htemporal
    rw [topNRight_iff (fun _ _ hv => hstep.ranked htemporal hv) hstep hmeasures hkey hnear hsub hoperation.1
      hscan hpos hoperation.2]
    exact ⟨fun h => ⟨fun heq => absurd heq hnot, h⟩, And.right⟩
  · obtain ⟨hstbox, hnone⟩ := stbox_of_sortsBy hmatch (by simpa using htemporal) hreads hsort
    simp only [hcell] at hnone
    rw [topNRight_boxes_iff hnear hstep hmeasures hsub hoperation.1 hscan hpos hoperation.2 (by rw [hbindInfo, hstbox])
      hrefuses hnone]
    exact ⟨fun h => ⟨fun _ => h.1, h.2⟩, fun h => ⟨h.1 hstbox, h.2⟩⟩

/-! ### A point and a NULL -/

/-- A table of one column of points, indexed. -/
def pointTable : TableEntry where
  columns := [⟨.tgeompoint, false⟩]
  indexes := [pointInfo]
  isDuckTable := true
  cardinality := none
  created info hinfo := by
    obtain rfl := List.mem_singleton.mp hinfo
    exact ⟨0, ⟨.tgeompoint, false⟩, rfl, rfl, rfl⟩

/-- A scan of it. -/
def pointGet : LogicalGet where
  functionName := "seq_scan"
  table := pointTable
  tableIndex := 0
  columnIds := [.column 0]
  projectionIds := []
  tableFilters := []
  bindData := none
  estimatedCardinality := 0
  hasEstimatedCardinality := false

/-- The distance of the column to a box of zeros. -/
def pointDistance : Expression :=
  .function nnOperation ⟨.double, ""⟩ [.columnRef .tgeompoint ⟨0, 0⟩, .constant (zeroBox .stbox)]

def pointOrder (nullsFirst : Bool) : OrderByNode := ⟨false, nullsFirst, pointDistance⟩

def pointScan (limit : ℕ) : PlannedScan := ⟨pointInfo, limit, List.replicate 80 0, nnOperation, false⟩

/-- The index has a pair for row 7. -/
def pointIndex : Index pointMeos := (pointBind [.append [Index.spanRow 3 7, (8, none)]] 0).index

/-- A transaction that sees row 7 with a point and row 8 with a NULL. -/
def pointTransaction : Transaction where
  rowIds := [7, 8]
  snapshot id := if id = 7 then some [.blob (List.replicate 24 3)] else if id = 8 then some [.null] else none
  localRows := []
  nodup := by decide
  stored id h := by
    by_cases h7 : id = 7
    · simp [h7]
    · by_cases h8 : id = 8
      · simp [h8]
      · rw [if_neg h7, if_neg h8] at h
        exact absurd rfl h

/-- The distance of row 7 is 3, and row 8 has none. -/
def pointKey (r : ReadRow) : Option ℕ := if r.1 = 7 then some 3 else none

theorem seqRows_pointTransaction :
    pointTransaction.seqRows = [(7, [.blob (List.replicate 24 3)]), (8, [.null])] := by
  decide

/-- The TopN is rewritten. -/
theorem pointGet_rewritten (nullsFirst : Bool) {limit : ℕ} (hlimit : 0 < limit) (offset : ℕ) :
    tryOptimizeLogicalTopN .backtracking .trtree [pointOrder nullsFirst] limit offset [.get pointGet] =
      (true, .topN [pointOrder nullsFirst] limit offset
        [.get (pointGet.readNearest .trtree (pointScan (offset + limit)))]) := by
  have hcheck : ¬ ([pointOrder nullsFirst].length ≠ 1 ∨ [pointOrder nullsFirst].any (·.descending) ∨
      limit = 0) := by
    simp [pointOrder]
    omega
  unfold tryOptimizeLogicalTopN
  simp only
  rw [if_neg hcheck]
  rfl

/-- What the transaction sees. -/
theorem snapshot_pointTransaction {id : RowId} {row : StoredRow}
    (h : pointTransaction.snapshot id = some row) :
    (id = 7 ∧ row = [.blob (List.replicate 24 3)]) ∨ (id = 8 ∧ row = [.null]) := by
  have hmem : (id, row) ∈ pointTransaction.seqRows := mem_seqRows h
  rw [seqRows_pointTransaction] at hmem
  simpa using hmem

theorem pointTransaction_inStep (limit : ℕ) :
    InStep pointNear ((pointScan limit).bindData pointTable.columns pointIndex) pointTransaction
      [(7, Index.span 3)] where
  localRows := rfl
  typed id row h := by
    rcases snapshot_pointTransaction h with ⟨rfl, rfl⟩ | ⟨rfl, rfl⟩
    · exact .inr ⟨_, rfl, rfl⟩
    · exact .inl rfl
  indexed id v h := by
    obtain ⟨row, hrow⟩ := snapshot_of_recheckValue h
    rw [recheckValue_of_seen _ hrow] at h
    rcases snapshot_pointTransaction hrow with ⟨rfl, rfl⟩ | ⟨rfl, rfl⟩
    · obtain rfl := Option.some.inj h
      exact ⟨Index.span 3, rfl, rfl⟩
    · cases h
  unseen := by
    have hnone : ((pointScan limit).bindData pointTable.columns pointIndex).index.stale
        [(7, Index.span 3)] = [] := rfl
    rw [hnone]
    exact List.forall_mem_nil _

theorem pointKey_sortsBy (I : Interpretation) :
    SortsBy pointNear 255 (fun _ _ => .ok 0) I pointGet pointDistance pointTransaction.seqRows pointKey := by
  refine ⟨⟨.double, ""⟩, _, _, genNadTgeoStbox pointNear, rfl, rfl, ?_⟩
  rw [seqRows_pointTransaction]
  intro r hr
  simp only [List.mem_cons, List.not_mem_nil, or_false] at hr
  rcases hr with rfl | rfl
  · simp only [Expression.eval]
    decide
  · simp only [Expression.eval]
    decide

theorem pointNear_measures :
    pointNear.Measures (fun b q => byteDistance b.1 q.1) 255 pointInfo (List.replicate 80 0)
      (Index.span 0) := by
  intro v b d htype hbox hd
  obtain rfl : Box.copy 24 v = b := Option.some.inj (Except.ok.inj hbox)
  obtain rfl : byteDistance v (List.replicate 80 0) = d := Except.ok.inj hd
  have hhead : (Box.copy 24 v).1.headD 0 = v.headD 0 := by
    cases v <;> rfl
  have hlt := (v.headD 0).toNat_lt
  constructor
  · show byteDistance (Box.copy 24 v).1 (Index.span 0).1 ≤ _
    unfold byteDistance
    rw [hhead]
    exact le_rfl
  · show byteDistance v (List.replicate 80 0) ≤ 256
    have hquery : ((List.replicate 80 (0 : UInt8)).headD 0).toNat = 0 := rfl
    unfold byteDistance
    omega

theorem topN_nearest_iff_point :
    LogicalOperator.topN [pointOrder false] 1 0 [.get (pointGet.readNearest .trtree (pointScan 1))] =
      .topN [pointOrder false] 1 0 [.get (pointGet.readNearest .trtree (pointScan 1))] ∧
    (TopNRight pointNear ((pointScan 1).bindData pointTable.columns pointIndex) (pointOrder false) 1 0
        pointTransaction pointKey ↔
      (pointInfo.columnType = .stbox → ∀ r ∈ pointTransaction.seqRows,
        indexedCell ((pointScan 1).bindData pointTable.columns pointIndex) r = .null) ∧
      Shows false 1 0 (nullRows ((pointScan 1).bindData pointTable.columns pointIndex) pointTransaction)
        (pointTransaction.seqRows.map pointKey)) := by
  have hreads : ReadsIndexed pointGet pointInfo pointDistance := by
    intro name type operands he t position hmem _
    obtain ⟨-, -, rfl⟩ := Expression.function.inj he
    have ht : t = .tgeompoint ∧ position = 0 := by simpa [pointGet] using hmem
    exact ht.1
  have hreal : ∀ op ∈ [Operation.append [Index.spanRow 3 7, (8, none)]], op.RealRowIds := by
    simp only [List.forall_mem_cons, Operation.RealRowIds]
    exact ⟨⟨by decide, by decide, by simp⟩, by simp⟩
  exact topN_nearest_iff pointMeos_lawful pointNear_lawful .bump (fun _ => ⟨.null, 0, fun _ => 0⟩)
    (pointGet_rewritten false Nat.one_pos 0) rfl rfl hreads [.append [Index.spanRow 3 7, (8, none)]]
    hreal rfl rfl pointNear_measures (fun hstbox => absurd hstbox (by decide)) (pointTransaction_inStep 1)
    (pointKey_sortsBy ⟨fun _ _ _ _ => .null, fun _ _ _ _ => .null⟩)

/-- Two rows are asked for, NULLs last: the sequential scan shows the NULL of row 8 after row 7. -/
theorem topN_misses_null :
    ¬ ∀ (nullsFirst : Bool) (limit offset : ℕ) (plan : LogicalOperator),
      tryOptimizeLogicalTopN .backtracking .trtree [pointOrder nullsFirst] limit offset [.get pointGet] =
        (true, plan) →
      TopNRight pointNear ((pointScan (offset + limit)).bindData pointTable.columns pointIndex)
        (pointOrder nullsFirst) limit offset pointTransaction pointKey := by
  intro h
  obtain ⟨ids, hids, -, hkeys⟩ := h false 2 0 _ (pointGet_rewritten false Nat.two_pos 0)
  have hnearest : nearestIds pointNear ((pointScan (0 + 2)).bindData pointTable.columns pointIndex)
      pointTransaction.snapshot = .ok [7] := by
    decide
  obtain rfl := Except.ok.inj (hnearest.symm.trans hids)
  have hlength := congrArg List.length hkeys
  rw [seqRows_pointTransaction] at hlength
  exact absurd hlength (by decide)

end MobilityDuck
