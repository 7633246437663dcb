/-
# Boxes prepared for the tree

The tree holds boxes with their SRID cleared, and is searched with such boxes.
The preparation is written out wherever a box meets the tree: twice in
`Construct`, for derived boxes and for a column of boxes, in `InitializeScan`,
in `InitializeNNScan`, and twice in the join, for derived boxes and for a
column of boxes. All of these should hand over the same box
(`Index.PreparesAlike`): with the SRID cleared where there is a spatial
dimension, and unchanged where there is none.

They do, except that `Construct` asks a box of a column for its SRID without
asking whether it has a spatial dimension, and MEOS raises where it has none
(`preparesAlike_iff`).

Key definitions: `Meos.Spatial`, `IndexInfo.normalised`,
`Index.PreparesAlike`. Key theorem: `preparesAlike_iff`.
-/
import MobilityDuck.IndexJoin

namespace MobilityDuck

open Lib

variable {n : ℕ} {meos : Meos n}

/-! ### The normalised box -/

/-- What MEOS documents of the SRID: a box without a spatial dimension has none to read, one with a
spatial dimension has one that can be cleared, and a temporal spatial value has such a box. -/
structure Meos.Spatial (meos : Meos n) : Prop where
  stboxSrid_error : ∀ b, meos.hasX b = false → ∃ message, meos.stboxSrid b = .error message
  stboxSrid_ok : ∀ b, meos.hasX b = true → ∃ srid, meos.stboxSrid b = .ok srid
  stboxSetSrid_ok : ∀ b, meos.hasX b = true → ∃ b', meos.stboxSetSrid b 0 = .ok (some b') ∧
    meos.hasX b' = true ∧ meos.stboxSrid b' = .ok 0
  hasX_derived : ∀ data b, meos.tspatialToStbox data = .ok (some b) → meos.hasX b = true

/-- The box with its SRID cleared. -/
def Meos.cleared (meos : Meos n) (b : Box n) : Box n :=
  match meos.stboxSrid b with
  | .ok 0 => b
  | _ =>
    match meos.stboxSetSrid b 0 with
    | .ok (some b') => b'
    | _ => b

/-- A box has its SRID cleared already, or MEOS clears it. -/
theorem cleared_cases (hmeos : meos.Spatial) {b : Box n} (hx : meos.hasX b = true) :
    ∃ srid, meos.stboxSrid b = .ok srid ∧ ((srid = 0 ∧ meos.cleared b = b) ∨
      (srid ≠ 0 ∧ meos.stboxSetSrid b 0 = .ok (some (meos.cleared b)))) := by
  obtain ⟨srid, hsrid⟩ := hmeos.stboxSrid_ok b hx
  refine ⟨srid, hsrid, ?_⟩
  unfold Meos.cleared
  by_cases hzero : srid = 0
  · rw [hsrid, hzero]
    exact .inl ⟨rfl, rfl⟩
  · obtain ⟨b', hset, -⟩ := hmeos.stboxSetSrid_ok b hx
    rw [hsrid, hset]
    split
    · rename_i heq
      exact absurd (Except.ok.inj heq) hzero
    · exact .inr ⟨hzero, rfl⟩

/-- The code of the places that have a spatial box. -/
theorem normalizeStbox_of_hasX (hmeos : meos.Spatial) {b : Box n} (hx : meos.hasX b = true) :
    normalizeStbox meos b = .ok (meos.cleared b) := by
  unfold normalizeStbox
  obtain ⟨srid, hsrid, ⟨rfl, hsame⟩ | ⟨hne, hset⟩⟩ := cleared_cases hmeos hx
  · rw [hsrid, hsame]
    rfl
  · rw [hsrid]
    show (if srid = 0 then pure b else _) = _
    rw [if_neg hne, hset]
    rfl

/-- A box without a spatial dimension is refused. -/
theorem normalizeStbox_of_not_hasX (hmeos : meos.Spatial) {b : Box n} (hx : meos.hasX b = false) :
    ∃ message, normalizeStbox meos b = .error (.meos message) := by
  obtain ⟨message, hsrid⟩ := hmeos.stboxSrid_error b hx
  refine ⟨message, ?_⟩
  unfold normalizeStbox
  rw [hsrid]
  rfl

/-- The box the tree should see for a box of the index's kind. -/
def IndexInfo.normalised (meos : Meos n) (info : IndexInfo) (v : Box n) : Box n :=
  if info.bboxType = .stbox ∧ meos.hasX v then meos.cleared v else v

/-! ### The places -/

/-- A value of the indexed column has the box `v`. -/
def IndexInfo.HasBox (meos : Meos n) (info : IndexInfo) (data : List UInt8) (v : Box n) : Prop :=
  if indexesTemporal info.columnType then
    if info.bboxType = .stbox then meos.tspatialToStbox data = .ok (some v)
    else meos.temporalSetBbox data = .ok v
  else data = v.val

variable {δ : Type}

/-- Every place that prepares the box `v` hands the normalised box on, and none raises. The joins are
over boxes with a spatial dimension only. -/
structure Index.PreparesAlike (near : Nearest meos δ) (s : Index meos) (v : Box n) : Prop where
  construct : ∀ alloc id data, s.info.HasBox meos data v →
    s.construct alloc [(id, some data)] = (s.putEntry alloc (id, s.info.normalised meos v), none)
  scan : ∀ operation left op, indexSearchOpFromName operation s.info.bboxType left = some op →
    s.initializeScan v.val operation left = .ok (s.search (s.info.normalised meos v) op)
  nnScan : s.initializeNNScan near v.val = .ok (near.cursor s.tree (s.info.normalised meos v))
  probeBox : ∀ join : PhysicalIndexJoin meos, join.index = s → s.info.bboxType = .stbox →
    join.probeIsTemporal = false →
    join.probeMatches (.blob v.val) = .ok (s.search (s.info.normalised meos v) .overlaps)
  probeTemporal : ∀ join : PhysicalIndexJoin meos, join.index = s → s.info.bboxType = .stbox →
    join.probeIsTemporal = true → ∀ data, meos.tspatialToStbox data = .ok (some v) →
    join.probeMatches (.blob data) = .ok (s.search (s.info.normalised meos v) .overlaps)

section Places

variable (hmeos : meos.Spatial) {s : Index meos} {v : Box n}
include hmeos

/-- `Construct` asks for the SRID of any box of a column. -/
theorem deriveBox_normalised {data : List UInt8} (hbox : s.info.HasBox meos data v)
    (hx : s.info.bboxType = .stbox → indexesTemporal s.info.columnType = false → meos.hasX v = true) :
    deriveBox meos s.info data = .ok (some (s.info.normalised meos v)) := by
  have hid : ¬ s.info.columnType.id ≠ .blob := not_not.mpr (id_of_bboxTypeOf s.info.bboxType_eq)
  unfold deriveBox
  rw [if_neg hid]
  unfold IndexInfo.HasBox at hbox
  unfold IndexInfo.normalised
  by_cases htemporal : indexesTemporal s.info.columnType = true
  · rw [if_pos htemporal] at hbox ⊢
    by_cases hstbox : s.info.bboxType = .stbox
    · rw [if_pos hstbox] at hbox ⊢
      have hxv := hmeos.hasX_derived data v hbox
      rw [if_pos ⟨hstbox, hxv⟩, hbox]
      show some <$> normalizeStbox meos v = _
      rw [normalizeStbox_of_hasX hmeos hxv]
      rfl
    · rw [if_neg hstbox] at hbox ⊢
      rw [if_neg fun h => hstbox h.1, hbox]
      rfl
  · rw [if_neg htemporal] at hbox ⊢
    rw [hbox, if_neg (not_not.mpr v.property), Box.copy_val]
    by_cases hstbox : s.info.bboxType = .stbox
    · have hxv := hx hstbox (Bool.not_eq_true _ ▸ htemporal)
      rw [if_pos hstbox, if_pos ⟨hstbox, hxv⟩, normalizeStbox_of_hasX hmeos hxv]
      rfl
    · rw [if_neg hstbox, if_neg fun h => hstbox h.1]
      rfl

theorem construct_normalised (alloc : Allocation n) (id : RowId) {data : List UInt8} (hbox : s.info.HasBox meos data v)
    (hx : s.info.bboxType = .stbox → indexesTemporal s.info.columnType = false → meos.hasX v = true) :
    s.construct alloc [(id, some data)] = (s.putEntry alloc (id, s.info.normalised meos v), none) := by
  rw [Index.construct, deriveBox_normalised hmeos hbox hx]
  rfl

theorem prepareQuery_normalised (operation : String) :
    prepareQuery meos s.info.bboxType operation v.val = .ok (s.info.normalised meos v) := by
  unfold prepareQuery IndexInfo.normalised
  rw [if_neg fun h => h.2 v.property, Box.copy_val]
  by_cases hx : s.info.bboxType = .stbox ∧ meos.hasX v = true
  · rw [if_pos hx, if_pos hx, normalizeStbox_of_hasX hmeos hx.2]
  · rw [if_neg hx, if_neg hx]

theorem initializeScan_normalised {operation : String} {left : Bool} {op : IndexSearchOp}
    (hop : indexSearchOpFromName operation s.info.bboxType left = some op) :
    s.initializeScan v.val operation left = .ok (s.search (s.info.normalised meos v) op) := by
  unfold Index.initializeScan
  rw [hop]
  simp only
  rw [prepareQuery_normalised hmeos]
  rfl

theorem initializeNNScan_normalised (near : Nearest meos δ) :
    s.initializeNNScan near v.val = .ok (near.cursor s.tree (s.info.normalised meos v)) := by
  unfold Index.initializeNNScan IndexInfo.normalised
  rw [Box.copy_val]
  by_cases hx : s.info.bboxType = .stbox ∧ meos.hasX v = true
  · rw [if_pos hx, if_pos hx, normalizeStbox_of_hasX hmeos hx.2]
    rfl
  · rw [if_neg hx, if_neg hx]

theorem probeMatches_box {join : PhysicalIndexJoin meos} (hstbox : join.index.info.bboxType = .stbox)
    (htemporal : join.probeIsTemporal = false) :
    join.probeMatches (.blob v.val) = .ok (join.index.search (join.index.info.normalised meos v) .overlaps) := by
  rw [PhysicalIndexJoin.probeMatches, IndexInfo.normalised]
  rw [if_neg (by simp [htemporal]), Box.copy_val]
  by_cases hx : meos.hasX v = true
  · rw [if_pos hx, if_pos ⟨hstbox, hx⟩]
    obtain ⟨srid, hsrid, ⟨rfl, hsame⟩ | ⟨hne, hset⟩⟩ := cleared_cases hmeos hx
    · rw [hsrid, hsame]
      rfl
    · rw [hsrid]
      show (if srid = 0 then _ else _) = _
      rw [if_neg hne, hset]
      rfl
  · rw [if_neg hx, if_neg fun h => hx h.2]
    rfl

theorem probeMatches_temporal {join : PhysicalIndexJoin meos} (hstbox : join.index.info.bboxType = .stbox)
    (htemporal : join.probeIsTemporal = true) {data : List UInt8}
    (hdata : meos.tspatialToStbox data = .ok (some v)) :
    join.probeMatches (.blob data) = .ok (join.index.search (join.index.info.normalised meos v) .overlaps) := by
  have hx := hmeos.hasX_derived data v hdata
  rw [PhysicalIndexJoin.probeMatches, IndexInfo.normalised]
  rw [if_pos htemporal, if_pos ⟨hstbox, hx⟩, hdata]
  show (normalizeStbox meos v).map _ = _
  rw [normalizeStbox_of_hasX hmeos hx]
  rfl

end Places

/-- **The places agree on a box, and none raises, exactly when** it has a spatial dimension or is no
box of a spatial column: `Construct` alone asks for the SRID without asking for that dimension. -/
theorem preparesAlike_iff (hmeos : meos.Spatial) (near : Nearest meos δ) (s : Index meos) (v : Box n) :
    s.PreparesAlike near v ↔
      (s.info.bboxType = .stbox → indexesTemporal s.info.columnType = false → meos.hasX v = true) := by
  constructor
  · intro h hstbox htemporal
    by_contra hx
    have hid : ¬ s.info.columnType.id ≠ .blob := not_not.mpr (id_of_bboxTypeOf s.info.bboxType_eq)
    obtain ⟨message, hraise⟩ := normalizeStbox_of_not_hasX hmeos (Bool.not_eq_true _ ▸ hx)
    have hbox : s.info.HasBox meos v.val v := by
      unfold IndexInfo.HasBox
      rw [if_neg (by simp [htemporal])]
    have hderive : deriveBox meos s.info v.val = .error (.meos message) := by
      unfold deriveBox
      rw [if_neg hid, if_neg (by simp [htemporal]), if_neg (not_not.mpr v.property), if_pos hstbox,
        Box.copy_val, hraise]
      rfl
    have hconstruct := h.construct .bump 0 v.val hbox
    rw [Index.construct, hderive] at hconstruct
    cases (Prod.mk.inj hconstruct).2
  · intro hx
    refine ⟨?_, ?_, ?_, ?_, ?_⟩
    · exact fun alloc id data hbox => construct_normalised hmeos alloc id hbox hx
    · exact fun operation left op hop => initializeScan_normalised hmeos hop
    · exact initializeNNScan_normalised hmeos near
    · rintro join rfl hstbox htemporal
      exact probeMatches_box hmeos hstbox htemporal
    · rintro join rfl hstbox htemporal data hdata
      exact probeMatches_temporal hmeos hstbox htemporal hdata

/-! ### A column of boxes -/

/-- The SRID of an `STBox`, as far as it fits two bytes. -/
def sridOf (b : Box 80) : ℕ := (b.val.getD 72 0).toNat + 256 * (b.val.getD 73 0).toNat

/-- MEOS over boxes laid out as an `STBox`: the SRID at 72, the flags at 76. A value of a temporal
spatial type is its own box. -/
def sridMeos : Meos 80 :=
  { Meos.listed 80 with
    tspatialToStbox := fun data =>
      if (data.getD 76 0) &&& 0x10 ≠ 0 then .ok (some (Box.copy 80 data)) else .error "not spatial"
    stboxSrid := fun b =>
      if (b.val.getD 76 0) &&& 0x10 ≠ 0 then .ok (sridOf b)
      else .error "The spatiotemporal box must have space dimension"
    stboxSetSrid := fun b srid => .ok (some ⟨(b.val.set 72 (UInt8.ofNat srid.toNat)).set 73
      (UInt8.ofNat (srid.toNat / 256)), by simp [b.property]⟩)
    hasX := fun b => decide ((b.val.getD 76 0) &&& 0x10 ≠ 0) }

theorem sridMeos_spatial : sridMeos.Spatial where
  stboxSrid_error b h := by
    have hx : ¬ (b.val.getD 76 0) &&& 0x10 ≠ 0 := of_decide_eq_false h
    exact ⟨_, if_neg hx⟩
  stboxSrid_ok b h := by
    have hx : (b.val.getD 76 0) &&& 0x10 ≠ 0 := of_decide_eq_true h
    exact ⟨_, if_pos hx⟩
  stboxSetSrid_ok b h := by
    have hx : (b.val.getD 76 0) &&& 0x10 ≠ 0 := of_decide_eq_true h
    have hflags : ((b.val.set 72 0).set 73 0).getD 76 0 = b.val.getD 76 0 := by
      simp [List.getD_eq_getElem?_getD]
    refine ⟨_, rfl, ?_, ?_⟩
    · show decide (((b.val.set 72 0).set 73 0).getD 76 0 &&& 0x10 ≠ 0) = true
      rw [hflags]
      exact h
    · show (if ((b.val.set 72 0).set 73 0).getD 76 0 &&& 0x10 ≠ 0 then _ else _) = _
      rw [hflags, if_pos hx]
      have hlen := b.property
      simp [sridOf, List.getD_eq_getElem?_getD, hlen]
  hasX_derived data b h := by
    have hdata : (if (data.getD 76 0) &&& 0x10 ≠ 0 then Except.ok (some (Box.copy 80 data))
        else .error "not spatial") = Except.ok (some b) := h
    by_cases hx : (data.getD 76 0) &&& 0x10 ≠ 0
    · rw [if_pos hx] at hdata
      obtain rfl := Option.some.inj (Except.ok.inj hdata)
      show decide ((Box.copy 80 data).val.getD 76 0 &&& 0x10 ≠ 0) = true
      simpa [Box.copy] using hx
    · rw [if_neg hx] at hdata
      cases hdata

/-- A box with these flags and this SRID. -/
def flaggedBox (srid : ℕ) (flags : UInt8) : Box 80 :=
  ⟨List.replicate 72 0 ++ [UInt8.ofNat srid, UInt8.ofNat (srid / 256), 0, 0, flags, 0, 0, 0], rfl⟩

/-- An index over a column of boxes. -/
def boxColumn : Index sridMeos := Index.new sridMeos ⟨"i", .trtree, [0], .stbox, .stbox, bboxTypeOf_stbox⟩
  fun _ => ⟨.null, 0, fun _ => 0⟩

/-- Distances that play no part. -/
def noDistance : Nearest sridMeos ℕ where
  cursor _ _ := []
  temporalType _ := none
  nadTintTbox _ _ := .ok 0
  nadTbigintTbox _ _ := .ok 0
  nadTfloatTbox _ _ := .ok 0
  nadTgeoStbox _ _ := .ok 0
  max := 0

/-- A box of space and time with an SRID is prepared alike. -/
theorem preparesAlike_spatial : boxColumn.PreparesAlike noDistance (flaggedBox 4326 0x50) :=
  (preparesAlike_iff sridMeos_spatial noDistance boxColumn (flaggedBox 4326 0x50)).mpr fun _ _ => by decide

/-- A box of time alone is searched for, and cannot be inserted. -/
theorem timeBox_not_preparesAlike : ¬ ∀ v : Box 80, boxColumn.PreparesAlike noDistance v := by
  intro h
  have hconstruct := (h (flaggedBox 0 0x40)).construct .bump 7 (flaggedBox 0 0x40).val rfl
  have hraise : (boxColumn.construct .bump [(7, some (flaggedBox 0 0x40).val)]).2 =
      some (.meos "The spatiotemporal box must have space dimension") := by decide
  rw [hconstruct] at hraise
  cases hraise

end MobilityDuck
