/-
# The footer across the two writers

The extension writes the `temporal` object of a Parquet footer as a text
(`temporalFooter`), and the tool reads it, writes it and checks it. The two state
the same of a file. The tool reads every footer that the extension writes, as the
metadata of the columns that the map names (`temporalFooter_readBack`). A file with
that footer passes the check of the tool exactly when it holds a field for every
bound of the coverings of its columns (`verify_iff`). And where a file holds the
struct columns of its types, the coverings that the tool infers from its schema are
those that the extension has from its table of types, so that the tool writes the
same footer (`write_extensionMeta`).

Key definitions: `ColumnDict.ofJson`, `FooterDict.ofJson`, `typeMeta`,
`extensionMeta`, `HoldsCoverings`, `Schema.Covers`. Key theorems:
`temporalFooter_readBack`, `verify_iff`, `write_extensionMeta`.
-/
import MobilityDuck.TemporalParquet
import MobilityDuck.TemporalParquetTool
import MobilityDuck.Lib.Dictionary

namespace MobilityDuck
namespace ParquetTool

open Lib

/-! ### What `json.loads` hands to the tool -/

/-- A member of a dictionary, read if it is there. -/
def readMember {α : Type} (read : Json → Option α) (d : List (String × Json)) (name : String) : Option (Option α) :=
  match d.lookup name with
  | none => some none
  | some v => (read v).map some

def readStr : Json → Option String
  | .str s => some s
  | _ => none

def readBool : Json → Option Bool
  | .bool b => some b
  | _ => none

def readInt : Json → Option ℤ
  | .uint n => some n
  | .sint n => some n
  | _ => none

/-- A `crs` is null or an object. -/
def readCrs : Json → Option (Option Json)
  | .null => some none
  | v => some (some v)

/-- A list of texts. -/
def readPath : Json → Option (List String)
  | .arr vs => vs.mapM readStr
  | _ => none

/-- A dictionary, its values read. -/
def readDict {α : Type} (read : Json → Option α) : Json → Option (List (String × α))
  | .obj ms => (dict ms).mapM fun m => (read m.2).map (m.1, ·)
  | _ => none

/-- A column's object as the record of its members; `none` for what is no object of that shape. -/
def ColumnDict.ofJson : Json → Option ColumnDict
  | .obj ms => do
    let d := dict ms
    return {
      encoding := ← readMember readStr d "encoding"
      encodingVersion := ← readMember readStr d "encoding_version"
      baseType := ← readMember readStr d "base_type"
      subtype := ← readMember readStr d "subtype"
      interpolation := ← readMember readStr d "interpolation"
      srid := ← readMember readInt d "srid"
      crs := ← readMember readCrs d "crs"
      edges := ← readMember readStr d "edges"
      geodetic := ← readMember readBool d "geodetic"
      hasZ := ← readMember readBool d "has_z"
      covering := ← readMember (readDict (readDict readPath)) d "covering" }
  | _ => none

/-- The `temporal` object of a footer. -/
def FooterDict.ofJson : Json → Option FooterDict
  | .obj ms => do
    let d := dict ms
    return {
      version := ← readMember readStr d "version"
      columns := (← readMember (readDict ColumnDict.ofJson) d "columns").getD []
      primaryTemporalColumn := ← readMember readStr d "primary_temporal_column" }
  | _ => none

/-! ### What the extension states of a column -/

/-- The path of every bound of the coverings of a type. -/
def coveringPaths (column baseType : String) : Covering :=
  (coveringsOf baseType).map fun covering =>
    (covering.key, covering.bounds.map fun b => (b, [column ++ covering.columnSuffix, b]))

/-- The metadata of a column of the type. -/
def typeMeta (column baseType : String) : TemporalColumnMeta where
  baseType := baseType
  edges := (coveringTypeOf baseType).bind (·.edges)
  covering := if coveringsOf baseType = [] then none else some (coveringPaths column baseType)

theorem mapM_some {α β : Type} {f : α → Option β} {g : α → β} : ∀ {l : List α}, (∀ a ∈ l, f a = some (g a)) →
    l.mapM f = some (l.map g)
  | [], _ => rfl
  | a :: l, h => by
    rw [List.mapM_cons, h a List.mem_cons_self, mapM_some fun b hb => h b (List.mem_cons_of_mem _ hb)]
    rfl

/-- Members with different names are read one by one. -/
theorem readDict_obj {α β : Type} {read : Json → Option β} {l : List α} {name : α → String} {value : α → Json}
    {g : α → β} (hnodup : (l.map name).Nodup) (h : ∀ a ∈ l, read (value a) = some (g a)) :
    readDict read (.obj (l.map fun a => (name a, value a))) = some (l.map fun a => (name a, g a)) := by
  have hdict : dict (l.map fun a => (name a, value a)) = l.map fun a => (name a, value a) := by
    apply dict_of_nodup
    rwa [List.map_map]
  rw [readDict, hdict, List.mapM_map]
  refine mapM_some fun a ha => ?_
  show (read (value a)).map (name a, ·) = _
  rw [h a ha]
  rfl

theorem readDict_covering {covering : TemporalCovering} (hnodup : covering.bounds.Nodup) (column : String) :
    readDict readPath (coveringJson column covering) =
      some (covering.bounds.map fun b => (b, [column ++ covering.columnSuffix, b])) := by
  refine readDict_obj (by simpa using hnodup) fun b _ => ?_
  rfl

/-- The coverings of every type have different keys, and so have their bounds. -/
theorem nodup_coveringsOf (baseType : String) : ((coveringsOf baseType).map (·.key)).Nodup ∧
    ∀ covering ∈ coveringsOf baseType, covering.bounds.Nodup := by
  have hall : ∀ type ∈ temporalCoveringTypes, (type.coverings.map (·.key)).Nodup ∧
      ∀ covering ∈ type.coverings, covering.bounds.Nodup := by decide
  unfold coveringsOf
  cases htype : coveringTypeOf baseType with
  | none => exact ⟨List.nodup_nil, fun _ h => absurd h List.not_mem_nil⟩
  | some type => exact hall type (List.mem_of_find?_eq_some htype)

theorem readDict_coverings (column baseType : String) :
    readDict (readDict readPath)
      (.obj ((coveringsOf baseType).map fun covering => (covering.key, coveringJson column covering))) =
        some (coveringPaths column baseType) := by
  obtain ⟨hkeys, hbounds⟩ := nodup_coveringsOf baseType
  exact readDict_obj hkeys fun covering hcovering => readDict_covering (hbounds covering hcovering) column

/-- The tool and the extension fix the edges of the same types. -/
theorem baseTypeEdges_eq (baseType : String) :
    baseTypeEdges baseType = (coveringTypeOf baseType).bind (·.edges) := by
  by_cases hmem : baseType ∈ ["tgeompoint", "tgeometry", "tgeogpoint", "tgeography"]
  · simp only [List.mem_cons, List.not_mem_nil, or_false] at hmem
    rcases hmem with rfl | rfl | rfl | rfl <;> rfl
  · have htool : baseTypeEdges baseType = none := by
      rw [baseTypeEdges, List.lookup_eq_none_iff]
      simp only [List.mem_cons, List.not_mem_nil, or_false, not_or] at hmem ⊢
      rintro p (rfl | rfl | rfl | rfl) <;> simp [hmem]
    have hall : ∀ type ∈ temporalCoveringTypes, type.edges.isSome = true →
        type.baseType ∈ ["tgeompoint", "tgeometry", "tgeogpoint", "tgeography"] := by decide
    rw [htool]
    cases htype : coveringTypeOf baseType with
    | none => rfl
    | some type =>
      have hname : baseType = type.baseType := by
        unfold coveringTypeOf at htype
        simpa using List.find?_some htype
      cases hedges : type.edges with
      | none => exact hedges.symm
      | some edges =>
        have hfixed := hall type (List.mem_of_find?_eq_some htype) (by rw [hedges]; rfl)
        rw [← hname] at hfixed
        exact absurd hfixed hmem

/-- No type has empty edges. -/
theorem resolvedEdges_typeMeta (column baseType : String) :
    (typeMeta column baseType).resolvedEdges = (coveringTypeOf baseType).bind (·.edges) := by
  have hall : ∀ type ∈ temporalCoveringTypes, type.edges ≠ some "" := by decide
  have hstated : (typeMeta column baseType).edges = (coveringTypeOf baseType).bind (·.edges) := rfl
  unfold TemporalColumnMeta.resolvedEdges
  rw [hstated]
  cases hedges : (coveringTypeOf baseType).bind (·.edges) with
  | none => exact (baseTypeEdges_eq baseType).trans hedges
  | some edges =>
    obtain ⟨type, htype, htypeEdges⟩ := Option.bind_eq_some_iff.mp hedges
    have hne : edges ≠ "" := by
      rintro rfl
      exact hall type (List.mem_of_find?_eq_some htype) htypeEdges
    exact if_neg hne

/-- The members of a column, read one by one. -/
def typeDict (baseType : String) (edges : Option String) (covering : Option Covering) : ColumnDict where
  encoding := some "MEOS-WKB"
  encodingVersion := some meosWkbEncodingVersion
  baseType := some baseType
  subtype := none
  interpolation := none
  srid := none
  crs := none
  edges := edges
  geodetic := edges.map fun edges => edges ≠ "planar"
  hasZ := none
  covering := covering

theorem toDict_typeMeta (column baseType : String) : (typeMeta column baseType).toDict =
    typeDict baseType ((coveringTypeOf baseType).bind (·.edges))
      (if coveringsOf baseType = [] then none else some (coveringPaths column baseType)) := by
  unfold TemporalColumnMeta.toDict typeDict
  rw [resolvedEdges_typeMeta]
  have hcovering : (if (typeMeta column baseType).covering = some [] then none
      else (typeMeta column baseType).covering) = (typeMeta column baseType).covering := by
    by_cases hnil : coveringsOf baseType = []
    · simp [typeMeta, hnil]
    · have hpaths : coveringPaths column baseType ≠ [] := by simpa [coveringPaths] using hnil
      simp [typeMeta, hnil, hpaths]
  rw [hcovering]
  rfl

/-- The tool reads of a column what the extension states of it. -/
theorem ofJson_columnJson (column baseType : String) :
    ColumnDict.ofJson (columnJson column baseType) = some (typeMeta column baseType).toDict := by
  rw [toDict_typeMeta, columnJson, moreMembers, coveringMembers]
  by_cases hnil : coveringsOf baseType = []
  · rw [if_neg (not_not.mpr hnil), if_pos hnil]
    cases (coveringTypeOf baseType).bind (·.edges) <;> rfl
  · rw [if_pos hnil, if_neg hnil]
    have hread := congrArg (Option.map some) (readDict_coverings column baseType)
    cases (coveringTypeOf baseType).bind (·.edges) with
    | none => exact congrArg (Option.bind · fun covering => some (typeDict baseType none covering)) hread
    | some edges => exact congrArg (Option.bind · fun covering => some (typeDict baseType (some edges) covering)) hread

/-! ### The footer, read back -/

/-- The metadata that the extension states of the columns, of a column named twice the last. -/
def extensionMeta (entries : List (String × String)) : TemporalParquetMeta where
  columns := mapValues typeMeta (dict entries)

/-- `from_json`, with the text it loads. -/
def fromText (text : List Char) : Option (Except PyError TemporalParquetMeta) :=
  ((Json.decode text).bind FooterDict.ofJson).map TemporalParquetMeta.fromJson

theorem ofJson_footerMembers (entries : List (String × String)) :
    FooterDict.ofJson (.obj (footerMembers entries)) = some (extensionMeta entries).toJson := by
  have hcolumns : readDict ColumnDict.ofJson (.obj (mapValues columnJson entries)) =
      some ((extensionMeta entries).columns.map fun column => (column.1, column.2.toDict)) := by
    rw [readDict, dict_map, mapValues, List.mapM_map, extensionMeta, mapValues, List.map_map]
    refine mapM_some fun entry _ => ?_
    show (ColumnDict.ofJson (columnJson entry.1 entry.2)).map (entry.1, ·) = _
    rw [ofJson_columnJson]
    rfl
  have hread := congrArg (Option.map some) hcolumns
  exact congrArg (Option.bind · fun columns => some (⟨some temporalParquetVersion, columns.getD [], none⟩ : FooterDict)) hread

theorem fromDict_typeMeta (column baseType : String) :
    TemporalColumnMeta.fromDict (typeMeta column baseType).toDict = .ok (typeMeta column baseType) := by
  rw [toDict_typeMeta]
  unfold typeMeta
  cases (coveringTypeOf baseType).bind (·.edges) <;> rfl

theorem mapM_ok {α β ε : Type} {f : α → Except ε β} {g : α → β} : ∀ {l : List α}, (∀ a ∈ l, f a = .ok (g a)) →
    l.mapM f = .ok (l.map g)
  | [], _ => rfl
  | a :: l, h => by
    rw [List.mapM_cons, h a List.mem_cons_self, mapM_ok fun b hb => h b (List.mem_cons_of_mem _ hb)]
    rfl

theorem fromJson_extensionMeta (entries : List (String × String)) :
    TemporalParquetMeta.fromJson (extensionMeta entries).toJson = .ok (extensionMeta entries) := by
  have hcolumns : (extensionMeta entries).toJson.columns.mapM (fun column => do
      return (column.1, ← TemporalColumnMeta.fromDict column.2)) =
        (Except.ok (extensionMeta entries).columns : Except PyError _) := by
    show (((dict entries).map fun entry => (entry.1, typeMeta entry.1 entry.2)).map _).mapM _ = _
    rw [List.map_map, List.mapM_map]
    refine mapM_ok fun entry _ => ?_
    show (do return (entry.1, ← TemporalColumnMeta.fromDict (typeMeta entry.1 entry.2).toDict)) = _
    rw [fromDict_typeMeta]
    rfl
  rw [TemporalParquetMeta.fromJson, hcolumns]
  rfl

/-- The text of a row is that of its entries. -/
theorem exists_rowText : ∃ text : List (String × String) → List Char,
    (∀ (map : MapVector) (result : ℕ → Option (List UInt8)) (i : Fin map.count),
      temporalFooterFun map result i = (map.value i).map fun entries => utf8 (text (entries.filterMap presentEntry))) ∧
      ∀ entries, Json.decode (text entries) = some (.obj (footerMembers entries)) := by
  choose text hcompact hrow using exists_footerText
  refine ⟨text, fun map result i => ?_, fun entries => (hcompact entries).decode⟩
  rw [temporalFooterFun, temporalFooterFun_apply map result map.count i i.isLt, MapVector.footerRow, MapVector.value]
  by_cases hvalid : map.validity (map.sel i) = true
  · rw [if_neg (by simp [hvalid]), if_pos hvalid, Option.map_some]
    exact congrArg some (hrow _ map _ rfl)
  · rw [if_pos (by simpa using hvalid), if_neg hvalid]
    rfl

/-- **The tool reads every footer that `temporalFooter` writes**, as the metadata of the columns that the
map names, and what it would write of them is what it read. -/
theorem temporalFooter_readBack :
    ∃ text : List (String × String) → List Char,
      (∀ (map : MapVector) (result : ℕ → Option (List UInt8)) (i : Fin map.count),
        temporalFooterFun map result i =
          (map.value i).map fun entries => utf8 (text (entries.filterMap presentEntry))) ∧
      ∀ entries, fromText (text entries) = some (.ok (extensionMeta entries)) ∧
        (Json.decode (text entries)).bind FooterDict.ofJson = some (extensionMeta entries).toJson := by
  obtain ⟨text, hrow, hdecode⟩ := exists_rowText
  have hread : ∀ entries, (Json.decode (text entries)).bind FooterDict.ofJson =
      some (extensionMeta entries).toJson := by
    intro entries
    rw [hdecode, Option.bind_some, ofJson_footerMembers]
  refine ⟨text, hrow, fun entries => ⟨?_, hread entries⟩⟩
  rw [fromText, hread, Option.map_some, fromJson_extensionMeta]

/-! ### Files that have the footer -/

/-- The file holds a field for every bound of the coverings of the columns. -/
def HoldsCoverings (schema : Schema) (entries : List (String × String)) : Prop :=
  ∀ entry ∈ dict entries, ∀ covering ∈ coveringsOf entry.2, ∀ b ∈ covering.bounds,
    schema.Holds (entry.1 ++ covering.columnSuffix) b

section Verify

variable {schema : Schema}

/-- A loop of checks finds whether all hold. -/
theorem foldlM_and {α : Type} {f : Bool → α → Except PyError Bool} {P : α → Prop} : ∀ {l : List α} (ok : Bool),
    (∀ a ∈ l, ∀ ok, ∃ holds, f ok a = .ok holds ∧ (holds = true ↔ ok = true ∧ P a)) →
      ∃ holds, l.foldlM f ok = .ok holds ∧ (holds = true ↔ ok = true ∧ ∀ a ∈ l, P a)
  | [], ok, _ => ⟨ok, rfl, by simp⟩
  | a :: l, ok, h => by
    obtain ⟨next, hnext, hiff⟩ := h a List.mem_cons_self ok
    obtain ⟨holds, hholds, hall⟩ := foldlM_and next fun b hb => h b (List.mem_cons_of_mem _ hb)
    refine ⟨holds, ?_, ?_⟩
    · rw [List.foldlM_cons, hnext]
      exact hholds
    · rw [hall, hiff, List.forall_mem_cons, and_assoc]

theorem filter_of_nodup {columns : List (String × ArrowType)} (h : (columns.map (·.1)).Nodup)
    {column : String × ArrowType} (hcolumn : column ∈ columns) : columns.filter (·.1 = column.1) = [column] := by
  induction columns with
  | nil => cases hcolumn
  | cons c columns ih =>
    obtain ⟨hnot, hrest⟩ := List.nodup_cons.mp h
    rcases List.mem_cons.mp hcolumn with rfl | hcolumn
    · rw [List.filter_cons_of_pos (by simp), List.filter_eq_nil_iff.mpr]
      intro d hd heq
      exact hnot (List.mem_map.mpr ⟨d, hd, of_decide_eq_true heq⟩)
    · have hne : c.1 ≠ column.1 := fun heq => hnot (List.mem_map.mpr ⟨column, hcolumn, heq.symm⟩)
      rw [List.filter_cons_of_neg (by simp [hne]), ih hrest hcolumn]

/-- Where no name stands twice, every column that is there has a type. -/
theorem exists_field (hnames : schema.names.Nodup) {name : String} (h : name ∈ schema.names) :
    ∃ type, schema.field name = .ok type := by
  obtain ⟨column, hcolumn, rfl⟩ := List.mem_map.mp h
  exact ⟨column.2, by rw [Schema.field, filter_of_nodup hnames hcolumn]⟩

theorem refHeld_iff (hnames : schema.names.Nodup) (target f : String) :
    ∃ held, refHeld schema [target, f] = .ok held ∧ (held = true ↔ schema.Holds target f) := by
  show ∃ held, (if target ∉ schema.names then _ else _) = Except.ok held ∧ _
  by_cases hmem : target ∈ schema.names
  · obtain ⟨type, htype⟩ := exists_field hnames hmem
    rw [if_neg (not_not.mpr hmem), Schema.Holds, htype]
    cases type with
    | struct present => exact ⟨decide (f ∈ present), rfl, by simp⟩
    | binary | largeBinary | other => exact ⟨false, rfl, by simp⟩
  · rw [if_pos hmem]
    refine ⟨false, rfl, ?_⟩
    have hnone : ¬ schema.Holds target f := fun ⟨_, hfield, _⟩ => hmem (mem_names_of_field hfield)
    simp [hnone]

theorem coveringHeld_iff (hnames : schema.names.Nodup) (column baseType : String) (ok : Bool) :
    ∃ held, coveringHeld schema ok (coveringPaths column baseType) = .ok held ∧
      (held = true ↔ ok = true ∧ ∀ covering ∈ coveringsOf baseType, ∀ b ∈ covering.bounds,
        schema.Holds (column ++ covering.columnSuffix) b) := by
  rw [coveringHeld, coveringPaths, List.foldlM_map]
  refine foldlM_and ok fun covering _ ok => ?_
  rw [List.foldlM_map]
  refine foldlM_and ok fun b _ ok => ?_
  obtain ⟨held, hheld, hiff⟩ := refHeld_iff hnames (column ++ covering.columnSuffix) b
  rw [hheld]
  refine ⟨ok && held, rfl, ?_⟩
  rw [Bool.and_eq_true, hiff]

/-- **A file that has the footer verifies exactly when it holds the coverings of its columns**, which are
binary. -/
theorem verify_iff (file : ParquetFile) (hnames : file.schema.names.Nodup) (entries : List (String × String))
    (hfooter : file.temporal = some (extensionMeta entries).toJson)
    (hcolumns : ∀ entry ∈ dict entries, ∃ type, file.schema.field entry.1 = .ok type ∧ type.IsBinary) :
    ∃ ok, temporalParquetVerify file = .ok ok ∧ (ok = true ↔ HoldsCoverings file.schema entries) := by
  have hread : temporalParquetReadMeta file = .ok (some (extensionMeta entries)) := by
    rw [temporalParquetReadMeta, hfooter]
    exact congrArg (Except.map some) (fromJson_extensionMeta entries)
  have hchecks := @foldlM_and (String × String)
    (fun ok entry => file.verifyColumn ok (entry.1, typeMeta entry.1 entry.2))
    (fun entry => ∀ covering ∈ coveringsOf entry.2, ∀ b ∈ covering.bounds,
      file.schema.Holds (entry.1 ++ covering.columnSuffix) b) (dict entries) true fun entry hentry ok => by
    obtain ⟨type, htype, hbinary⟩ := hcolumns entry hentry
    have hpaths : (typeMeta entry.1 entry.2).covering.getD [] = coveringPaths entry.1 entry.2 := by
      by_cases hnil : coveringsOf entry.2 = []
      · simp [typeMeta, coveringPaths, hnil]
      · simp [typeMeta, hnil]
    rw [verifyColumn_of_binary htype hbinary, hpaths]
    exact coveringHeld_iff hnames entry.1 entry.2 ok
  obtain ⟨ok, hok, hiff⟩ := hchecks
  refine ⟨ok, ?_, ?_⟩
  · rw [temporalParquetVerify, hread]
    show (extensionMeta entries).columns.foldlM _ true = _
    rw [extensionMeta, mapValues, List.foldlM_map]
    exact hok
  · rw [hiff]
    simp [HoldsCoverings]

end Verify

/-- A file with a column of points and the struct columns of their coverings. -/
def tripSchema : Schema :=
  ⟨[("trip", .binary), ("trip_bbox", .struct ["xmin", "ymin", "xmax", "ymax"]),
    ("trip_tspan", .struct ["tmin", "tmax"])]⟩

/-- Such a file with two trips, one of them null, and the footer. -/
def tripFile : ParquetFile where
  schema := tripSchema
  cells name := if name = "trip" then [some (.bytes [1, 2]), none] else []
  temporal := some (extensionMeta [("trip", "tgeompoint")]).toJson
  bytes_of_binary name type _ _ v hv := by
    by_cases hname : name = "trip"
    · rw [if_pos hname] at hv
      exact ⟨[1, 2], by simpa using hv⟩
    · rw [if_neg hname] at hv
      cases hv

theorem verify_iff_trip : ∃ ok, temporalParquetVerify tripFile = .ok ok ∧
    (ok = true ↔ HoldsCoverings tripSchema [("trip", "tgeompoint")]) := by
  refine verify_iff tripFile (by decide) [("trip", "tgeompoint")] rfl fun entry hentry => ?_
  obtain rfl := List.mem_singleton.mp hentry
  exact ⟨.binary, rfl, .inl rfl⟩

/-! ### The footer the tool writes -/

/-- The struct columns that the file holds for the column are those of the type, with its bounds. -/
structure Schema.Covers (schema : Schema) (column baseType : String) : Prop where
  there : ∀ covering ∈ coveringsOf baseType, ∃ present,
    schema.field (column ++ covering.columnSuffix) = .ok (.struct present) ∧
      ∀ fields, (covering.key, fields) ∈ coveringFields → ∀ f ∈ fields, f ∈ present ↔ f ∈ covering.bounds
  noOther : ∀ entry ∈ coveringFields, entry.1 ∉ (coveringsOf baseType).map (·.key) →
    column ++ "_" ++ entry.1 ∉ schema.names

section Covers

variable {schema : Schema} {column baseType : String}

/-- What the tool infers for a key. -/
def pathsOf (column baseType : String) (entry : String × List String) : Option (String × List (String × List String)) :=
  ((coveringsOf baseType).find? fun covering => covering.key = entry.1).map fun covering =>
    (covering.key, covering.bounds.map fun b => (b, [column ++ covering.columnSuffix, b]))

/-- The coverings of a type come in the order in which the tool looks for them, and name a part of the fields
it looks for. -/
theorem coveringsOf_spec (baseType : String) :
    coveringsOf baseType = coveringFields.filterMap (fun entry =>
      (coveringsOf baseType).find? fun covering => covering.key = entry.1) ∧
    ∀ covering ∈ coveringsOf baseType, covering.columnSuffix = "_" ++ covering.key ∧ covering.bounds ≠ [] ∧
      ∀ entry ∈ coveringFields, covering.key = entry.1 →
        entry.2.filter (· ∈ covering.bounds) = covering.bounds := by
  have hall : ∀ type ∈ temporalCoveringTypes,
      type.coverings = coveringFields.filterMap (fun entry =>
        type.coverings.find? fun covering => covering.key = entry.1) ∧
      ∀ covering ∈ type.coverings, covering.columnSuffix = "_" ++ covering.key ∧ covering.bounds ≠ [] ∧
        ∀ entry ∈ coveringFields, covering.key = entry.1 →
          entry.2.filter (· ∈ covering.bounds) = covering.bounds := by
    decide
  unfold coveringsOf
  cases htype : coveringTypeOf baseType with
  | none => exact ⟨rfl, fun _ h => absurd h List.not_mem_nil⟩
  | some type => exact hall type (List.mem_of_find?_eq_some htype)

theorem coveringStep_covers (h : schema.Covers column baseType) {entry : String × List String}
    (hentry : entry ∈ coveringFields) (covering : Covering) :
    coveringStep schema column covering entry = .ok (covering ++ (pathsOf column baseType entry).toList) := by
  unfold pathsOf coveringStep
  cases hfind : (coveringsOf baseType).find? fun covering => covering.key = entry.1 with
  | none =>
    have hnot : entry.1 ∉ (coveringsOf baseType).map (·.key) := by
      intro hmem
      obtain ⟨c, hc, hkey⟩ := List.mem_map.mp hmem
      exact List.find?_eq_none.mp hfind c hc (decide_eq_true hkey)
    rw [if_pos (h.noOther entry hentry hnot)]
    simp
  | some c =>
    have hc := List.mem_of_find?_eq_some hfind
    have hkey : c.key = entry.1 := by simpa using List.find?_some hfind
    obtain ⟨hsuffix, hbounds, hfields⟩ := (coveringsOf_spec baseType).2 c hc
    have htarget : column ++ "_" ++ entry.1 = column ++ c.columnSuffix := by
      rw [hsuffix, hkey, String.append_assoc]
    obtain ⟨present, hfield, hpresent⟩ := h.there c hc
    have hin : boundsIn (column ++ c.columnSuffix) entry.2 present =
        c.bounds.map fun b => (b, [column ++ c.columnSuffix, b]) := by
      have hfilter : entry.2.filter (· ∈ present) = entry.2.filter (· ∈ c.bounds) :=
        List.filter_congr fun f hf => decide_eq_decide.mpr (hpresent entry.2 (hkey ▸ hentry) f hf)
      rw [boundsIn, hfilter, hfields entry hentry hkey]
    rw [htarget, if_neg (not_not.mpr (mem_names_of_field hfield)), hfield]
    simp only [hin]
    rw [if_pos (by simpa using hbounds), ← hkey]
    rfl

theorem coveringSteps_covers (h : schema.Covers column baseType) : ∀ {entries : List (String × List String)},
    (∀ entry ∈ entries, entry ∈ coveringFields) → ∀ covering : Covering,
      entries.foldlM (coveringStep schema column) covering =
        .ok (covering ++ entries.filterMap (pathsOf column baseType))
  | [], _, covering => by simp [pure, Except.pure]
  | entry :: entries, hall, covering => by
    rw [List.foldlM_cons, coveringStep_covers h (hall entry List.mem_cons_self)]
    have hrest := coveringSteps_covers h (fun e he => hall e (List.mem_cons_of_mem _ he))
      (covering ++ (pathsOf column baseType entry).toList)
    refine Eq.trans hrest (congrArg Except.ok ?_)
    rw [List.filterMap_cons]
    cases pathsOf column baseType entry <;> simp

/-- The tool infers the coverings that the extension states. -/
theorem coveringsInSchema_covers (h : schema.Covers column baseType) :
    coveringsInSchema schema column = .ok (coveringPaths column baseType) := by
  rw [coveringsInSchema, coveringSteps_covers h fun _ hentry => hentry, List.nil_append, coveringPaths]
  conv_rhs => rw [(coveringsOf_spec baseType).1]
  rw [List.map_filterMap]
  rfl

end Covers

/-- Objects used once each, without a covering, are stored the covering of their column. -/
theorem inferCoverings_stores {schema : Schema} {covering : String → Covering} :
    ∀ {columns : List (String × ℕ)} {objects : ℕ → TemporalColumnMeta}, (columns.map (·.2)).Nodup →
      (∀ column ∈ columns, (objects column.2).covering = none) →
      (∀ column ∈ columns, coveringsInSchema schema column.1 = .ok (covering column.1)) →
      (inferCoverings schema columns objects).2 = .ok () ∧ ∀ column ∈ columns,
        (inferCoverings schema columns objects).1 column.2 = { objects column.2 with
          covering := if covering column.1 ≠ [] then some (covering column.1) else none }
  | [], _, _, _, _ => ⟨rfl, fun _ h => absurd h List.not_mem_nil⟩
  | column :: columns, objects, hnodup, hnone, hin => by
    obtain ⟨hnot, hnodup⟩ := List.nodup_cons.mp hnodup
    rw [inferCoverings, if_pos (hnone column List.mem_cons_self), hin column List.mem_cons_self]
    set next := Function.update objects column.2 { objects column.2 with
      covering := if covering column.1 ≠ [] then some (covering column.1) else none } with hnext
    have hother : ∀ c ∈ columns, next c.2 = objects c.2 := fun c hc =>
      Function.update_of_ne (fun heq => hnot (List.mem_map.mpr ⟨c, hc, heq⟩)) ..
    obtain ⟨hok, hrest⟩ := @inferCoverings_stores schema covering columns next hnodup
      (fun c hc => by rw [hother c hc]; exact hnone c (List.mem_cons_of_mem _ hc))
      fun c hc => hin c (List.mem_cons_of_mem _ hc)
    refine ⟨hok, fun c hc => ?_⟩
    rcases List.mem_cons.mp hc with rfl | hc
    · exact (inferCoverings_of_not_mem hnot).trans (Function.update_self ..)
    · have hc' := hrest c hc
      rw [hother c hc] at hc'
      exact hc'

/-- The metadata of a column of which the type is given and the covering inferred. -/
def givenMeta (column baseType : String) : TemporalColumnMeta where
  baseType := baseType
  covering := if coveringPaths column baseType ≠ [] then some (coveringPaths column baseType) else none

/-- What the tool writes of such a column is what the extension writes. -/
theorem toDict_givenMeta (column baseType : String) :
    (givenMeta column baseType).toDict = (typeMeta column baseType).toDict := by
  have hpaths : coveringPaths column baseType = [] ↔ coveringsOf baseType = [] := by simp [coveringPaths]
  rw [toDict_typeMeta]
  unfold TemporalColumnMeta.toDict typeDict
  have hedges : (givenMeta column baseType).resolvedEdges = (coveringTypeOf baseType).bind (·.edges) :=
    baseTypeEdges_eq baseType
  have hcovering : (if (givenMeta column baseType).covering = some [] then none
      else (givenMeta column baseType).covering) =
        if coveringsOf baseType = [] then none else some (coveringPaths column baseType) := by
    by_cases hnil : coveringsOf baseType = []
    · simp [givenMeta, hpaths.mpr hnil, hnil]
    · have hne : coveringPaths column baseType ≠ [] := fun h => hnil (hpaths.mp h)
      simp [givenMeta, hne, hnil]
  rw [hedges, hcovering]
  rfl

/-- **The tool writes the footer that the extension writes**, where the caller gives of every column its type
only and the file holds the struct columns of the types. -/
theorem write_extensionMeta (s : State) (call : Call) (baseType : String → String) {table : ParquetFile}
    (htable : s.files call.source = some table) (hvalid : validateColumns table.schema call.columns = .ok ())
    (hobjects : (call.columns.map (·.2)).Nodup)
    (hgiven : ∀ column ∈ call.columns, s.objects column.2 = { baseType := baseType column.1 })
    (hcovers : ∀ column ∈ call.columns, table.schema.Covers column.1 (baseType column.1)) :
    (temporalParquetWrite s call).2 = .ok () ∧
      (temporalParquetWrite s call).1.files call.dest = some { table with
        temporal := some { (extensionMeta (call.columns.map fun column => (column.1, baseType column.1))).toJson with
          primaryTemporalColumn := if call.primary = some "" then none else call.primary } } := by
  have hnone : ∀ column ∈ call.columns, (s.objects column.2).covering = none := by
    intro column hcolumn
    rw [hgiven column hcolumn]
  obtain ⟨hok, hstored⟩ := @inferCoverings_stores table.schema (fun column => coveringPaths column (baseType column))
    call.columns s.objects hobjects hnone fun column hcolumn => coveringsInSchema_covers (hcovers column hcolumn)
  have hobject : ∀ column ∈ call.columns, (inferCoverings table.schema call.columns s.objects).1 column.2 =
      givenMeta column.1 (baseType column.1) := by
    intro column hcolumn
    rw [hstored column hcolumn, hgiven column hcolumn]
    rfl
  have hentries : dict (call.columns.map fun column => (column.1, baseType column.1)) =
      call.columns.map fun column => (column.1, baseType column.1) := by
    apply dict_of_nodup
    rw [List.map_map]
    exact call.columns_nodup
  have hwritten : (call.columns.map fun column =>
      (column.1, (inferCoverings table.schema call.columns s.objects).1 column.2)).map
        (fun column => (column.1, column.2.toDict)) =
      (extensionMeta (call.columns.map fun column => (column.1, baseType column.1))).toJson.columns := by
    show _ = ((mapValues typeMeta (dict _)).map fun column => (column.1, column.2.toDict))
    rw [hentries, mapValues, List.map_map, List.map_map, List.map_map]
    refine List.map_congr_left fun column hcolumn => ?_
    show (column.1, ((inferCoverings table.schema call.columns s.objects).1 column.2).toDict) =
      (column.1, (typeMeta column.1 (baseType column.1)).toDict)
    rw [hobject column hcolumn, toDict_givenMeta]
  unfold temporalParquetWrite
  simp only [htable, hvalid, hok, Function.update_self, true_and]
  rw [TemporalParquetMeta.toJson, hwritten]
  rfl

theorem tripSchema_covers : tripSchema.Covers "trip" "tgeompoint" where
  there := by
    intro covering hcovering
    have hlist : coveringsOf "tgeompoint" = [bboxCovering, tspanCovering] := rfl
    rw [hlist, List.mem_cons, List.mem_singleton] at hcovering
    rcases hcovering with rfl | rfl
    · exact ⟨["xmin", "ymin", "xmax", "ymax"], rfl, fun fields _ f _ => Iff.rfl⟩
    · exact ⟨["tmin", "tmax"], rfl, fun fields _ f _ => Iff.rfl⟩
  noOther := by decide

/-- The file, and an object that gives the type of its column. -/
def tripState : State where
  objects := fun _ => { baseType := "tgeompoint" }
  files := fun path => if path = "trips.parquet" then some { tripFile with temporal := none } else none

def tripCall : Call := ⟨"trips.parquet", "trips.parquet", [("trip", 0)], List.nodup_singleton _, none⟩

theorem write_extensionMeta_trip :
    (temporalParquetWrite tripState tripCall).2 = .ok () ∧
      (temporalParquetWrite tripState tripCall).1.files "trips.parquet" = some { tripFile with
        temporal :=
          some { (extensionMeta [("trip", "tgeompoint")]).toJson with primaryTemporalColumn := some "trip" } } :=
  @write_extensionMeta tripState tripCall (fun _ => "tgeompoint") { tripFile with temporal := none } rfl rfl
    (List.nodup_singleton 0) (fun _ _ => rfl) fun column hcolumn => by
      obtain rfl := List.mem_singleton.mp hcolumn
      exact tripSchema_covers

end ParquetTool
end MobilityDuck
