/-
# The tool that annotates a Parquet file, call after call

`temporal_parquet_write` reads a file, writes it with the `temporal` key in its
metadata, and gives each column that declares no covering the one its struct
columns provide (`coveringsInSchema`). The metadata of the columns are the
caller's own objects: the state of a run holds them beside the files, and the
inferred covering is stored into them (`inferCoverings`).

So a second file that is written with the same objects declares the covering of
the first. A call is right (`CallRight`) when it leaves the objects as they were,
its footer declares, for every column of which the caller gave none, just the
covering fields the file holds, and `temporal_parquet_verify` accepts the file; a
run of calls is right exactly when no call finds a covering to infer and the files
hold the coverings the caller gave (`calls_right_iff`). With objects of its own,
each used once, a call writes the right footer, whatever it infers
(`footer_of_fresh`).

Key definitions: `TemporalColumnMeta`, `coveringsInSchema`, `temporalParquetWrite`,
`temporalParquetVerify`, `NamesExactly`, `CallRight`, `NothingToInfer`, `GivenHeld`.
Key theorems: `namesExactly_coveringsInSchema`, `verify_iff_heldBy`,
`footer_of_fresh`, `calls_right_iff`.
-/
import MobilityDuck.Lib.Json
import MobilityDuck.Lib.Run
import Mathlib.Logic.Function.Basic
import Mathlib.Data.List.Forall2

namespace MobilityDuck
namespace ParquetTool

open Lib

/-! ### Schemas -/

inductive PyError
  | fileNotFound (path : String)
  | columnNotFound (column : String) (available : List String)
  | notBinary (column : String)
  | keyError (key : String)
  | indexError
  | typeError (message : String)
  deriving DecidableEq

/-- A column type of Arrow, as far as the tool looks at it. -/
inductive ArrowType
  | binary
  | largeBinary
  | struct (fields : List String)
  | other (name : String)
  deriving DecidableEq

def ArrowType.IsBinary (type : ArrowType) : Prop := type = .binary ∨ type = .largeBinary

/-- What `as_py` makes of a cell that is not null, as far as `len` tells the values apart. -/
inductive PyValue
  | bytes (data : List UInt8)
  | str (text : String)
  | sized (size : ℕ)
  | unsized (typeName : String)
  deriving DecidableEq

/-- `len`. -/
def PyValue.len : PyValue → Except PyError ℕ
  | .bytes data => .ok data.length
  | .str text => .ok text.length
  | .sized size => .ok size
  | .unsized typeName => .error (.typeError s!"object of type '{typeName}' has no len()")

/-- The columns of a file, with their types. -/
structure Schema where
  columns : List (String × ArrowType)

def Schema.names (schema : Schema) : List String := schema.columns.map (·.1)

/-- `schema.field(name).type`: a name that is missing, or that several columns have, is a key error. -/
def Schema.field (schema : Schema) (name : String) : Except PyError ArrowType :=
  match schema.columns.filter (·.1 = name) with
  | [column] => .ok column.2
  | _ => .error (.keyError name)

/-! ### Metadata -/

def temporalParquetVersion : String := "2.0.0"

def encodingVersion : String := "1.0"

/-- `BASE_TYPE_EDGES`. -/
def baseTypeEdges (baseType : String) : Option String :=
  [("tgeompoint", "planar"), ("tgeometry", "planar"), ("tgeogpoint", "spherical"),
    ("tgeography", "spherical")].lookup baseType

/-- `COVERING_FIELDS`. -/
def coveringFields : List (String × List String) :=
  [("bbox", ["xmin", "ymin", "zmin", "xmax", "ymax", "zmax"]), ("vspan", ["vmin", "vmax"]),
    ("tspan", ["tmin", "tmax"])]

/-- A covering: for a key, for a bound, the path of the field that carries it. -/
abbrev Covering := List (String × List (String × List String))

/-- `TemporalColumnMeta`; a `crs` may be absent, null or an object. -/
structure TemporalColumnMeta where
  baseType : String
  encoding : String := "MEOS-WKB"
  encodingVersion : String := ParquetTool.encodingVersion
  subtype : Option String := none
  interpolation : Option String := none
  srid : Option ℤ := none
  crs : Option (Option Json) := none
  edges : Option String := none
  hasZ : Option Bool := none
  covering : Option Covering := none

/-- A column's object in the footer, as the record of its members. -/
structure ColumnDict where
  encoding : Option String
  encodingVersion : Option String
  baseType : Option String
  subtype : Option String
  interpolation : Option String
  srid : Option ℤ
  crs : Option (Option Json)
  edges : Option String
  geodetic : Option Bool
  hasZ : Option Bool
  covering : Option Covering

/-- `resolved_edges`: an empty text is no edges. -/
def TemporalColumnMeta.resolvedEdges (colMeta : TemporalColumnMeta) : Option String :=
  match colMeta.edges with
  | some edges => if edges = "" then baseTypeEdges colMeta.baseType else some edges
  | none => baseTypeEdges colMeta.baseType

/-- `to_dict`: an empty covering is left out. -/
def TemporalColumnMeta.toDict (colMeta : TemporalColumnMeta) : ColumnDict where
  encoding := some colMeta.encoding
  encodingVersion := some colMeta.encodingVersion
  baseType := some colMeta.baseType
  subtype := colMeta.subtype
  interpolation := colMeta.interpolation
  srid := colMeta.srid
  crs := if colMeta.crs.isNone ∧ colMeta.srid = some 0 then some none else colMeta.crs
  edges := colMeta.resolvedEdges
  geodetic := colMeta.resolvedEdges.map fun edges => edges ≠ "planar"
  hasZ := colMeta.hasZ
  covering := if colMeta.covering = some [] then none else colMeta.covering

/-- `from_dict`. -/
def TemporalColumnMeta.fromDict (d : ColumnDict) : Except PyError TemporalColumnMeta :=
  match d.baseType with
  | none => .error (.keyError "base_type")
  | some baseType => .ok {
      baseType
      encoding := d.encoding.getD "MEOS-WKB"
      encodingVersion := d.encodingVersion.getD ParquetTool.encodingVersion
      subtype := d.subtype
      interpolation := d.interpolation
      srid := d.srid
      crs := d.crs
      edges := d.edges.orElse fun _ =>
        d.geodetic.map fun geodetic => if geodetic then "spherical" else "planar"
      hasZ := d.hasZ
      covering := d.covering }

/-- `TemporalParquetMeta`. -/
structure TemporalParquetMeta where
  columns : List (String × TemporalColumnMeta)
  version : String := temporalParquetVersion
  primaryTemporalColumn : Option String := none

/-- The `temporal` object of a footer. -/
structure FooterDict where
  version : Option String
  columns : List (String × ColumnDict)
  primaryTemporalColumn : Option String

/-- `to_json`; the text is kept as the object it states. -/
def TemporalParquetMeta.toJson (fileMeta : TemporalParquetMeta) : FooterDict where
  version := some fileMeta.version
  columns := fileMeta.columns.map fun column => (column.1, column.2.toDict)
  primaryTemporalColumn :=
    if fileMeta.primaryTemporalColumn = some "" then none else fileMeta.primaryTemporalColumn

/-- `from_json`. -/
def TemporalParquetMeta.fromJson (obj : FooterDict) : Except PyError TemporalParquetMeta := do
  let columns ← obj.columns.mapM fun column => do
    return (column.1, ← TemporalColumnMeta.fromDict column.2)
  return {
    columns
    version := obj.version.getD temporalParquetVersion
    primaryTemporalColumn := obj.primaryTemporalColumn }

/-! ### Coverings -/

/-- `present`-tested bounds of a key: the fields the struct holds, each with its path. -/
def boundsIn (target : String) (fields present : List String) : List (String × List String) :=
  (fields.filter (· ∈ present)).map fun f => (f, [target, f])

/-- The body of the loop of `coverings_in_schema`. -/
def coveringStep (schema : Schema) (column : String) (covering : Covering)
    (entry : String × List String) : Except PyError Covering :=
  let target := column ++ "_" ++ entry.1
  if target ∉ schema.names then .ok covering
  else
    match schema.field target with
    | .error e => .error e
    | .ok (.struct present) =>
      let bounds := boundsIn target entry.2 present
      .ok (if bounds ≠ [] then covering ++ [(entry.1, bounds)] else covering)
    | .ok _ => .ok covering

/-- `coverings_in_schema`. -/
def coveringsInSchema (schema : Schema) (column : String) : Except PyError Covering :=
  coveringFields.foldlM (coveringStep schema column) []

/-! ### Writing and verifying -/

/-- A Parquet file: its columns with their cells, a null one as none, and the object under its `temporal`
key. A binary column holds bytes. -/
structure ParquetFile where
  schema : Schema
  cells : String → List (Option PyValue)
  temporal : Option FooterDict
  bytes_of_binary : ∀ name type, schema.field name = .ok type → type.IsBinary →
    ∀ v, some v ∈ cells name → ∃ data, v = .bytes data

/-- The caller's metadata objects, and the files by their paths. -/
structure State where
  objects : ℕ → TemporalColumnMeta
  files : String → Option ParquetFile

/-- A call of `temporal_parquet_write`: the metadata are given as objects. -/
structure Call where
  source : String
  dest : String
  columns : List (String × ℕ)
  columns_nodup : (columns.map (·.1)).Nodup
  primaryTemporalColumn : Option String

/-- The declared columns are there, and hold bytes. -/
def validateColumns (schema : Schema) : List (String × ℕ) → Except PyError Unit
  | [] => .ok ()
  | column :: columns =>
    if column.1 ∉ schema.names then .error (.columnNotFound column.1 schema.names)
    else
      match schema.field column.1 with
      | .error e => .error e
      | .ok colType =>
        if colType ≠ .largeBinary ∧ colType ≠ .binary then .error (.notBinary column.1)
        else validateColumns schema columns

/-- The loop that infers coverings, with the objects as it leaves them. -/
def inferCoverings (schema : Schema) :
    List (String × ℕ) → (ℕ → TemporalColumnMeta) → (ℕ → TemporalColumnMeta) × Except PyError Unit
  | [], objects => (objects, .ok ())
  | column :: columns, objects =>
    if (objects column.2).covering = none then
      match coveringsInSchema schema column.1 with
      | .error e => (objects, .error e)
      | .ok covering =>
        let covering := if covering ≠ [] then some covering else none
        inferCoverings schema columns
          (Function.update objects column.2 { objects column.2 with covering })
    else inferCoverings schema columns objects

/-- The name the footer gives as the primary column: the one given, or the only one there is. -/
def Call.primary (call : Call) : Option String :=
  let single := if call.columns.length = 1 then call.columns.head?.map (·.1) else none
  match call.primaryTemporalColumn with
  | some name => if name = "" then single else some name
  | none => single

/-- `temporal_parquet_write`: the state after the call, and how it ended. -/
def temporalParquetWrite (s : State) (call : Call) : State × Except PyError Unit :=
  match s.files call.source with
  | none => (s, .error (.fileNotFound call.source))
  | some table =>
    match validateColumns table.schema call.columns with
    | .error e => (s, .error e)
    | .ok () =>
      let inferred := inferCoverings table.schema call.columns s.objects
      match inferred.2 with
      | .error e => ({ s with objects := inferred.1 }, .error e)
      | .ok () =>
        let fileMeta : TemporalParquetMeta := {
          columns := call.columns.map fun column => (column.1, inferred.1 column.2)
          primaryTemporalColumn := call.primary }
        let annotated : ParquetFile := { table with temporal := some fileMeta.toJson }
        ({ objects := inferred.1, files := Function.update s.files call.dest (some annotated) }, .ok ())

/-- `temporal_parquet_read_meta`. -/
def temporalParquetReadMeta (file : ParquetFile) : Except PyError (Option TemporalParquetMeta) :=
  match file.temporal with
  | none => .ok none
  | some obj => (TemporalParquetMeta.fromJson obj).map some

/-- The path names a field of a struct column that the file holds. -/
def refHeld (schema : Schema) (ref : List String) : Except PyError Bool :=
  match ref.head?, ref.getLast? with
  | some target, some field =>
    if target ∉ schema.names then .ok false
    else
      match schema.field target with
      | .error e => .error e
      | .ok (.struct present) => .ok (decide (field ∈ present))
      | .ok _ => .ok false
  | _, _ => .error .indexError

/-- The covering check of a column in `temporal_parquet_verify`. -/
def coveringHeld (schema : Schema) (ok : Bool) (covering : Covering) : Except PyError Bool :=
  covering.foldlM (fun ok entry =>
    entry.2.foldlM (fun ok bound => (refHeld schema bound.2).map (ok && ·)) ok) ok

/-- `sample_bytes`: the lengths of the first values that are there. -/
def ParquetFile.sampleBytes (file : ParquetFile) (name : String) : Except PyError (List ℕ) :=
  let values := (file.cells name).filterMap id
  (values.take (min 5 values.length)).mapM PyValue.len

/-- The body of the loop of `temporal_parquet_verify`. -/
def ParquetFile.verifyColumn (file : ParquetFile) (ok : Bool) (column : String × TemporalColumnMeta) :
    Except PyError Bool := do
  let _ ← file.schema.field column.1
  let _ ← file.sampleBytes column.1
  coveringHeld file.schema ok (column.2.covering.getD [])

/-- `temporal_parquet_verify`, without what it prints. -/
def temporalParquetVerify (file : ParquetFile) : Except PyError Bool := do
  match ← temporalParquetReadMeta file with
  | none => return false
  | some fileMeta => fileMeta.columns.foldlM file.verifyColumn true

/-! ### What a covering names -/

/-- The column is a struct of the file, with this field. -/
def Schema.Holds (schema : Schema) (target f : String) : Prop :=
  ∃ present, schema.field target = .ok (.struct present) ∧ f ∈ present

/-- The covering maps the bound of the key to the path. -/
def Declares (covering : Covering) (key f : String) (path : List String) : Prop :=
  ∃ bounds, (key, bounds) ∈ covering ∧ (f, path) ∈ bounds

/-- The covering names the covering fields the file holds for the column, and nothing else. -/
def NamesExactly (schema : Schema) (column : String) (covering : Option Covering) : Prop :=
  ∀ key f path, Declares (covering.getD []) key f path ↔
    ∃ fields, (key, fields) ∈ coveringFields ∧ f ∈ fields ∧
      schema.Holds (column ++ "_" ++ key) f ∧ path = [column ++ "_" ++ key, f]

section Coverings

variable {schema : Schema} {column : String} {covering covering' : Covering}

theorem mem_boundsIn {target f : String} {fields present : List String} {path : List String} :
    (f, path) ∈ boundsIn target fields present ↔ f ∈ fields ∧ f ∈ present ∧ path = [target, f] := by
  unfold boundsIn
  constructor
  · intro h
    obtain ⟨g, hg, heq⟩ := List.mem_map.mp h
    obtain ⟨rfl, rfl⟩ := Prod.mk.injEq .. ▸ heq
    obtain ⟨hfields, hpresent⟩ := List.mem_filter.mp hg
    exact ⟨hfields, of_decide_eq_true hpresent, rfl⟩
  · rintro ⟨hfields, hpresent, rfl⟩
    exact List.mem_map.mpr ⟨f, List.mem_filter.mpr ⟨hfields, decide_eq_true hpresent⟩, rfl⟩

theorem mem_names_of_field {name : String} {type : ArrowType} (h : schema.field name = .ok type) :
    name ∈ schema.names := by
  unfold Schema.field at h
  split at h
  · rename_i column hfilter
    have hmem : column ∈ schema.columns.filter (·.1 = name) := hfilter ▸ List.mem_cons_self
    obtain ⟨hcolumn, hname⟩ := List.mem_filter.mp hmem
    exact List.mem_map.mpr ⟨column, hcolumn, of_decide_eq_true hname⟩
  · cases h

theorem declares_append {key f : String} {path : List String}
    {entry : String × List (String × List String)} :
    Declares (covering ++ [entry]) key f path ↔
      Declares covering key f path ∨ key = entry.1 ∧ (f, path) ∈ entry.2 := by
  unfold Declares
  constructor
  · rintro ⟨bounds, hkey, hf⟩
    rcases List.mem_append.mp hkey with hkey | hkey
    · exact .inl ⟨bounds, hkey, hf⟩
    · obtain rfl := List.mem_singleton.mp hkey
      exact .inr ⟨rfl, hf⟩
  · rintro (⟨bounds, hkey, hf⟩ | ⟨rfl, hf⟩)
    · exact ⟨bounds, List.mem_append_left _ hkey, hf⟩
    · exact ⟨entry.2, List.mem_append_right _ (List.mem_singleton.mpr rfl), hf⟩

/-- Without a struct of that name nothing is held. -/
theorem not_holds {target f : String} (h : ∀ present, schema.field target ≠ .ok (.struct present)) :
    ¬ schema.Holds target f := fun ⟨present, hfield, _⟩ => h present hfield

/-- One key adds the bounds that the struct of its name holds. -/
theorem coveringStep_spec {entry : String × List String}
    (h : coveringStep schema column covering entry = .ok covering') (key f : String)
    (path : List String) :
    Declares covering' key f path ↔ Declares covering key f path ∨
      key = entry.1 ∧ f ∈ entry.2 ∧ schema.Holds (column ++ "_" ++ key) f ∧
        path = [column ++ "_" ++ key, f] := by
  unfold coveringStep at h
  have hnone : (∀ present, schema.field (column ++ "_" ++ entry.1) ≠ .ok (.struct present)) →
      covering' = covering → (Declares covering' key f path ↔ Declares covering key f path ∨
        key = entry.1 ∧ f ∈ entry.2 ∧ schema.Holds (column ++ "_" ++ key) f ∧
          path = [column ++ "_" ++ key, f]) := by
    rintro hfield rfl
    refine ⟨.inl, fun hor => hor.resolve_right ?_⟩
    rintro ⟨rfl, -, hholds, -⟩
    exact not_holds hfield hholds
  by_cases hname : column ++ "_" ++ entry.1 ∉ schema.names
  · rw [if_pos hname] at h
    exact hnone (fun present hfield => hname (mem_names_of_field hfield)) (Except.ok.inj h).symm
  · rw [if_neg hname] at h
    cases hfield : schema.field (column ++ "_" ++ entry.1) with
    | error e =>
      rw [hfield] at h
      cases h
    | ok type =>
      rw [hfield] at h
      cases type with
      | struct present =>
        have hbounds : key = entry.1 ∧ (f, path) ∈ boundsIn (column ++ "_" ++ entry.1) entry.2 present ↔
            key = entry.1 ∧ f ∈ entry.2 ∧ schema.Holds (column ++ "_" ++ key) f ∧
              path = [column ++ "_" ++ key, f] := by
          rw [mem_boundsIn]
          constructor
          · rintro ⟨rfl, hf, hpresent, hpath⟩
            exact ⟨rfl, hf, ⟨present, hfield, hpresent⟩, hpath⟩
          · rintro ⟨rfl, hf, ⟨present', hfield', hpresent⟩, hpath⟩
            rw [hfield] at hfield'
            obtain rfl := ArrowType.struct.inj (Except.ok.inj hfield')
            exact ⟨rfl, hf, hpresent, hpath⟩
        rw [← hbounds]
        obtain rfl := Except.ok.inj h
        by_cases hnil : boundsIn (column ++ "_" ++ entry.1) entry.2 present = []
        · rw [if_neg (not_not.mpr hnil), hnil]
          simp
        · rw [if_pos hnil]
          exact declares_append
      | binary =>
        exact hnone (fun _ hfield' => by rw [hfield] at hfield'; cases hfield') (Except.ok.inj h).symm
      | largeBinary =>
        exact hnone (fun _ hfield' => by rw [hfield] at hfield'; cases hfield') (Except.ok.inj h).symm
      | other name =>
        exact hnone (fun _ hfield' => by rw [hfield] at hfield'; cases hfield') (Except.ok.inj h).symm

/-- What the keys add one after the other. -/
theorem coveringSteps_spec : ∀ {entries : List (String × List String)} {covering : Covering},
    entries.foldlM (coveringStep schema column) covering = .ok covering' → ∀ key f path,
      (Declares covering' key f path ↔ Declares covering key f path ∨
        ∃ fields, (key, fields) ∈ entries ∧ f ∈ fields ∧ schema.Holds (column ++ "_" ++ key) f ∧
          path = [column ++ "_" ++ key, f])
  | [], covering, h, key, f, path => by
    obtain rfl := Except.ok.inj h
    simp
  | entry :: entries, covering, h, key, f, path => by
    rw [List.foldlM_cons] at h
    cases hstep : coveringStep schema column covering entry with
    | error e =>
      rw [hstep] at h
      cases h
    | ok next =>
      rw [hstep] at h
      rw [coveringSteps_spec h, coveringStep_spec hstep, or_assoc]
      apply or_congr_right
      constructor
      · rintro (⟨rfl, hf⟩ | ⟨fields, hkey, hf⟩)
        · exact ⟨entry.2, List.mem_cons_self, hf⟩
        · exact ⟨fields, List.mem_cons_of_mem _ hkey, hf⟩
      · rintro ⟨fields, hkey, hf⟩
        rcases List.mem_cons.mp hkey with heq | hkey
        · obtain rfl := heq
          exact .inl ⟨rfl, hf⟩
        · exact .inr ⟨fields, hkey, hf⟩

/-- **`coverings_in_schema` names exactly what the file holds.** -/
theorem namesExactly_coveringsInSchema (h : coveringsInSchema schema column = .ok covering) :
    NamesExactly schema column (some covering) := by
  intro key f path
  rw [Option.getD_some, coveringSteps_spec h]
  simp [Declares]

/-- A covering that names nothing is an absent one. -/
theorem NamesExactly.congr {c c' : Option Covering} (h : NamesExactly schema column c)
    (heq : c.getD [] = c'.getD []) : NamesExactly schema column c' := by
  unfold NamesExactly at h ⊢
  rwa [← heq]

/-! ### What the check accepts -/

theorem refHeld_of_holds {target f : String} (h : schema.Holds target f) :
    refHeld schema [target, f] = .ok true := by
  obtain ⟨present, hfield, hf⟩ := h
  have hname := mem_names_of_field hfield
  simp [refHeld, hname, hfield, hf]

/-- A loop of checks that keeps what failed answers true exactly when every check does. -/
theorem foldlM_eq_true {α : Type} {f : Bool → α → Except PyError Bool}
    (hkeep : ∀ ok a, f ok a = .ok true → ok = true) : ∀ {l : List α} {ok : Bool},
      l.foldlM f ok = .ok true ↔ ok = true ∧ ∀ a ∈ l, f true a = .ok true
  | [], ok => by simp [pure, Except.pure]
  | a :: l, ok => by
    rw [List.foldlM_cons, List.forall_mem_cons]
    cases hstep : f ok a with
    | error e =>
      refine iff_of_false (fun h => nomatch h) ?_
      rintro ⟨rfl, ha, -⟩
      rw [hstep] at ha
      cases ha
    | ok next =>
      have hrest : l.foldlM f next = .ok true ↔ next = true ∧ ∀ a ∈ l, f true a = .ok true :=
        foldlM_eq_true hkeep
      refine hrest.trans ?_
      constructor
      · rintro ⟨rfl, hall⟩
        obtain rfl := hkeep ok a hstep
        exact ⟨rfl, hstep, hall⟩
      · rintro ⟨rfl, ha, hall⟩
        exact ⟨Except.ok.inj (hstep.symm.trans ha), hall⟩

/-- Every path of the covering names a field the file holds. -/
def HeldBy (schema : Schema) (covering : Covering) : Prop :=
  ∀ key f path, Declares covering key f path → refHeld schema path = .ok true

theorem heldBound_iff {ok : Bool} {ref : List String} :
    (refHeld schema ref).map (ok && ·) = .ok true ↔ ok = true ∧ refHeld schema ref = .ok true := by
  cases refHeld schema ref with
  | error e => simp [Except.map]
  | ok held => simp [Except.map]

/-- The covering check passes exactly when what the covering names is held. -/
theorem coveringHeld_eq_true {ok : Bool} :
    coveringHeld schema ok covering = .ok true ↔ ok = true ∧ HeldBy schema covering := by
  have hbounds : ∀ {bounds : List (String × List String)} {ok : Bool},
      bounds.foldlM (fun ok bound => (refHeld schema bound.2).map (ok && ·)) ok = .ok true ↔
        ok = true ∧ ∀ bound ∈ bounds, refHeld schema bound.2 = .ok true := by
    intro bounds ok
    rw [foldlM_eq_true fun ok bound h => (heldBound_iff.mp h).1]
    simp only [heldBound_iff, true_and]
  rw [coveringHeld, foldlM_eq_true fun ok entry h => (hbounds.mp h).1]
  simp only [hbounds, true_and]
  refine and_congr_right fun _ => ⟨?_, ?_⟩
  · rintro h key f path ⟨bounds, hkey, hf⟩
    exact h (key, bounds) hkey (f, path) hf
  · intro h entry hentry bound hbound
    exact h entry.1 bound.1 bound.2 ⟨entry.2, hentry, hbound⟩

theorem NamesExactly.heldBy {c : Option Covering} (h : NamesExactly schema column c) :
    HeldBy schema (c.getD []) := by
  intro key f path hdeclares
  obtain ⟨fields, -, -, hholds, rfl⟩ := (h key f path).mp hdeclares
  exact refHeld_of_holds hholds

end Coverings

/-! ### What a call writes -/

/-- What the footer gives back of a column: its covering, an empty one as none. -/
theorem exists_fromDict_toDict (colMeta : TemporalColumnMeta) :
    ∃ back, TemporalColumnMeta.fromDict colMeta.toDict = .ok back ∧
      back.covering.getD [] = colMeta.covering.getD [] := by
  refine ⟨_, rfl, ?_⟩
  change (if colMeta.covering = some [] then none else colMeta.covering).getD [] = _
  by_cases hempty : colMeta.covering = some []
  · rw [if_pos hempty, hempty]
    rfl
  · rw [if_neg hempty]

/-- A footer reads back as the columns it was made of. -/
theorem exists_fromJson_toJson (fileMeta : TemporalParquetMeta) :
    ∃ back, TemporalParquetMeta.fromJson fileMeta.toJson = .ok back ∧
      List.Forall₂ (fun column declared => declared.1 = column.1 ∧
        declared.2.covering.getD [] = column.2.covering.getD []) fileMeta.columns back.columns := by
  have hcolumns : ∀ columns : List (String × TemporalColumnMeta), ∃ back,
      (columns.map fun column => (column.1, column.2.toDict)).mapM (fun column => do
        return (column.1, ← TemporalColumnMeta.fromDict column.2)) =
          (Except.ok back : Except PyError _) ∧
      List.Forall₂ (fun column declared => declared.1 = column.1 ∧
        declared.2.covering.getD [] = column.2.covering.getD []) columns back := by
    intro columns
    induction columns with
    | nil => exact ⟨[], rfl, .nil⟩
    | cons column columns ih =>
      obtain ⟨back, hback, hcovering⟩ := exists_fromDict_toDict column.2
      obtain ⟨backs, hbacks, hall⟩ := ih
      refine ⟨(column.1, back) :: backs, ?_, .cons ⟨rfl, hcovering⟩ hall⟩
      rw [List.map_cons, List.mapM_cons, hback, hbacks]
      rfl
  obtain ⟨back, hback, hall⟩ := hcolumns fileMeta.columns
  refine ⟨⟨back, fileMeta.version, fileMeta.toJson.primaryTemporalColumn⟩, ?_, hall⟩
  rw [TemporalParquetMeta.fromJson, TemporalParquetMeta.toJson, hback]
  rfl

/-- What a call that ends well did. -/
theorem write_ok {s : State} {call : Call} (h : (temporalParquetWrite s call).2 = .ok ()) :
    ∃ table, s.files call.source = some table ∧
      validateColumns table.schema call.columns = .ok () ∧
      (inferCoverings table.schema call.columns s.objects).2 = .ok () ∧
      (temporalParquetWrite s call).1.objects =
        (inferCoverings table.schema call.columns s.objects).1 ∧
      ∃ file fileMeta, (temporalParquetWrite s call).1.files call.dest = some file ∧
        file.schema = table.schema ∧ temporalParquetReadMeta file = .ok (some fileMeta) ∧
        List.Forall₂ (fun column declared => declared.1 = column.1 ∧ declared.2.covering.getD [] =
            ((temporalParquetWrite s call).1.objects column.2).covering.getD [])
          call.columns fileMeta.columns := by
  unfold temporalParquetWrite at h ⊢
  cases htable : s.files call.source with
  | none =>
    rw [htable] at h
    cases h
  | some table =>
    rw [htable] at h
    cases hvalid : validateColumns table.schema call.columns with
    | error e =>
      simp only [hvalid] at h
      cases h
    | ok =>
      simp only [hvalid] at h
      cases hinfer : (inferCoverings table.schema call.columns s.objects).2 with
      | error e =>
        simp only [hinfer] at h
        cases h
      | ok =>
        refine ⟨table, rfl, hvalid, hinfer, ?_⟩
        simp only [hvalid, hinfer]
        obtain ⟨back, hback, hall⟩ := exists_fromJson_toJson {
          columns := call.columns.map fun column =>
            (column.1, (inferCoverings table.schema call.columns s.objects).1 column.2)
          primaryTemporalColumn := call.primary }
        refine ⟨trivial, _, back, Function.update_self .., rfl, ?_, ?_⟩
        · exact congrArg (Except.map some) hback
        · exact List.forall₂_map_left_iff.mp hall

/-! ### What a call leaves of the caller's objects -/

section Infer

variable {schema : Schema}

/-- An object with a covering is not touched. -/
theorem inferCoverings_keeps (schema : Schema) : ∀ (columns : List (String × ℕ))
    (objects : ℕ → TemporalColumnMeta) {o : ℕ}, (objects o).covering ≠ none → (inferCoverings schema columns objects).1 o = objects o
  | [], _, _, _ => rfl
  | column :: columns, objects, o, ho => by
    rw [inferCoverings]
    by_cases hnone : (objects column.2).covering = none
    · rw [if_pos hnone]
      cases coveringsInSchema schema column.1 with
      | error e => rfl
      | ok covering =>
        have hne : o ≠ column.2 := by
          rintro rfl
          exact ho hnone
        have hsame : ∀ covering : Option Covering,
            Function.update objects column.2 { objects column.2 with covering } o = objects o :=
          fun _ => Function.update_of_ne hne ..
        have hkeep := inferCoverings_keeps schema columns
          (Function.update objects column.2
            { objects column.2 with covering := if covering ≠ [] then some covering else none })
          (by rwa [hsame] : _ ≠ none)
        exact hkeep.trans (hsame _)
    · rw [if_neg hnone]
      exact inferCoverings_keeps schema columns objects ho

/-- An object that the call does not name is not touched. -/
theorem inferCoverings_of_not_mem : ∀ {columns : List (String × ℕ)}
    {objects : ℕ → TemporalColumnMeta} {o : ℕ}, o ∉ columns.map (·.2) →
      (inferCoverings schema columns objects).1 o = objects o
  | [], _, _, _ => rfl
  | column :: columns, objects, o, ho => by
    rw [List.map_cons, List.mem_cons, not_or] at ho
    rw [inferCoverings]
    by_cases hnone : (objects column.2).covering = none
    · rw [if_pos hnone]
      cases coveringsInSchema schema column.1 with
      | error e => rfl
      | ok covering =>
        exact (inferCoverings_of_not_mem ho.2).trans (Function.update_of_ne ho.1 ..)
    · rw [if_neg hnone]
      exact inferCoverings_of_not_mem ho.2

/-- The loop finds no covering to infer, up to a name that the schema has twice. -/
def NoneInferred (schema : Schema) (objects : ℕ → TemporalColumnMeta) : List (String × ℕ) → Prop
  | [] => True
  | column :: columns =>
    if (objects column.2).covering = none then
      match coveringsInSchema schema column.1 with
      | .error _ => True
      | .ok covering => covering = [] ∧ NoneInferred schema objects columns
    else NoneInferred schema objects columns

/-- **The loop leaves the objects as they were exactly when it finds nothing to infer.** The induction
is on the columns; what is stored into an object stays there. -/
theorem inferCoverings_objects_iff : ∀ {columns : List (String × ℕ)} {objects : ℕ → TemporalColumnMeta},
    (inferCoverings schema columns objects).1 = objects ↔ NoneInferred schema objects columns
  | [], _ => by simp [inferCoverings, NoneInferred]
  | column :: columns, objects => by
    rw [inferCoverings, NoneInferred]
    by_cases hnone : (objects column.2).covering = none
    · rw [if_pos hnone, if_pos hnone]
      cases coveringsInSchema schema column.1 with
      | error e => simp
      | ok covering =>
        by_cases hnil : covering = []
        · have hsame : Function.update objects column.2 { objects column.2 with covering := none } =
              objects := by
            rw [← hnone]
            exact Function.update_eq_self ..
          simp only [hnil, ne_eq, not_true_eq_false, if_false, hsame, true_and]
          exact inferCoverings_objects_iff
        · simp only [hnil, ne_eq, not_false_eq_true, if_true, false_and, iff_false]
          intro hobjects
          have hset : (Function.update objects column.2
              { objects column.2 with covering := some covering } column.2).covering ≠ none := by
            simp
          have hstored := inferCoverings_keeps schema columns _ hset
          rw [hobjects, Function.update_self] at hstored
          rw [hstored] at hnone
          cases hnone
    · rw [if_neg hnone, if_neg hnone]
      exact inferCoverings_objects_iff

/-- Where nothing is inferred, a column without a covering has no covering field in the file. -/
theorem coveringsInSchema_of_noneInferred {objects : ℕ → TemporalColumnMeta} :
    ∀ {columns : List (String × ℕ)}, NoneInferred schema objects columns →
      (inferCoverings schema columns objects).2 = .ok () →
      ∀ column ∈ columns, (objects column.2).covering = none →
        coveringsInSchema schema column.1 = .ok []
  | column :: columns, hnone, hok, c, hc, hcovering => by
    rw [NoneInferred] at hnone
    rw [inferCoverings] at hok
    by_cases hcolumn : (objects column.2).covering = none
    · rw [if_pos hcolumn] at hnone hok
      cases hin : coveringsInSchema schema column.1 with
      | error e =>
        rw [hin] at hok
        cases hok
      | ok covering =>
        rw [hin] at hnone hok
        obtain ⟨rfl, hnone⟩ := hnone
        have hsame : Function.update objects column.2 { objects column.2 with covering := none } =
            objects := by
          rw [← hcolumn]
          exact Function.update_eq_self ..
        simp only [ne_eq, not_true_eq_false, if_false, hsame] at hok
        rcases List.mem_cons.mp hc with rfl | hc
        · exact hin
        · exact coveringsInSchema_of_noneInferred hnone hok c hc hcovering
    · rw [if_neg hcolumn] at hnone hok
      rcases List.mem_cons.mp hc with rfl | hc
      · exact absurd hcovering hcolumn
      · exact coveringsInSchema_of_noneInferred hnone hok c hc hcovering

/-- Objects used once each, without a covering, come out with the covering of their column. -/
theorem inferCoverings_fresh : ∀ {columns : List (String × ℕ)} {objects : ℕ → TemporalColumnMeta},
    (columns.map (·.2)).Nodup → (∀ column ∈ columns, (objects column.2).covering = none) →
      (inferCoverings schema columns objects).2 = .ok () → ∀ column ∈ columns, ∃ covering,
        coveringsInSchema schema column.1 = .ok covering ∧
          ((inferCoverings schema columns objects).1 column.2).covering.getD [] = covering
  | column :: columns, objects, hnodup, hnone, hok, c, hc => by
    rw [List.map_cons, List.nodup_cons] at hnodup
    rw [inferCoverings, if_pos (hnone column List.mem_cons_self)] at hok ⊢
    cases hin : coveringsInSchema schema column.1 with
    | error e =>
      rw [hin] at hok
      cases hok
    | ok covering =>
      simp only [hin] at hok ⊢
      rcases List.mem_cons.mp hc with rfl | hc
      · refine ⟨covering, hin, ?_⟩
        rw [inferCoverings_of_not_mem hnodup.1, Function.update_self]
        by_cases hnil : covering = []
        · simp [hnil]
        · simp [hnil]
      · apply inferCoverings_fresh hnodup.2 _ hok c hc
        intro d hd
        have hne : d.2 ≠ column.2 := by
          intro heq
          exact hnodup.1 (heq ▸ List.mem_map_of_mem hd)
        rw [Function.update_of_ne hne]
        exact hnone d (List.mem_cons_of_mem _ hd)

end Infer

/-! ### Verifying what was written -/

theorem field_of_validateColumns {schema : Schema} : ∀ {columns : List (String × ℕ)},
    validateColumns schema columns = .ok () →
      ∀ column ∈ columns, ∃ type, schema.field column.1 = .ok type ∧ type.IsBinary
  | column :: columns, h, c, hc => by
    rw [validateColumns] at h
    by_cases hname : column.1 ∉ schema.names
    · rw [if_pos hname] at h
      cases h
    · rw [if_neg hname] at h
      cases hfield : schema.field column.1 with
      | error e =>
        rw [hfield] at h
        cases h
      | ok type =>
        simp only [hfield] at h
        by_cases hbinary : type ≠ .largeBinary ∧ type ≠ .binary
        · rw [if_pos hbinary] at h
          cases h
        · rw [if_neg hbinary] at h
          rcases List.mem_cons.mp hc with rfl | hc
          · refine ⟨type, hfield, ?_⟩
            by_contra hnot
            obtain ⟨hsmall, hlarge⟩ := not_or.mp hnot
            exact hbinary ⟨hlarge, hsmall⟩
          · exact field_of_validateColumns h c hc

/-- Bytes have lengths. -/
theorem exists_sampleBytes {file : ParquetFile} {name : String} {type : ArrowType}
    (hfield : file.schema.field name = .ok type) (hbinary : type.IsBinary) :
    ∃ lengths, file.sampleBytes name = .ok lengths := by
  have hlen : ∀ vs : List PyValue, (∀ v ∈ vs, ∃ data, v = .bytes data) →
      ∃ lengths, vs.mapM PyValue.len = .ok lengths := by
    intro vs
    induction vs with
    | nil => exact fun _ => ⟨[], rfl⟩
    | cons v vs ih =>
      intro h
      obtain ⟨data, rfl⟩ := h v List.mem_cons_self
      obtain ⟨lengths, hlengths⟩ := ih fun w hw => h w (List.mem_cons_of_mem _ hw)
      exact ⟨data.length :: lengths, by rw [List.mapM_cons, hlengths]; rfl⟩
  apply hlen
  intro v hv
  have hcell := List.mem_filterMap.mp (List.mem_of_mem_take hv)
  obtain ⟨cell, hcell, rfl⟩ := hcell
  exact file.bytes_of_binary name type hfield hbinary v hcell

/-- Of a binary column only the covering is checked. -/
theorem verifyColumn_of_binary {file : ParquetFile} {column : String × TemporalColumnMeta} {type : ArrowType}
    (hfield : file.schema.field column.1 = .ok type) (hbinary : type.IsBinary) (ok : Bool) :
    file.verifyColumn ok column = coveringHeld file.schema ok (column.2.covering.getD []) := by
  obtain ⟨lengths, hlengths⟩ := exists_sampleBytes hfield hbinary
  rw [ParquetFile.verifyColumn, hfield, hlengths]
  rfl

/-- **A file of binary columns passes exactly when it holds what its coverings name.** -/
theorem verify_iff_heldBy {file : ParquetFile} {fileMeta : TemporalParquetMeta}
    (hread : temporalParquetReadMeta file = .ok (some fileMeta))
    (hbinary : ∀ column ∈ fileMeta.columns, ∃ type, file.schema.field column.1 = .ok type ∧ type.IsBinary) :
    temporalParquetVerify file = .ok true ↔
      ∀ column ∈ fileMeta.columns, HeldBy file.schema (column.2.covering.getD []) := by
  have hkeep : ∀ ok column, file.verifyColumn ok column = .ok true → ok = true := by
    intro ok column h
    unfold ParquetFile.verifyColumn at h
    cases hfield : file.schema.field column.1 with
    | error e =>
      rw [hfield] at h
      cases h
    | ok type =>
      cases hsample : file.sampleBytes column.1 with
      | error e =>
        rw [hfield, hsample] at h
        cases h
      | ok lengths =>
        rw [hfield, hsample] at h
        exact (coveringHeld_eq_true.mp h).1
  have hverify : temporalParquetVerify file = fileMeta.columns.foldlM file.verifyColumn true := by
    rw [temporalParquetVerify, hread]
    rfl
  rw [hverify, foldlM_eq_true hkeep]
  simp only [true_and]
  refine forall₂_congr fun column hcolumn => ?_
  obtain ⟨type, hfield, htype⟩ := hbinary column hcolumn
  rw [verifyColumn_of_binary hfield htype, coveringHeld_eq_true]
  simp only [true_and]

/-! ### Calls and runs of calls -/

/-- The call is right for a caller who gave these metadata. -/
structure CallRight (given : ℕ → TemporalColumnMeta) (s : State) (call : Call) : Prop where
  kept : (temporalParquetWrite s call).1.objects = s.objects
  footer : (temporalParquetWrite s call).2 = .ok () → ∃ file fileMeta,
    (temporalParquetWrite s call).1.files call.dest = some file ∧
      temporalParquetReadMeta file = .ok (some fileMeta) ∧
        List.Forall₂ (fun column declared => declared.1 = column.1 ∧ ((given column.2).covering = none →
          NamesExactly file.schema column.1 declared.2.covering)) call.columns fileMeta.columns
  accepted : (temporalParquetWrite s call).2 = .ok () →
    ∃ file, (temporalParquetWrite s call).1.files call.dest = some file ∧
      temporalParquetVerify file = .ok true

/-- The call finds no covering to infer: for every column whose metadata declare none, the file it reads
holds no covering field. -/
def NothingToInfer (s : State) (call : Call) : Prop :=
  ∀ table, s.files call.source = some table → validateColumns table.schema call.columns = .ok () →
    NoneInferred table.schema s.objects call.columns

/-- The file the call reads holds every covering its metadata declare, where the other columns have no
covering field there. -/
def GivenHeld (s : State) (call : Call) : Prop :=
  ∀ table, s.files call.source = some table → validateColumns table.schema call.columns = .ok () →
    (∀ column ∈ call.columns, (s.objects column.2).covering = none →
      coveringsInSchema table.schema column.1 = .ok []) →
    ∀ column ∈ call.columns, HeldBy table.schema ((s.objects column.2).covering.getD [])

/-- A caller that goes on, whether or not the call raised. -/
def callStep (s : State) (call : Call) : Except PyError State := .ok (temporalParquetWrite s call).1

theorem write_objects_iff (s : State) (call : Call) :
    (temporalParquetWrite s call).1.objects = s.objects ↔ NothingToInfer s call := by
  unfold NothingToInfer temporalParquetWrite
  cases htable : s.files call.source with
  | none => simp
  | some table =>
    cases hvalid : validateColumns table.schema call.columns with
    | error e => simp [hvalid]
    | ok =>
      have hobjects : (inferCoverings table.schema call.columns s.objects).1 = s.objects ↔
          NoneInferred table.schema s.objects call.columns := inferCoverings_objects_iff
      cases hinfer : (inferCoverings table.schema call.columns s.objects).2 with
      | error e => simpa [hvalid, hinfer] using hobjects
      | ok => simpa [hvalid, hinfer] using hobjects

/-- Of the columns a call names, each with what the footer declares of it. -/
theorem exists_of_forall₂ {α β : Type} {R : α → β → Prop} {l : List α} {l' : List β}
    (h : List.Forall₂ R l l') : ∀ b ∈ l', ∃ a ∈ l, R a b := by
  induction h with
  | nil =>
    intro b hb
    cases hb
  | cons hab _ ih =>
    intro b hb
    rcases List.mem_cons.mp hb with rfl | hb
    · exact ⟨_, List.mem_cons_self, hab⟩
    · obtain ⟨a, ha, hr⟩ := ih b hb
      exact ⟨a, List.mem_cons_of_mem _ ha, hr⟩

/-- A call whose columns come out of the loop with the covering of the file declares it, and the file
passes when it holds what the objects then declare. -/
theorem exists_file_of_covering {s : State} {call : Call} (p : String × ℕ → Prop)
    (hok : (temporalParquetWrite s call).2 = .ok ())
    (h : ∀ table, s.files call.source = some table →
      (inferCoverings table.schema call.columns s.objects).2 = .ok () →
      ∀ column ∈ call.columns, p column → ∃ covering,
        coveringsInSchema table.schema column.1 = .ok covering ∧
          ((inferCoverings table.schema call.columns s.objects).1 column.2).covering.getD [] =
            covering) :
    ∃ table file fileMeta, s.files call.source = some table ∧ file.schema = table.schema ∧
      (temporalParquetWrite s call).1.files call.dest = some file ∧
      temporalParquetReadMeta file = .ok (some fileMeta) ∧
        List.Forall₂ (fun column declared => declared.1 = column.1 ∧
          (p column → NamesExactly file.schema column.1 declared.2.covering))
            call.columns fileMeta.columns ∧
        (temporalParquetVerify file = .ok true ↔ ∀ column ∈ call.columns,
          HeldBy table.schema (((temporalParquetWrite s call).1.objects column.2).covering.getD [])) := by
  obtain ⟨table, htable, hvalid, hinfer, hobjects, file, fileMeta, hfile, hschema, hread, hall⟩ :=
    write_ok hok
  have hmem := (List.forall₂_and_left _ _).mpr ⟨fun column hcolumn => hcolumn, hall⟩
  refine ⟨table, file, fileMeta, htable, hschema, hfile, hread, ?_, ?_⟩
  · refine hmem.imp fun column declared hdeclared => ?_
    obtain ⟨hcolumn, hname, hcovering⟩ := hdeclared
    refine ⟨hname, fun hp => ?_⟩
    obtain ⟨covering, hin, hcov⟩ := h table htable hinfer column hcolumn hp
    rw [hschema]
    exact (namesExactly_coveringsInSchema hin).congr (by rw [hcovering, hobjects, hcov, Option.getD_some])
  · have hbinary : ∀ declared ∈ fileMeta.columns,
        ∃ type, file.schema.field declared.1 = .ok type ∧ type.IsBinary := by
      intro declared hdeclared
      obtain ⟨column, hcolumn, hname, -⟩ := exists_of_forall₂ hall declared hdeclared
      rw [hname, hschema]
      exact field_of_validateColumns hvalid column hcolumn
    rw [verify_iff_heldBy hread hbinary, hschema]
    constructor
    · intro hheld column hcolumn
      obtain ⟨declared, hdeclared, -, hcovering⟩ := exists_of_forall₂ hall.flip column hcolumn
      rw [← hcovering]
      exact hheld declared hdeclared
    · intro hheld declared hdeclared
      obtain ⟨column, hcolumn, -, hcovering⟩ := exists_of_forall₂ hall declared hdeclared
      rw [hcovering]
      exact hheld column hcolumn

/-- With objects used once each and without a covering, the footer declares what the file holds,
whatever that is, and the file passes. -/
theorem footer_of_fresh {s : State} {call : Call} (hok : (temporalParquetWrite s call).2 = .ok ())
    (hnodup : (call.columns.map (·.2)).Nodup)
    (hnone : ∀ column ∈ call.columns, (s.objects column.2).covering = none) :
    ∃ file fileMeta, (temporalParquetWrite s call).1.files call.dest = some file ∧
      temporalParquetReadMeta file = .ok (some fileMeta) ∧
        List.Forall₂ (fun column declared => declared.1 = column.1 ∧
          NamesExactly file.schema column.1 declared.2.covering) call.columns fileMeta.columns ∧
        temporalParquetVerify file = .ok true := by
  have hfresh := fun table (_ : s.files call.source = some table) hinfer column hcolumn (_ : True) =>
    @inferCoverings_fresh table.schema call.columns s.objects hnodup hnone hinfer column hcolumn
  obtain ⟨table, file, fileMeta, htable, hschema, hfile, hread, hnames, haccepted⟩ :=
    exists_file_of_covering (fun _ => True) hok hfresh
  refine ⟨file, fileMeta, hfile, hread, hnames.imp fun column declared h => ⟨h.1, h.2 trivial⟩, ?_⟩
  apply haccepted.mpr
  obtain ⟨table', htable', -, hinfer, hobjects, -⟩ := write_ok hok
  obtain rfl := Option.some.inj (htable.symm.trans htable')
  intro column hcolumn
  obtain ⟨covering, hin, hcov⟩ := hfresh table htable hinfer column hcolumn trivial
  rw [hobjects, hcov]
  exact (namesExactly_coveringsInSchema hin).heldBy

section CallRight

variable {s : State} {call : Call}

/-- A call succeeds where its columns are valid and those without a covering have no covering field in the
file. -/
theorem write_ok_of_nothing {table : ParquetFile}
    (htable : s.files call.source = some table) (hvalid : validateColumns table.schema call.columns = .ok ())
    (hnone : ∀ column ∈ call.columns, (s.objects column.2).covering = none →
      coveringsInSchema table.schema column.1 = .ok []) :
    (temporalParquetWrite s call).2 = .ok () := by
  have hinfer : ∀ columns : List (String × ℕ), (∀ column ∈ columns, (s.objects column.2).covering = none →
      coveringsInSchema table.schema column.1 = .ok []) →
        inferCoverings table.schema columns s.objects = (s.objects, .ok ()) := by
    intro columns
    induction columns with
    | nil => exact fun _ => rfl
    | cons column columns ih =>
      intro hcolumns
      have hrest := ih fun c hc => hcolumns c (List.mem_cons_of_mem _ hc)
      rw [inferCoverings]
      by_cases hcovering : (s.objects column.2).covering = none
      · have hsame : Function.update s.objects column.2 { s.objects column.2 with covering := none } =
            s.objects := by
          rw [← hcovering]
          exact Function.update_eq_self ..
        rw [if_pos hcovering, hcolumns column List.mem_cons_self hcovering]
        simp only [ne_eq, not_true_eq_false, if_false, hsame]
        exact hrest
      · rw [if_neg hcovering]
        exact hrest
  unfold temporalParquetWrite
  simp only [htable, hvalid, hinfer call.columns hnone]

/-- A call is right exactly when it finds nothing to infer and the file holds what is given. -/
theorem callRight_iff (s : State) (call : Call) :
    CallRight s.objects s call ↔ NothingToInfer s call ∧ GivenHeld s call := by
  have hwritten := fun (h : NothingToInfer s call) (hok : (temporalParquetWrite s call).2 = .ok ()) =>
    exists_file_of_covering (fun column => (s.objects column.2).covering = none) hok
      fun table htable hinfer column hcolumn hp => by
      obtain ⟨table', htable', hvalid, -⟩ := write_ok hok
      obtain rfl := Option.some.inj (htable.symm.trans htable')
      have hnone := h table htable hvalid
      refine ⟨[], coveringsInSchema_of_noneInferred hnone hinfer column hcolumn hp, ?_⟩
      rw [inferCoverings_objects_iff.mpr hnone, hp]
      rfl
  constructor
  · intro h
    have hnothing := (write_objects_iff s call).mp h.kept
    refine ⟨hnothing, fun table htable hvalid hnone => ?_⟩
    have hok := write_ok_of_nothing htable hvalid hnone
    obtain ⟨table', file, fileMeta, htable', -, hfile, -, -, hverify⟩ := hwritten hnothing hok
    obtain rfl := Option.some.inj (htable.symm.trans htable')
    obtain ⟨file', hfile', haccepted⟩ := h.accepted hok
    obtain rfl := Option.some.inj (hfile.symm.trans hfile')
    rw [h.kept] at hverify
    exact hverify.mp haccepted
  · rintro ⟨h, hheld⟩
    refine ⟨(write_objects_iff s call).mpr h, fun hok => ?_, fun hok => ?_⟩
    · obtain ⟨-, file, fileMeta, -, -, hfile, hread, hnames, -⟩ := hwritten h hok
      exact ⟨file, fileMeta, hfile, hread, hnames⟩
    · obtain ⟨table, file, -, htable, -, hfile, -, -, hverify⟩ := hwritten h hok
      refine ⟨file, hfile, hverify.mpr ?_⟩
      obtain ⟨table', htable', hvalid, hinfer, -⟩ := write_ok hok
      obtain rfl := Option.some.inj (htable.symm.trans htable')
      rw [(write_objects_iff s call).mpr h]
      exact hheld table htable hvalid fun column hcolumn hp =>
        coveringsInSchema_of_noneInferred (h table htable hvalid) hinfer column hcolumn hp

end CallRight

/-- **A run of calls is right, for the metadata it starts with, exactly when no call of it finds a
covering to infer and each file holds the coverings that are given.** The induction is on the calls: a
right call hands its objects on as they were. -/
theorem calls_right_iff : ∀ (calls : List Call) (s : State),
    Along callStep (CallRight s.objects) s calls ↔
      Along callStep (fun s call => NothingToInfer s call ∧ GivenHeld s call) s calls
  | [], _ => Iff.rfl
  | call :: calls, s => by
    have hrest : NothingToInfer s call →
        (Along callStep (CallRight s.objects) (temporalParquetWrite s call).1 calls ↔
          Along callStep (fun s call => NothingToInfer s call ∧ GivenHeld s call)
            (temporalParquetWrite s call).1 calls) := by
      intro h
      have hkept := (write_objects_iff s call).mpr h
      have ih := calls_right_iff calls (temporalParquetWrite s call).1
      rwa [hkept] at ih
    constructor
    · intro h
      have hcall := (callRight_iff s call).mp h.1
      refine ⟨hcall, fun s' hs' => ?_⟩
      obtain rfl := Except.ok.inj hs'
      exact (hrest hcall.1).mp (h.2 _ rfl)
    · intro h
      refine ⟨(callRight_iff s call).mpr h.1, fun s' hs' => ?_⟩
      obtain rfl := Except.ok.inj hs'
      exact (hrest h.1.1).mpr (h.2 _ rfl)

/-- A file without rows and without a footer. -/
def emptyFile (schema : Schema) : ParquetFile := ⟨schema, fun _ => [], none, by simp⟩

/-- Two files, one with a bounding box column and one without, and one metadata object for both. -/
def sharedState : State where
  objects := fun _ => { baseType := "tgeompoint" }
  files := fun path =>
    if path = "boxed.parquet" then
      some (emptyFile ⟨[("traj", .binary), ("traj_bbox", .struct ["xmin", "ymin", "xmax", "ymax"])]⟩)
    else if path = "plain.parquet" then some (emptyFile ⟨[("traj", .binary)]⟩)
    else none

def annotateCall (path : String) : Call := ⟨path, path, [("traj", 0)], by simp, none⟩

/-- The second file is written with the covering of the first one, which it does not hold. -/
theorem sharedMetadata_wrong :
    ((temporalParquetWrite (temporalParquetWrite sharedState (annotateCall "boxed.parquet")).1
        (annotateCall "plain.parquet")).1.files "plain.parquet").map temporalParquetVerify =
          some (.ok false) ∧
      ¬ Along callStep (CallRight sharedState.objects) sharedState
        [annotateCall "boxed.parquet", annotateCall "plain.parquet"] := by
  refine ⟨rfl, fun h => ?_⟩
  have hkept := congrArg (fun objects => (objects 0).covering) h.1.kept
  revert hkept
  decide

end ParquetTool
end MobilityDuck
