/-
# The index: a tree, a filter of deleted rows, and the chain behind them

`TRTreeIndex` and `TSPTreeIndex` are one design over two MEOS trees. `append`
derives a box per row and puts it both into the tree and into the chain;
`delete` cannot take a row out of the tree, so it remembers the id in
`deleted` and tombstones the chain; `search` asks the tree and drops the
deleted; `reload` builds a new tree from the chain. The two types differ only
in how `reload` feeds the tree (`IndexInfo.rebuild`).

Key definitions: `Meos`, `IndexInfo`, `Index`, `Index.append`,
`Index.delete`, `Index.reload`, `Index.search`.
-/
import MobilityDuck.EntryStore
import MobilityDuck.IndexSearchOps

namespace MobilityDuck

/-! ### MEOS -/

/-- What the index uses of MEOS, over boxes of `n` bytes. A tree is known by the pairs put into it
(`entries`); `satisfies op b q` is the comparison of a stored box with a query box. -/
structure Meos (n : ℕ) where
  tspatialToStbox : List UInt8 → Except String (Option (Box n))
  stboxSrid : Box n → Except String ℤ
  stboxSetSrid : Box n → ℤ → Except String (Option (Box n))
  /-- `temporal_set_bbox` into zeroed memory. -/
  temporalSetBbox : List UInt8 → Except String (Box n)
  /-- `MEOS_FLAGS_GET_X`. -/
  hasX : Box n → Bool
  /-- A `Span` of time with both bounds at an instant, inclusive. -/
  spanAt : Int64 → Box n
  /-- The number of a type in the enumeration of MEOS. -/
  typeNumber : MeosType → ℕ
  satisfies : IndexSearchOp → Box n → Box n → Bool
  Tree : Type
  create : Tree
  insert : Tree → Box n → RowId → Tree
  load : Tree → Log n → Option Tree
  search : Tree → IndexSearchOp → Box n → Except String (List RowId)
  entries : Tree → Log n

/-- The documented behaviour of a tree: it keeps every pair put into it, and a search returns the id
of each pair whose box satisfies the operation, once per pair. -/
structure Meos.Lawful {n : ℕ} (meos : Meos n) : Prop where
  entries_create : meos.entries meos.create = []
  entries_insert : ∀ t b id, (meos.entries (meos.insert t b id)).Perm (meos.entries t ++ [(id, b)])
  entries_load : ∀ t l t', meos.load t l = some t' → (meos.entries t').Perm (meos.entries t ++ l)
  search_exact : ∀ t op q, ∃ ids, meos.search t op q = .ok ids ∧
    ids.Perm (((meos.entries t).filter fun e => meos.satisfies op e.2 q).map (·.1))

/-- MEOS with the pairs of a tree in a list, for boxes whose bytes are compared whole: two of them
overlap when they are the same. -/
def Meos.listed (n : ℕ) : Meos n where
  tspatialToStbox _ := .ok none
  stboxSrid _ := .ok 0
  stboxSetSrid b _ := .ok (some b)
  temporalSetBbox data := .ok (Box.copy n data)
  hasX _ := true
  spanAt t := Box.copy n (Lib.encodeInt64 t)
  typeNumber _ := 0
  satisfies op b q := (op = .same || op = .overlaps) && b = q
  Tree := Log n
  create := []
  insert t b id := t ++ [(id, b)]
  load t l := some (t ++ l)
  search t op q := .ok ((t.filter fun e => (op = .same || op = .overlaps) && e.2 = q).map (·.1))
  entries t := t

theorem Meos.listed_lawful (n : ℕ) : (Meos.listed n).Lawful where
  entries_create := rfl
  entries_insert _ _ _ := List.Perm.refl _
  entries_load t l t' h := by
    obtain rfl := Option.some.inj h
    exact List.Perm.refl _
  search_exact _ _ _ := ⟨_, rfl, List.Perm.refl _⟩

/-! ### The index -/

/-- The two index types. -/
inductive IndexType
  | trtree
  | tsptree
  deriving DecidableEq, Repr

/-- `TYPE_NAME`. -/
def IndexType.typeName : IndexType → String
  | .trtree => "TRTREE"
  | .tsptree => "TSPTREE"

/-- What an index is created with, and keeps: its storage column, the column's type and the kind of
box that type has. -/
structure IndexInfo where
  name : String
  indexType : IndexType
  columnIds : List ℕ
  columnType : LogicalType
  bboxType : MeosType
  bboxType_eq : bboxTypeOf columnType = some bboxType

/-- An index over a column of integer spans. -/
def IndexInfo.intspan (indexType : IndexType) : IndexInfo :=
  ⟨"i", indexType, [0], .intspan, .intspan, rfl⟩

/-- `LogicalType::ToString`. -/
def LogicalType.toString (type : LogicalType) : String :=
  if type.aliasName ≠ "" then type.aliasName
  else
    match type.id with
    | .boolean => "BOOLEAN"
    | .integer => "INTEGER"
    | .bigint => "BIGINT"
    | .double => "DOUBLE"
    | .varchar => "VARCHAR"
    | .date => "DATE"
    | .timestampTz => "TIMESTAMP WITH TIME ZONE"
    | .blob => "BLOB"
    | .other => "UNKNOWN"

/-- The checks of the constructor. -/
def IndexInfo.create (name : String) (indexType : IndexType) (columnIds : List ℕ)
    (types : List LogicalType) :
    Except Exception IndexInfo :=
  match types with
  | [type] =>
    match h : bboxTypeOf type with
    | some bboxType => .ok ⟨name, indexType, columnIds, type, bboxType, h⟩
    | none => .error (.binder (indexType.typeName ++ " index supports stbox, tbox, the five span types, and the " ++
        "temporal types (tint, tfloat, tbool, ttext, tgeompoint, tgeogpoint, " ++
        "tgeometry, tgeography). Got: " ++ type.toString))
  | _ => .error (.binder ("A " ++ indexType.typeName ++ " index covers a single column, and this one names " ++
      toString types.length ++ ". Create one index per column."))

/-- An index over boxes of `n` bytes. While `bulkConstruct` is set, pairs gather in `bulk` instead of
entering the tree. -/
structure Index {n : ℕ} (meos : Meos n) where
  info : IndexInfo
  tree : meos.Tree
  deleted : Finset RowId
  store : EntryStore n
  bulkConstruct : Bool
  bulk : Log n

/-- A row of an append: its id, and the value of the indexed column unless it is `NULL`. -/
abbrev IndexedRow := RowId × Option (List UInt8)

variable {n : ℕ} (meos : Meos n)

/-- A call into MEOS; what it raises becomes an exception of the query. -/
def callMeos {α : Type} : Except String α → Except Exception α
  | .ok a => .ok a
  | .error message => .error (.meos message)

/-- `if (stbox_srid(box) != 0) box = stbox_set_srid(box, 0)`. -/
def normalizeStbox (b : Box n) : Except Exception (Box n) := do
  let srid ← callMeos (meos.stboxSrid b)
  if srid = 0 then pure b
  else
    let normalized ← callMeos (meos.stboxSetSrid b 0)
    pure (normalized.getD b)

/-- The box `Construct` indexes a value under; `none` skips the row. -/
def deriveBox (info : IndexInfo) (data : List UInt8) : Except Exception (Option (Box n)) :=
  if info.columnType.id ≠ .blob then pure none
  else if indexesTemporal info.columnType then
    if info.bboxType = .stbox then do
      match ← callMeos (meos.tspatialToStbox data) with
      | none => pure none
      | some b => some <$> normalizeStbox meos b
    else some <$> callMeos (meos.temporalSetBbox data)
  else if data.length ≠ n then pure none
  else if info.bboxType = .stbox then some <$> normalizeStbox meos (Box.copy n data)
  else pure (some (Box.copy n data))

namespace Index

variable {meos} (alloc : Allocation n)

/-- A new index. -/
def new (meos : Meos n) (info : IndexInfo) (memory : ℕ → Segment n) : Index meos :=
  ⟨info, meos.create, ∅, .empty memory, false, []⟩

/-- The end of `Construct`'s loop body: the pair goes to the tree, or to the pairs gathered for it,
and `RecordEntry` puts it into the chain and clears its id from the filter. -/
def putEntry (s : Index meos) (e : RowId × Box n) : Index meos :=
  { s with
    tree := if s.bulkConstruct then s.tree else meos.insert s.tree e.2 e.1
    bulk := if s.bulkConstruct then s.bulk ++ [e] else s.bulk
    store := s.store.recordEntry alloc e.1 e.2
    deleted := s.deleted.erase e.1 }

/-- `Construct`. A value MEOS refuses raises; the rows before it stay indexed. -/
def construct (s : Index meos) : List IndexedRow → Index meos × Option Exception
  | [] => (s, none)
  | (_, none) :: rows => s.construct rows
  | (id, some data) :: rows =>
    match deriveBox meos s.info data with
    | .error e => (s, some e)
    | .ok none => s.construct rows
    | .ok (some b) => (s.putEntry alloc (id, b)).construct rows
  termination_by structural rows => rows

/-- `Append` and `Insert`. -/
def append (s : Index meos) (rows : List IndexedRow) : Index meos × Option Exception :=
  s.construct alloc rows

/-- `Delete`. -/
def delete (s : Index meos) (ids : List (Option RowId)) : Except Exception (Index meos) :=
  let removed := (ids.filterMap id).toFinset
  if removed = ∅ then .ok s
  else (s.store.tombstoneEntries removed).map fun store =>
    { s with deleted := s.deleted ∪ removed, store := store }

/-- `Search`. An exception of MEOS is printed, and leaves no row. -/
def search (s : Index meos) (q : Box n) (op : IndexSearchOp) : List RowId :=
  match meos.search s.tree op q with
  | .ok ids => ids.filter (· ∉ s.deleted)
  | .error _ => []

/-! ### Serialize, and load again -/

/-- `FixedSizeAllocatorInfo`, and the buffers behind it. -/
structure AllocatorInfo (n : ℕ) where
  segmentSize : ℕ
  allocator : FixedSizeAllocator n

/-- `IndexStorageInfo`. -/
structure IndexStorageInfo (n : ℕ) where
  name : String
  root : Option IndexPointer
  allocatorInfos : List (AllocatorInfo n)

def IndexStorageInfo.isValid (info : IndexStorageInfo n) : Bool :=
  info.root.isSome || !info.allocatorInfos.isEmpty

/-- `SerializeToDisk`, `SerializeToWAL`. -/
def serialize (s : Index meos) : IndexStorageInfo n :=
  ⟨s.info.name, some s.store.entryHead, [⟨segmentSize n, s.store.allocator⟩]⟩

/-- `NumericLimits<int32_t>::Maximum()`. -/
def int32Max : ℕ := 2147483647

/-- The end of `ReplayEntries`: a TRTREE takes the entries in one call, a TSPTREE one by one. -/
def rebuild (meos : Meos n) (info : IndexInfo) (entries : Log n) : Except Exception meos.Tree :=
  match info.indexType with
  | .trtree =>
    if entries = [] then .ok meos.create
    else if int32Max < entries.length then
      .error (.serialization ("TRTREE index \"" ++ info.name ++ "\" holds " ++ toString entries.length ++
        " entries, at most " ++ toString int32Max ++ " load at once"))
    else
      match meos.load meos.create entries with
      | some tree => .ok tree
      | none => .error (.serialization ("TRTREE index \"" ++ info.name ++ "\" did not load its " ++
          toString entries.length ++ " persisted entries"))
  | .tsptree => .ok (entries.foldl (fun t e => meos.insert t e.2 e.1) meos.create)

/-- The constructor, with `InitEntryStorage` on what was serialized. -/
def load (meos : Meos n) (info : IndexInfo) (memory : ℕ → Segment n) (storage : IndexStorageInfo n) :
    Except Exception (Index meos) :=
  if !storage.isValid then .ok (new meos info memory)
  else
    match storage.allocatorInfos with
    | [a] =>
      if a.segmentSize ≠ segmentSize n then
        .error (.serialization (info.indexType.typeName ++ " index \"" ++ info.name ++
          "\" was written with a segment size of " ++ toString a.segmentSize ++ ", but this build uses " ++
          toString (segmentSize n)))
      else do
        let stored : EntryStore n := ⟨a.allocator, storage.root.getD .null, .null, 0, 0⟩
        let (store, entries) ← stored.replayEntries info.indexType.typeName info.name
        let tree ← rebuild meos info entries
        pure ⟨info, tree, ∅, store, false, []⟩
    | infos => .error (.serialization (info.indexType.typeName ++ " index \"" ++ info.name ++ "\" holds " ++
        toString infos.length ++ " allocators, expected exactly one"))

/-- Serialize, and load what was written. -/
def reload (s : Index meos) : Except Exception (Index meos) :=
  load meos s.info s.store.allocator.memory s.serialize

/-! ### Bulk construction -/

/-- `BeginBulkConstruct`. -/
def beginBulkConstruct (s : Index meos) : Index meos := { s with bulkConstruct := true, bulk := [] }

/-- `FinishBulkConstruct`: the index, and the error it reports. The TSPTREE has the same texts under
its own name. -/
def finishBulkConstruct (s : Index meos) : Index meos × Option String :=
  if !s.bulkConstruct then (s, none)
  else if s.bulk = [] then ({ s with bulkConstruct := false }, none)
  else if int32Max < s.bulk.length then
    ({ s with bulkConstruct := false }, some (s.info.indexType.typeName ++ " index \"" ++ s.info.name ++
      "\" holds " ++ toString s.bulk.length ++ " entries, at most " ++ toString int32Max ++ " build at once"))
  else
    match meos.load s.tree s.bulk with
    | some tree => ({ s with bulkConstruct := false, bulk := [], tree := tree }, none)
    | none => ({ s with bulkConstruct := false, bulk := [] }, some (s.info.indexType.typeName ++ " index \"" ++
        s.info.name ++ "\" did not build from its entries"))

end Index

end MobilityDuck
