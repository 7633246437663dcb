/-
# The registration of point cloud schemas

`pointCloudSchemaRegister` reads schemas from the rows that state them and hands each
to the cache of the engine, which holds them for the life of the process. A row whose
schema misses a field, the description of a dimension apart, states none and answers
NULL. Every field is read through the selection of its own column, and the dimensions
of a row are the slice of the child columns that its list names.

Called chunk after chunk, the function registers the schemas that the rows state, one
by one in their order, up to the first that raises, and answers what the engine answers
(`pcschemaRegister_run`). So a pcid names what the last row stated of it that the engine
took, and a pcid that no row states what it named before (`pcschemaRegister_last`).

Key definitions: `SchemaChunk`, `pcschemaRegister`, `SchemaRow.schema`, `registerAll`. Key theorems:
`pcschemaRegister_run`, `pcschemaRegister_last`.
-/
import MobilityDuck.Lib.JsonCompact
import MobilityDuck.Lib.ListVector
import MobilityDuck.Lib.UnifiedFormat
import MobilityDuck.Types

namespace MobilityDuck
namespace Pcschema

open Lib

/-! ### What the engine is handed -/

/-- Text as the engine reads it: it ends at the first zero byte. -/
def cString (s : List UInt8) : List UInt8 := s.takeWhile (· ≠ 0)

/-- `PCDimensionSpec`. -/
structure PCDimensionSpec (D : Type) where
  name : List UInt8
  description : Option (List UInt8)
  position : Int32
  interpretation : List UInt8
  scale : D
  offset : D
  active : Bool
  deriving DecidableEq, Repr

/-- The arguments of `meos_pc_schema_register_dims`. -/
structure PCSchema (D : Type) where
  pcid : UInt32
  srid : Int32
  compression : List UInt8
  dims : List (PCDimensionSpec D)
  count : Int32
  deriving DecidableEq, Repr

/-- The engine: it answers whether it took the schema, or raises. -/
abbrev RegisterDims (σ D : Type) := PCSchema D → EStateM Exception σ Bool

/-! ### The function -/

/-- The columns of a chunk, the last seven those of the children of the dimensions. -/
structure SchemaChunk (D : Type) where
  count : ℕ
  pcid : UnifiedFormat Int32
  srid : UnifiedFormat Int32
  compression : UnifiedFormat (List UInt8)
  dims : UnifiedFormat Slice
  position : UnifiedFormat Int32
  name : UnifiedFormat (List UInt8)
  interpretation : UnifiedFormat (List UInt8)
  scale : UnifiedFormat D
  offset : UnifiedFormat D
  active : UnifiedFormat Bool
  description : UnifiedFormat (List UInt8)

structure SchemaWorld (σ : Type) where
  cache : σ
  result : FlatVector Bool

variable {σ D : Type}

namespace SchemaChunk

variable (c : SchemaChunk D)

/-- Every field but the description. -/
def dimIsValid (child : ℕ) : Bool :=
  c.position.rowIsValid child && c.name.rowIsValid child && c.interpretation.rowIsValid child &&
    c.scale.rowIsValid child && c.offset.rowIsValid child && c.active.rowIsValid child

def dimSpec (child : ℕ) : PCDimensionSpec D :=
  let description := if c.description.rowIsValid child then c.description.value child else []
  { name := cString (c.name.value child)
    description := if description = [] then none else some (cString description)
    position := c.position.value child
    interpretation := cString (c.interpretation.value child)
    scale := c.scale.value child
    offset := c.offset.value child
    active := c.active.value child }

/-- The loop over the dimensions of a row; nothing where a field is missing. -/
def readDims : ℕ → ℕ → List (PCDimensionSpec D) → Option (List (PCDimensionSpec D))
  | _, 0, dims => some dims
  | child, left + 1, dims =>
    if c.dimIsValid child then readDims (child + 1) left (dims ++ [c.dimSpec child]) else none

def rowIsValid (row : ℕ) : Bool :=
  c.pcid.rowIsValid row && c.srid.rowIsValid row && c.compression.rowIsValid row && c.dims.rowIsValid row

def schemaOf (row : ℕ) (dims : List (PCDimensionSpec D)) : PCSchema D where
  pcid := (c.pcid.value row).toUInt32
  srid := c.srid.value row
  compression := cString (c.compression.value row)
  dims := dims
  count := Int32.ofNat dims.length

end SchemaChunk

def registerRow (register : RegisterDims σ D) (c : SchemaChunk D) (row : ℕ) (w : SchemaWorld σ) :
    EStateM.Result Exception (SchemaWorld σ) Unit :=
  if c.rowIsValid row then
    let entry := c.dims.value row
    match c.readDims entry.offset entry.length [] with
    | none => .ok () { w with result := w.result.setInvalid row }
    | some dims =>
      match register (c.schemaOf row dims) w.cache with
      | .ok b cache => .ok () ⟨cache, w.result.set row b⟩
      | .error e cache => .error e ⟨cache, w.result⟩
  else .ok () { w with result := w.result.setInvalid row }

def registerLoop (register : RegisterDims σ D) (c : SchemaChunk D) : ℕ → ℕ → SchemaWorld σ →
    EStateM.Result Exception (SchemaWorld σ) Unit
  | _, 0, w => .ok () w
  | row, left + 1, w =>
    match registerRow register c row w with
    | .ok _ w => registerLoop register c (row + 1) left w
    | .error e w => .error e w

/-- `Pcschema_register`. -/
def pcschemaRegister (register : RegisterDims σ D) (c : SchemaChunk D) (w : SchemaWorld σ) :
    EStateM.Result Exception (SchemaWorld σ) Unit :=
  match registerLoop register c 0 c.count { w with result := { w.result with constant := false } } with
  | .ok _ w => .ok () { w with result := { w.result with constant := decide (c.count = 1) } }
  | .error e w => .error e w

/-- Calls of the function, chunk after chunk, each into a column of its own. -/
def runCalls (register : RegisterDims σ D) : List (SchemaChunk D × FlatVector Bool) → σ →
    List (List (Option Bool)) × Option Exception × σ
  | [], cache => ([], none, cache)
  | (c, result) :: calls, cache =>
    match pcschemaRegister register c ⟨cache, result⟩ with
    | .ok _ w => (w.result.rows c.count :: (runCalls register calls w.cache).1, (runCalls register calls w.cache).2)
    | .error e w => ([], some e, w.cache)

/-! ### What the rows state -/

/-- A dimension, as the row of a table states it. -/
structure DimRow (D : Type) where
  position : Option Int32
  name : Option (List UInt8)
  interpretation : Option (List UInt8)
  scale : Option D
  offset : Option D
  active : Option Bool
  description : Option (List UInt8)

structure SchemaRow (D : Type) where
  pcid : Option Int32
  srid : Option Int32
  compression : Option (List UInt8)
  dims : Option (List (DimRow D))

/-- Nothing is said of a description that is missing or empty. -/
def DimRow.spec (r : DimRow D) : Option (PCDimensionSpec D) := do
  return {
    position := ← r.position
    name := cString (← r.name)
    interpretation := cString (← r.interpretation)
    scale := ← r.scale
    offset := ← r.offset
    active := ← r.active
    description := (r.description.filter (· ≠ [])).map cString }

/-- The schema that a row states. -/
def SchemaRow.schema (r : SchemaRow D) : Option (PCSchema D) := do
  let pcid ← r.pcid
  let srid ← r.srid
  let compression ← r.compression
  let dims ← (← r.dims).mapM DimRow.spec
  return ⟨pcid.toUInt32, srid, cString compression, dims, Int32.ofNat dims.length⟩

namespace SchemaChunk

variable (c : SchemaChunk D)

def dimAt (child : ℕ) : DimRow D :=
  ⟨c.position.get child, c.name.get child, c.interpretation.get child, c.scale.get child, c.offset.get child,
    c.active.get child, c.description.get child⟩

def rowAt (row : ℕ) : SchemaRow D where
  pcid := c.pcid.get row
  srid := c.srid.get row
  compression := c.compression.get row
  dims := (c.dims.get row).map fun entry => (List.range' entry.offset entry.length).map c.dimAt

def rows : List (SchemaRow D) := (List.range' 0 c.count).map c.rowAt

end SchemaChunk

/-- The schemas that rows state, registered one by one: what the rows answer, what was raised, and the cache. -/
def registerAll (register : RegisterDims σ D) : List (SchemaRow D) → σ → List (Option Bool) × Option Exception × σ
  | [], cache => ([], none, cache)
  | r :: rows, cache =>
    match r.schema with
    | none => (none :: (registerAll register rows cache).1, (registerAll register rows cache).2)
    | some x =>
      match register x cache with
      | .ok b cache => (some b :: (registerAll register rows cache).1, (registerAll register rows cache).2)
      | .error e cache => ([], some e, cache)

/-! ### A row -/

namespace SchemaChunk

variable {c : SchemaChunk D} {row : ℕ}

theorem spec_dimAt (c : SchemaChunk D) (child : ℕ) :
    (c.dimAt child).spec = if c.dimIsValid child then some (c.dimSpec child) else none := by
  have hdescription : ((c.description.get child).filter (· ≠ [])).map cString = (c.dimSpec child).description := by
    unfold dimSpec
    cases hvalid : c.description.rowIsValid child with
    | false => simp [UnifiedFormat.get_eq_none hvalid]
    | true =>
      rw [UnifiedFormat.get_eq_some hvalid]
      by_cases hnil : c.description.value child = [] <;> simp [hnil]
  unfold DimRow.spec dimAt dimIsValid
  rw [hdescription]
  unfold UnifiedFormat.get
  cases c.position.rowIsValid child <;> cases c.name.rowIsValid child <;> cases c.interpretation.rowIsValid child <;>
    cases c.scale.rowIsValid child <;> cases c.offset.rowIsValid child <;> cases c.active.rowIsValid child <;> rfl

/-- The loop reads the dimensions that are left, if none misses a field. -/
theorem readDims_eq (c : SchemaChunk D) (left : ℕ) : ∀ (child : ℕ) (dims : List (PCDimensionSpec D)),
    c.readDims child left dims =
      (((List.range' child left).map c.dimAt).mapM DimRow.spec).map fun rest => dims ++ rest := by
  induction left with
  | zero =>
    intro child dims
    simp [readDims]
  | succ left ih =>
    intro child dims
    rw [readDims, List.range'_succ, List.map_cons, List.mapM_cons, spec_dimAt]
    by_cases hvalid : c.dimIsValid child = true
    · rw [if_pos hvalid, if_pos hvalid, ih]
      simp only [Option.bind_eq_bind, Option.bind_some]
      cases ((List.range' (child + 1) left).map c.dimAt).mapM DimRow.spec with
      | none => rfl
      | some rest => simp
    · rw [if_neg hvalid, if_neg hvalid]
      rfl

theorem schema_rowAt (c : SchemaChunk D) (row : ℕ) : (c.rowAt row).schema =
    if c.rowIsValid row then
      (c.readDims (c.dims.value row).offset (c.dims.value row).length []).map (c.schemaOf row)
    else none := by
  have hdims := c.readDims_eq (c.dims.value row).length (c.dims.value row).offset []
  simp only [List.nil_append, Option.map_id_fun'] at hdims
  rw [hdims]
  unfold SchemaRow.schema rowAt rowIsValid UnifiedFormat.get
  cases c.pcid.rowIsValid row <;> cases c.srid.rowIsValid row <;> cases c.compression.rowIsValid row <;>
    cases c.dims.rowIsValid row
  all_goals try rfl
  simp only [Bool.and_true, if_true, Option.map_some, Option.bind_eq_bind, Option.bind_some]
  cases ((List.range' (c.dims.value row).offset (c.dims.value row).length).map c.dimAt).mapM DimRow.spec <;> rfl

end SchemaChunk

section Runs

variable {register : RegisterDims σ D} {c : SchemaChunk D} {row : ℕ} {w : SchemaWorld σ}

theorem registerRow_none (h : (c.rowAt row).schema = none) :
    registerRow register c row w = .ok () { w with result := w.result.setInvalid row } := by
  rw [c.schema_rowAt] at h
  unfold registerRow
  by_cases hvalid : c.rowIsValid row = true
  · rw [if_pos hvalid, Option.map_eq_none_iff] at h
    rw [if_pos hvalid]
    simp only [h]
  · rw [if_neg hvalid]

theorem registerRow_some {x : PCSchema D} (h : (c.rowAt row).schema = some x) {b : Bool} {cache : σ}
    (hregister : register x w.cache = .ok b cache) :
    registerRow register c row w = .ok () ⟨cache, w.result.set row b⟩ := by
  rw [c.schema_rowAt] at h
  unfold registerRow
  by_cases hvalid : c.rowIsValid row = true
  · rw [if_pos hvalid] at h
    obtain ⟨dims, hdims, rfl⟩ := Option.map_eq_some_iff.mp h
    rw [if_pos hvalid]
    simp only [hdims, hregister]
  · rw [if_neg hvalid] at h
    cases h

theorem registerRow_raised {x : PCSchema D} (h : (c.rowAt row).schema = some x) {e : Exception} {cache : σ}
    (hregister : register x w.cache = .error e cache) :
    registerRow register c row w = .error e ⟨cache, w.result⟩ := by
  rw [c.schema_rowAt] at h
  unfold registerRow
  by_cases hvalid : c.rowIsValid row = true
  · rw [if_pos hvalid] at h
    obtain ⟨dims, hdims, rfl⟩ := Option.map_eq_some_iff.mp h
    rw [if_pos hvalid]
    simp only [hdims, hregister]
  · rw [if_neg hvalid] at h
    cases h

/-! ### Rows one by one -/

variable {rows : List (SchemaRow D)} {r : SchemaRow D} {x : PCSchema D} {cache cache' : σ}

theorem registerAll_none (h : r.schema = none) : registerAll register (r :: rows) cache =
    (none :: (registerAll register rows cache).1, (registerAll register rows cache).2) := by
  rw [registerAll, h]

theorem registerAll_some (h : r.schema = some x) {b : Bool} (hregister : register x cache = .ok b cache') :
    registerAll register (r :: rows) cache =
      (some b :: (registerAll register rows cache').1, (registerAll register rows cache').2) := by
  rw [registerAll, h]
  simp only [hregister]

theorem registerAll_raised (h : r.schema = some x) {e : Exception} (hregister : register x cache = .error e cache') :
    registerAll register (r :: rows) cache = ([], some e, cache') := by
  rw [registerAll, h]
  simp only [hregister]

/-- Every row answers, if none raises. -/
theorem length_registerAll : (registerAll register rows cache).2.1 = none →
    (registerAll register rows cache).1.length = rows.length := by
  induction rows generalizing cache with
  | nil => exact fun _ => rfl
  | cons r rows ih =>
    intro hnone
    cases hschema : r.schema with
    | none =>
      rw [registerAll_none hschema] at hnone ⊢
      exact congrArg Nat.succ (ih hnone)
    | some x =>
      cases hregister : register x cache with
      | ok b cache' =>
        rw [registerAll_some hschema hregister] at hnone ⊢
        exact congrArg Nat.succ (ih hnone)
      | error e cache' =>
        rw [registerAll_raised hschema hregister] at hnone
        cases hnone

/-- Rows behind others are registered in the cache that those leave. -/
theorem registerAll_append (ys : List (SchemaRow D)) : ∀ (rows : List (SchemaRow D)) (cache : σ),
    (registerAll register rows cache).2.1 = none → registerAll register (rows ++ ys) cache =
      ((registerAll register rows cache).1 ++ (registerAll register ys (registerAll register rows cache).2.2).1,
        (registerAll register ys (registerAll register rows cache).2.2).2) := by
  intro rows
  induction rows with
  | nil => exact fun _ _ => rfl
  | cons r rows ih =>
    intro cache hnone
    rw [List.cons_append]
    cases hschema : r.schema with
    | none =>
      rw [registerAll_none hschema] at hnone ⊢
      rw [registerAll_none hschema, ih cache hnone]
      rfl
    | some x =>
      cases hregister : register x cache with
      | ok b cache' =>
        rw [registerAll_some hschema hregister] at hnone ⊢
        rw [registerAll_some hschema hregister, ih cache' hnone]
        rfl
      | error e cache' =>
        rw [registerAll_raised hschema hregister] at hnone
        cases hnone

/-- No row is read behind one that raises. -/
theorem registerAll_append_raised (ys : List (SchemaRow D)) : ∀ (rows : List (SchemaRow D)) (cache : σ),
    (registerAll register rows cache).2.1 ≠ none →
      registerAll register (rows ++ ys) cache = registerAll register rows cache := by
  intro rows
  induction rows with
  | nil => exact fun _ h => absurd rfl h
  | cons r rows ih =>
    intro cache hraised
    rw [List.cons_append]
    cases hschema : r.schema with
    | none =>
      rw [registerAll_none hschema] at hraised ⊢
      rw [registerAll_none hschema, ih cache hraised]
    | some x =>
      cases hregister : register x cache with
      | ok b cache' =>
        rw [registerAll_some hschema hregister] at hraised ⊢
        rw [registerAll_some hschema hregister, ih cache' hraised]
      | error e cache' => rw [registerAll_raised hschema hregister, registerAll_raised hschema hregister]

/-! ### The loop and the calls -/

/-- What a loop leaves: the answers of its rows behind those before them, or what the rows raised. -/
def Ends (left : EStateM.Result Exception (SchemaWorld σ) Unit) (done : List (Option Bool))
    (all : List (Option Bool) × Option Exception × σ) : Prop :=
  match left with
  | .ok _ w => all.2 = (none, w.cache) ∧ w.result.Holds (done ++ all.1)
  | .error e w => all.2 = (some e, w.cache)

/-- By induction on the rows that are left: the column holds the answers of the rows before. -/
theorem registerLoop_spec (register : RegisterDims σ D) (c : SchemaChunk D) (left : ℕ) :
    ∀ (w : SchemaWorld σ) (done : List (Option Bool)), w.result.Holds done →
    Ends (registerLoop register c done.length left w) done
      (registerAll register ((List.range' done.length left).map c.rowAt) w.cache) := by
  induction left with
  | zero =>
    intro w done hholds
    refine ⟨rfl, ?_⟩
    rwa [List.range'_zero, List.map_nil, registerAll, List.append_nil]
  | succ left ih =>
    intro w done hholds
    rw [registerLoop, List.range'_succ, List.map_cons]
    -- a row that answers `a` goes on with one more answer
    have hnext : ∀ (a : Option Bool) (w' : SchemaWorld σ), w'.result.Holds (done ++ [a]) →
        ∀ all, all = (a :: (registerAll register ((List.range' (done.length + 1) left).map c.rowAt) w'.cache).1,
          (registerAll register ((List.range' (done.length + 1) left).map c.rowAt) w'.cache).2) →
        Ends (registerLoop register c (done.length + 1) left w') done all := by
      intro a w' hholds' all hall
      have hloop := ih w' (done ++ [a]) hholds'
      rw [List.length_append, List.length_singleton] at hloop
      rw [hall]
      revert hloop
      cases registerLoop register c (done.length + 1) left w' with
      | ok u w'' =>
        rintro ⟨hall, hdone⟩
        exact ⟨hall, by rwa [List.append_assoc, List.singleton_append] at hdone⟩
      | error e w'' => exact id
    cases hschema : (c.rowAt done.length).schema with
    | none =>
      rw [registerRow_none hschema]
      exact hnext none _ hholds.setInvalid _ (registerAll_none hschema)
    | some x =>
      cases hregister : register x w.cache with
      | ok b cache' =>
        rw [registerRow_some hschema hregister]
        exact hnext (some b) _ (hholds.set b) _ (registerAll_some hschema hregister)
      | error e cache' =>
        rw [registerRow_raised hschema hregister, registerAll_raised hschema hregister]
        rfl

theorem pcschemaRegister_spec (register : RegisterDims σ D) {result : FlatVector Bool} (hfresh : result.Fresh)
    (c : SchemaChunk D) (cache : σ) :
    (∃ w, pcschemaRegister register c ⟨cache, result⟩ = .ok () w ∧
      registerAll register c.rows cache = (w.result.rows c.count, none, w.cache)) ∨
    ∃ e w, pcschemaRegister register c ⟨cache, result⟩ = .error e w ∧
      (registerAll register c.rows cache).2 = (some e, w.cache) := by
  have hloop := registerLoop_spec register c c.count ⟨cache, { result with constant := false }⟩
    [] hfresh.holds
  unfold pcschemaRegister
  dsimp only [List.length_nil] at hloop ⊢
  revert hloop
  cases registerLoop register c 0 c.count ⟨cache, { result with constant := false }⟩ with
  | error e w => exact fun hall => .inr ⟨e, w, rfl, hall⟩
  | ok u w =>
    rintro ⟨hall, hholds⟩
    rw [List.nil_append] at hholds
    have hlength : (registerAll register c.rows cache).1.length = c.count := by
      rw [length_registerAll (by rw [SchemaChunk.rows, hall]), SchemaChunk.rows, List.length_map, List.length_range']
    refine .inl ⟨_, rfl, ?_⟩
    have hrows : w.result.rows c.count = (registerAll register c.rows cache).1 := by
      rw [← hlength]
      exact hholds.rows_eq
    have hread : ({ w.result with constant := decide (c.count = 1) } : FlatVector Bool).rows c.count =
        w.result.rows c.count := by
      by_cases hone : c.count = 1
      · rw [decide_eq_true hone, hone]
        exact FlatVector.rows_constant hholds.flat
      · rw [decide_eq_false hone, ← hholds.flat]
    rw [hread, hrows]
    exact Prod.ext rfl hall

theorem runCalls_spec (register : RegisterDims σ D) {calls : List (SchemaChunk D × FlatVector Bool)}
    (hfresh : ∀ call ∈ calls, call.2.Fresh) (cache : σ) :
    (runCalls register calls cache).2 = (registerAll register (calls.flatMap fun call => call.1.rows) cache).2 ∧
      ∃ broken, (registerAll register (calls.flatMap fun call => call.1.rows) cache).1 =
        (runCalls register calls cache).1.flatten ++ broken ∧
          ((runCalls register calls cache).2.1 = none → broken = []) := by
  induction calls generalizing cache with
  | nil => exact ⟨rfl, [], rfl, fun _ => rfl⟩
  | cons call calls ih =>
    obtain ⟨c, result⟩ := call
    rw [List.flatMap_cons]
    rcases pcschemaRegister_spec register (hfresh _ List.mem_cons_self) c cache with
      ⟨w, hcall, hall⟩ | ⟨e, w, hcall, hall⟩
    · have hnone : (registerAll register c.rows cache).2.1 = none := by rw [hall]
      have hfresh' : ∀ call ∈ calls, call.2.Fresh := fun call hcall => hfresh _ (List.mem_cons_of_mem _ hcall)
      obtain ⟨hrest, broken, hanswers, hbroken⟩ := ih hfresh' w.cache
      have hrun : runCalls register ((c, result) :: calls) cache =
          (w.result.rows c.count :: (runCalls register calls w.cache).1, (runCalls register calls w.cache).2) := by
        rw [runCalls, hcall]
      rw [hrun, registerAll_append _ _ _ hnone, hall]
      refine ⟨hrest, broken, ?_, hbroken⟩
      rw [hanswers, List.flatten_cons, List.append_assoc]
    · have hraised : (registerAll register c.rows cache).2.1 ≠ none := by
        rw [hall]
        exact Option.some_ne_none e
      have hrun : runCalls register ((c, result) :: calls) cache = ([], some e, w.cache) := by
        rw [runCalls, hcall]
      rw [hrun, registerAll_append_raised _ _ _ hraised]
      exact ⟨hall.symm, _, rfl, fun h => absurd h (Option.some_ne_none e)⟩

theorem length_runCalls (calls : List (SchemaChunk D × FlatVector Bool)) (cache : σ) :
    (runCalls register calls cache).1.map List.length <+: calls.map fun call => call.1.count := by
  induction calls generalizing cache with
  | nil => exact List.prefix_rfl
  | cons call calls ih =>
    obtain ⟨c, result⟩ := call
    unfold runCalls
    cases pcschemaRegister register c ⟨cache, result⟩ with
    | ok u w =>
      have hlength : (w.result.rows c.count).length = c.count := by simp [FlatVector.rows]
      simpa [hlength] using ih w.cache
    | error e w => exact List.nil_prefix

/-! ### A small table -/

/-- An engine that keeps every schema it is handed, the last first. -/
def keepSchema : RegisterDims (List (PCSchema ℕ)) ℕ := fun x cache => .ok true (x :: cache)

def named (cache : List (PCSchema ℕ)) (pcid : UInt32) : Option (PCSchema ℕ) := cache.find? fun x => x.pcid = pcid

/-- A schema, a row that misses its reference system, and the schema corrected; all with the one dimension. -/
def lidar : SchemaChunk ℕ where
  count := 3
  pcid := .constant 7
  srid := .flat 0 [some 4326, none, some 3857]
  compression := .constant (utf8 "none".toList)
  dims := .constant ⟨0, 1⟩
  position := .constant 1
  name := .constant (utf8 "X".toList)
  interpretation := .constant (utf8 "double".toList)
  scale := .constant 1
  offset := .constant 0
  active := .constant true
  description := .flat [] [none]

def lidarSchema (srid : Int32) : PCSchema ℕ :=
  ⟨7, srid, utf8 "none".toList, [⟨utf8 "X".toList, none, 1, utf8 "double".toList, 1, 0, true⟩], 1⟩

def blankResult : FlatVector Bool := ⟨true, fun _ => true, fun _ => false⟩

/-! ### What the calls leave -/

/-- The calls register what the rows of all chunks state, one by one up to the first that raises, and those that
return answer what the engine answers to each row of their chunk. -/
theorem pcschemaRegister_run (register : RegisterDims σ D) (calls : List (SchemaChunk D × FlatVector Bool))
    (hfresh : ∀ call ∈ calls, call.2.Fresh) (cache : σ) :
    (runCalls register calls cache).2 = (registerAll register (calls.flatMap fun call => call.1.rows) cache).2 ∧
      (runCalls register calls cache).1.flatten <+:
        (registerAll register (calls.flatMap fun call => call.1.rows) cache).1 ∧
      ((runCalls register calls cache).2.1 = none → (runCalls register calls cache).1.flatten =
        (registerAll register (calls.flatMap fun call => call.1.rows) cache).1) ∧
      (runCalls register calls cache).1.map List.length <+: calls.map fun call => call.1.count := by
  obtain ⟨hstate, broken, hanswers, hbroken⟩ := runCalls_spec register hfresh cache
  refine ⟨hstate, ⟨broken, hanswers.symm⟩, fun hnone => ?_, length_runCalls calls cache⟩
  rw [hanswers, hbroken hnone, List.append_nil]

theorem pcschemaRegister_run_lidar : blankResult.Fresh ∧
    (runCalls keepSchema [(lidar, blankResult)] []).2 = (none, [lidarSchema 3857, lidarSchema 4326]) := by
  have hfresh : blankResult.Fresh := fun _ => rfl
  have hrun := pcschemaRegister_run keepSchema [(lidar, blankResult)] (by simpa using hfresh) []
  exact ⟨hfresh, hrun.1.trans (by decide)⟩

/-- What a cache names: a schema that is taken is named by its pcid, and no other pcid is touched. -/
structure Naming (register : RegisterDims σ D) (names : σ → UInt32 → Option (PCSchema D)) : Prop where
  taken : ∀ {x cache cache'}, register x cache = .ok true cache' → names cache' x.pcid = some x
  answered : ∀ {x cache b cache'}, register x cache = .ok b cache' → ∀ p ≠ x.pcid, names cache' p = names cache p
  raised : ∀ {x cache e cache'}, register x cache = .error e cache' → ∀ p ≠ x.pcid, names cache' p = names cache p

theorem names_of_unstated {names : σ → UInt32 → Option (PCSchema D)} (hnaming : Naming register names) {p : UInt32} :
    (∀ r ∈ rows, ∀ x, r.schema = some x → x.pcid ≠ p) →
      names (registerAll register rows cache).2.2 p = names cache p := by
  induction rows generalizing cache with
  | nil => exact fun _ => rfl
  | cons r rows ih =>
    intro hother
    have hrest : ∀ r ∈ rows, ∀ x, r.schema = some x → x.pcid ≠ p := fun r hr => hother r (List.mem_cons_of_mem _ hr)
    cases hschema : r.schema with
    | none =>
      rw [registerAll_none hschema]
      exact ih hrest
    | some x =>
      have hne := (hother r List.mem_cons_self x hschema).symm
      cases hregister : register x cache with
      | ok b cache' =>
        rw [registerAll_some hschema hregister]
        calc names (registerAll register rows cache').2.2 p = names cache' p := ih hrest
          _ = names cache p := hnaming.answered hregister p hne
      | error e cache' =>
        rw [registerAll_raised hschema hregister]
        exact hnaming.raised hregister p hne

/-- By induction on the rows before the last that states the pcid. -/
theorem names_of_last {names : σ → UInt32 → Option (PCSchema D)} (hnaming : Naming register names)
    (hschema : r.schema = some x) {after : List (SchemaRow D)}
    (hafter : ∀ r' ∈ after, ∀ x', r'.schema = some x' → x'.pcid ≠ x.pcid) (before : List (SchemaRow D)) :
    ∀ cache : σ, (registerAll register (before ++ r :: after) cache).1[before.length]? = some (some true) →
      names (registerAll register (before ++ r :: after) cache).2.2 x.pcid = some x := by
  induction before with
  | nil =>
    intro cache htaken
    rw [List.nil_append] at htaken ⊢
    cases hregister : register x cache with
    | ok b cache' =>
      rw [registerAll_some hschema hregister] at htaken ⊢
      obtain rfl : b = true := by simpa using htaken
      calc names (registerAll register after cache').2.2 x.pcid = names cache' x.pcid :=
            names_of_unstated hnaming hafter
        _ = some x := hnaming.taken hregister
    | error e cache' =>
      rw [registerAll_raised hschema hregister] at htaken
      simp at htaken
  | cons r' before ih =>
    intro cache htaken
    rw [List.cons_append] at htaken ⊢
    cases hschema' : r'.schema with
    | none =>
      rw [registerAll_none hschema'] at htaken ⊢
      exact ih cache htaken
    | some x' =>
      cases hregister : register x' cache with
      | ok b cache' =>
        rw [registerAll_some hschema' hregister] at htaken ⊢
        exact ih cache' htaken
      | error e cache' =>
        rw [registerAll_raised hschema' hregister] at htaken
        simp at htaken

/-- A pcid that no row states names what it did, and one that rows state names what the last of them stated, if
the engine took it, also in a call that a later row makes raise. -/
theorem pcschemaRegister_last {names : σ → UInt32 → Option (PCSchema D)} (hnaming : Naming register names)
    {calls : List (SchemaChunk D × FlatVector Bool)} (hfresh : ∀ call ∈ calls, call.2.Fresh) (cache : σ) :
    (∀ p, (∀ r ∈ calls.flatMap fun call => call.1.rows, ∀ x, r.schema = some x → x.pcid ≠ p) →
      names (runCalls register calls cache).2.2 p = names cache p) ∧
    ∀ before r after x, (calls.flatMap fun call => call.1.rows) = before ++ r :: after → r.schema = some x →
      (∀ r' ∈ after, ∀ x', r'.schema = some x' → x'.pcid ≠ x.pcid) →
      (registerAll register (before ++ r :: after) cache).1[before.length]? = some (some true) →
      names (runCalls register calls cache).2.2 x.pcid = some x := by
  obtain ⟨hstate, -⟩ := runCalls_spec register hfresh cache
  rw [hstate]
  refine ⟨fun p => names_of_unstated hnaming, fun before r after x hsplit hschema hafter htaken => ?_⟩
  rw [hsplit]
  exact names_of_last hnaming hschema hafter before cache htaken

/-- The engine that keeps every schema but those of the pcid 9, on which it raises. -/
def refuseNine : RegisterDims (List (PCSchema ℕ)) ℕ := fun x cache =>
  if x.pcid = 9 then .error (.meos "pcid 9 is reserved") cache else keepSchema x cache

theorem naming_refuseNine : Naming refuseNine named where
  taken := by
    rintro x cache cache' h
    by_cases h9 : x.pcid = 9
    · simp [refuseNine, h9] at h
    · obtain rfl : x :: cache = cache' := by simpa [refuseNine, h9, keepSchema] using h
      simp [named]
  answered := by
    rintro x cache b cache' h p hp
    by_cases h9 : x.pcid = 9
    · simp [refuseNine, h9] at h
    · obtain ⟨-, rfl⟩ : true = b ∧ x :: cache = cache' := by simpa [refuseNine, h9, keepSchema] using h
      simp [named, hp.symm]
  raised := by
    rintro x cache e cache' h p -
    by_cases h9 : x.pcid = 9
    · obtain ⟨-, rfl⟩ : _ ∧ cache = cache' := by simpa [refuseNine, h9] using h
      rfl
    · simp [refuseNine, h9, keepSchema] at h

/-- The schema is stated twice, then once more in a call that raises behind it. -/
theorem pcschemaRegister_last_lidar :
    let more : SchemaChunk ℕ := { lidar with pcid := .flat 0 [some 7, none, some 9], srid := .constant 28992 }
    let left := runCalls refuseNine [(lidar, blankResult), (more, blankResult)] [lidarSchema 25832]
    left.2.1 = some (.meos "pcid 9 is reserved") ∧ named left.2.2 7 = some (lidarSchema 28992) := by
  intro more left
  have hfresh : ∀ call ∈ [(lidar, blankResult), (more, blankResult)], call.2.Fresh := by
    simp [FlatVector.Fresh, blankResult]
  have hafter : ∀ r' ∈ [more.rowAt 1, more.rowAt 2], ∀ x', r'.schema = some x' → x'.pcid ≠ 7 := by
    have hnull : (more.rowAt 1).schema = none := by decide
    have hnine : (more.rowAt 2).schema = some { lidarSchema 28992 with pcid := 9 } := by decide
    intro r' hr' x' hx'
    rcases List.mem_pair.mp hr' with rfl | rfl
    · rw [hnull] at hx'
      cases hx'
    · rw [hnine] at hx'
      rw [← Option.some.inj hx']
      decide
  refine ⟨by decide, ?_⟩
  exact (pcschemaRegister_last naming_refuseNine hfresh [lidarSchema 25832]).2
    [lidar.rowAt 0, lidar.rowAt 1, lidar.rowAt 2] (more.rowAt 0) [more.rowAt 1, more.rowAt 2] (lidarSchema 28992) rfl
    (by decide) hafter (by decide)

end Runs

end Pcschema
end MobilityDuck
