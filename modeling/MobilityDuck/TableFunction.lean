/-
# The functions in FROM that unnest and split

An unnest, the values of a set and a split are functions of FROM that run on
one body. Each row of the input makes one call of MEOS, when the output
reaches it; what the call answers is handed out a vector at a time, each
pointer freed as it is written, and the row after it follows. A call that
fills its vector is made again on the same input, and so is one that wrote
something; one that wrote nothing asks for more input. The state frees what
was never read, when the query ends or when the answer of a row does.

MEOS is a parameter. What it answers and what is copied for it is numbered as
it is obtained, and the ledger of the world records what was released.

Key definitions: `TableFunction`, `TableState.count`, `TableFunction.load`, `TableFunction.inOut`, `release`,
`Member.function`.
-/
import MobilityDuck.IndexScan
import MobilityDuck.Lib.Drain
import MobilityDuck.Lib.Ledger
import MobilityDuck.Lib.Raise

namespace MobilityDuck

open Lib MonadExcept

/-- A column of the output: how a value is written, and whether it is a pointer, freed behind it. -/
structure OutputColumn (V W : Type) where
  pointer : Bool
  write : V → Except Exception W

/-- A row of the input, its first column and the others, before NULLs are ruled out. -/
abbrev InputRow (X : Type) := Option X × List (Option X)

/-- A function over rows of values `X`: what it copies out of a row, the accessor of MEOS, which
answers nothing or the values of its rows, and the columns these are written to. -/
structure TableFunction (X A V W : Type) where
  copies : List (X × List X → Except Exception A)
  accessor : X × List X → List A → Except Exception (Option (List (List V)))
  columns : List (OutputColumn V W)

/-- A value in one of the arrays of the answer, and its number if it is a pointer. -/
structure Held (V : Type) where
  id : Option ℕ
  val : V

/-- The local state: the arrays and the rows of the answer, the row of it that is next, the row of the
input that is next, and whether its answer is there. -/
structure TableState (V : Type) where
  arrays : List ℕ
  rows : List (List (Held V))
  idx : ℕ
  row : ℕ
  loaded : Bool

namespace TableState

variable {V : Type}

/-- `count`. -/
def count (st : TableState V) : ℕ := st.rows.length

/-- The state as it is made. -/
def initial : TableState V := ⟨[], [], 0, 0, false⟩

end TableState

/-- The state of a function, and the ledger. -/
structure TableWorld (V : Type) where
  ledger : Ledger
  state : TableState V

/-- What works on the state may raise. -/
abbrev Tabling (V : Type) := EStateM Exception (TableWorld V)

namespace TableFunction

section World

variable {V : Type}

def malloc : Tabling V ℕ := do
  let w ← get
  set { w with ledger := w.ledger.alloc }
  return w.ledger.next

def freeIds (ids : List ℕ) : Tabling V Unit := modify fun w => { w with ledger := w.ledger.freeAll ids }

def tableState : Tabling V (TableState V) := do return (← get).state

def setTableState (st : TableState V) : Tabling V Unit := modify fun w => { w with state := st }

variable {F : Exception → TableWorld V → Prop} {w : TableWorld V}

@[simp] theorem wp_malloc {Q : ℕ → TableWorld V → Prop} :
    wp malloc Q F w ↔ Q w.ledger.next { w with ledger := w.ledger.alloc } := Iff.rfl

@[simp] theorem wp_freeIds {ids : List ℕ} {Q : Unit → TableWorld V → Prop} :
    wp (freeIds ids) Q F w ↔ Q () { w with ledger := w.ledger.freeAll ids } := Iff.rfl

@[simp] theorem wp_tableState {Q : TableState V → TableWorld V → Prop} :
    wp tableState Q F w ↔ Q w.state w := Iff.rfl

@[simp] theorem wp_setTableState {st : TableState V} {Q : Unit → TableWorld V → Prop} :
    wp (setTableState st) Q F w ↔ Q () { w with state := st } := Iff.rfl

/-- The pointers of a row of the answer. -/
def pointers (row : List (Held V)) : List ℕ := row.filterMap Held.id

/-- `Release`: the rows that were never read, then the arrays. -/
def release : Tabling V Unit := do
  let st ← tableState
  freeIds ((st.rows.drop st.idx).flatMap pointers)
  freeIds st.arrays
  setTableState { st with arrays := [], rows := [], idx := 0 }

end World

variable {X A V W : Type} (f : TableFunction X A V W)

/-! ### A row of the input -/

omit f in
/-- The values of a row none of which is NULL. -/
def validRow (x : InputRow X) : Option (X × List X) := do
  let first ← x.1
  let others ← x.2.mapM id
  return (first, others)

omit f in
/-- The values copied out of a row, one after the other. -/
def copyArgs (xs : X × List X) : List (X × List X → Except Exception A) → Tabling V (List (ℕ × A))
  | [] => pure []
  | copy :: copies => do
    let a ← ofExcept (copy xs)
    let id ← malloc
    return (id, a) :: (← copyArgs xs copies)

omit f in
/-- The number of a value of a column. -/
def newPointer (column : OutputColumn V W) : Tabling V (Option ℕ) :=
  if column.pointer then some <$> malloc else pure none

omit f in
/-- A row of the answer, as MEOS built it. -/
def storeRow : List (OutputColumn V W) → List V → Tabling V (List (Held V))
  | column :: columns, val :: vals => do
    let id ← newPointer column
    return ⟨id, val⟩ :: (← storeRow columns vals)
  | _, _ => pure []

omit f in
def storeRows (columns : List (OutputColumn V W)) : List (List V) → Tabling V (List (List (Held V)))
  | [] => pure []
  | vals :: rest => do
    let row ← storeRow columns vals
    return row :: (← storeRows columns rest)

omit f in
/-- An array for each column. -/
def newArrays : List (OutputColumn V W) → Tabling V (List ℕ)
  | [] => pure []
  | _ :: columns => do
    let id ← malloc
    return id :: (← newArrays columns)

/-- What the accessor answers goes into the state. -/
def store : Option (List (List V)) → Tabling V Unit
  | none => pure ()
  | some answer => do
    let arrays ← newArrays f.columns
    let rows ← storeRows f.columns answer
    let st ← tableState
    setTableState { st with arrays := arrays, rows := rows }

/-- The call of MEOS for a row; a row with a NULL has no answer. -/
def answer (x : InputRow X) : Tabling V Unit :=
  match validRow x with
  | none => pure ()
  | some xs => do
    let copies ← copyArgs xs f.copies
    let answer ← ofExcept (f.accessor xs (copies.map Prod.snd))
    f.store answer
    freeIds (copies.map Prod.fst)

def load (x : InputRow X) : Tabling V Unit := do
  f.answer x
  let st ← tableState
  setTableState { st with loaded := true }

/-! ### The loop -/

omit f in
/-- A row of the output. -/
def writeRow : List (OutputColumn V W) → List (Held V) → Tabling V (List W)
  | column :: columns, x :: xs => do
    let y ← ofExcept (column.write x.val)
    freeIds x.id.toList
    return y :: (← writeRow columns xs)
  | _, _ => pure []

/-- What a turn does with the answer that is there: its next row goes behind `out`, or it is released
and the next row of the input has its turn. -/
def emit (out : List (List W)) : Tabling V (List (List W) ⊕ (OperatorResult × List (List W))) := do
  let st ← tableState
  match st.rows[st.idx]? with
  | none => do
    release
    let st ← tableState
    setTableState { st with loaded := false, row := st.row + 1 }
    return .inl out
  | some row => do
    let ys ← writeRow f.columns row
    let st ← tableState
    setTableState { st with idx := st.idx + 1 }
    return .inl (out ++ [ys])

/-- A turn of the loop, with `out` written. -/
def turn (input : List (InputRow X)) (out : List (List W)) :
    Tabling V (List (List W) ⊕ (OperatorResult × List (List W))) := do
  if standardVectorSize ≤ out.length then return .inr (.haveMoreOutput, out)
  else do
    let st ← tableState
    if st.loaded then f.emit out
    else match input[st.row]? with
      | none =>
        if 0 < out.length then return .inr (.haveMoreOutput, out)
        else do
          setTableState { st with row := 0 }
          return .inr (.needMoreInput, [])
      | some x => do
        f.load x
        f.emit out

/-- `InOutFn`. A turn writes a row or ends one of the input, so no call takes as many turns as it is
given here. -/
def inOut (input : List (InputRow X)) : Tabling V (OperatorResult × List (List W)) := do
  match ← loop (f.turn input) (standardVectorSize + input.length + 2) [] with
  | some answer => return answer
  | none => throw .diverges

/-- The destructor. -/
def destroy (w : TableWorld V) : TableWorld V := stateAfter release w

omit f in
/-- Before the first call. -/
def start : TableWorld V := ⟨.empty, .initial⟩

/-- Calls on the inputs, one after the other, up to one that raises: its exception, and the world they
leave. -/
def runCalls : List (List (InputRow X)) → TableWorld V → Option Exception × TableWorld V
  | [], w => (none, w)
  | input :: inputs, w =>
    match (f.inOut input).run w with
    | .ok _ w' => runCalls inputs w'
    | .error e w' => (some e, w')

/-- A call as an operator, which answers a chunk or asks for more input. -/
def execute (input : List (InputRow X)) (w : TableWorld V) :
    Except Exception (OperatorResult × List (List (List W)) × TableWorld V) :=
  match (f.inOut input).run w with
  | .ok (.haveMoreOutput, out) w' => .ok (.haveMoreOutput, [out], w')
  | .ok (.needMoreInput, _) w' => .ok (.needMoreInput, [], w')
  | .error e _ => .error e

end TableFunction

/-! ### The members of the family -/

/-- How the columns are written. -/
inductive Writer
  | byValue
  | blob
  | text
  | geometry
  deriving DecidableEq, Repr

/-- Whether a column holds pointers. -/
def Writer.pointer : Writer → Bool
  | .byValue => false
  | .blob | .text | .geometry => true

/-- An argument of a row: one the call passes, or the literal that stands for one it leaves out. -/
inductive Argument (X : Type)
  | passed (x : X)
  | literal (text : String)

/-- MEOS, as the members call it. Only what reads or writes a geometry, or an accessor, raises. -/
structure TableMeos (X A V W : Type) where
  blob : X → A
  geometry : String → Argument X → Except Exception A
  accessor : String → List (Argument X) → List A → Except Exception (Option (List (List V)))
  write : Writer → V → W
  writeGeometry : V → Except Exception W

/-- A member: the accessor, how its columns are written, how many arguments every call passes, the
literals of the others, and which argument is a geometry. -/
structure Member where
  name : String
  writers : List Writer
  required : ℕ
  literals : List String
  geometryAt : Option ℕ
  deriving DecidableEq

namespace Member

/-- `Unnest_`: the values and the time of each. -/
def unnest (name : String) (values : Writer) : Member := ⟨name, [values, .blob], 1, [], none⟩

/-- `SetUnnest_`: the values of a set. -/
def setUnnest (name : String) (values : Writer) : Member := ⟨name, [values], 1, [], none⟩

/-- `Split_`: the bins and the part in each. -/
def split (name : String) (bins : List Writer) (required : ℕ) (literals : List String)
    (geometryAt : Option ℕ) : Member :=
  ⟨name, bins ++ [.blob], required, literals, geometryAt⟩

variable {X A V W : Type} (m : Member) (meos : TableMeos X A V W)

/-- The arguments a call passes, and the literals of the others. -/
def arguments (xs : X × List X) : List (Argument X) :=
  (xs.1 :: xs.2).map .passed ++ (m.literals.drop (xs.2.length + 1 - m.required)).map .literal

/-- The temporal value or the set, copied from its blob. -/
def copyBlob (meos : TableMeos X A V W) (xs : X × List X) : Except Exception A := .ok (meos.blob xs.1)

/-- The geometry, read from its argument. -/
def copyGeometry (i : ℕ) (xs : X × List X) : Except Exception A :=
  match (m.arguments xs)[i]? with
  | none => .error .diverges
  | some arg => meos.geometry m.name arg

def column : Writer → OutputColumn V W
  | .geometry => ⟨Writer.geometry.pointer, meos.writeGeometry⟩
  | w => ⟨w.pointer, fun v => .ok (meos.write w v)⟩

def function : TableFunction X A V W where
  copies := copyBlob meos :: m.geometryAt.toList.map (m.copyGeometry meos)
  accessor xs copies := meos.accessor m.name (m.arguments xs) copies
  columns := m.writers.map (column meos)

/-- The functions that unnest a temporal value. -/
def unnests : List Member := [
  unnest "tpcpoint_unnest" .blob,
  unnest "tpcpatch_unnest" .blob,
  unnest "tjsonb_unnest" .blob,
  unnest "tquadbin_unnest" .byValue,
  unnest "tgeo_unnest" .geometry,
  unnest "th3index_unnest" .byValue,
  unnest "tnpoint_unnest" .blob,
  unnest "tpose_unnest" .blob,
  unnest "tposechain_unnest" .blob,
  unnest "ts2cell_unnest" .byValue,
  unnest "trgeometry_unnest" .geometry,
  unnest "tcbuffer_unnest" .blob,
  unnest "tbool_unnest" .byValue,
  unnest "tfloat_unnest" .byValue,
  unnest "tint_unnest" .byValue,
  unnest "tbigint_unnest" .byValue,
  unnest "ttext_unnest" .text]

/-- The functions that answer the values of a set. -/
def setUnnests : List Member := [
  setUnnest "pcpointset_values" .blob,
  setUnnest "pcpatchset_values" .blob,
  setUnnest "cbufferset_values" .blob,
  setUnnest "posechainset_values" .blob,
  setUnnest "quadbinset_values" .byValue,
  setUnnest "s2cellset_values" .byValue,
  setUnnest "npointset_values" .blob,
  setUnnest "jsonbset_values" .blob,
  setUnnest "h3indexset_values" .byValue,
  setUnnest "geoset_values" .geometry,
  setUnnest "poseset_values" .blob,
  setUnnest "bigintset_values" .byValue,
  setUnnest "dateset_values" .byValue,
  setUnnest "floatset_values" .byValue,
  setUnnest "intset_values" .byValue,
  setUnnest "textset_values" .text,
  setUnnest "tstzset_values" .byValue]

/-- The functions that split. -/
def splits : List Member := [
  split "temporal_time_split_0" [.byValue] 2 ["2000-01-03", "true"] none,
  split "tbigint_value_split_1" [.byValue] 2 ["0", "true"] none,
  split "tbigint_value_time_split_2" [.byValue, .byValue] 3 ["0", "2000-01-03", "true"] none,
  split "tfloat_value_split_3" [.byValue] 2 ["0.0", "true"] none,
  split "tfloat_value_time_split_4" [.byValue, .byValue] 3 ["0.0", "2000-01-03", "true"] none,
  split "tint_value_split_5" [.byValue] 2 ["0", "true"] none,
  split "tint_value_time_split_6" [.byValue, .byValue] 3 ["0", "2000-01-03", "true"] none,
  split "tgeo_space_split_7" [.geometry] 4 ["Point(0 0 0)", "true", "true"] (some 4),
  split "tgeo_space_split_8" [.geometry] 2 ["Point(0 0 0)", "true", "true"] (some 2),
  split "tgeo_space_split_9" [.geometry] 3 ["Point(0 0 0)", "true", "true"] (some 3),
  split "tgeo_space_split_10" [.geometry] 4 ["Point(0 0 0)", "true", "true"] (some 4),
  split "tgeo_space_split_11" [.geometry] 2 ["Point(0 0 0)", "true", "true"] (some 2),
  split "tgeo_space_split_12" [.geometry] 3 ["Point(0 0 0)", "true", "true"] (some 3),
  split "tgeo_space_time_split_13" [.geometry, .byValue] 5 ["Point(0 0 0)", "2000-01-03", "true", "true"] (some 5),
  split "tgeo_space_time_split_14" [.geometry, .byValue] 3 ["Point(0 0 0)", "2000-01-03", "true", "true"] (some 3),
  split "tgeo_space_time_split_15" [.geometry, .byValue] 4 ["Point(0 0 0)", "2000-01-03", "true", "true"] (some 4),
  split "tgeo_space_time_split_16" [.geometry, .byValue] 5 ["Point(0 0 0)", "2000-01-03", "true", "true"] (some 5),
  split "tgeo_space_time_split_17" [.geometry, .byValue] 3 ["Point(0 0 0)", "2000-01-03", "true", "true"] (some 3),
  split "tgeo_space_time_split_18" [.geometry, .byValue] 4 ["Point(0 0 0)", "2000-01-03", "true", "true"] (some 4)]

def all : List Member := unnests ++ setUnnests ++ splits

end Member

end MobilityDuck
