/-
# The functions that answer lists

A generated function that answers a list fills a list column row by row, each
row's elements behind those before it. Most copy a row's operands, call MEOS, and
write the arrays it answers: `genArray`, `genBoxes`, `genSet` and `genRows` differ in
how they mark a row that is NULL, where they find the end of the column and who
releases an element, and `genBoxes` reads the types of its geometries before any
row. The functions over two lists of temporal values read each row's lists into
arrays of copies (`listToTemporalArr`), the ones over a list of base values leave its
NULL elements out (`genMapped`).

Here are the bodies, and what every row should be answered from its own arguments
alone (`ArrayFunction.answer`, `PairsFunction.answer`, `MappedFunction.answer`), with
how much is left behind when a row raises (`lost`, `read`). What runs of them answer
and release is in `ListRows`.

Key definitions: `ArrayFunction`, `PairsFunction`, `MappedFunction`.
-/
import MobilityDuck.Lib.Books
import MobilityDuck.Lib.ListVector
import MobilityDuck.SpatialArray
import MobilityDuck.TableFunction

namespace MobilityDuck

open Lib Lib.Books MonadExcept

/-- What fills a list column. -/
abbrev Listing (W : Type) := Booked Exception (ListVector W)

namespace Listing

variable {V W : Type}

/-- What MEOS answers with: nothing, or arrays and the elements in them, each with what it holds. -/
abbrev Reply (V : Type) := Option (List ℕ × List (List ℕ × V))

def answered (arrays : ℕ) (held : V → ℕ) : Option (List V) → Listing W (Reply V)
  | none => pure none
  | some vals => do
    let ids ← takeAll (List.replicate arrays (.ok ()))
    let elements ← holding held vals
    return some (ids.map Prod.fst, elements)

/-- The loop over the elements; the writer of an element releases what it holds. -/
def writeElements (write : V → Except Exception (Option W)) : ℕ → List (List ℕ × V) → Listing W Unit
  | _, [] => pure ()
  | k, (ids, v) :: rest => do
    let w ← ofExcept (write v)
    change (·.write k w)
    giveBack ids
    writeElements write (k + 1) rest

/-- The elements of a row go behind `off`, which moves behind them. -/
def writeList (write : V → Except Exception (Option W)) (off i : ℕ) (arr : Reply V) : Listing W ℕ := do
  let elements := (arr.map Prod.snd).getD []
  change fun result => (result.setSize (off + elements.length)).setEntry i ⟨off, elements.length⟩
  writeElements write off elements
  giveBack ((arr.map Prod.fst).getD [])
  return off + elements.length

/-- The elements of a row go behind the end of the column, which moves behind them. -/
def appendList (write : V → Except Exception (Option W)) (i : ℕ) (arr : Reply V) : Listing W Unit := do
  let off := (← look).size
  let elements := (arr.map Prod.snd).getD []
  writeElements write off elements
  change fun result => (result.setSize (off + elements.length)).setEntry i ⟨off, elements.length⟩
  giveBack ((arr.map Prod.fst).getD [])

/-- An answer whose elements are released with its arrays. -/
def Reply.gathered (arr : Reply V) : Reply V :=
  arr.map fun r => (r.1 ++ r.2.flatMap Prod.fst, r.2.map fun x => ([], x.2))

end Listing

open Listing

/-! ### Arrays -/

/-- A function over rows of values `X`: the operands it reads from a row, one after the other, by the SRIDs that
the types of its geometries state; the function of MEOS, in how many arrays it answers, how much of an
element is to be released, and how an element is written, nothing for a NULL. -/
structure ArrayFunction (X A V W : Type) where
  operands : List Int32 → X × List X → List (Except Exception A)
  function : X × List X → List A → Except Exception (Option (List V))
  arrays : ℕ
  held : V → ℕ
  write : V → Except Exception (Option W)

/-- A chunk: the types of the geometries among its columns, and the rows. -/
structure InputChunk (X : Type) where
  types : List SpatialArray.SpatialType
  rows : List (InputRow X)

namespace ArrayFunction

variable {X A V W : Type} (f : ArrayFunction X A V W)

/-- What MEOS answers for a row, its operands released. -/
def call (crs : List Int32) (xs : X × List X) : Listing W (Reply V) := do
  let operands ← takeAll (f.operands crs xs)
  let arr ← ofExcept (f.function xs (operands.map Prod.snd))
  let arr ← answered f.arrays f.held arr
  giveBack (operands.map Prod.fst)
  return arr

/-- A row of `emit_array`. -/
def arrayRow (off i : ℕ) (x : InputRow X) : Listing W ℕ :=
  match TableFunction.validRow x with
  | none => do
    change (·.setValid i false)
    return off
  | some xs => do
    let arr ← f.call [] xs
    let off ← writeList f.write off i arr
    change (·.setValid i true)
    return off

def genArray (chunk : InputChunk X) : Listing W Unit := (fun _ => ()) <$> eachRow f.arrayRow 0 0 chunk.rows

/-- A row of `emit_box_scalars`. -/
def boxesRow (crs : List Int32) (off i : ℕ) (x : InputRow X) : Listing W ℕ :=
  match TableFunction.validRow x with
  | none => do
    change fun result => (result.setValid i false).setEntry i ⟨off, 0⟩
    return off
  | some xs => do
    let arr ← f.call crs xs
    writeList f.write off i arr

/-- The types are read before the rows, NULL or not. -/
def genBoxes (chunk : InputChunk X) : Listing W Unit := do
  let crs ← ofExcept (chunk.types.mapM SpatialArray.geometryCrsSrid)
  (fun _ => ()) <$> eachRow (f.boxesRow crs) 0 0 chunk.rows

/-- A row of `sig_call_set`. -/
def setRow (_ : Unit) (i : ℕ) (x : InputRow X) : Listing W Unit :=
  match TableFunction.validRow x with
  | none => change (·.setValid i false)
  | some xs => do appendList f.write i (← f.call [] xs)

def genSet (chunk : InputChunk X) : Listing W Unit := eachRow f.setRow () 0 chunk.rows

/-- A row of `sig_call_rows`: `geomval_arr_free` and its like release the array with its elements. -/
def rowsRow (_ : Unit) (i : ℕ) (x : InputRow X) : Listing W Unit :=
  match TableFunction.validRow x with
  | none => change (·.setValid i false)
  | some xs => do appendList f.write i (← f.call [] xs).gathered

def genRows (chunk : InputChunk X) : Listing W Unit := eachRow f.rowsRow () 0 chunk.rows

/-- The bodies that answer arrays. -/
inductive Body
  | array
  | boxes
  | set
  | rows

/-- The function with a body. -/
def generated : Body → InputChunk X → Listing W Unit
  | .array => f.genArray
  | .boxes => f.genBoxes
  | .set => f.genSet
  | .rows => f.genRows

/-- What MEOS answers for a row, or what raises. -/
def answerOf (crs : List Int32) (xs : X × List X) : Except Exception (Option (List V)) := do
  f.function xs (← (f.operands crs xs).mapM id)

/-- A row that holds a NULL is NULL; nothing is an empty list. -/
def answer (crs : List Int32) (x : InputRow X) : Except Exception (Option (List (Option W))) :=
  match TableFunction.validRow x with
  | none => .ok none
  | some xs => do return some (← ((← f.answerOf crs xs).getD []).mapM f.write)

/-- The elements that hold something when the writing of one raises: it and those behind it, or all where the
elements are released together. -/
def unreleased (body : Body) (vals : List V) : List V :=
  match body with
  | .rows => vals
  | _ => vals.dropWhile fun v => (f.write v).toBool

/-- How much a row that raises leaves behind: the operands that were read, or what MEOS answered that was not
released. -/
def lost (body : Body) (crs : List Int32) (x : InputRow X) : ℕ :=
  match TableFunction.validRow x with
  | none => 0
  | some xs =>
    match f.answerOf crs xs with
    | .error _ => taken (f.operands crs xs)
    | .ok arr => f.arrays + ((f.unreleased body (arr.getD [])).map f.held).sum

/-- The SRIDs that a body reads off the types. -/
def Body.crs : Body → List SpatialArray.SpatialType → Except Exception (List Int32)
  | .boxes, types => types.mapM SpatialArray.geometryCrsSrid
  | _, _ => .ok []

/-- What a chunk is answered, or what raises, and how much it leaves behind. -/
def answers (body : Body) (chunk : InputChunk X) : Except (Exception × ℕ) (List (Option (List (Option W)))) := do
  let crs ← (body.crs chunk.types).mapError (·, 0)
  (chunk.rows.mapM (tagged (f.answer crs))).mapError fun raised => (raised.1, f.lost body crs raised.2)

end ArrayFunction

/-! ### Lists of temporal values -/

/-- The length of a list as an `int`. -/
def intLength (n : ℕ) : ℤ := (BitVec.ofNat 32 n).toInt

/-- `ListToTemporalArr`: whatever an element holds is copied, NULL or not. The array has room for as many
as the `int` says. -/
def listToTemporalArr {σ X A : Type} (blobToTemporal : X → A) (child : ListVector X) (le : Slice) :
    Booked Exception σ (ℕ × List (ℕ × A)) := do
  let n := intLength le.length
  let arr ← take
  -- an element written outside the array has no meaning
  raiseIf ((if 0 < n then n else 1) < le.length) (throw .diverges)
  let copies ← takeAll ((List.range le.length).map fun i => .ok (blobToTemporal (child.child (le.offset + i))))
  return (arr, copies)

/-- `FreeTemporalArr`. -/
def freeTemporalArr {σ A : Type} (arr : ℕ × List (ℕ × A)) : Booked Exception σ Unit := do
  giveBack (arr.2.map Prod.fst)
  giveBack [arr.1]

/-- The arguments of a chunk, and a row of it. -/
structure PairsRow (X D : Type) where
  lv1 : ListVector X
  lv2 : ListVector X
  dd : ℕ → D
  r : ℕ

/-- A function over two lists of temporal values and a value `D`; where it answers periods, each is to
be released, and so is their array. -/
structure PairsFunction (X D A V W : Type) where
  blobToTemporal : X → A
  function : List A → List A → D → Except Exception (Option (List V))
  periods : Bool
  write : V → W

namespace PairsFunction

variable {X D A V W : Type} (f : PairsFunction X D A V W)

/-- A row of `emit_pairs_scalar`; the value is read whether it is NULL or not. -/
def pairsRow (off i : ℕ) (row : PairsRow X D) : Listing W ℕ :=
  if row.lv1.valid row.r = false ∨ row.lv2.valid row.r = false then do
    change fun result => (result.setValid i false).setEntry i ⟨off, 0⟩
    return off
  else do
    let a1 ← listToTemporalArr f.blobToTemporal row.lv1 (row.lv1.entry row.r)
    let a2 ← listToTemporalArr f.blobToTemporal row.lv2 (row.lv2.entry row.r)
    let res ← ofExcept (f.function (a1.2.map Prod.snd) (a2.2.map Prod.snd) (row.dd row.r))
    let res ← answered (if f.periods then 2 else 1) (fun _ => if f.periods then 1 else 0) res
    freeTemporalArr a1
    freeTemporalArr a2
    let off ← writeList (fun v => .ok (some (f.write v))) off i res
    change (·.setValid i true)
    return off

def genPairs (rows : List (PairsRow X D)) : Listing W Unit := (fun _ => ()) <$> eachRow f.pairsRow 0 0 rows

/-- What the places of a list hold. -/
def places (lv : ListVector X) (r : ℕ) : List A :=
  (List.range (lv.entry r).length).map fun i => f.blobToTemporal (lv.child ((lv.entry r).offset + i))

def answer (row : PairsRow X D) : Except Exception (Option (List (Option W))) :=
  if row.lv1.valid row.r = false ∨ row.lv2.valid row.r = false then .ok none
  else (f.function (f.places row.lv1 row.r) (f.places row.lv2 row.r) (row.dd row.r)).map fun res =>
    some ((res.getD []).map (some ∘ f.write))

end PairsFunction

/-- The lists of a row, where there are any, are no longer than an `int` says. -/
def PairsRow.Short {X D : Type} (row : PairsRow X D) : Prop :=
  row.lv1.valid row.r = true → row.lv2.valid row.r = true →
    (row.lv1.entry row.r).length < 2 ^ 31 ∧ (row.lv2.entry row.r).length < 2 ^ 31

/-- The copies of a row whose lists are there, and the arrays that hold them. -/
def PairsRow.read {X D : Type} (row : PairsRow X D) : ℕ :=
  if row.lv1.valid row.r = false ∨ row.lv2.valid row.r = false then 0
  else (row.lv1.entry row.r).length + 1 + ((row.lv2.entry row.r).length + 1)

/-! ### Lists of base values -/

/-- The arguments of a chunk, and a row of it. -/
structure MappedRow (X Y : Type) where
  lv : ListVector X
  others : ℕ → List (Option Y)
  r : ℕ

namespace MappedRow

variable {X Y : Type} (row : MappedRow X Y)

/-- The elements that are not NULL, and the other values, of a row whose arguments are not NULL. -/
def present : Option (List X × List Y) :=
  if row.lv.valid row.r then
    ((row.others row.r).mapM id).map fun ys => ((row.lv.elements (row.lv.entry row.r)).filterMap id, ys)
  else none

/-- A row whose list has no more values than an `int` counts. -/
def Short : Prop := ∀ args ∈ row.present, args.1.length < 2 ^ 31

end MappedRow

/-- A function over a list of base values and values `Y`, which answers as many. -/
structure MappedFunction (X Y A V W : Type) where
  readElement : X → A
  ownedOperand : Bool
  function : List A → List Y → Except Exception (Option (ℕ → V))
  owned : V → Bool
  write : V → Option W

namespace MappedFunction

variable {X Y A V W : Type} (f : MappedFunction X Y A V W)

/-- No call is made for a list that holds no value; MEOS reads as many as it is told. -/
def callOf (cnt : ℤ) (xs : List A) (ys : List Y) : Except Exception (Option (ℕ → V)) :=
  if 0 < cnt then f.function (xs.take cnt.toNat) ys else .ok none

/-- A row of `sig_call_mapped`; an `int` counts the values. -/
def mappedRow (_ : Unit) (i : ℕ) (row : MappedRow X Y) : Listing W Unit :=
  match row.present with
  | none => change (·.setValid i false)
  | some (xs, ys) => do
    let v0 ← numbered (fun _ => f.ownedOperand) (xs.map f.readElement)
    let cnt := intLength v0.length
    let arr ← ofExcept (f.callOf cnt (v0.map Prod.snd) ys)
    let arr ← answered 1 (fun v => if f.owned v then 1 else 0) (arr.map fun r => (List.range cnt.toNat).map r)
    giveBack (v0.filterMap Prod.fst)
    if arr.isNone then change (·.setValid i false) else appendList (fun v => .ok (f.write v)) i arr

def genMapped (rows : List (MappedRow X Y)) : Listing W Unit := eachRow f.mappedRow () 0 rows

def answer (row : MappedRow X Y) : Except Exception (Option (List (Option W))) :=
  match row.present with
  | none => .ok none
  | some (xs, ys) => (f.callOf xs.length (xs.map f.readElement) ys).map fun arr =>
    arr.map fun r => ((List.range xs.length).map r).map f.write

/-- The elements of a row, if they are to be released. -/
def read (row : MappedRow X Y) : ℕ :=
  match row.present with
  | none => 0
  | some (xs, _) => if f.ownedOperand then xs.length else 0

end MappedFunction

end MobilityDuck
