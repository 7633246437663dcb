/-
# The texts of spatial arrays

`asText` and `asEWKT` of a list answer the texts of its elements. The executor makes
room for the elements of a row behind those of the rows before, and writes them
through a pointer into the child of the result that it takes before the first row.
Where the child has to move, that pointer is left behind: the elements of a chunk are
written where they belong as long as they fit in the child as it is handed out, and
the first element behind that is written to a buffer that was released
(`spatialarrWktArray_exact`).

Key definitions: `SpatialChunk`, `spatialarrWktArray`, `SpatialChunk.answer`, `SpatialChunk.total`. Key theorems:
`wktRows_fit`, `wktRows_stale`, `spatialarrWktArray_exact`.
-/
import MobilityDuck.Lib.ListBuffer
import MobilityDuck.Lib.UnifiedFormat
import MobilityDuck.Types
import Mathlib.Algebra.Ring.Nat

namespace MobilityDuck
namespace SpatialArray

open Lib

/-! ### Types -/

/-- The types the executor tells apart; a geometry may state a coordinate reference system. -/
inductive SpatialType
  | list (child : SpatialType)
  | geometry (name : String) (crs : Option (List Char))
  | other (name : String)
  deriving DecidableEq, Repr

def SpatialType.getAlias : SpatialType → String
  | .list _ => ""
  | .geometry name _ => name
  | .other name => name

inductive SpatialarrElemKind
  | tgeomPoint
  | geometryBlob
  deriving DecidableEq, Repr

/-- `spatialarr_elem_kind_from_list`. -/
def spatialarrElemKindFromList : SpatialType → Except Exception SpatialarrElemKind
  | .list child =>
    if child.getAlias = "tgeompoint" ∨ child.getAlias = "tgeogpoint" then .ok .tgeomPoint
    else if child.getAlias = "GEOMETRY" then .ok .geometryBlob
    else .error (.invalidInput ("Spatialarr_as_text/asEWKT: expected LIST(tgeompoint), LIST(tgeogpoint), or " ++
      "LIST(geometry), got LIST(" ++ child.getAlias ++ ")"))
  | _ => .error (.invalidInput "Spatialarr_as_text/asEWKT: expected a LIST input")

/-- `GeometryCrsSrid`. -/
def geometryCrsSrid : SpatialType → Except Exception Int32
  | .list child => geometryCrsSrid child
  | .geometry _ (some id) =>
    let upper := id.map Char.toUpper
    if ¬"EPSG:".toList.isPrefixOf upper ∧ upper = "OGC:CRS84".toList then .ok 4326
    else
      let code := if "EPSG:".toList.isPrefixOf upper then id.drop 5 else id
      if code ≠ [] ∧ code.length ≤ 9 ∧ code.all Char.isDigit then .ok (Int32.ofNat (Nat.ofDigitChars 10 code 0))
      else .error (.invalidInput ("The coordinate reference system '" ++ String.ofList id ++
        "' of a GEOMETRY names no EPSG code"))
  | _ => .ok 0

/-! ### Elements -/

/-- What DuckDB and MEOS do with an element; a text is its bytes. -/
structure SpatialMeos (G : Type) where
  geometryToWkb : List UInt8 → List UInt8
  geoFromEwkb : List UInt8 → Int32 → Except Exception (Option G)
  spatialText : Bool → Int32 → List UInt8 → Except Exception (Option (List UInt8))
  geoText : Bool → Int32 → G → Except Exception (Option (List UInt8))

/-- `GeometryToGSerialized`. -/
def geometryToGSerialized {G : Type} (meos : SpatialMeos G) (blob : List UInt8) (srid : Int32) :
    Except Exception G := do
  let wkb := meos.geometryToWkb blob
  if wkb = [] then throw (.invalidInput "Failed to convert GEOMETRY to WKB: buffer is empty")
  match ← meos.geoFromEwkb wkb srid with
  | none => throw (.invalidInput "Failed to parse WKB into a geometry")
  | some gs => return gs

/-- The text of an element; one that is NULL is refused. -/
def elementText {G : Type} (meos : SpatialMeos G) (kind : SpatialarrElemKind) (extended : Bool) (crs maxdd : Int32) :
    Option (List UInt8) → Except Exception (List UInt8)
  | none => throw (.invalidInput "Spatialarr_as_text/asEWKT: NULL element inside spatial array")
  | some blob => do
    let wkt ← match kind with
      | .tgeomPoint =>
        if blob.length < 8 then
          throw (.invalidInput "Spatialarr_as_text/asEWKT: invalid temporal blob in array")
        else meos.spatialText extended maxdd blob
      | .geometryBlob => do meos.geoText extended maxdd (← geometryToGSerialized meos blob crs)
    match wkt with
    | none => throw (.invalidInput "Spatialarr_as_text/asEWKT: failed to convert array element")
    | some text => return text

/-! ### The executor -/

/-- The lists, their elements, and the digits if the call has them. -/
structure SpatialChunk where
  type : SpatialType
  count : ℕ
  list : UnifiedFormat Slice
  elements : UnifiedFormat (List UInt8)
  maxdd : Option (UnifiedFormat Int32)

/-- How a call ends that does not return. -/
inductive Stop
  | raised (e : Exception)
  | badWrite (b : BadWrite)
  deriving DecidableEq, Repr

/-- The result: constant for a single row. -/
structure SpatialResult where
  column : ListVector (List UInt8)
  constant : Bool

def SpatialResult.rows (r : SpatialResult) (count : ℕ) : List (Option (List (Option (List UInt8)))) :=
  (List.range count).map fun row => r.column.row (if r.constant then 0 else row)

abbrev Text := Int32 → Option (List UInt8) → Except Exception (List UInt8)

namespace SpatialChunk

variable (c : SpatialChunk) (text : Text) (defaultMaxdd : Int32)

/-- The digits of a row; nothing where they are NULL. -/
def digits (row : ℕ) : Option Int32 :=
  match c.maxdd with
  | none => some defaultMaxdd
  | some v => v.get row

/-- The loop over the elements of a row. -/
def wktElements (text : Option (List UInt8) → Except Exception (List UInt8)) (pointer offset base : ℕ) :
    ℕ → ℕ → ListBuffer (List UInt8) → Except Stop (ListBuffer (List UInt8))
  | _, 0, out => .ok out
  | j, left + 1, out =>
    match text (c.elements.get (offset + j)) with
    | .error e => .error (.raised e)
    | .ok wkt =>
      match out.writeAt pointer (base + j) wkt with
      | .error b => .error (.badWrite b)
      | .ok out => wktElements text pointer offset base (j + 1) left out

/-- A row that is answered NULL. -/
def nullRow (row total : ℕ) (out : ListBuffer (List UInt8)) : ℕ × ListBuffer (List UInt8) :=
  (total, { out with column := out.column.setValid row false })

def wktRow (pointer row total : ℕ) (out : ListBuffer (List UInt8)) : Except Stop (ℕ × ListBuffer (List UInt8)) :=
  match c.list.get row, c.digits defaultMaxdd row with
  | some le, some maxdd =>
    if le.length = 0 then .ok (nullRow row total out)
    else
      let out := out.reserve (total + le.length)
      let out := { out with column := (out.column.setSize (total + le.length)).setEntry row ⟨total, le.length⟩ }
      (c.wktElements (text maxdd) pointer le.offset total 0 le.length out).map fun out => (total + le.length, out)
  | _, _ => .ok (nullRow row total out)

/-- The loop over the rows. -/
def wktRows (pointer : ℕ) : ℕ → ℕ → ℕ → ListBuffer (List UInt8) → Except Stop (ℕ × ListBuffer (List UInt8))
  | _, 0, total, out => .ok (total, out)
  | row, left + 1, total, out =>
    match c.wktRow text defaultMaxdd pointer row total out with
    | .error e => .error e
    | .ok (total, out) => wktRows pointer (row + 1) left total out

end SpatialChunk

/-- `spatialarr_wkt_array`; the pointer into the child is taken before the first row. -/
def spatialarrWktArray {G : Type} (meos : SpatialMeos G) (extended : Bool) (defaultMaxdd : Int32) (c : SpatialChunk)
    (out : ListBuffer (List UInt8)) : Except Stop SpatialResult :=
  match spatialarrElemKindFromList c.type, geometryCrsSrid c.type with
  | .error e, _ => .error (.raised e)
  | .ok _, .error e => .error (.raised e)
  | .ok kind, .ok crs =>
    (c.wktRows (elementText meos kind extended crs) defaultMaxdd out.buffer 0 c.count 0 out).map fun r =>
      ⟨r.2.column.setSize r.1, decide (c.count = 1)⟩

/-! ### What the rows should answer -/

namespace SpatialChunk

variable (c : SpatialChunk) (text : Text) (defaultMaxdd : Int32)

/-- The list of a row and the digits; nothing where the row is NULL or empty. -/
def asked (row : ℕ) : Option (Slice × Int32) := do
  let le ← c.list.get row
  let maxdd ← c.digits defaultMaxdd row
  if le.length = 0 then none else some (le, maxdd)

/-- The texts of the elements of a row. -/
def answer (row : ℕ) : Except Exception (Option (List (Option (List UInt8)))) :=
  match c.asked defaultMaxdd row with
  | none => .ok none
  | some (le, maxdd) =>
    ((List.range' le.offset le.length).mapM fun k => text maxdd (c.elements.get k)).map fun texts =>
      some (texts.map some)

/-- How many elements of a row are written. -/
def needed (row : ℕ) : ℕ := (c.asked defaultMaxdd row).elim 0 fun x => x.1.length

/-- How many elements of the chunk are written. -/
def total : ℕ := ((List.range' 0 c.count).map (c.needed defaultMaxdd)).sum

variable {c text defaultMaxdd} {pointer row total left : ℕ} {out : ListBuffer (List UInt8)}

theorem wktRow_null (h : c.asked defaultMaxdd row = none) :
    c.wktRow text defaultMaxdd pointer row total out = .ok (nullRow row total out) := by
  unfold asked at h
  unfold wktRow
  cases hlist : c.list.get row with
  | none => rfl
  | some le =>
    cases hdigits : c.digits defaultMaxdd row with
    | none => rfl
    | some maxdd =>
      rw [hlist, hdigits] at h
      by_cases hempty : le.length = 0
      · dsimp only
        rw [if_pos hempty]
      · simp [hempty] at h

theorem wktRow_asked (text : Text) (pointer total : ℕ) (out : ListBuffer (List UInt8)) {le : Slice} {maxdd : Int32}
    (h : c.asked defaultMaxdd row = some (le, maxdd)) :
    le.length ≠ 0 ∧ c.wktRow text defaultMaxdd pointer row total out =
      (c.wktElements (text maxdd) pointer le.offset total 0 le.length
        { out.reserve (total + le.length) with
          column := (out.column.setSize (total + le.length)).setEntry row ⟨total, le.length⟩ }).map
        fun out => (total + le.length, out) := by
  unfold asked at h
  unfold wktRow
  cases hlist : c.list.get row with
  | none =>
    rw [hlist] at h
    cases h
  | some le' =>
    cases hdigits : c.digits defaultMaxdd row with
    | none =>
      rw [hlist, hdigits] at h
      cases h
    | some maxdd' =>
      rw [hlist, hdigits] at h
      by_cases hempty : le'.length = 0
      · simp [hempty] at h
      · obtain ⟨rfl, rfl⟩ : le' = le ∧ maxdd' = maxdd := by simpa [hempty] using h
        refine ⟨hempty, ?_⟩
        dsimp only
        rw [if_neg hempty, ListBuffer.column_reserve]

/-! ### The elements of a row -/

section Elements

/-- Texts that are written from a place on; where one is refused, the call raises. -/
def wroteAt (out : ListBuffer (List UInt8)) (k : ℕ) :
    Except Exception (List (List UInt8)) → Except Stop (ListBuffer (List UInt8))
  | .ok texts => .ok { out with column := out.column.fill k (texts.map some) }
  | .error e => .error (.raised e)

variable {convert : Option (List UInt8) → Except Exception (List UInt8)} {offset base : ℕ}

/-- Elements that fit are written one behind the other, up to one that is refused. -/
theorem wktElements_fit (left : ℕ) : ∀ (j : ℕ) (out : ListBuffer (List UInt8)), base + j + left ≤ out.capacity →
    c.wktElements convert out.buffer offset base j left out =
      wroteAt out (base + j) ((List.range' (offset + j) left).mapM fun k => convert (c.elements.get k)) := by
  induction left with
  | zero => exact fun _ _ _ => rfl
  | succ left ih =>
    intro j out hfit
    rw [wktElements, List.range'_succ, List.mapM_cons]
    cases htext : convert (c.elements.get (offset + j)) with
    | error e => rfl
    | ok wkt =>
      have hrest := ih (j + 1) { out with column := out.column.write (base + j) (some wkt) } (by
        show base + (j + 1) + left ≤ out.capacity
        omega)
      dsimp only at hrest ⊢
      rw [ListBuffer.writeAt_of_lt (by omega)]
      dsimp only
      rw [hrest, ← Nat.add_assoc]
      cases (List.range' (offset + j + 1) left).mapM fun k => convert (c.elements.get k) <;> rfl

/-- The first element that is written through a stale pointer is lost. -/
theorem wktElements_stale (hstale : pointer ≠ out.buffer) {left : ℕ} (hleft : left ≠ 0) {texts : List (List UInt8)}
    (htexts : ((List.range' offset left).mapM fun k => convert (c.elements.get k)) = .ok texts) :
    c.wktElements convert pointer offset base 0 left out = .error (.badWrite .released) := by
  obtain ⟨left, rfl⟩ := Nat.exists_eq_succ_of_ne_zero hleft
  rw [List.range'_succ, List.mapM_cons] at htexts
  rw [wktElements, Nat.add_zero]
  cases htext : convert (c.elements.get offset) with
  | error e =>
    rw [htext] at htexts
    cases htexts
  | ok wkt =>
    dsimp only
    rw [ListBuffer.writeAt_stale hstale]

theorem length_of_mapM {α β : Type} {f : α → Except Exception β} : ∀ {xs : List α} {ys : List β},
    xs.mapM f = .ok ys → ys.length = xs.length := by
  intro xs
  induction xs with
  | nil =>
    intro ys h
    obtain rfl := Except.ok.inj h
    rfl
  | cons x xs ih =>
    intro ys h
    rw [List.mapM_cons] at h
    cases hx : f x with
    | error e =>
      rw [hx] at h
      cases h
    | ok y =>
      cases hxs : xs.mapM f with
      | error e =>
        rw [hx, hxs] at h
        cases h
      | ok ys' =>
        rw [hx, hxs] at h
        obtain rfl := Except.ok.inj h
        exact congrArg Nat.succ (ih hxs)

end Elements

/-! ### The rows -/

section Rows

variable {le : Slice} {maxdd : Int32} {done answers : List (Option (List (Option (List UInt8))))}

theorem needed_of_asked (h : c.asked defaultMaxdd row = some (le, maxdd)) :
    c.needed defaultMaxdd row = le.length := by
  rw [needed, h]
  rfl

theorem needed_of_null (h : c.asked defaultMaxdd row = none) : c.needed defaultMaxdd row = 0 := by
  rw [needed, h]
  rfl

theorem answer_of_null (h : c.asked defaultMaxdd row = none) : c.answer text defaultMaxdd row = .ok none := by
  rw [answer, h]

theorem answer_of_asked (h : c.asked defaultMaxdd row = some (le, maxdd)) : c.answer text defaultMaxdd row =
    ((List.range' le.offset le.length).mapM fun k => text maxdd (c.elements.get k)).map fun texts =>
      some (texts.map some) := by
  rw [answer, h]

/-- A row whose elements fit. -/
theorem wktRow_fit (h : c.asked defaultMaxdd row = some (le, maxdd)) (hfit : total + le.length ≤ out.capacity) :
    c.wktRow text defaultMaxdd out.buffer row total out =
      (wroteAt { out with column := (out.column.setSize (total + le.length)).setEntry row ⟨total, le.length⟩ } total
        ((List.range' le.offset le.length).mapM fun k => text maxdd (c.elements.get k))).map
          fun out => (total + le.length, out) := by
  rw [(wktRow_asked text out.buffer total out h).2, ListBuffer.reserve_of_le hfit]
  exact congrArg (Except.map fun out => (total + le.length, out)) (wktElements_fit le.length 0
    { out with column := (out.column.setSize (total + le.length)).setEntry row ⟨total, le.length⟩ } hfit)

/-- A row whose elements do not fit is written to the buffer that was released. -/
theorem wktRow_stale (h : c.asked defaultMaxdd row = some (le, maxdd)) (hover : out.capacity < total + le.length)
    {a : Option (List (Option (List UInt8)))} (ha : c.answer text defaultMaxdd row = .ok a) :
    c.wktRow text defaultMaxdd out.buffer row total out = .error (.badWrite .released) := by
  obtain ⟨hlength, hrow⟩ := wktRow_asked text out.buffer total out h
  rw [answer_of_asked h] at ha
  cases htexts : (List.range' le.offset le.length).mapM fun k => text maxdd (c.elements.get k) with
  | error e =>
    rw [htexts] at ha
    cases ha
  | ok texts =>
    rw [hrow, wktElements_stale _ hlength htexts]
    · rfl
    · show out.buffer ≠ (out.reserve (total + le.length)).buffer
      rw [ListBuffer.buffer_reserve_of_lt hover]
      omega

/-- How the loop ends over rows that fit. -/
def Outcome (r : Except Stop (ℕ × ListBuffer (List UInt8))) (done : List (Option (List (Option (List UInt8))))) :
    Except Exception (List (Option (List (Option (List UInt8))))) → Prop
  | .ok answers => ∃ out, r = .ok (out.column.size, out) ∧ out.column.Holds (done ++ answers)
  | .error e => r = .error (.raised e)

/-- By induction on the rows that are left: the column holds the rows before, and the child has not moved. -/
theorem wktRows_fit (c : SpatialChunk) (text : Text) (defaultMaxdd : Int32) (left : ℕ) :
    ∀ (out : ListBuffer (List UInt8)) (done : List (Option (List (Option (List UInt8))))), out.column.Holds done →
    out.column.size + ((List.range' done.length left).map (c.needed defaultMaxdd)).sum ≤ out.capacity →
    Outcome (c.wktRows text defaultMaxdd out.buffer done.length left out.column.size out) done
      ((List.range' done.length left).mapM (c.answer text defaultMaxdd)) := by
  induction left with
  | zero =>
    intro out done hholds _
    exact ⟨out, rfl, by simpa using hholds⟩
  | succ left ih =>
    intro out done hholds hfit
    rw [wktRows, List.range'_succ, List.mapM_cons]
    rw [List.range'_succ, List.map_cons, List.sum_cons] at hfit
    -- a row that answers `a` leaves the column with one row more
    have hnext : ∀ (a : Option (List (Option (List UInt8)))) (out' : ListBuffer (List UInt8)),
        out'.column.Holds (done ++ [a]) → out'.buffer = out.buffer → out'.capacity = out.capacity →
        out'.column.size = out.column.size + c.needed defaultMaxdd done.length →
        Outcome (c.wktRows text defaultMaxdd out.buffer (done.length + 1) left out'.column.size out') done
          (do return a :: (← (List.range' (done.length + 1) left).mapM (c.answer text defaultMaxdd))) := by
      intro a out' hholds' hbuffer hcapacity hsize
      have hrest := ih out' (done ++ [a]) hholds' (by
        rw [List.length_append, List.length_singleton, hsize, hcapacity]
        omega)
      rw [List.length_append, List.length_singleton, hbuffer] at hrest
      revert hrest
      cases (List.range' (done.length + 1) left).mapM (c.answer text defaultMaxdd) with
      | error e => exact id
      | ok answers =>
        rintro ⟨out'', hr, hholds''⟩
        exact ⟨out'', hr, by rwa [List.append_assoc] at hholds''⟩
    cases hasked : c.asked defaultMaxdd done.length with
    | none =>
      rw [wktRow_null hasked, answer_of_null hasked]
      obtain ⟨hholds', hsize⟩ := hholds.null (.inl rfl)
      have hloop := hnext none (nullRow done.length out.column.size out).2 hholds' rfl rfl (by
        rw [needed_of_null hasked]
        exact hsize)
      rwa [show (nullRow done.length out.column.size out).2.column.size = out.column.size from hsize] at hloop
    | some x =>
      obtain ⟨le, maxdd⟩ := x
      rw [needed_of_asked hasked] at hfit
      rw [wktRow_fit hasked (by omega), answer_of_asked hasked]
      cases htexts : (List.range' le.offset le.length).mapM fun k => text maxdd (c.elements.get k) with
      | error e => rfl
      | ok texts =>
        have hlength : (texts.map some).length = le.length := by
          rw [List.length_map, length_of_mapM htexts, List.length_range']
        obtain ⟨hholds', hsize⟩ := hholds.append (texts.map some)
        have hpush : ((out.column.setSize (out.column.size + le.length)).setEntry done.length
            ⟨out.column.size, le.length⟩).fill out.column.size (texts.map some) =
              out.column.push done.length (texts.map some) := by
          rw [ListVector.push, hlength]
        rw [hlength] at hsize
        have hloop := hnext (some (texts.map some))
          { out with column := out.column.push done.length (texts.map some) } hholds' rfl rfl (by
            rw [needed_of_asked hasked]
            exact hsize)
        dsimp only [wroteAt, Except.map] at hloop ⊢
        rw [hpush]
        rwa [hsize] at hloop

/-- Rows that all convert, but do not fit. -/
theorem wktRows_stale (left : ℕ) : ∀ (row total : ℕ) (out : ListBuffer (List UInt8)), total ≤ out.capacity →
    out.capacity < total + ((List.range' row left).map (c.needed defaultMaxdd)).sum →
    ∀ answers, (List.range' row left).mapM (c.answer text defaultMaxdd) = .ok answers →
      c.wktRows text defaultMaxdd out.buffer row left total out = .error (.badWrite .released) := by
  induction left with
  | zero =>
    intro row total out hle hover
    simp at hover
    omega
  | succ left ih =>
    intro row total out hle hover answers hanswers
    rw [wktRows]
    rw [List.range'_succ, List.map_cons, List.sum_cons] at hover
    rw [List.range'_succ, List.mapM_cons] at hanswers
    cases ha : c.answer text defaultMaxdd row with
    | error e =>
      rw [ha] at hanswers
      cases hanswers
    | ok a =>
      cases hrest : (List.range' (row + 1) left).mapM (c.answer text defaultMaxdd) with
      | error e =>
        rw [ha, hrest] at hanswers
        cases hanswers
      | ok rest =>
        cases hasked : c.asked defaultMaxdd row with
        | none =>
          rw [needed_of_null hasked] at hover
          rw [wktRow_null hasked]
          exact ih (row + 1) total (nullRow row total out).2 hle (by
            show out.capacity < _
            omega) rest hrest
        | some x =>
          obtain ⟨le, maxdd⟩ := x
          rw [needed_of_asked hasked] at hover
          by_cases hfit : total + le.length ≤ out.capacity
          · rw [wktRow_fit hasked hfit]
            rw [answer_of_asked hasked] at ha
            cases htexts : (List.range' le.offset le.length).mapM fun k => text maxdd (c.elements.get k) with
            | error e =>
              rw [htexts] at ha
              cases ha
            | ok texts =>
              exact ih (row + 1) (total + le.length) ⟨((out.column.setSize (total + le.length)).setEntry row
                ⟨total, le.length⟩).fill total (texts.map some), out.buffer, out.capacity⟩ hfit
                (show out.capacity < _ by omega) rest hrest
          · rw [wktRow_stale hasked (by omega) ha]

end Rows

end SpatialChunk

/-! ### The call -/

section Call

variable {G : Type} {c : SpatialChunk} {out : ListBuffer (List UInt8)} {kind : SpatialarrElemKind} {crs : Int32}

theorem rows_of_holds {v : ListVector (List UInt8)} {answers : List (Option (List (Option (List UInt8))))}
    (h : v.Holds answers) {n : ℕ} : (⟨v.setSize n, decide (answers.length = 1)⟩ : SpatialResult).rows answers.length =
      answers := by
  have hrows : (⟨v.setSize n, decide (answers.length = 1)⟩ : SpatialResult).rows answers.length =
      (List.range answers.length).map fun row => v.row (if decide (answers.length = 1) then 0 else row) := rfl
  rw [hrows]
  refine List.ext_getElem (by simp) fun row hrow hrow' => ?_
  rw [List.getElem_map, List.getElem_range]
  -- a constant result is read in its first row, and has no other
  have hfirst : (if decide (answers.length = 1) then 0 else row) = row := by
    by_cases hone : answers.length = 1
    · rw [decide_eq_true hone]
      exact (by omega : 0 = row)
    · rw [decide_eq_false hone]
      rfl
  rw [hfirst]
  exact h.row row hrow'

/-- Where the elements fit in the child as it is handed out, each row is answered the texts of its own elements, and
the call raises what the first row raises that has none. Where all rows have texts and the elements do not fit, the
call writes to a buffer that was released. -/
theorem spatialarrWktArray_exact (meos : SpatialMeos G) (extended : Bool) (defaultMaxdd : Int32)
    (hfresh : out.column.Fresh) (hkind : spatialarrElemKindFromList c.type = .ok kind)
    (hcrs : geometryCrsSrid c.type = .ok crs) :
    (c.total defaultMaxdd ≤ out.capacity → ∀ answers,
      (List.range' 0 c.count).mapM (c.answer (elementText meos kind extended crs) defaultMaxdd) = .ok answers →
        ∃ r, spatialarrWktArray meos extended defaultMaxdd c out = .ok r ∧ r.rows c.count = answers) ∧
    (c.total defaultMaxdd ≤ out.capacity → ∀ e,
      (List.range' 0 c.count).mapM (c.answer (elementText meos kind extended crs) defaultMaxdd) = .error e →
        spatialarrWktArray meos extended defaultMaxdd c out = .error (.raised e)) ∧
    (out.capacity < c.total defaultMaxdd → ∀ answers,
      (List.range' 0 c.count).mapM (c.answer (elementText meos kind extended crs) defaultMaxdd) = .ok answers →
        spatialarrWktArray meos extended defaultMaxdd c out = .error (.badWrite .released)) := by
  have hcall : spatialarrWktArray meos extended defaultMaxdd c out =
      (c.wktRows (elementText meos kind extended crs) defaultMaxdd out.buffer 0 c.count 0 out).map fun r =>
        ⟨r.2.column.setSize r.1, decide (c.count = 1)⟩ := by
    unfold spatialarrWktArray
    rw [hkind, hcrs]
  rw [hcall]
  have hloop : c.total defaultMaxdd ≤ out.capacity →
      SpatialChunk.Outcome (c.wktRows (elementText meos kind extended crs) defaultMaxdd out.buffer 0 c.count 0 out) []
        ((List.range' 0 c.count).mapM (c.answer (elementText meos kind extended crs) defaultMaxdd)) := by
    intro hfit
    have hrows := c.wktRows_fit (elementText meos kind extended crs) defaultMaxdd c.count out [] hfresh.holds (by
      rw [hfresh.size, Nat.zero_add]
      exact hfit)
    rwa [List.length_nil, hfresh.size] at hrows
  refine ⟨fun hfit answers hanswers => ?_, fun hfit e he => ?_, fun hover answers hanswers => ?_⟩
  · have hends := hloop hfit
    rw [hanswers] at hends
    obtain ⟨out', hrun, hholds⟩ := hends
    rw [List.nil_append] at hholds
    have hcount : answers.length = c.count := by
      rw [SpatialChunk.length_of_mapM hanswers, List.length_range']
    rw [hrun]
    refine ⟨_, rfl, ?_⟩
    rw [← hcount]
    exact rows_of_holds hholds
  · have hends := hloop hfit
    rw [he] at hends
    have hrun : c.wktRows (elementText meos kind extended crs) defaultMaxdd out.buffer 0 c.count 0 out =
        .error (.raised e) := hends
    rw [hrun]
    rfl
  · rw [SpatialChunk.wktRows_stale c.count 0 0 out (Nat.zero_le _) (by rwa [Nat.zero_add]) answers hanswers]
    rfl

/-- A library whose points are their own texts. -/
def pointTexts : SpatialMeos Unit := ⟨id, fun _ _ => .ok none, fun _ _ blob => .ok (some blob), fun _ _ _ => .ok none⟩

/-- Two rows, of two points and of one. -/
def points : SpatialChunk where
  type := .list (.other "tgeompoint")
  count := 2
  list := .flat ⟨0, 0⟩ [some ⟨0, 2⟩, some ⟨2, 1⟩]
  elements := .flat [] [some (List.replicate 8 65), some (List.replicate 8 66), some (List.replicate 8 67)]
  maxdd := none

def pointRows : List (Option (List (Option (List UInt8)))) :=
  [some [some (List.replicate 8 65), some (List.replicate 8 66)], some [some (List.replicate 8 67)]]

def handedOut (capacity : ℕ) : ListBuffer (List UInt8) := ⟨.blank [], 0, capacity⟩

theorem spatialarrWktArray_exact_points :
    (∃ r, spatialarrWktArray pointTexts false 15 points (handedOut 2048) = .ok r ∧ r.rows 2 = pointRows) ∧
      spatialarrWktArray pointTexts false 15 points (handedOut 2) = .error (.badWrite .released) := by
  have hfresh : ∀ capacity, (handedOut capacity).column.Fresh := fun _ => ListVector.fresh_blank []
  have hkind : spatialarrElemKindFromList points.type = .ok .tgeomPoint := by decide
  have hcrs : geometryCrsSrid points.type = .ok 0 := by decide
  have htotal : points.total 15 = 3 := by decide
  have hanswers : (List.range' 0 points.count).mapM (points.answer (elementText pointTexts .tgeomPoint false 0) 15) =
      .ok pointRows := by decide
  have hroom := spatialarrWktArray_exact pointTexts false 15 (hfresh 2048) hkind hcrs
  have hover := spatialarrWktArray_exact pointTexts false 15 (hfresh 2) hkind hcrs
  refine ⟨hroom.1 ?_ pointRows hanswers, hover.2.2 ?_ pointRows hanswers⟩
  · rw [htotal]
    decide
  · rw [htotal]
    decide

end Call

end SpatialArray
end MobilityDuck
