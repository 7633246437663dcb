/-
# The metadata of a tile

The metadata of a tile is JSON text. `ReadTileGrid` reads from it the six
georeferencing coefficients in GDAL's order, the block sizes and the
reference system, which is `EPSG:<code>` or none, and `PixelToWorld` gives
the world coordinates of a pixel corner under the coefficients.

yyjson and the arithmetic of doubles are parameters. yyjson reads every text
of `Json.Text` as the value it states (`Yyjson.Reads`), which is all that is
asked of it.

The texts `ReadCrs` takes are `StatesCrs`: the empty one, and `EPSG:` with the
digits of a positive 31-bit number (`readCrs_exact`).

Key definitions: `readBlocksize`, `readCrs`, `StatesCrs`, `readTileGrid`,
`pixelToWorld`. Key theorems: `readCrs_exact`, `readTileGrid_eq_ok`.
-/
import MobilityDuck.Lib.Json
import MobilityDuck.Types

namespace MobilityDuck

open Lib

def INT32_MAX : ℤ := 2 ^ 31 - 1

/-- The arithmetic of doubles the code uses, and `Value::DOUBLE(x).ToString()`. -/
structure DoubleOps where
  add : Binary64 → Binary64 → Binary64
  mul : Binary64 → Binary64 → Binary64
  ofInt : ℤ → Binary64
  toText : Binary64 → String

/-- The doubles that are small integers, computed with exactly; a text for every double, which is
that of DuckDB for the ones below. -/
def integerDoubles : DoubleOps where
  add x y := .ofInt (x.floor + y.floor)
  mul x y := .ofInt (x.floor * y.floor)
  ofInt := .ofInt
  toText x :=
    if x = .zero then "0.0" else if x = .ofInt 1 then "1.0" else if x = .ofInt (-1) then "-1.0"
    else toString x.bits.toNat ++ "e0"

/-- `yyjson_read` allowing the non-finite numbers, and the texts it reads as numbers. -/
structure Yyjson where
  read : String → Option Json
  number : Json → List Char → Prop

/-- yyjson reads each text of the grammar as the value it states. -/
def Yyjson.Reads (y : Yyjson) : Prop :=
  ∀ v text, Json.Text y.number v text.toList → y.read text = some v

/-- `yyjson_obj_get`: the first member of that name. -/
def objGet : Json → String → Option Json
  | .obj ms, key => (ms.find? fun m => m.1 = key).map (·.2)
  | _, _ => none

/-- `yyjson_is_num`. -/
def IsNum : Json → Prop
  | .uint _ | .sint _ | .real _ => True
  | _ => False

instance : DecidablePred IsNum := fun v => by
  cases v <;> simp only [IsNum] <;> infer_instance

/-- `yyjson_get_num`. -/
def getNum (d : DoubleOps) : Json → Binary64
  | .uint n => d.ofInt n
  | .sint n => d.ofInt n
  | .real x => x
  | _ => .zero

/-- What the metadata of a tile states that a raster is built from. -/
structure TileGrid where
  transform : List Binary64
  blocksizeX : ℤ
  blocksizeY : ℤ
  srid : ℤ
  deriving DecidableEq, Repr

def throwMetadata {α : Type} (what : String) : Except Exception α :=
  .error (.invalidInput ("raster: the tile metadata " ++ what))

def checkBlocksize (key : String) (v : ℤ) : Except Exception ℤ :=
  if v ≤ 0 ∨ v > INT32_MAX then
    throwMetadata ("states a '" ++ key ++ "' that is not a positive 32-bit integer")
  else .ok v

def readBlocksize (root : Json) (key : String) : Except Exception ℤ :=
  match objGet root key with
  | some (.uint u) => checkBlocksize key (if (u : ℤ) > INT32_MAX then -1 else u)
  | some (.sint v) => checkBlocksize key v
  | _ => throwMetadata ("states no integer '" ++ key ++ "'")

/-- The loop of `ReadCrs` over the characters of a code, `none` where it raises. -/
def crsCode : List Char → ℤ → Option ℤ
  | [], code => some code
  | c :: cs, code =>
    if c < '0' ∨ c > '9' ∨ code > INT32_MAX / 10 then none
    else crsCode cs (code * 10 + ((c.toNat : ℤ) - ('0'.toNat : ℤ)))

def readCrs (root : Json) : Except Exception ℤ :=
  match objGet root "crs" with
  | some (.str crs) =>
    if crs = "" then .ok 0
    else if crs.utf8ByteSize ≤ 5 ∨ crs.toList.take 5 ≠ ['E', 'P', 'S', 'G', ':'] then
      throwMetadata ("states the reference system '" ++ crs ++
        "', where a raster reads EPSG:<code> or none")
    else
      match crsCode (crs.toList.drop 5) 0 with
      | none =>
        throwMetadata ("states the reference system '" ++ crs ++
          "', whose code is no positive 32-bit integer")
      | some code =>
        if code ≤ 0 ∨ code > INT32_MAX then
          throwMetadata ("states the reference system '" ++ crs ++
            "', whose code is no positive 32-bit integer")
        else .ok code
  | _ => throwMetadata "states no string 'crs'"

/-- The coefficients, each a finite number. -/
def readTransform (d : DoubleOps) (vs : List Json) : Except Exception (List Binary64) :=
  vs.zipIdx.mapM fun v =>
    if ¬ IsNum v.1 ∨ ¬ (getNum d v.1).IsFinite then
      throwMetadata ("states a 'transform' whose coefficient " ++ toString (v.2 + 1) ++
        " is not a finite number")
    else .ok (getNum d v.1)

def readTileGrid (d : DoubleOps) (y : Yyjson) (metadata : String) : Except Exception TileGrid :=
  match y.read metadata with
  | none => throwMetadata "is not JSON"
  | some (.obj ms) =>
    match objGet (.obj ms) "transform" with
    | some (.arr vs) =>
      if vs.length ≠ 6 then throwMetadata "states no 'transform' of 6 numbers"
      else do
        let transform ← readTransform d vs
        let blocksizeX ← readBlocksize (.obj ms) "blocksize_x"
        let blocksizeY ← readBlocksize (.obj ms) "blocksize_y"
        let srid ← readCrs (.obj ms)
        return ⟨transform, blocksizeX, blocksizeY, srid⟩
    | _ => throwMetadata "states no 'transform' of 6 numbers"
  | some _ => throwMetadata "is not a JSON object"

/-- The world coordinates of the corner of pixel `(col, row)`. A zero offset adds no term, so the
corner of pixel `(0, 0)` is the coefficient itself. -/
def pixelToWorld (d : DoubleOps) (gt : List Binary64) (col row : ℤ) : Binary64 × Binary64 :=
  let c i := gt.getD i .zero
  let x := if col ≠ 0 then d.add (c 0) (d.mul (c 1) (d.ofInt col)) else c 0
  let y := if col ≠ 0 then d.add (c 3) (d.mul (c 4) (d.ofInt col)) else c 3
  if row ≠ 0 then (d.add x (d.mul (c 2) (d.ofInt row)), d.add y (d.mul (c 5) (d.ofInt row)))
  else (x, y)

@[simp] theorem pixelToWorld_zero (d : DoubleOps) (gt : List Binary64) :
    pixelToWorld d gt 0 0 = (gt.getD 0 .zero, gt.getD 3 .zero) := rfl

/-! ### The code of a reference system -/

theorem le_ofDigitChars (cs : List Char) (n : ℕ) : n ≤ Nat.ofDigitChars 10 cs n := by
  have h : Nat.ofDigitChars 10 cs n = 10 ^ cs.length * n + Nat.ofDigitChars 10 cs 0 :=
    Nat.ofDigitChars_eq_ofDigitChars_zero
  have hpos : 0 < 10 ^ cs.length := by positivity
  have hle : n ≤ 10 ^ cs.length * n := Nat.le_mul_of_pos_left n hpos
  omega

/-- Digits are read as the number they make, as long as it fits 31 bits. The induction is on the
digits, and the number read so far fits whenever the whole does. -/
theorem crsCode_digits : ∀ (cs : List Char) (code : ℕ), (∀ c ∈ cs, c.isDigit = true) →
    (Nat.ofDigitChars 10 cs code : ℤ) ≤ INT32_MAX →
    crsCode cs code = some (Nat.ofDigitChars 10 cs code : ℤ)
  | [], code, _, _ => by simp [crsCode]
  | c :: cs, code, hd, hle => by
    have hc : '0' ≤ c ∧ c ≤ '9' := by
      have h := hd c List.mem_cons_self
      simp only [Char.isDigit, Bool.and_eq_true, decide_eq_true_eq] at h
      exact h
    have h48 : 48 ≤ c.toNat := hc.1
    have hcons : Nat.ofDigitChars 10 (c :: cs) code =
        Nat.ofDigitChars 10 cs (10 * code + (c.toNat - '0'.toNat)) := Nat.ofDigitChars_cons
    have hstep : (code : ℤ) * 10 + ((c.toNat : ℤ) - ('0'.toNat : ℤ)) =
        ((10 * code + (c.toNat - '0'.toNat) : ℕ) : ℤ) := by
      have h0 : '0'.toNat = 48 := rfl
      push_cast [h0]
      omega
    rw [hcons] at hle ⊢
    have hfits : ¬ ((code : ℤ) > INT32_MAX / 10) := by
      have := le_ofDigitChars cs (10 * code + (c.toNat - '0'.toNat))
      unfold INT32_MAX at hle ⊢
      omega
    have hguard : ¬ (c < '0' ∨ c > '9' ∨ (code : ℤ) > INT32_MAX / 10) := by
      simp only [not_or]
      exact ⟨Char.not_lt.mpr hc.1, Char.not_lt.mpr hc.2, hfits⟩
    rw [crsCode, if_neg hguard, hstep]
    exact crsCode_digits cs _ (fun d hmem => hd d (List.mem_cons_of_mem _ hmem)) hle

/-! ### The texts `ReadCrs` takes -/

/-- The loop of `ReadCrs` in 64 bits, whose sums and products wrap. -/
def crsCode64 : List Char → Int64 → Option Int64
  | [], code => some code
  | c :: cs, code =>
    if c < '0' ∨ c > '9' ∨ code.toInt > INT32_MAX / 10 then none
    else crsCode64 cs (code * 10 + (Int64.ofInt c.toNat - Int64.ofInt '0'.toNat))

/-- What passes the guard leaves room for one more digit, so that nothing wraps. -/
theorem crsCode64_toInt : ∀ (cs : List Char) (code : Int64), 0 ≤ code.toInt →
    (crsCode64 cs code).map Int64.toInt = crsCode cs code.toInt
  | [], _, _ => rfl
  | c :: cs, code, h => by
    rw [crsCode64, crsCode]
    by_cases hguard : c < '0' ∨ c > '9' ∨ code.toInt > INT32_MAX / 10
    · rw [if_pos hguard, if_pos hguard]
      rfl
    · rw [if_neg hguard, if_neg hguard]
      simp only [not_or] at hguard
      obtain ⟨hlo, hhi, hroom⟩ := hguard
      have h48 : 48 ≤ c.toNat := Char.not_lt.mp hlo
      have h57 : c.toNat ≤ 57 := Char.not_lt.mp hhi
      have h0 : '0'.toNat = 48 := rfl
      unfold INT32_MAX at hroom
      have hexact : code * 10 + (Int64.ofInt c.toNat - Int64.ofInt '0'.toNat) =
          Int64.ofInt (code.toInt * 10 + ((c.toNat : ℤ) - ('0'.toNat : ℤ))) := by
        rw [Int64.ofInt_add, Int64.ofInt_mul, Int64.ofInt_sub, Int64.ofInt_toInt]
        rfl
      have hstep : (code * 10 + (Int64.ofInt c.toNat - Int64.ofInt '0'.toNat)).toInt =
          code.toInt * 10 + ((c.toNat : ℤ) - ('0'.toNat : ℤ)) := by
        rw [hexact, Int64.toInt_ofInt_of_le (by omega) (by omega)]
      rw [← hstep]
      exact crsCode64_toInt cs _ (by rw [hstep]; omega)

/-- A code that is read consists of digits, and is the number they make. -/
theorem digits_of_crsCode : ∀ (cs : List Char) (code : ℕ) {r : ℤ}, crsCode cs code = some r →
    (∀ c ∈ cs, c.isDigit = true) ∧ r = Nat.ofDigitChars 10 cs code
  | [], code, r, h => by
    obtain rfl := Option.some.inj h
    exact ⟨by simp, rfl⟩
  | c :: cs, code, r, h => by
    rw [crsCode] at h
    by_cases hguard : c < '0' ∨ c > '9' ∨ (code : ℤ) > INT32_MAX / 10
    · rw [if_pos hguard] at h
      cases h
    · rw [if_neg hguard] at h
      simp only [not_or] at hguard
      obtain ⟨hlo, hhi, -⟩ := hguard
      have h48 : 48 ≤ c.toNat := Char.not_lt.mp hlo
      have h0 : '0'.toNat = 48 := rfl
      have hstep : (code : ℤ) * 10 + ((c.toNat : ℤ) - ('0'.toNat : ℤ)) =
          ((10 * code + (c.toNat - '0'.toNat) : ℕ) : ℤ) := by
        push_cast [h0]
        omega
      rw [hstep] at h
      obtain ⟨hdigits, hr⟩ := digits_of_crsCode cs _ h
      refine ⟨?_, by rw [hr, Nat.ofDigitChars_cons]⟩
      intro d hd
      rcases List.mem_cons.mp hd with rfl | hd
      · simp only [Char.isDigit, Bool.and_eq_true, decide_eq_true_eq]
        exact ⟨Char.not_lt.mp hlo, Char.not_lt.mp hhi⟩
      · exact hdigits d hd

/-- The grammar of a reference system, and the SRID a text states: none, or `EPSG:` and a positive
31-bit number in digits. -/
def StatesCrs (crs : String) (srid : ℤ) : Prop :=
  (crs = "" ∧ srid = 0) ∨
    ∃ digits : List Char, crs.toList = "EPSG:".toList ++ digits ∧ digits ≠ [] ∧
      (∀ c ∈ digits, c.isDigit = true) ∧ srid = Nat.ofDigitChars 10 digits 0 ∧ 0 < srid ∧ srid ≤ INT32_MAX

/-- The check of the prefix. -/
theorem epsg_prefix_iff (crs : String) :
    (crs.utf8ByteSize ≤ 5 ∨ crs.toList.take 5 ≠ ['E', 'P', 'S', 'G', ':']) ↔
      ¬ ∃ digits : List Char, crs.toList = "EPSG:".toList ++ digits ∧ digits ≠ [] := by
  have hsize : "EPSG:".utf8ByteSize = 5 := rfl
  constructor
  · rintro h ⟨digits, hcrs, hne⟩
    have happend : crs = "EPSG:" ++ String.ofList digits := by
      apply String.toList_injective
      rw [hcrs, String.toList_append]
      simp
    have hpos : (String.ofList digits).utf8ByteSize ≠ 0 := by
      intro h0
      rw [String.utf8ByteSize_eq_zero_iff] at h0
      apply hne
      rw [← String.toList_ofList (l := digits), h0]
      rfl
    rcases h with h | h
    · rw [happend, String.utf8ByteSize_append, hsize] at h
      omega
    · apply h
      rw [hcrs]
      rfl
  · intro h
    by_contra hcon
    rw [not_or, not_not] at hcon
    obtain ⟨hlong, htake⟩ := hcon
    refine h ⟨crs.toList.drop 5, ?_, ?_⟩
    · calc crs.toList = crs.toList.take 5 ++ crs.toList.drop 5 := (List.take_append_drop 5 _).symm
        _ = "EPSG:".toList ++ crs.toList.drop 5 := by rw [htake]; rfl
    · intro hdrop
      have hcrs : crs = "EPSG:" := by
        apply String.toList_injective
        rw [← List.take_append_drop 5 crs.toList, htake, hdrop]
        rfl
      rw [hcrs, hsize] at hlong
      omega

/-- A text of the grammar is read. -/
theorem readCrs_of_statesCrs {root : Json} {crs : String} {srid : ℤ}
    (h : objGet root "crs" = some (.str crs)) (hs : StatesCrs crs srid) : readCrs root = .ok srid := by
  unfold readCrs
  rw [h]
  simp only
  rcases hs with ⟨rfl, rfl⟩ | ⟨digits, hcrs, hne, hdigits, rfl, hpos, hle⟩
  · rw [if_pos rfl]
  · have hempty : crs ≠ "" := by
      intro he
      rw [he] at hcrs
      simp at hcrs
    have hprefix : ¬ (crs.utf8ByteSize ≤ 5 ∨ crs.toList.take 5 ≠ ['E', 'P', 'S', 'G', ':']) :=
      fun hbad => (epsg_prefix_iff crs).mp hbad ⟨digits, hcrs, hne⟩
    have hdrop : crs.toList.drop 5 = digits := by
      rw [hcrs]
      rfl
    have hcode : crsCode digits 0 = some (Nat.ofDigitChars 10 digits 0 : ℤ) := crsCode_digits digits 0 hdigits hle
    have hrange : ¬ ((Nat.ofDigitChars 10 digits 0 : ℤ) ≤ 0 ∨ (Nat.ofDigitChars 10 digits 0 : ℤ) > INT32_MAX) := by
      omega
    rw [if_neg hempty, if_neg hprefix, hdrop, hcode]
    simp only
    rw [if_neg hrange]

/-- What is read is the SRID of a text of the grammar; every other text raises. -/
theorem readCrs_cases (root : Json) :
    (∃ srid crs, readCrs root = .ok srid ∧ objGet root "crs" = some (.str crs) ∧ StatesCrs crs srid) ∨
      ∃ what, readCrs root = throwMetadata what := by
  unfold readCrs
  split
  · rename_i crs hcrs
    by_cases hempty : crs = ""
    · rw [if_pos hempty]
      exact .inl ⟨0, crs, rfl, hcrs, .inl ⟨hempty, rfl⟩⟩
    rw [if_neg hempty]
    by_cases hprefix : crs.utf8ByteSize ≤ 5 ∨ crs.toList.take 5 ≠ ['E', 'P', 'S', 'G', ':']
    · rw [if_pos hprefix]
      exact .inr ⟨_, rfl⟩
    rw [if_neg hprefix]
    obtain ⟨digits, htext, hne⟩ := not_not.mp (mt (epsg_prefix_iff crs).mpr hprefix)
    have hdrop : crs.toList.drop 5 = digits := by
      rw [htext]
      rfl
    rw [hdrop]
    cases hcode : crsCode digits 0 with
    | none => exact .inr ⟨_, rfl⟩
    | some code =>
      simp only
      by_cases hrange : code ≤ 0 ∨ code > INT32_MAX
      · rw [if_pos hrange]
        exact .inr ⟨_, rfl⟩
      · rw [if_neg hrange]
        obtain ⟨hdigits, hvalue⟩ := digits_of_crsCode digits 0 hcode
        exact .inl ⟨code, crs, rfl, hcrs, .inr ⟨digits, htext, hne, hdigits, hvalue, by omega, by omega⟩⟩
  · exact .inr ⟨_, rfl⟩

/-- **`ReadCrs` accepts its grammar**, raises on every other text, and reads the code without a
wrap in its 64 bits. -/
theorem readCrs_exact (root : Json) :
    (∀ srid, readCrs root = .ok srid ↔ ∃ crs, objGet root "crs" = some (.str crs) ∧ StatesCrs crs srid) ∧
    ((∃ srid, readCrs root = .ok srid) ∨ ∃ what, readCrs root = throwMetadata what) ∧
    ∀ cs : List Char, (crsCode64 cs 0).map Int64.toInt = crsCode cs 0 := by
  refine ⟨fun srid => ⟨fun h => ?_, ?_⟩, ?_, fun cs => crsCode64_toInt cs 0 (by decide)⟩
  · rcases readCrs_cases root with ⟨srid', crs, hread, hcrs, hs⟩ | ⟨what, hread⟩
    · obtain rfl : srid' = srid := Except.ok.inj (hread.symm.trans h)
      exact ⟨crs, hcrs, hs⟩
    · rw [hread] at h
      cases h
  · rintro ⟨crs, hcrs, hs⟩
    exact readCrs_of_statesCrs hcrs hs
  · exact (readCrs_cases root).imp (fun ⟨srid, _, hread, _⟩ => ⟨srid, hread⟩) id

/-- The reference system as the metadata of a raster states it. -/
def epsgText (srid : ℕ) : String := if srid = 0 then "" else "EPSG:" ++ toString srid

theorem statesCrs_epsgText {srid : ℕ} (hs : (srid : ℤ) ≤ INT32_MAX) : StatesCrs (epsgText srid) srid := by
  by_cases h0 : srid = 0
  · rw [h0]
    exact .inl ⟨rfl, rfl⟩
  · have hdigits : Nat.ofDigitChars 10 (Nat.toDigits 10 srid) 0 = srid := Nat.ofDigitChars_ten_toDigits
    refine .inr ⟨Nat.toDigits 10 srid, ?_, ?_, ?_, ?_, by omega, hs⟩
    · simp [epsgText, h0]
    · exact Nat.toDigits_ne_nil
    · exact fun c hc => Nat.isDigit_of_mem_toDigits (by decide) (by decide) hc
    · rw [hdigits]

theorem readCrs_epsg {root : Json} {srid : ℕ} (hs : (srid : ℤ) ≤ INT32_MAX)
    (h : objGet root "crs" = some (.str (epsgText srid))) : readCrs root = .ok srid :=
  readCrs_of_statesCrs h (statesCrs_epsgText hs)

/-! ### Metadata that is accepted -/

/-- A loop whose every turn gives a value gives all of them. -/
theorem mapM_eq_ok {α β ε : Type} {f : α → Except ε β} {g : α → β} :
    ∀ l : List α, (∀ a ∈ l, f a = .ok (g a)) → l.mapM f = .ok (l.map g)
  | [], _ => rfl
  | a :: l, h => by
    rw [List.mapM_cons, h a List.mem_cons_self,
      mapM_eq_ok l fun b hb => h b (List.mem_cons_of_mem _ hb)]
    rfl

theorem readTransform_eq_ok {d : DoubleOps} {vs : List Json}
    (h : ∀ v ∈ vs, IsNum v ∧ (getNum d v).IsFinite) :
    readTransform d vs = .ok (vs.map (getNum d)) := by
  unfold readTransform
  rw [mapM_eq_ok (g := fun v : Json × ℕ => getNum d v.1)]
  · rw [show (fun v : Json × ℕ => getNum d v.1) = getNum d ∘ Prod.fst from rfl, ← List.map_map,
      List.zipIdx_map_fst]
  · intro v hv
    have hmem : v.1 ∈ vs := List.fst_mem_of_mem_zipIdx hv
    rw [if_neg]
    simp [h v.1 hmem]

theorem readBlocksize_uint {root : Json} {key : String} {n : ℕ} (h : objGet root key = some (.uint n))
    (hpos : 0 < n) (hle : (n : ℤ) ≤ INT32_MAX) : readBlocksize root key = .ok n := by
  have hsmall : ¬ ((n : ℤ) > INT32_MAX) := by omega
  have hrange : ¬ ((n : ℤ) ≤ 0 ∨ (n : ℤ) > INT32_MAX) := by omega
  unfold readBlocksize
  rw [h]
  simp only
  rw [if_neg hsmall, checkBlocksize, if_neg hrange]

/-- Metadata whose members are six finite numbers, two block sizes and a reference system gives
them. -/
theorem readTileGrid_eq_ok {d : DoubleOps} {y : Yyjson} {metadata : String}
    {ms : List (String × Json)} {vs : List Json} {w h srid : ℕ}
    (hread : y.read metadata = some (.obj ms))
    (htransform : objGet (.obj ms) "transform" = some (.arr vs)) (hlen : vs.length = 6)
    (hvs : ∀ v ∈ vs, IsNum v ∧ (getNum d v).IsFinite)
    (hx : objGet (.obj ms) "blocksize_x" = some (.uint w)) (hw : 0 < w) (hw' : (w : ℤ) ≤ INT32_MAX)
    (hy : objGet (.obj ms) "blocksize_y" = some (.uint h)) (hh : 0 < h) (hh' : (h : ℤ) ≤ INT32_MAX)
    (hcrs : objGet (.obj ms) "crs" = some (.str (epsgText srid)))
    (hsrid : (srid : ℤ) ≤ INT32_MAX) :
    readTileGrid d y metadata = .ok ⟨vs.map (getNum d), w, h, srid⟩ := by
  unfold readTileGrid
  rw [hread]
  simp only [htransform, hlen, ne_eq, not_true_eq_false, if_false, readTransform_eq_ok hvs,
    readBlocksize_uint hx hw hw', readBlocksize_uint hy hh hh', readCrs_epsg hsrid hcrs]
  rfl

end MobilityDuck
