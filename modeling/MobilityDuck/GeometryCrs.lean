/-
# The reference systems that types of geometries state

DuckDB keeps a coordinate reference system on the type of a geometry, and the SRID
that a type states is read off its identifier. Here are the identifiers that are
read: a code of at most nine digits, alone or behind the authority in either case,
and `OGC:CRS84` (`StatesSrid`). Everything else is refused, and no code wraps
(`geometryCrsSrid_exact`). The metadata of a raster states its reference system as a
text too, and where both readers take a text they read the same SRID
(`geometryCrsSrid_readCrs`).

Key definitions: `StatesSrid`. Key theorems: `geometryCrsSrid_exact`, `geometryCrsSrid_readCrs`.
-/
import MobilityDuck.SpatialArray
import MobilityDuck.TileMetadata

namespace MobilityDuck
namespace SpatialArray

open Lib

/-- The reference system of a type; a list has that of its elements. -/
def SpatialType.crs : SpatialType → Option (List Char)
  | .list child => child.crs
  | .other _ => none
  | .geometry _ crs => crs

/-- The SRID a type states; a list that of its elements, and none is 0. -/
inductive StatesSrid : SpatialType → ℤ → Prop
  | list {child : SpatialType} {srid : ℤ} (h : StatesSrid child srid) : StatesSrid (.list child) srid
  | other (name : String) : StatesSrid (.other name) 0
  | none (name : String) : StatesSrid (.geometry name none) 0
  | crs84 (name : String) {id : List Char} (h : id.map Char.toUpper = "OGC:CRS84".toList) :
      StatesSrid (.geometry name (some id)) 4326
  | epsg (name : String) {authority digits : List Char}
      (hauthority : authority = [] ∨ authority.map Char.toUpper = "EPSG:".toList) (hne : digits ≠ [])
      (hshort : digits.length ≤ 9) (hdigits : ∀ c ∈ digits, c.isDigit = true) :
      StatesSrid (.geometry name (some (authority ++ digits))) (Nat.ofDigitChars 10 digits 0)

/-! ### Codes -/

theorem toUpper_of_isDigit {c : Char} (h : c.isDigit = true) : c.toUpper = c := by
  simp only [Char.isDigit, Bool.and_eq_true, decide_eq_true_eq] at h
  unfold Char.toUpper
  rw [dif_neg]
  intro hlower
  have hle : c.val.toNat ≤ 57 := h.2
  have hge : 97 ≤ c.val.toNat := hlower.1
  omega

theorem ofDigitChars_lt (digits : List Char) (hdigits : ∀ c ∈ digits, c.isDigit = true) (n : ℕ) :
    Nat.ofDigitChars 10 digits n < 10 ^ digits.length * (n + 1) := by
  induction digits generalizing n with
  | nil => simp
  | cons c digits ih =>
    have hc := hdigits c List.mem_cons_self
    simp only [Char.isDigit, Bool.and_eq_true, decide_eq_true_eq] at hc
    have hle : c.toNat ≤ 57 := hc.2
    have h0 : '0'.toNat = 48 := rfl
    have hrest := ih (fun d hd => hdigits d (List.mem_cons_of_mem _ hd)) (10 * n + (c.toNat - '0'.toNat))
    rw [Nat.ofDigitChars_cons]
    calc Nat.ofDigitChars 10 digits (10 * n + (c.toNat - '0'.toNat))
        < 10 ^ digits.length * (10 * n + (c.toNat - '0'.toNat) + 1) := hrest
      _ ≤ 10 ^ digits.length * (10 * (n + 1)) := Nat.mul_le_mul_left _ (by omega)
      _ = 10 ^ (c :: digits).length * (n + 1) := by
        rw [List.length_cons, Nat.pow_succ, Nat.mul_assoc]

/-- A code of at most nine digits fits. -/
theorem toInt_code {digits : List Char} (hdigits : ∀ c ∈ digits, c.isDigit = true) (hshort : digits.length ≤ 9) :
    (Int32.ofNat (Nat.ofDigitChars 10 digits 0)).toInt = Nat.ofDigitChars 10 digits 0 := by
  have hlt := ofDigitChars_lt digits hdigits 0
  have hpow : 10 ^ digits.length ≤ 10 ^ 9 := Nat.pow_le_pow_right (by omega) hshort
  rw [Nat.zero_add, Nat.mul_one] at hlt
  exact Int32.toInt_ofNat_of_lt (by omega)

theorem map_toUpper_digits {digits : List Char} (hdigits : ∀ c ∈ digits, c.isDigit = true) :
    digits.map Char.toUpper = digits :=
  calc digits.map Char.toUpper = digits.map id := List.map_congr_left fun c hc => toUpper_of_isDigit (hdigits c hc)
    _ = digits := List.map_id _

/-- Digits are no authority. -/
theorem not_isPrefixOf_digits {digits : List Char} (hdigits : ∀ c ∈ digits, c.isDigit = true) :
    "EPSG:".toList.isPrefixOf digits = false := by
  cases digits with
  | nil => rfl
  | cons c digits =>
    have hc := hdigits c List.mem_cons_self
    have hne : ('E' == c) = false := by
      rw [beq_eq_false_iff_ne]
      rintro rfl
      cases hc
    have hlist : "EPSG:".toList = ['E', 'P', 'S', 'G', ':'] := rfl
    rw [hlist, List.isPrefixOf, hne]
    rfl

/-! ### Both directions -/

/-- The identifier behind its authority. -/
def codeOf (id : List Char) : List Char :=
  if "EPSG:".toList.isPrefixOf (id.map Char.toUpper) then id.drop 5 else id

def IsCode (code : List Char) : Prop := code ≠ [] ∧ code.length ≤ 9 ∧ code.all Char.isDigit = true

theorem geometryCrsSrid_code {name : String} {id : List Char}
    (h84 : ¬(¬"EPSG:".toList.isPrefixOf (id.map Char.toUpper) = true ∧ id.map Char.toUpper = "OGC:CRS84".toList))
    (hcode : IsCode (codeOf id)) :
    geometryCrsSrid (.geometry name (some id)) = .ok (Int32.ofNat (Nat.ofDigitChars 10 (codeOf id) 0)) := by
  unfold geometryCrsSrid
  dsimp only
  rw [if_neg h84]
  exact if_pos hcode

theorem geometryCrsSrid_refused {name : String} {id : List Char}
    (h84 : ¬(¬"EPSG:".toList.isPrefixOf (id.map Char.toUpper) = true ∧ id.map Char.toUpper = "OGC:CRS84".toList))
    (hcode : ¬IsCode (codeOf id)) :
    geometryCrsSrid (.geometry name (some id)) = .error (.invalidInput ("The coordinate reference system '" ++
      String.ofList id ++ "' of a GEOMETRY names no EPSG code")) := by
  unfold geometryCrsSrid
  dsimp only
  rw [if_neg h84]
  exact if_neg hcode

/-- What stands before the code is the authority, or nothing. -/
theorem exists_authority (id : List Char) : ∃ authority, id = authority ++ codeOf id ∧
    (authority = [] ∨ authority.map Char.toUpper = "EPSG:".toList) := by
  by_cases hpre : "EPSG:".toList.isPrefixOf (id.map Char.toUpper) = true
  · refine ⟨id.take 5, ?_, .inr ?_⟩
    · rw [codeOf, if_pos hpre, List.take_append_drop]
    · have htake := List.prefix_iff_eq_take.mp (List.isPrefixOf_iff_prefix.mp hpre)
      rw [List.map_take, htake]
      rfl
  · exact ⟨[], by rw [codeOf, if_neg hpre, List.nil_append], .inl rfl⟩

theorem statesSrid_of_ok {type : SpatialType} {srid : Int32} (h : geometryCrsSrid type = .ok srid) :
    StatesSrid type srid.toInt := by
  induction type with
  | list child ih => exact .list (ih h)
  | other name =>
    obtain rfl := Except.ok.inj h
    exact .other name
  | geometry name crs =>
    cases crs with
    | none =>
      obtain rfl := Except.ok.inj h
      exact .none name
    | some id =>
      by_cases h84 : ¬"EPSG:".toList.isPrefixOf (id.map Char.toUpper) = true ∧
          id.map Char.toUpper = "OGC:CRS84".toList
      · unfold geometryCrsSrid at h
        dsimp only at h
        rw [if_pos h84] at h
        obtain rfl := Except.ok.inj h
        exact .crs84 name h84.2
      · by_cases hcode : IsCode (codeOf id)
        · rw [geometryCrsSrid_code h84 hcode] at h
          obtain rfl := Except.ok.inj h
          obtain ⟨hne, hshort, hall⟩ := hcode
          have hdigits : ∀ c ∈ codeOf id, c.isDigit = true := List.all_eq_true.mp hall
          obtain ⟨authority, hid, hauthority⟩ := exists_authority id
          rw [toInt_code hdigits hshort]
          have hstates := StatesSrid.epsg name hauthority hne hshort hdigits
          rwa [← hid] at hstates
        · rw [geometryCrsSrid_refused h84 hcode] at h
          cases h

theorem codeOf_append {authority digits : List Char}
    (hauthority : authority = [] ∨ authority.map Char.toUpper = "EPSG:".toList)
    (hdigits : ∀ c ∈ digits, c.isDigit = true) : codeOf (authority ++ digits) = digits := by
  rcases hauthority with rfl | hauthority
  · rw [List.nil_append, codeOf, map_toUpper_digits hdigits, not_isPrefixOf_digits hdigits]
    rfl
  · have hlength : authority.length = 5 := by
      have := congrArg List.length hauthority
      simpa using this
    rw [codeOf, List.map_append, hauthority, if_pos (List.isPrefixOf_iff_prefix.mpr (List.prefix_append _ _)),
      ← hlength, List.drop_left]

theorem ok_of_statesSrid {type : SpatialType} {n : ℤ} (h : StatesSrid type n) :
    ∃ srid, geometryCrsSrid type = .ok srid ∧ srid.toInt = n := by
  induction h with
  | list _ ih => exact ih
  | other name => exact ⟨0, rfl, rfl⟩
  | none name => exact ⟨0, rfl, rfl⟩
  | crs84 name h =>
    refine ⟨4326, ?_, rfl⟩
    unfold geometryCrsSrid
    dsimp only
    rw [if_pos ⟨by rw [h]; decide, h⟩]
  | @epsg name authority digits hauthority hne hshort hdigits =>
    have hcode := codeOf_append hauthority hdigits
    refine ⟨Int32.ofNat (Nat.ofDigitChars 10 digits 0), ?_, toInt_code hdigits hshort⟩
    have h84 : ¬(¬"EPSG:".toList.isPrefixOf ((authority ++ digits).map Char.toUpper) = true ∧
        (authority ++ digits).map Char.toUpper = "OGC:CRS84".toList) := by
      rintro ⟨hpre, hupper⟩
      rcases hauthority with rfl | hauthority
      · rw [List.nil_append, map_toUpper_digits hdigits] at hupper
        have hletter := hdigits 'O' (by rw [hupper]; decide)
        cases hletter
      · refine hpre ?_
        rw [List.map_append, hauthority]
        exact List.isPrefixOf_iff_prefix.mpr (List.prefix_append _ _)
    rw [geometryCrsSrid_code h84 (by rw [hcode]; exact ⟨hne, hshort, List.all_eq_true.mpr hdigits⟩), hcode]

/-- A type is read if it states an SRID, as that, and refused by its reference system otherwise. -/
theorem geometryCrsSrid_exact (type : SpatialType) :
    (∀ srid : Int32, geometryCrsSrid type = .ok srid ↔ StatesSrid type srid.toInt) ∧
      ((∃ srid, geometryCrsSrid type = .ok srid) ∨ ∃ id, type.crs = some id ∧ geometryCrsSrid type =
        .error (.invalidInput ("The coordinate reference system '" ++ String.ofList id ++
          "' of a GEOMETRY names no EPSG code"))) := by
  refine ⟨fun srid => ⟨statesSrid_of_ok, fun h => ?_⟩, ?_⟩
  · obtain ⟨srid', hread, hsrid⟩ := ok_of_statesSrid h
    rw [hread, Int32.toInt_inj.mp hsrid]
  · induction type with
    | list child ih => exact ih
    | other name => exact .inl ⟨0, rfl⟩
    | geometry name crs =>
      cases crs with
      | none => exact .inl ⟨0, rfl⟩
      | some id =>
        by_cases h84 : ¬"EPSG:".toList.isPrefixOf (id.map Char.toUpper) = true ∧
            id.map Char.toUpper = "OGC:CRS84".toList
        · refine .inl ⟨4326, ?_⟩
          unfold geometryCrsSrid
          dsimp only
          rw [if_pos h84]
        · by_cases hcode : IsCode (codeOf id)
          · exact .inl ⟨_, geometryCrsSrid_code h84 hcode⟩
          · exact .inr ⟨id, rfl, geometryCrsSrid_refused h84 hcode⟩

/-! ### The two readers -/

/-- A text that the metadata of a raster is read by states the same SRID of a geometry, unless its code has more
than nine digits: then the type is refused. -/
theorem geometryCrsSrid_readCrs {root : Json} {crs : String} {srid : ℤ} (name : String)
    (hroot : objGet root "crs" = some (.str crs)) (hne : crs ≠ "") (hread : readCrs root = .ok srid) :
    (crs.toList.length ≤ 14 → ∃ n : Int32, geometryCrsSrid (.geometry name (some crs.toList)) = .ok n ∧
      n.toInt = srid) ∧
    (14 < crs.toList.length → ∀ n, geometryCrsSrid (.geometry name (some crs.toList)) ≠ .ok n) := by
  have hstates : StatesCrs crs srid := by
    rcases readCrs_cases root with ⟨srid', crs', hread', hroot', hs⟩ | ⟨what, hread'⟩
    · obtain rfl : srid' = srid := Except.ok.inj (hread'.symm.trans hread)
      rw [hroot] at hroot'
      injection hroot' with hstr
      injection hstr with hcrs
      rwa [hcrs]
    · rw [hread] at hread'
      cases hread'
  obtain ⟨digits, hcrs, hdigits0, hdigits, hsrid, -⟩ := hstates.resolve_left fun h => hne h.1
  have hlength : crs.toList.length = 5 + digits.length := by
    rw [hcrs, List.length_append]
    rfl
  have hauthority : "EPSG:".toList = [] ∨ "EPSG:".toList.map Char.toUpper = "EPSG:".toList := .inr (by decide)
  rw [hcrs] at hlength ⊢
  constructor
  · intro hshort
    obtain ⟨n, hn, hvalue⟩ := ok_of_statesSrid
      (StatesSrid.epsg name hauthority hdigits0 (by omega) hdigits)
    exact ⟨n, hn, hvalue.trans hsrid.symm⟩
  · intro hlong n
    have hcode := codeOf_append hauthority hdigits
    have hprefixed : "EPSG:".toList.isPrefixOf (("EPSG:".toList ++ digits).map Char.toUpper) = true := by
      rw [List.map_append]
      exact List.isPrefixOf_iff_prefix.mpr (List.prefix_append _ _)
    rw [geometryCrsSrid_refused (fun h => h.1 hprefixed) (by
      rw [hcode]
      rintro ⟨-, hshort, -⟩
      omega)]
    exact fun h => by cases h

theorem geometryCrsSrid_readCrs_4326 :
    ∃ n : Int32, geometryCrsSrid (.geometry "GEOMETRY" (some "EPSG:4326".toList)) = .ok n ∧ n.toInt = 4326 := by
  have hroot : objGet (.obj [("crs", .str "EPSG:4326")]) "crs" = some (.str "EPSG:4326") := rfl
  have hdigits : "4326".toList.all Char.isDigit = true := by decide
  have hcode : Nat.ofDigitChars 10 "4326".toList 0 = 4326 := by decide
  have hmax : (4326 : ℤ) ≤ INT32_MAX := by
    unfold INT32_MAX
    omega
  have hstates : StatesCrs "EPSG:4326" 4326 := by
    refine .inr ⟨"4326".toList, by decide, by decide, List.all_eq_true.mp hdigits, ?_, by omega, hmax⟩
    rw [hcode]
    simp
  exact (geometryCrsSrid_readCrs "GEOMETRY" hroot (by decide) (readCrs_of_statesCrs hroot hstates)).1 (by decide)

end SpatialArray
end MobilityDuck
