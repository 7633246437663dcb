/-
# The conversions between the epochs of DuckDB and of MEOS

DuckDB counts dates in days and timestamps in microseconds from 1970-01-01, MEOS
from 2000-01-01, as PostgreSQL does. Six converters move a value across:
`toMeosDate` and `fromMeosDate` in 32 bits, `toMeosTimestamp`, `fromMeosTimestamp`
and the pair `duckDBToMeosTimestamp`, `meosToDuckDBTimestamp` of the generated
functions in 64. Each adds or subtracts the distance of the epochs and looks at
nothing else.

Both sides keep infinities in the same integers: DuckDB the greatest and its
negation, MEOS the greatest and the least. A converter is right at a value
(`RightAt`) when the answer stands for the same time, the sum did not overflow,
the way back gives the value again, and the order against every other right value
is kept. That is so exactly where the value is finite and the other side has a
finite code for it (`epochConversions_right_iff`): no infinity is ever mapped to an
infinity, and the values past the other side's range are wrapped, not refused.

Key definitions: `toMeosDate`, `fromMeosDate`, `toMeosTimestamp`,
`fromMeosTimestamp`, `meosToDuckDBTimestamp`, `RightAt`. Key theorems:
`rightAt_iff`, `epochConversions_right_iff`.
-/
import MobilityDuck.Lib.TimeLine
import MobilityDuck.OptimizeScan

namespace MobilityDuck

open Lib

/-! ### The converters -/

def epochOffsetDays : Int32 := 10957

/-- `ToMeosDate`. -/
def toMeosDate (d : Int32) : Int32 := d - epochOffsetDays

/-- `FromMeosDate`. -/
def fromMeosDate (pgDate : Int32) : Int32 := pgDate + epochOffsetDays

/-- DuckDB's `Timestamp`: a timestamp is its microseconds since the epoch. -/
structure Timestamp where
  getEpochMicroSeconds : Int64 → Int64
  fromEpochMicroSeconds : Int64 → Int64
  get_value : ∀ ts, getEpochMicroSeconds ts = ts
  from_value : ∀ micros, fromEpochMicroSeconds micros = micros

/-- `ToMeosTimestamp`. -/
def Timestamp.toMeosTimestamp (duckdb : Timestamp) (ts : Int64) : Int64 :=
  duckdb.getEpochMicroSeconds ts - epochOffsetMicros

/-- `FromMeosTimestamp`. -/
def Timestamp.fromMeosTimestamp (duckdb : Timestamp) (pgTs : Int64) : Int64 :=
  duckdb.fromEpochMicroSeconds (pgTs + epochOffsetMicros)

/-- `MeosToDuckDBTimestamp`, the way back of `DuckDBToMeosTimestamp`. -/
def meosToDuckDBTimestamp (meosTs : Int64) : Int64 := meosTs + epochOffsetMicros

/-! ### The four time types -/

/-- DuckDB's DATE: -∞ is the negation of +∞. -/
def duckDate : TimeLine (2 ^ 31) := ⟨-(2 ^ 31 - 1), 0, by decide, by decide, by decide⟩

/-- MEOS's DateADT: -∞ is the least code. -/
def meosDate : TimeLine (2 ^ 31) := ⟨-2 ^ 31, 10957, by decide, by decide, by decide⟩

/-- DuckDB's TIMESTAMP and TIMESTAMPTZ. -/
def duckTimestamp : TimeLine (2 ^ 63) := ⟨-(2 ^ 63 - 1), 0, by decide, by decide, by decide⟩

/-- MEOS's TimestampTz. -/
def meosTimestamp : TimeLine (2 ^ 63) :=
  ⟨-2 ^ 63, 10957 * 86400000000, by decide, by decide, by decide⟩

/-! ### What a converter owes at a value -/

/-- The converter is right at the value. A value that the other side has no code for is owed a refusal;
there is none, so there no answer is right. -/
structure RightAt {α : Type} [LE α] {half : ℕ} (code : α → ℤ) (src dst : TimeLine half)
    (convert back : α → α) (v : α) : Prop where
  sameTime : dst.time (code (convert v)) = src.time (code v)
  noOverflow : src.Finite (code v) → code (convert v) = code v + (src.epoch - dst.epoch)
  inverse : back (convert v) = v
  ordered : ∀ w, dst.time (code (convert w)) = src.time (code w) →
    (v ≤ w ↔ convert v ≤ convert w) ∧ (w ≤ v ↔ convert w ≤ convert v)

section Shift

variable {α : Type} [LE α] {half : ℕ} {code : α → ℤ} {src dst : TimeLine half} {convert back : α → α}

/-- Two values whose times are kept are ordered as their images. -/
theorem le_iff_of_sameTime (hle : ∀ v w, v ≤ w ↔ code v ≤ code w)
    (hcode : ∀ v, TimeLine.Code half (code v)) (hapart : TimeLine.Apart src dst)
    (hconv : ∀ v, code (convert v) = src.shift dst (code v)) {v w : α}
    (hv : dst.time (code (convert v)) = src.time (code v))
    (hw : dst.time (code (convert w)) = src.time (code w)) : v ≤ w ↔ convert v ≤ convert w := by
  have hends : ∀ u, dst.time (code (convert u)) = src.time (code u) →
      code u ∈ Set.Icc src.bot src.top ∧ code (convert u) ∈ Set.Icc dst.bot dst.top := by
    intro u hu
    rw [hconv] at hu
    obtain ⟨hfin, hfin'⟩ := (TimeLine.time_shift_iff (hcode u) hapart).mp hu
    have hsum : code (convert u) = code u + (src.epoch - dst.epoch) := by
      rw [hconv]
      exact TimeLine.bmod_of_code hfin'.code
    exact ⟨hfin.mem_Icc, hsum ▸ hfin'.mem_Icc⟩
  obtain ⟨hvs, hvd⟩ := hends v hv
  obtain ⟨hws, hwd⟩ := hends w hw
  calc v ≤ w ↔ src.time (code v) ≤ src.time (code w) := by
        rw [hle, src.time_strictMonoOn.le_iff_le hvs hws]
    _ ↔ convert v ≤ convert w := by
        rw [← hv, ← hw, dst.time_strictMonoOn.le_iff_le hvd hwd, hle]

/-- A converter that shifts is right where both codes are finite, and nowhere else. -/
theorem rightAt_iff (hle : ∀ v w, v ≤ w ↔ code v ≤ code w) (hinj : Function.Injective code)
    (hcode : ∀ v, TimeLine.Code half (code v)) (hapart : TimeLine.Apart src dst)
    (hconv : ∀ v, code (convert v) = src.shift dst (code v))
    (hback : ∀ v, code (back v) = dst.shift src (code v)) (v : α) :
    RightAt code src dst convert back v ↔
      src.Finite (code v) ∧ dst.Finite (code v + (src.epoch - dst.epoch)) := by
  have htime := TimeLine.time_shift_iff (hcode v) hapart
  rw [← hconv] at htime
  constructor
  · intro h
    exact htime.mp h.sameTime
  · intro h
    have hsame := htime.mpr h
    refine ⟨hsame, fun _ => ?_, ?_, fun w hw => ⟨?_, ?_⟩⟩
    · rw [hconv]
      exact TimeLine.bmod_of_code h.2.code
    · apply hinj
      rw [hback, hconv, TimeLine.shift_shift (hcode v)]
    · exact le_iff_of_sameTime hle hcode hapart hconv hsame hw
    · exact le_iff_of_sameTime hle hcode hapart hconv hw hsame

end Shift

/-! ### The six converters -/

theorem code_int32 (d : Int32) : TimeLine.Code (2 ^ 31) d.toInt :=
  ⟨d.le_toInt, d.toInt_lt⟩

theorem code_int64 (ts : Int64) : TimeLine.Code (2 ^ 63) ts.toInt :=
  ⟨ts.le_toInt, ts.toInt_lt⟩

theorem toInt_toMeosDate (d : Int32) : (toMeosDate d).toInt = duckDate.shift meosDate d.toInt := by
  rw [toMeosDate, Int32.toInt_sub]
  rfl

theorem toInt_fromMeosDate (d : Int32) : (fromMeosDate d).toInt = meosDate.shift duckDate d.toInt := by
  rw [fromMeosDate, Int32.toInt_add]
  rfl

theorem toInt_duckDBToMeosTimestamp (ts : Int64) :
    (duckDBToMeosTimestamp ts).toInt = duckTimestamp.shift meosTimestamp ts.toInt := by
  rw [duckDBToMeosTimestamp, Int64.toInt_sub]
  rfl

theorem toInt_meosToDuckDBTimestamp (ts : Int64) :
    (meosToDuckDBTimestamp ts).toInt = meosTimestamp.shift duckTimestamp ts.toInt := by
  rw [meosToDuckDBTimestamp, Int64.toInt_add]
  rfl

/-- The two pairs of timestamp converters are the same two functions. -/
theorem Timestamp.toMeosTimestamp_eq (duckdb : Timestamp) :
    duckdb.toMeosTimestamp = duckDBToMeosTimestamp := by
  funext ts
  rw [toMeosTimestamp, duckdb.get_value, duckDBToMeosTimestamp]

theorem Timestamp.fromMeosTimestamp_eq (duckdb : Timestamp) :
    duckdb.fromMeosTimestamp = meosToDuckDBTimestamp := by
  funext ts
  rw [fromMeosTimestamp, duckdb.from_value, meosToDuckDBTimestamp]

theorem apart_date : TimeLine.Apart duckDate meosDate ∧ TimeLine.Apart meosDate duckDate := by
  unfold TimeLine.Apart
  decide

theorem apart_timestamp :
    TimeLine.Apart duckTimestamp meosTimestamp ∧ TimeLine.Apart meosTimestamp duckTimestamp := by
  unfold TimeLine.Apart
  decide

theorem toMeosDate_right_iff (d : Int32) :
    RightAt Int32.toInt duckDate meosDate toMeosDate fromMeosDate d ↔
      -2 ^ 31 + 10957 < d.toInt ∧ d.toInt < 2 ^ 31 - 1 := by
  rw [rightAt_iff (fun _ _ => Int32.le_iff_toInt_le) (fun _ _ => Int32.toInt.inj) code_int32 apart_date.1
    toInt_toMeosDate toInt_fromMeosDate]
  simp only [TimeLine.Finite, TimeLine.top, duckDate, meosDate]
  omega

theorem fromMeosDate_right_iff (d : Int32) :
    RightAt Int32.toInt meosDate duckDate fromMeosDate toMeosDate d ↔
      -2 ^ 31 < d.toInt ∧ d.toInt < 2 ^ 31 - 1 - 10957 := by
  rw [rightAt_iff (fun _ _ => Int32.le_iff_toInt_le) (fun _ _ => Int32.toInt.inj) code_int32 apart_date.2
    toInt_fromMeosDate toInt_toMeosDate]
  simp only [TimeLine.Finite, TimeLine.top, duckDate, meosDate]
  omega

theorem toMeosTimestamp_right_iff (ts : Int64) :
    RightAt Int64.toInt duckTimestamp meosTimestamp duckDBToMeosTimestamp meosToDuckDBTimestamp ts ↔
      -2 ^ 63 + 946684800000000 < ts.toInt ∧ ts.toInt < 2 ^ 63 - 1 := by
  rw [rightAt_iff (fun _ _ => Int64.le_iff_toInt_le) (fun _ _ => Int64.toInt.inj) code_int64
    apart_timestamp.1 toInt_duckDBToMeosTimestamp toInt_meosToDuckDBTimestamp]
  simp only [TimeLine.Finite, TimeLine.top, duckTimestamp, meosTimestamp]
  omega

theorem fromMeosTimestamp_right_iff (ts : Int64) :
    RightAt Int64.toInt meosTimestamp duckTimestamp meosToDuckDBTimestamp duckDBToMeosTimestamp ts ↔
      -2 ^ 63 < ts.toInt ∧ ts.toInt < 2 ^ 63 - 1 - 946684800000000 := by
  rw [rightAt_iff (fun _ _ => Int64.le_iff_toInt_le) (fun _ _ => Int64.toInt.inj) code_int64
    apart_timestamp.2 toInt_meosToDuckDBTimestamp toInt_duckDBToMeosTimestamp]
  simp only [TimeLine.Finite, TimeLine.top, duckTimestamp, meosTimestamp]
  omega

/-- **Each converter is right exactly at the finite values whose sum is a finite value of the other
side.** -/
theorem epochConversions_right_iff (duckdb : Timestamp) :
    (∀ d : Int32, RightAt Int32.toInt duckDate meosDate toMeosDate fromMeosDate d ↔
        -2 ^ 31 + 10957 < d.toInt ∧ d.toInt < 2 ^ 31 - 1) ∧
      (∀ d : Int32, RightAt Int32.toInt meosDate duckDate fromMeosDate toMeosDate d ↔
        -2 ^ 31 < d.toInt ∧ d.toInt < 2 ^ 31 - 1 - 10957) ∧
      (∀ ts : Int64, RightAt Int64.toInt duckTimestamp meosTimestamp duckdb.toMeosTimestamp
          duckdb.fromMeosTimestamp ts ↔
        -2 ^ 63 + 946684800000000 < ts.toInt ∧ ts.toInt < 2 ^ 63 - 1) ∧
      (∀ ts : Int64, RightAt Int64.toInt meosTimestamp duckTimestamp duckdb.fromMeosTimestamp
          duckdb.toMeosTimestamp ts ↔
        -2 ^ 63 < ts.toInt ∧ ts.toInt < 2 ^ 63 - 1 - 946684800000000) ∧
      (∀ ts : Int64, RightAt Int64.toInt duckTimestamp meosTimestamp duckDBToMeosTimestamp
          meosToDuckDBTimestamp ts ↔
        -2 ^ 63 + 946684800000000 < ts.toInt ∧ ts.toInt < 2 ^ 63 - 1) ∧
      ∀ ts : Int64, RightAt Int64.toInt meosTimestamp duckTimestamp meosToDuckDBTimestamp
          duckDBToMeosTimestamp ts ↔
        -2 ^ 63 < ts.toInt ∧ ts.toInt < 2 ^ 63 - 1 - 946684800000000 := by
  rw [duckdb.toMeosTimestamp_eq, duckdb.fromMeosTimestamp_eq]
  exact ⟨toMeosDate_right_iff, fromMeosDate_right_iff, toMeosTimestamp_right_iff,
    fromMeosTimestamp_right_iff, toMeosTimestamp_right_iff, fromMeosTimestamp_right_iff⟩

/-- The `Timestamp` whose value is its number of microseconds. -/
def Timestamp.microseconds : Timestamp := ⟨id, id, fun _ => rfl, fun _ => rfl⟩

/-- The epoch of MEOS is converted, and the least finite timestamp of DuckDB is not. -/
theorem epochConversions_right_iff_microseconds :
    RightAt Int64.toInt duckTimestamp meosTimestamp Timestamp.microseconds.toMeosTimestamp
        Timestamp.microseconds.fromMeosTimestamp 946684800000000 ∧
      ¬ RightAt Int64.toInt duckTimestamp meosTimestamp Timestamp.microseconds.toMeosTimestamp
        Timestamp.microseconds.fromMeosTimestamp (-9223372036854775806) := by
  obtain ⟨-, -, h, -⟩ := epochConversions_right_iff Timestamp.microseconds
  rw [h, h]
  decide

/-- DATE 'infinity' becomes a day of MEOS, and DATE '-infinity' wraps around to a later one. -/
theorem infiniteDate_not_right :
    duckDate.time (2147483647 : Int32).toInt = ⊤ ∧ duckDate.time (-2147483647 : Int32).toInt = ⊥ ∧
      toMeosDate 2147483647 = 2147472690 ∧ toMeosDate (-2147483647) = 2147472692 ∧
        ¬ RightAt Int32.toInt duckDate meosDate toMeosDate fromMeosDate 2147483647 ∧
          ¬ RightAt Int32.toInt duckDate meosDate toMeosDate fromMeosDate (-2147483647) := by
  refine ⟨TimeLine.time_of_top_le (by decide), TimeLine.time_of_le (by decide), by decide, by decide,
    ?_, ?_⟩
  · rw [toMeosDate_right_iff]
    decide
  · rw [toMeosDate_right_iff]
    decide

end MobilityDuck
