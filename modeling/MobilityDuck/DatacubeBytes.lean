/-
# The bytes of a datacube

A datacube is untrusted input, so the codec runs over bytes whose accesses are
checked: a read outside the string it is given, or a write outside the buffer
it was given, is the fault `outOfBounds`, which no exception of the source is.
The buffer pixels decompress into grows by `resize`, which is recorded
(`Memory.allocations`) and may fail.

Key definitions: `DatacubeFormat`, `DatacubeType`, `Memory`, `Codec`, `bytesAt`, `writeBuffer`,
`resize`. Key theorems: `wp_bytesAt`, `wp_writeBuffer`, `wp_resize`.
-/
import MobilityDuck.Lib.Buffer
import MobilityDuck.Lib.Raise
import MobilityDuck.Types

namespace MobilityDuck

open Lib

/-! ### Formats and types -/

/-- The data format codes of a datacube header. -/
inductive DatacubeFormat
  | raw
  | snappy
  | gzip
  | zstd
  | lz4
  deriving DecidableEq, Repr

/-- The data type codes of a datacube header. -/
inductive DatacubeType
  | uint8
  | int8
  | uint16
  | int16
  | uint32
  | int32
  | uint64
  | int64
  | float
  | double
  deriving DecidableEq, Repr

def DatacubeFormat.code : DatacubeFormat → UInt8
  | .raw => 0
  | .snappy => 1
  | .gzip => 2
  | .zstd => 3
  | .lz4 => 4

/-- `static_cast<DatacubeFormat>` of a code up to `LZ4`. -/
def DatacubeFormat.ofCode (code : UInt8) : Option DatacubeFormat :=
  [.raw, .snappy, .gzip, .zstd, .lz4][code.toNat]?

def DatacubeType.code : DatacubeType → UInt8
  | .uint8 => 0
  | .int8 => 1
  | .uint16 => 2
  | .int16 => 3
  | .uint32 => 4
  | .int32 => 5
  | .uint64 => 6
  | .int64 => 7
  | .float => 8
  | .double => 9

/-- `static_cast<DatacubeType>` of a code up to `DOUBLE`. -/
def DatacubeType.ofCode (code : UInt8) : Option DatacubeType :=
  [.uint8, .int8, .uint16, .int16, .uint32, .int32, .uint64, .int64, .float, .double][code.toNat]?

@[simp] theorem DatacubeFormat.ofCode_code (f : DatacubeFormat) : ofCode f.code = some f := by
  cases f <;> rfl

@[simp] theorem DatacubeType.ofCode_code (t : DatacubeType) : ofCode t.code = some t := by
  cases t <;> rfl

def formatName : DatacubeFormat → String
  | .raw => "RAW"
  | .snappy => "SNAPPY"
  | .gzip => "GZIP"
  | .zstd => "ZSTD"
  | .lz4 => "LZ4"

def datacubeTypeName : DatacubeType → String
  | .uint8 => "UINT8"
  | .int8 => "INT8"
  | .uint16 => "UINT16"
  | .int16 => "INT16"
  | .uint32 => "UINT32"
  | .int32 => "INT32"
  | .uint64 => "UINT64"
  | .int64 => "INT64"
  | .float => "FLOAT"
  | .double => "DOUBLE"

/-- The number of bytes of a pixel. -/
def datacubeTypeSize : DatacubeType → ℕ
  | .uint8 | .int8 => 1
  | .uint16 | .int16 => 2
  | .uint32 | .int32 | .float => 4
  | .uint64 | .int64 | .double => 8

theorem datacubeTypeSize_pos (t : DatacubeType) : 0 < datacubeTypeSize t := by
  cases t <;> decide

/-! ### Memory -/

/-- What stops the code: an exception, a string DuckDB finds too long for a value, an allocation
that fails, or an access out of bounds. -/
inductive Fault
  | raised (e : Exception)
  | outOfRange
  | badAlloc
  | outOfBounds
  deriving DecidableEq, Repr

/-- The buffer pixels decompress into, and the sizes that were asked of the allocator, the last
first. -/
structure Memory where
  buffer : List UInt8
  allocations : List ℕ
  deriving DecidableEq, Repr

abbrev Codec := EStateM Fault Memory

/-- The `n` bytes of `data` from `off` on. -/
def bytesAt (data : List UInt8) (off n : ℕ) : Codec (List UInt8) :=
  if off + n ≤ data.length then pure ((data.drop off).take n) else throw .outOfBounds

def byteAt (data : List UInt8) (i : ℕ) : Codec UInt8 :=
  match data[i]? with
  | some b => pure b
  | none => throw .outOfBounds

/-- The little-endian word of `n` bytes at `off`. -/
def readLE (n : ℕ) (data : List UInt8) (off : ℕ) : Codec ℕ :=
  return leNat (← bytesAt data off n)

def readLE16 := readLE 2

def readLE32 := readLE 4

def readLE64 := readLE 8

def writeLE32 (v : ℕ) : List UInt8 := leBytes 4 v

def writeLE64 (v : ℕ) : List UInt8 := leBytes 8 v

/-- The `n` bytes of the buffer from `off` on. -/
def bufferBytes (off n : ℕ) : Codec (List UInt8) := do
  bytesAt (← get).buffer off n

/-- `bytes` written over the buffer from `off` on. -/
def writeBuffer (off : ℕ) (bytes : List UInt8) : Codec Unit := do
  let m ← get
  if off + bytes.length ≤ m.buffer.length then
    set { m with buffer := m.buffer.take off ++ bytes ++ m.buffer.drop (off + bytes.length) }
  else
    throw .outOfBounds

/-- `buffer.resize(n)`: what the buffer holds stays, up to its new size, and new bytes are zero.
`available` says for which sizes the allocator finds memory. -/
def resize (available : ℕ → Bool) (n : ℕ) : Codec Unit := do
  modify fun m => { m with allocations := n :: m.allocations }
  if !available n then
    throw .badAlloc
  modify fun m => { m with
    buffer := m.buffer.take n ++ List.replicate (n - m.buffer.length) 0 }

/-! ### Errors -/

def throwInvalid {α : Type} (message : String) : Codec α :=
  throw (.raised (.invalidInput message))

def throwPayload {α : Type} (format : DatacubeFormat) (what : String) : Codec α :=
  throwInvalid ("datacube: the " ++ formatName format ++ " payload " ++ what)

def throwPayloadSize {α : Type} (format : DatacubeFormat) (what : String) (got expected : ℕ) :
    Codec α :=
  throwInvalid ("datacube: the " ++ formatName format ++ " payload " ++ what ++ " " ++
    toString got ++ " bytes where the header states " ++ toString expected)

/-! ### What an access does -/

section Accesses

variable {α : Type} {E : Fault → Memory → Prop} {m : Memory}

theorem wp_bytesAt {Q : List UInt8 → Memory → Prop} {data : List UInt8} {off n : ℕ}
    (h : off + n ≤ data.length) :
    wp (bytesAt data off n) Q E m ↔ Q ((data.drop off).take n) m := by
  simp [bytesAt, h]

theorem wp_byteAt {Q : UInt8 → Memory → Prop} {data : List UInt8} {i : ℕ} (h : i < data.length) :
    wp (byteAt data i) Q E m ↔ Q data[i] m := by
  simp [byteAt, h]

theorem wp_byteAt_of_eq {Q : UInt8 → Memory → Prop} {data : List UInt8} {i : ℕ} {b : UInt8}
    (h : data[i]? = some b) : wp (byteAt data i) Q E m ↔ Q b m := by
  simp [byteAt, h]

theorem wp_readLE {Q : ℕ → Memory → Prop} {n : ℕ} {data : List UInt8} {off : ℕ}
    (h : off + n ≤ data.length) :
    wp (readLE n data off) Q E m ↔ Q (leNat ((data.drop off).take n)) m := by
  simp [readLE, wp_bytesAt h]

theorem wp_bufferBytes {Q : List UInt8 → Memory → Prop} {off n : ℕ}
    (h : off + n ≤ m.buffer.length) :
    wp (bufferBytes off n) Q E m ↔ Q ((m.buffer.drop off).take n) m := by
  simp [bufferBytes, wp_bytesAt h]

theorem wp_writeBuffer {Q : Unit → Memory → Prop} {off : ℕ} {bytes : List UInt8}
    (h : off + bytes.length ≤ m.buffer.length) :
    wp (writeBuffer off bytes) Q E m ↔
      Q () { m with buffer := m.buffer.take off ++ bytes ++ m.buffer.drop (off + bytes.length) } := by
  simp [writeBuffer, h]

/-- Growing the buffer asks the allocator for `n` bytes, and it has `n` bytes afterwards. -/
theorem wp_resize {Q : Unit → Memory → Prop} {available : ℕ → Bool} {n : ℕ}
    (hQ : ∀ buffer : List UInt8, buffer.length = n → Q () ⟨buffer, n :: m.allocations⟩)
    (hE : E .badAlloc { m with allocations := n :: m.allocations }) :
    wp (resize available n) Q E m := by
  unfold resize
  cases available n with
  | true =>
    simp only [wp_bind, wp_modify, Bool.not_true, Bool.false_eq_true, if_false]
    refine hQ _ ?_
    simp only [List.length_append, List.length_take, List.length_replicate]
    omega
  | false => simpa using hE

@[simp] theorem wp_throwInvalid {Q : α → Memory → Prop} {message : String} :
    wp (throwInvalid message) Q E m ↔ E (.raised (.invalidInput message)) m := Iff.rfl

@[simp] theorem wp_throwPayload {Q : α → Memory → Prop} {f : DatacubeFormat} {what : String} :
    wp (throwPayload f what) Q E m ↔
      E (.raised (.invalidInput ("datacube: the " ++ formatName f ++ " payload " ++ what))) m :=
  Iff.rfl

@[simp] theorem wp_throwPayloadSize {Q : α → Memory → Prop} {f : DatacubeFormat} {what : String}
    {got expected : ℕ} :
    wp (throwPayloadSize f what got expected) Q E m ↔
      E (.raised (.invalidInput ("datacube: the " ++ formatName f ++ " payload " ++ what ++ " " ++
        toString got ++ " bytes where the header states " ++ toString expected))) m :=
  Iff.rfl

end Accesses

end MobilityDuck
