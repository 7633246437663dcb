/-
# The datacube codec

A datacube is a header of 24 bytes and the pixels of its bands, RAW or
compressed as a whole. `ReadDatacubeHeader` checks the header before anything
is allocated, `ReadDatacubePixels` returns exactly the bytes the header
states, and `WriteDatacube` writes a RAW cube.

For every byte string, reading raises or returns a checked header and pixels
that are what the payload decodes to (`wp_readDatacube`), without an
access out of bounds and without an allocation before the header was checked;
and reading what was written gives back what was written (`run_readDatacube_write`).

Key definitions: `DatacubeHeader`, `readDatacubeHeader`, `readDatacubePixels`, `writeDatacube`,
`DatacubeHeader.Checked`, `Codecs.Decodes`.
Key theorem: `readDatacube_exact`.
-/
import MobilityDuck.InflateGzip
import MobilityDuck.Lib.Binary64

namespace MobilityDuck

open Lib

def DATACUBE_HEADER_SIZE : ℕ := 24

def DATACUBE_MAGIC : ℕ := 0x5253

structure DatacubeHeader where
  format : DatacubeFormat
  type : DatacubeType
  bands : Int32
  cols : Int32
  rows : Int32
  noData : Binary64
  dataSize : ℕ
  deriving DecidableEq, Repr

/-- `DatacubeNoDataIsNone`: negative infinity states no nodata value. -/
def DatacubeNoDataIsNone (noData : Binary64) : Prop := noData.IsInf ∧ noData.Lt .zero

instance (noData : Binary64) : Decidable (DatacubeNoDataIsNone noData) :=
  inferInstanceAs (Decidable (_ ∧ _))

theorem datacubeNoDataIsNone_iff {noData : Binary64} :
    DatacubeNoDataIsNone noData ↔ noData = .negInf := Binary64.isInf_and_lt_zero_iff

/-! ### The header -/

/-- `%04x`. -/
def hex4 (n : ℕ) : String :=
  let digits := Nat.toDigits 16 n
  String.ofList (List.replicate (4 - digits.length) '0' ++ digits)

/-- `__builtin_mul_overflow` on 64 bits, `none` for an overflow. -/
def mulOverflow (a b : ℕ) : Option ℕ := if a * b < 2 ^ 64 then some (a * b) else none

/-- The number of bytes of the pixels, if it fits the size of a buffer. -/
def pixelBytes (bands cols rows : Int32) (type : DatacubeType) : Option ℕ := do
  let total ← mulOverflow bands.toInt.toNat cols.toInt.toNat
  let total ← mulOverflow total rows.toInt.toNat
  mulOverflow total (datacubeTypeSize type)

def readDatacubeFormat (code : UInt8) : Codec DatacubeFormat :=
  match DatacubeFormat.ofCode code with
  | some format => pure format
  | none => throwInvalid ("datacube: unknown data format code " ++ toString code.toNat)

def readDatacubeType (code : UInt8) : Codec DatacubeType :=
  match DatacubeType.ofCode code with
  | some type => pure type
  | none => throwInvalid ("datacube: unknown data type code " ++ toString code.toNat)

/-- `ReadDatacubeHeader`. -/
def readDatacubeHeader (data : List UInt8) : Codec DatacubeHeader := do
  raiseIf (data.length < DATACUBE_HEADER_SIZE)
    (throwInvalid ("datacube: " ++ toString data.length ++ " bytes cannot hold its header of " ++
      toString DATACUBE_HEADER_SIZE ++ " bytes"))
  let magic ← readLE16 data 0
  raiseIf (magic ≠ DATACUBE_MAGIC)
    (throwInvalid ("datacube: the magic code is 0x" ++ hex4 magic ++ ", not 0x5253"))
  let format ← readDatacubeFormat (← byteAt data 2)
  let type ← readDatacubeType (← byteAt data 3)
  let bands := int32OfNat (← readLE32 data 4)
  let cols := int32OfNat (← readLE32 data 8)
  let rows := int32OfNat (← readLE32 data 12)
  let noData : Binary64 := ⟨UInt64.ofNat (← readLE64 data 16)⟩
  raiseIf (bands ≤ 0 ∨ cols ≤ 0 ∨ rows ≤ 0)
    (throwInvalid ("datacube: " ++ toString bands.toInt ++ " bands of " ++ toString cols.toInt ++
      " columns and " ++ toString rows.toInt ++ " rows, where each must be positive"))
  raiseIf (¬ noData.IsFinite ∧ ¬ DatacubeNoDataIsNone noData)
    (throwInvalid ("datacube: the nodata value is " ++
      (if noData.IsNaN then "NaN" else "+infinity") ++
      ", where it is finite or -infinity for none"))
  match pixelBytes bands cols rows type with
  | none =>
    throwInvalid ("datacube: " ++ toString bands.toInt ++ " bands of " ++ toString cols.toInt ++
      " x " ++ toString rows.toInt ++ " pixels of " ++ datacubeTypeName type ++
      " overflow the size of a buffer")
  | some total => return ⟨format, type, bands, cols, rows, noData, total⟩

/-! ### The pixels -/

/-- What `ZSTD_getFrameContentSize` answers. -/
inductive ZstdContentSize
  | error
  | unknown
  | size (n : ℕ)
  deriving DecidableEq, Repr

/-- The codecs DuckDB vendors, and its allocator. A decompression gives its return code and the
bytes it wrote from the start of the buffer on. -/
structure Codecs where
  available : ℕ → Bool
  snappyLength : List UInt8 → Option ℕ
  snappyValid : List UInt8 → Bool
  snappyUncompress : List UInt8 → Bool × List UInt8
  inflater : Inflater
  crc32 : List UInt8 → UInt32
  zstdContentSize : List UInt8 → ZstdContentSize
  zstdFrameSize : List UInt8 → Option ℕ
  zstdDecompress : (capacity : ℕ) → List UInt8 → Option ℕ × List UInt8
  lz4Decompress : List UInt8 → (capacity : ℕ) → Int × List UInt8

/-- Each codec reports the size it decompressed truthfully, and writes no byte beyond the size it
is given; Snappy is given the length its stream states. -/
structure Codecs.Truthful (c : Codecs) : Prop where
  snappy_le : ∀ p n, c.snappyLength p = some n → (c.snappyUncompress p).2.length ≤ n
  snappy_eq : ∀ p n, c.snappyLength p = some n → (c.snappyUncompress p).1 = true →
    (c.snappyUncompress p).2.length = n
  inflater : c.inflater.Bounded
  zstd_le : ∀ n p, (c.zstdDecompress n p).2.length ≤ n
  zstd_eq : ∀ n p got, (c.zstdDecompress n p).1 = some got → (c.zstdDecompress n p).2.length = got
  lz4_le : ∀ p n, (c.lz4Decompress p n).2.length ≤ n
  lz4_eq : ∀ p n, 0 ≤ (c.lz4Decompress p n).1 →
    ((c.lz4Decompress p n).2.length : ℤ) = (c.lz4Decompress p n).1

def INT_MAX : ℕ := 2 ^ 31 - 1

section Pixels

variable (c : Codecs)

def readSnappy (payload : List UInt8) (expected : ℕ) : Codec (List UInt8) := do
  match c.snappyLength payload with
  | none => throwPayload .snappy "states no uncompressed length"
  | some length =>
    raiseIf (length ≠ expected) (throwPayloadSize .snappy "decompresses into" length expected)
    raiseIf (c.snappyValid payload = false)
      (throwPayload .snappy "is not a Snappy stream of that length")
    resize c.available expected
    let r := c.snappyUncompress payload
    writeBuffer 0 r.2
    raiseIf (r.1 = false) (throwPayload .snappy "does not decompress")
    return (← get).buffer

def readGzip (payload : List UInt8) (expected : ℕ) : Codec (List UInt8) := do
  resize c.available expected
  inflateGzip c.inflater c.crc32 (payload.length + expected + 1) payload expected
  return (← get).buffer

def readZstd (payload : List UInt8) (expected : ℕ) : Codec (List UInt8) := do
  match c.zstdContentSize payload with
  | .error => throwPayload .zstd "is not a Zstandard frame"
  | .unknown => throwPayload .zstd "states no content size in its frame"
  | .size content =>
    raiseIf (content ≠ expected) (throwPayloadSize .zstd "decompresses into" content expected)
    match c.zstdFrameSize payload with
    | none => throwPayload .zstd "is a truncated Zstandard frame"
    | some frame =>
      raiseIf (frame ≠ payload.length)
        (throwPayload .zstd "carries bytes after its Zstandard frame")
      resize c.available expected
      let r := c.zstdDecompress expected payload
      writeBuffer 0 r.2
      raiseIf (r.1 ≠ some expected)
        (throwPayload .zstd "does not decompress into exactly the number of bytes the header states")
      return (← get).buffer

def readLz4 (payload : List UInt8) (expected : ℕ) : Codec (List UInt8) := do
  raiseIf (payload.length < 4) (throwPayload .lz4 "is shorter than its size prefix of 4 bytes")
  let length ← readLE32 payload 0
  raiseIf (length ≠ expected) (throwPayloadSize .lz4 "states" length expected)
  raiseIf (payload.length - 4 > INT_MAX ∨ expected > INT_MAX)
    (throwPayload .lz4 "exceeds the size of an LZ4 block")
  resize c.available expected
  let block ← bytesAt payload 4 (payload.length - 4)
  let r := c.lz4Decompress block expected
  writeBuffer 0 r.2
  raiseIf (r.1 < 0 ∨ r.1 ≠ expected)
    (throwPayload .lz4 "does not decompress into exactly the number of bytes the header states")
  return (← get).buffer

/-- `ReadDatacubePixels`: the bytes the returned pointer points to, in the cube itself when it is
RAW. -/
def readDatacubePixels (data : List UInt8) (header : DatacubeHeader) : Codec (List UInt8) := do
  let payload ← bytesAt data DATACUBE_HEADER_SIZE (data.length - DATACUBE_HEADER_SIZE)
  match header.format with
  | .raw => do
    raiseIf (payload.length ≠ header.dataSize)
      (throwPayloadSize .raw "holds" payload.length header.dataSize)
    return payload
  | .snappy => readSnappy c payload header.dataSize
  | .gzip => readGzip c payload header.dataSize
  | .zstd => readZstd c payload header.dataSize
  | .lz4 => readLz4 c payload header.dataSize

/-- A datacube read: its header, then its pixels. -/
def readDatacube (data : List UInt8) : Codec (DatacubeHeader × List UInt8) := do
  let header ← readDatacubeHeader data
  let pixels ← readDatacubePixels c data header
  return (header, pixels)

end Pixels

/-- `WriteDatacube`. -/
def writeDatacube (header : DatacubeHeader) (pixels : List UInt8) : List UInt8 :=
  [UInt8.ofNat (DATACUBE_MAGIC % 256), UInt8.ofNat (DATACUBE_MAGIC / 256), DatacubeFormat.raw.code,
    header.type.code] ++ encodeInt32 header.bands ++ encodeInt32 header.cols ++
    encodeInt32 header.rows ++ writeLE64 header.noData.bits.toNat ++ pixels

/-! ### What a header states -/

/-- What the checks of a header leave: positive counts, a nodata value that is finite or negative
infinity, and the exact number of bytes of the pixels, which 64 bits hold. -/
structure DatacubeHeader.Checked (h : DatacubeHeader) : Prop where
  bands_pos : 0 < h.bands.toInt
  cols_pos : 0 < h.cols.toInt
  rows_pos : 0 < h.rows.toInt
  noData : h.noData.IsFinite ∨ h.noData = .negInf
  dataSize : (h.dataSize : ℤ) =
    h.bands.toInt * h.cols.toInt * h.rows.toInt * datacubeTypeSize h.type
  fits : h.dataSize < 2 ^ 64

theorem mulOverflow_eq_some {a b n : ℕ} :
    mulOverflow a b = some n ↔ n = a * b ∧ n < 2 ^ 64 := by
  unfold mulOverflow
  split
  · simp only [Option.some.injEq]
    omega
  · simp only [reduceCtorEq, false_iff, not_and]
    omega

/-- The product is computed exactly or not at all. A product of positive counts that fits has
partial products that fit. -/
theorem pixelBytes_eq_some {bands cols rows : Int32} {type : DatacubeType} {n : ℕ}
    (hb : 0 < bands.toInt) (hc : 0 < cols.toInt) (hr : 0 < rows.toInt) :
    pixelBytes bands cols rows type = some n ↔
      (n : ℤ) = bands.toInt * cols.toInt * rows.toInt * datacubeTypeSize type ∧ n < 2 ^ 64 := by
  obtain ⟨b, hb'⟩ := Int.eq_ofNat_of_zero_le hb.le
  obtain ⟨c, hc'⟩ := Int.eq_ofNat_of_zero_le hc.le
  obtain ⟨r, hr'⟩ := Int.eq_ofNat_of_zero_le hr.le
  have hr0 : 0 < r := by omega
  have hs := datacubeTypeSize_pos type
  simp only [pixelBytes, hb', hc', hr', Int.toNat_natCast, Option.bind_eq_bind,
    Option.bind_eq_some_iff, mulOverflow_eq_some]
  norm_cast
  constructor
  · rintro ⟨_, ⟨rfl, -⟩, _, ⟨rfl, -⟩, h⟩
    exact h
  · rintro ⟨rfl, hlt⟩
    have h2 : b * c * r < 2 ^ 64 := lt_of_le_of_lt (Nat.le_mul_of_pos_right _ hs) hlt
    have h1 : b * c < 2 ^ 64 := lt_of_le_of_lt (Nat.le_mul_of_pos_right _ hr0) h2
    exact ⟨_, ⟨rfl, h1⟩, _, ⟨rfl, h2⟩, rfl, hlt⟩

/-- An exception of the source: an invalid input, or an allocation that failed. -/
def Fault.IsException : Fault → Prop
  | .raised (.invalidInput _) => True
  | .badAlloc => True
  | _ => False

theorem int32_pos_of_not {x : Int32} (h : ¬ x ≤ 0) : 0 < x.toInt := by
  rw [Int32.not_le, Int32.lt_iff_toInt_lt] at h
  simpa using h

theorem wp_readDatacubeFormat {code : UInt8} {Q : DatacubeFormat → Memory → Prop}
    {E : Fault → Memory → Prop} {m : Memory}
    (hQ : ∀ f, DatacubeFormat.ofCode code = some f → Q f m) (hE : ∀ e, e.IsException → E e m) :
    wp (readDatacubeFormat code) Q E m := by
  unfold readDatacubeFormat
  cases hf : DatacubeFormat.ofCode code with
  | none => exact hE _ trivial
  | some f => exact hQ f hf

theorem wp_readDatacubeType {code : UInt8} {Q : DatacubeType → Memory → Prop}
    {E : Fault → Memory → Prop} {m : Memory}
    (hQ : ∀ t, DatacubeType.ofCode code = some t → Q t m) (hE : ∀ e, e.IsException → E e m) :
    wp (readDatacubeType code) Q E m := by
  unfold readDatacubeType
  cases ht : DatacubeType.ofCode code with
  | none => exact hE _ trivial
  | some t => exact hQ t ht

/-- Reading a header allocates nothing, and returns only a checked one. -/
theorem wp_readDatacubeHeader (data : List UInt8) (m : Memory) :
    wp (readDatacubeHeader data)
      (fun h m' => m' = m ∧ DATACUBE_HEADER_SIZE ≤ data.length ∧ h.Checked)
      (fun e m' => m' = m ∧ e.IsException) m := by
  unfold readDatacubeHeader
  rw [wp_bind, wp_raiseIf]
  refine ⟨fun _ => ⟨rfl, trivial⟩, fun hn => ?_⟩
  have hn : 24 ≤ data.length := Nat.le_of_not_lt hn
  rw [wp_bind, readLE16, wp_readLE (by omega), wp_bind, wp_raiseIf]
  refine ⟨fun _ => ⟨rfl, trivial⟩, fun _ => ?_⟩
  rw [wp_bind, wp_byteAt (by omega), wp_bind]
  refine wp_readDatacubeFormat (fun format _ => ?_) fun e he => ⟨rfl, he⟩
  rw [wp_bind, wp_byteAt (by omega), wp_bind]
  refine wp_readDatacubeType (fun type _ => ?_) fun e he => ⟨rfl, he⟩
  rw [readLE32, readLE64, wp_bind, wp_readLE (by omega), wp_bind, wp_readLE (by omega), wp_bind,
    wp_readLE (by omega), wp_bind, wp_readLE (by omega)]
  set bands := int32OfNat (leNat ((data.drop 4).take 4))
  set cols := int32OfNat (leNat ((data.drop 8).take 4))
  set rows := int32OfNat (leNat ((data.drop 12).take 4))
  set noData : Binary64 := ⟨UInt64.ofNat (leNat ((data.drop 16).take 8))⟩
  rw [wp_bind, wp_raiseIf]
  refine ⟨fun _ => ⟨rfl, trivial⟩, fun hpos => ?_⟩
  rw [wp_bind, wp_raiseIf]
  refine ⟨fun _ => ⟨rfl, trivial⟩, fun hnd => ?_⟩
  simp only [not_or] at hpos
  have hb := int32_pos_of_not hpos.1
  have hc := int32_pos_of_not hpos.2.1
  have hr := int32_pos_of_not hpos.2.2
  cases ht : pixelBytes bands cols rows type with
  | none => exact ⟨rfl, trivial⟩
  | some total =>
    have hsize := (pixelBytes_eq_some hb hc hr).mp ht
    refine ⟨rfl, hn, hb, hc, hr, ?_, hsize.1, hsize.2⟩
    rw [datacubeNoDataIsNone_iff] at hnd
    by_contra hne
    exact hnd ⟨fun hf => hne (.inl hf), fun hi => hne (.inr hi)⟩

/-! ### What a payload decodes to -/

/-- The pixels a payload of a format holds: all of it, once, and nothing else. -/
def Codecs.Decodes (c : Codecs) : DatacubeFormat → List UInt8 → List UInt8 → Prop
  | .raw, payload, pixels => payload = pixels
  | .snappy, payload, pixels =>
    c.snappyLength payload = some pixels.length ∧ c.snappyValid payload = true ∧
      c.snappyUncompress payload = (true, pixels)
  | .gzip, payload, pixels => GzipMember c.inflater c.crc32 payload pixels
  | .zstd, payload, pixels =>
    c.zstdContentSize payload = .size pixels.length ∧
      c.zstdFrameSize payload = some payload.length ∧
      c.zstdDecompress pixels.length payload = (some pixels.length, pixels)
  | .lz4, payload, pixels =>
    leNat (payload.take 4) = pixels.length ∧
      c.lz4Decompress (payload.drop 4) pixels.length = ((pixels.length : ℤ), pixels)

/-- At most one allocation was made, of `n` bytes. -/
def Allocates (n : ℕ) (m m' : Memory) : Prop :=
  m'.allocations = m.allocations ∨ m'.allocations = n :: m.allocations

/-- The pixels were read: as many bytes as the header states, and what the payload decodes to. -/
def PixelsRead (c : Codecs) (f : DatacubeFormat) (payload : List UInt8) (n : ℕ) (m : Memory)
    (pixels : List UInt8) (m' : Memory) : Prop :=
  pixels.length = n ∧ c.Decodes f payload pixels ∧ Allocates n m m'

def PixelsRefused (n : ℕ) (m : Memory) (e : Fault) (m' : Memory) : Prop :=
  e.IsException ∧ Allocates n m m'

theorem PixelsRefused.early {n : ℕ} {m : Memory} {message : String} :
    PixelsRefused n m (.raised (.invalidInput message)) m := ⟨trivial, .inl rfl⟩

/-- A buffer of `n` bytes that `n` bytes were written to holds them. -/
theorem overwrite_all {buffer written : List UInt8} (h : written.length = buffer.length) :
    buffer.take 0 ++ written ++ buffer.drop (0 + written.length) = written := by
  rw [List.take_zero, List.nil_append, List.drop_of_length_le (by omega), List.append_nil]

section Pixels

variable {c : Codecs} {payload : List UInt8} {n : ℕ} {m : Memory}

theorem wp_readSnappy (hc : c.Truthful) :
    wp (readSnappy c payload n) (PixelsRead c .snappy payload n m) (PixelsRefused n m) m := by
  unfold readSnappy
  cases hl : c.snappyLength payload with
  | none => exact .early
  | some length =>
    simp only
    rw [wp_bind, wp_raiseIf]
    refine ⟨fun _ => .early, fun hn => ?_⟩
    obtain rfl : length = n := not_not.mp hn
    rw [wp_bind, wp_raiseIf]
    refine ⟨fun _ => .early, fun hv => ?_⟩
    have hle := hc.snappy_le payload length hl
    have heq := hc.snappy_eq payload length hl
    rw [wp_bind]
    refine wp_resize (fun buffer hb => ?_) ⟨trivial, .inr rfl⟩
    rw [wp_bind, wp_writeBuffer (by simp only [hb]; omega), wp_bind, wp_raiseIf]
    refine ⟨fun _ => ⟨trivial, .inr rfl⟩, fun hd => ?_⟩
    have hd : (c.snappyUncompress payload).1 = true := by simpa using hd
    have hw := heq hd
    rw [wp_bind, wp_get, wp_pure, overwrite_all (hw.trans hb.symm)]
    refine ⟨hw, ⟨by rw [hl, hw], by simpa using hv, ?_⟩, .inr rfl⟩
    rw [← hd]

theorem wp_readGzip (hc : c.Truthful) :
    wp (readGzip c payload n) (PixelsRead c .gzip payload n m) (PixelsRefused n m) m := by
  unfold readGzip
  rw [wp_bind]
  refine wp_resize (fun buffer hb => ?_) ⟨trivial, .inr rfl⟩
  rw [wp_bind]
  subst hb
  have h := @wp_inflateGzip c.inflater c.crc32 hc.inflater payload
    ⟨buffer, buffer.length :: m.allocations⟩ _ (Nat.lt_succ_self _)
  refine h.mono ?_ ?_
  · rintro _ m' ⟨ha, hb, hmember⟩
    rw [wp_bind, wp_get, wp_pure]
    exact ⟨hb, hmember, .inr ha⟩
  · rintro e m' ⟨ha, -, message, rfl⟩
    exact ⟨trivial, .inr ha⟩

theorem wp_readZstd (hc : c.Truthful) :
    wp (readZstd c payload n) (PixelsRead c .zstd payload n m) (PixelsRefused n m) m := by
  unfold readZstd
  cases hs : c.zstdContentSize payload with
  | error => exact .early
  | unknown => exact .early
  | size content =>
    simp only
    rw [wp_bind, wp_raiseIf]
    refine ⟨fun _ => .early, fun hn => ?_⟩
    obtain rfl : content = n := not_not.mp hn
    cases hf : c.zstdFrameSize payload with
    | none => exact .early
    | some frame =>
      simp only
      rw [wp_bind, wp_raiseIf]
      refine ⟨fun _ => .early, fun hframe => ?_⟩
      have hle := hc.zstd_le content payload
      rw [wp_bind]
      refine wp_resize (fun buffer hb => ?_) ⟨trivial, .inr rfl⟩
      rw [wp_bind, wp_writeBuffer (by simp only [hb]; omega), wp_bind, wp_raiseIf]
      refine ⟨fun _ => ⟨trivial, .inr rfl⟩, fun hd => ?_⟩
      have hd : (c.zstdDecompress content payload).1 = some content := not_not.mp hd
      have hw := hc.zstd_eq content payload content hd
      rw [wp_bind, wp_get, wp_pure, overwrite_all (hw.trans hb.symm)]
      refine ⟨hw, ⟨by rw [hs, hw], by rw [hf, not_not.mp hframe], ?_⟩, .inr rfl⟩
      rw [hw, ← hd]

theorem wp_readLz4 (hc : c.Truthful) :
    wp (readLz4 c payload n) (PixelsRead c .lz4 payload n m) (PixelsRefused n m) m := by
  unfold readLz4
  rw [wp_bind, wp_raiseIf]
  refine ⟨fun _ => .early, fun h4 => ?_⟩
  rw [wp_bind, readLE32, wp_readLE (by omega), wp_bind, wp_raiseIf]
  refine ⟨fun _ => .early, fun hn => ?_⟩
  rw [wp_bind, wp_raiseIf]
  refine ⟨fun _ => .early, fun _ => ?_⟩
  rw [wp_bind]
  refine wp_resize (fun buffer hb => ?_) ⟨trivial, .inr rfl⟩
  have hblock : (payload.drop 4).take (payload.length - 4) = payload.drop 4 :=
    List.take_of_length_le (by rw [List.length_drop])
  rw [wp_bind, wp_bytesAt (by omega), hblock]
  have hle := hc.lz4_le (payload.drop 4) n
  rw [wp_bind, wp_writeBuffer (by simp only [hb]; omega), wp_bind, wp_raiseIf]
  refine ⟨fun _ => ⟨trivial, .inr rfl⟩, fun hd => ?_⟩
  rw [not_or, not_not] at hd
  have hw : (c.lz4Decompress (payload.drop 4) n).2.length = n := by
    have h := hc.lz4_eq (payload.drop 4) n (not_lt.mp hd.1)
    rw [hd.2] at h
    exact_mod_cast h
  rw [wp_bind, wp_get, wp_pure, overwrite_all (hw.trans hb.symm)]
  refine ⟨hw, ⟨?_, ?_⟩, .inr rfl⟩
  · rw [hw]
    simpa using hn
  · rw [hw, ← hd.2]

theorem wp_readDatacubePixels (hc : c.Truthful) {data : List UInt8} {header : DatacubeHeader}
    (hn : DATACUBE_HEADER_SIZE ≤ data.length) :
    wp (readDatacubePixels c data header)
      (PixelsRead c header.format (data.drop DATACUBE_HEADER_SIZE) header.dataSize m)
      (PixelsRefused header.dataSize m) m := by
  have hpayload : (data.drop DATACUBE_HEADER_SIZE).take (data.length - DATACUBE_HEADER_SIZE) =
      data.drop DATACUBE_HEADER_SIZE := List.take_of_length_le (by rw [List.length_drop])
  unfold readDatacubePixels
  rw [wp_bind, wp_bytesAt (by omega), hpayload]
  cases header.format with
  | raw =>
    simp only
    rw [wp_bind, wp_raiseIf]
    exact ⟨fun _ => .early, fun hl => ⟨not_not.mp hl, rfl, .inl rfl⟩⟩
  | snappy => exact wp_readSnappy hc
  | gzip => exact wp_readGzip hc
  | zstd => exact wp_readZstd hc
  | lz4 => exact wp_readLz4 hc

end Pixels

/-! ### Reading a datacube -/

/-- Before the header was checked nothing is allocated, and then at most the bytes it states. -/
def AllocatesChecked (data : List UInt8) (m m' : Memory) : Prop :=
  m'.allocations = m.allocations ∨
    ∃ header, (readDatacubeHeader data).run m = .ok header m ∧ header.Checked ∧
      m'.allocations = header.dataSize :: m.allocations

theorem wp_readDatacube {c : Codecs} (hc : c.Truthful) (data : List UInt8) (m : Memory) :
    wp (readDatacube c data)
      (fun r m' => r.1.Checked ∧ r.2.length = r.1.dataSize ∧
        c.Decodes r.1.format (data.drop DATACUBE_HEADER_SIZE) r.2 ∧ AllocatesChecked data m m')
      (fun e m' => e.IsException ∧ AllocatesChecked data m m') m := by
  have hheader := wp_readDatacubeHeader data m
  unfold readDatacube
  rw [wp_bind]
  cases hr : (readDatacubeHeader data).run m with
  | error e m₁ =>
    obtain ⟨rfl, he⟩ := hheader.of_run_error hr
    rw [wp_of_error hr]
    exact ⟨he, .inl rfl⟩
  | ok header m₁ =>
    obtain ⟨rfl, hn, hchecked⟩ := hheader.of_run_ok hr
    have hall : ∀ m', Allocates header.dataSize m₁ m' → AllocatesChecked data m₁ m' :=
      fun m' h => h.imp_right fun h => ⟨header, hr, hchecked, h⟩
    rw [wp_of_ok hr, wp_bind]
    refine (wp_readDatacubePixels hc hn).mono ?_ ?_
    · rintro pixels m' ⟨hl, hd, ha⟩
      exact ⟨hchecked, hl, hd, hall m' ha⟩
    · rintro e m' ⟨he, ha⟩
      exact ⟨he, hall m' ha⟩

section Written

variable (h : DatacubeHeader) (pixels : List UInt8)

@[simp] theorem length_encodeInt32 (x : Int32) : (encodeInt32 x).length = 4 := length_leBytes 4 _

@[simp] theorem length_writeLE64 (v : ℕ) : (writeLE64 v).length = 8 := length_leBytes 8 _

@[simp] theorem length_writeDatacube :
    (writeDatacube h pixels).length = DATACUBE_HEADER_SIZE + pixels.length := by
  simp only [writeDatacube, List.length_append, length_encodeInt32, length_writeLE64,
    List.length_cons, List.length_nil, DATACUBE_HEADER_SIZE]

theorem drop_writeDatacube : (writeDatacube h pixels).drop DATACUBE_HEADER_SIZE = pixels := by
  unfold writeDatacube
  exact List.drop_left' (by simp [DATACUBE_HEADER_SIZE])

/-- The words of a written header, at their places. -/
theorem written_words :
    leNat (((writeDatacube h pixels).drop 0).take 2) = DATACUBE_MAGIC ∧
      (writeDatacube h pixels)[2]? = some DatacubeFormat.raw.code ∧
      (writeDatacube h pixels)[3]? = some h.type.code ∧
      ((writeDatacube h pixels).drop 4).take 4 = encodeInt32 h.bands ∧
      ((writeDatacube h pixels).drop 8).take 4 = encodeInt32 h.cols ∧
      ((writeDatacube h pixels).drop 12).take 4 = encodeInt32 h.rows ∧
      ((writeDatacube h pixels).drop 16).take 8 = writeLE64 h.noData.bits.toNat := by
  refine ⟨?_, ?_, ?_, ?_, ?_, ?_, ?_⟩ <;>
    simp [writeDatacube, List.drop_append, List.drop_of_length_le]
  decide

theorem noData_written (x : Binary64) :
    (⟨UInt64.ofNat (leNat (writeLE64 x.bits.toNat))⟩ : Binary64) = x := by
  have hlt : x.bits.toNat < 256 ^ 8 := x.bits.toNat_lt
  rw [writeLE64, leNat_leBytes, Nat.mod_eq_of_lt hlt, UInt64.ofNat_toNat]

variable {h} {pixels}

theorem readDatacubeFormat_code (f : DatacubeFormat) : readDatacubeFormat f.code = pure f := by
  rw [readDatacubeFormat, DatacubeFormat.ofCode_code]

theorem readDatacubeType_code (t : DatacubeType) : readDatacubeType t.code = pure t := by
  rw [readDatacubeType, DatacubeType.ofCode_code]

/-- A written header in range reads back, as that of a RAW cube. -/
theorem run_readDatacubeHeader_write (hh : h.Checked) (m : Memory) :
    (readDatacubeHeader (writeDatacube h pixels)).run m = .ok { h with format := .raw } m := by
  have hn : 24 ≤ (writeDatacube h pixels).length := by
    rw [length_writeDatacube, DATACUBE_HEADER_SIZE]
    omega
  obtain ⟨hmagic, hformat, htype, hb, hc, hr, hnd⟩ := written_words h pixels
  apply run_eq_ok_of_wp
  unfold readDatacubeHeader
  rw [wp_bind, wp_raiseIf]
  refine ⟨fun hl => absurd hl (Nat.not_lt.mpr hn), fun _ => ?_⟩
  rw [wp_bind, readLE16, wp_readLE (by omega), wp_bind, wp_raiseIf, hmagic]
  refine ⟨fun hne => absurd rfl hne, fun _ => ?_⟩
  rw [wp_bind, wp_byteAt_of_eq hformat, wp_bind, readDatacubeFormat_code, wp_pure, wp_bind,
    wp_byteAt_of_eq htype, wp_bind, readDatacubeType_code, wp_pure, readLE32, readLE64,
    wp_bind, wp_readLE (by omega), wp_bind, wp_readLE (by omega), wp_bind, wp_readLE (by omega),
    wp_bind, wp_readLE (by omega), hb, hc, hr, hnd, int32OfNat_encodeInt32,
    int32OfNat_encodeInt32, int32OfNat_encodeInt32, noData_written, wp_bind, wp_raiseIf]
  refine ⟨fun hneg => ?_, fun _ => ?_⟩
  · simp only [Int32.le_iff_toInt_le, Int32.toInt_zero] at hneg
    have := hh.bands_pos
    have := hh.cols_pos
    have := hh.rows_pos
    omega
  rw [wp_bind, wp_raiseIf]
  refine ⟨fun hbad => ?_, fun _ => ?_⟩
  · rw [datacubeNoDataIsNone_iff] at hbad
    rcases hh.noData with hf | hi
    · exact hbad.1 hf
    · exact hbad.2 hi
  have htotal : pixelBytes h.bands h.cols h.rows h.type = some h.dataSize :=
    (pixelBytes_eq_some hh.bands_pos hh.cols_pos hh.rows_pos).mpr ⟨hh.dataSize, hh.fits⟩
  rw [htotal]
  exact ⟨rfl, rfl⟩

/-- The payload of a written datacube is its pixels. -/
theorem run_readDatacubePixels_write (c : Codecs) (hp : pixels.length = h.dataSize) (m : Memory) :
    (readDatacubePixels c (writeDatacube h pixels) { h with format := .raw }).run m =
      .ok pixels m := by
  have hpayload : ((writeDatacube h pixels).drop DATACUBE_HEADER_SIZE).take
      ((writeDatacube h pixels).length - DATACUBE_HEADER_SIZE) = pixels := by
    rw [drop_writeDatacube, length_writeDatacube, Nat.add_sub_cancel_left, List.take_length]
  apply run_eq_ok_of_wp
  unfold readDatacubePixels
  rw [wp_bind, wp_bytesAt (by rw [length_writeDatacube]; omega), hpayload]
  simp only [wp_bind, wp_raiseIf, wp_pure]
  exact ⟨fun hne => absurd hp hne, fun _ => ⟨trivial, trivial⟩⟩

/-- Reading back a written datacube gives the header, as that of a RAW cube, and the pixels. -/
theorem run_readDatacube_write (c : Codecs) (hh : h.Checked) (hp : pixels.length = h.dataSize)
    (m : Memory) :
    (readDatacube c (writeDatacube h pixels)).run m =
      .ok ({ h with format := .raw }, pixels) m := by
  unfold readDatacube
  simp only [EStateM.run_bind, run_readDatacubeHeader_write hh m,
    run_readDatacubePixels_write c hp m, EStateM.run_pure]

end Written

/-- **The codec is checked and exact.** For every byte string, reading a datacube raises or
returns a checked header, whose size is the exact product of its counts, with exactly that many
pixel bytes, which are what its payload decodes to; it makes no access out of bounds, and
allocates nothing before the header was checked. Reading what `WriteDatacube` wrote of a header in
range and pixels of its size gives back both. -/
theorem readDatacube_exact (c : Codecs) (hc : c.Truthful) :
    (∀ (data : List UInt8) (m : Memory),
      wp (readDatacube c data)
        (fun r m' => r.1.Checked ∧ r.2.length = r.1.dataSize ∧
          c.Decodes r.1.format (data.drop DATACUBE_HEADER_SIZE) r.2 ∧ AllocatesChecked data m m')
        (fun e m' => e.IsException ∧ AllocatesChecked data m m') m) ∧
    ∀ (h : DatacubeHeader) (pixels : List UInt8) (m : Memory), h.Checked →
      pixels.length = h.dataSize →
      (readDatacube c (writeDatacube h pixels)).run m =
        .ok ({ h with format := .raw }, pixels) m :=
  ⟨wp_readDatacube hc, fun _ _ m hh hp => run_readDatacube_write c hh hp m⟩

/-- Codecs that inflate stored members and refuse the other formats. -/
def storedCodecs : Codecs where
  available n := n < 2 ^ 40
  snappyLength _ := none
  snappyValid _ := false
  snappyUncompress _ := (false, [])
  inflater := storedInflater
  crc32 := crc32Gzip
  zstdContentSize _ := .error
  zstdFrameSize _ := none
  zstdDecompress _ _ := (none, [])
  lz4Decompress _ _ := (-1, [])

theorem storedCodecs_truthful : storedCodecs.Truthful where
  snappy_le _ _ h := nomatch h
  snappy_eq _ _ h := nomatch h
  inflater := storedInflater_bounded
  zstd_le _ _ := Nat.zero_le _
  zstd_eq _ _ _ h := nomatch h
  lz4_le _ _ := Nat.zero_le _
  lz4_eq _ _ h := by simp [storedCodecs] at h

/-- A GZIP datacube of one 8-bit pixel, its nodata value zero. -/
def gzipCube : List UInt8 :=
  [0x53, 0x52, 0x02, 0x00, 1, 0, 0, 0, 1, 0, 0, 0, 1, 0, 0, 0, 0, 0, 0, 0, 0, 0, 0, 0] ++
    [0x1F, 0x8B, 0x08, 0, 0, 0, 0, 0, 0, 0x03, 0x01, 0x01, 0x00, 0xFE, 0xFF, 0x41, 0x8B, 0x9E, 0xD9,
      0xD3, 0x01, 0, 0, 0]

theorem readDatacube_exact_gzipCube :
    (readDatacube storedCodecs gzipCube).run ⟨[], []⟩ =
        .ok (⟨.gzip, .uint8, 1, 1, 1, .zero, 1⟩, [0x41]) ⟨[0x41], [1]⟩ ∧
      storedCodecs.Decodes .gzip (gzipCube.drop DATACUBE_HEADER_SIZE) [0x41] ∧
      (readDatacube storedCodecs
          (writeDatacube ⟨.gzip, .uint8, 1, 1, 1, .zero, 1⟩ [0x41])).run ⟨[], []⟩ =
        .ok (⟨.raw, .uint8, 1, 1, 1, .zero, 1⟩, [0x41]) ⟨[], []⟩ := by
  have hrun : (readDatacube storedCodecs gzipCube).run ⟨[], []⟩ =
      .ok (⟨.gzip, .uint8, 1, 1, 1, .zero, 1⟩, [0x41]) ⟨[0x41], [1]⟩ := by rfl
  have h := ((readDatacube_exact storedCodecs storedCodecs_truthful).1 gzipCube ⟨[], []⟩).of_run_ok
    hrun
  exact ⟨hrun, h.2.2.1,
    (readDatacube_exact storedCodecs storedCodecs_truthful).2 _ _ _ h.1 rfl⟩

end MobilityDuck
