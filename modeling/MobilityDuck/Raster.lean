/-
# Rasters and their datacube

A MEOS raster stores its size, its reference system, six georeferencing
coefficients and its bands. MEOS is a parameter (`RasterApi`); what is asked
of it is that it stores and returns what it is given (`RasterApi.Stores`),
seen through a view of a raster as plain data. A pixel type has a name in MEOS, a
name in PostGIS, a code in a datacube and a name and a code in GDAL
(`pixelTypes`).

`DatacubeOfRaster` writes the RAW datacube of a raster whose bands are of one
pixel type and state one nodata value, and raises for every other
(`datacubeOfRaster_eq_ok_iff`).

Key definitions: `RasterView`, `RasterApi`, `RasterApi.Stores`, `pixelTypes`, `readBand`,
`NoDataFitsType`, `datacubeOfRaster`.
Key theorems: `readBand_eq_ok_iff`, `rtPixelType_row`, `datacubeOfRaster_eq_ok_iff`.
-/
import MobilityDuck.Datacube
import MobilityDuck.TileMetadata

namespace MobilityDuck

open Lib

/-! ### Pixel types -/

/-- The names and codes of a pixel type. -/
structure PixelType where
  meos : String
  cube : DatacubeType
  postgis : String
  gdalName : String
  gdalCode : ℕ
  deriving DecidableEq, Repr

/-- `PIXEL_TYPES`. -/
def pixelTypes : List PixelType :=
  [⟨"uint8", .uint8, "8BUI", "Byte", 1⟩, ⟨"int8", .int8, "8BSI", "Int8", 14⟩,
    ⟨"uint16", .uint16, "16BUI", "UInt16", 2⟩, ⟨"int16", .int16, "16BSI", "Int16", 3⟩,
    ⟨"uint32", .uint32, "32BUI", "UInt32", 4⟩, ⟨"int32", .int32, "32BSI", "Int32", 5⟩,
    ⟨"float32", .float, "32BF", "Float32", 6⟩, ⟨"float64", .double, "64BF", "Float64", 7⟩]

/-- `PixelTypeOfCube`. -/
def pixelTypeOfCube (type : DatacubeType) : Option PixelType :=
  pixelTypes.find? fun row => row.cube = type

/-- The row of a MEOS name, as the loop of `ReadBand` finds it. -/
def pixelTypeOfMeos (name : String) : Option PixelType :=
  pixelTypes.foldl (fun found row => if row.meos = name then some row else found) none

/-- What a pixel type of PostGIS holds: integers of some bits, or doubles of one precision or the
other. -/
inductive PixelKind
  | unsigned (bits : ℕ)
  | signed (bits : ℕ)
  | float32
  | float64
  deriving DecidableEq, Repr

/-- The pixel types of rt_core, with the name MEOS answers for each. -/
def rtPixelType : String → Option (PixelKind × String)
  | "1BB" => some (.unsigned 1, "uint8")
  | "2BUI" => some (.unsigned 2, "uint8")
  | "4BUI" => some (.unsigned 4, "uint8")
  | "8BUI" => some (.unsigned 8, "uint8")
  | "8BSI" => some (.signed 8, "int8")
  | "16BUI" => some (.unsigned 16, "uint16")
  | "16BSI" => some (.signed 16, "int16")
  | "32BUI" => some (.unsigned 32, "uint32")
  | "32BSI" => some (.signed 32, "int32")
  | "32BF" => some (.float32, "float32")
  | "64BF" => some (.float64, "float64")
  | _ => none

/-- `std::trunc(v) == v`. -/
def Integral (v : Binary64) : Prop := ¬ v.IsNaN ∧ Binary64.unit ∣ v.scaled

/-- `std::fabs(v) <= std::numeric_limits<float>::max()`. -/
def AbsLeFloatMax (v : Binary64) : Prop :=
  ¬ v.IsNaN ∧ v.magnitude ≤ (2 ^ 24 - 1) * 2 ^ 104 * 2 ^ 1074

/-- `static_cast<double>(static_cast<float>(v)) == v`: no bit of the significand is lost. -/
def NarrowsExactly (v : Binary64) : Prop :=
  ¬ v.IsNaN ∧ 2 ^ 925 ∣ v.magnitude ∧
    2 ^ (Nat.log2 (v.magnitude / 2 ^ 925) + 1 - 24) ∣ v.magnitude / 2 ^ 925

/-- `lo <= v && v <= hi`, of integers. -/
def Between (lo hi : ℤ) (v : Binary64) : Prop :=
  ¬ v.IsNaN ∧ lo * Binary64.unit ≤ v.scaled ∧ v.scaled ≤ hi * Binary64.unit

instance (v : Binary64) : Decidable (Integral v) := inferInstanceAs (Decidable (_ ∧ _))

instance (v : Binary64) : Decidable (AbsLeFloatMax v) := inferInstanceAs (Decidable (_ ∧ _))

instance (v : Binary64) : Decidable (NarrowsExactly v) := inferInstanceAs (Decidable (_ ∧ _))

instance (lo hi : ℤ) (v : Binary64) : Decidable (Between lo hi v) :=
  inferInstanceAs (Decidable (_ ∧ _))

/-- `NoDataFitsType`. -/
def NoDataFitsType (type : DatacubeType) (v : Binary64) : Prop :=
  match type with
  | .double => True
  | .float => AbsLeFloatMax v ∧ NarrowsExactly v
  | .uint8 => Integral v ∧ Between 0 255 v
  | .int8 => Integral v ∧ Between (-128) 127 v
  | .uint16 => Integral v ∧ Between 0 65535 v
  | .int16 => Integral v ∧ Between (-32768) 32767 v
  | .uint32 => Integral v ∧ Between 0 4294967295 v
  | .int32 => Integral v ∧ Between (-2147483648) 2147483647 v
  | .uint64 | .int64 => False

instance (type : DatacubeType) (v : Binary64) : Decidable (NoDataFitsType type v) := by
  cases type <;> simp only [NoDataFitsType] <;> infer_instance

/-- A number is one of the pixel type's. -/
def PixelKind.Holds (v : Binary64) : PixelKind → Prop
  | .unsigned bits => Integral v ∧ Between 0 (2 ^ bits - 1) v
  | .signed bits => Integral v ∧ Between (-2 ^ (bits - 1)) (2 ^ (bits - 1) - 1) v
  | .float32 => AbsLeFloatMax v ∧ NarrowsExactly v
  | .float64 => ¬ v.IsNaN

theorem PixelKind.Holds.not_isNaN {v : Binary64} : ∀ {kind : PixelKind}, kind.Holds v → ¬ v.IsNaN
  | .unsigned _, h => h.1.1
  | .signed _, h => h.1.1
  | .float32, h => h.1.1
  | .float64, h => h

theorem pixelTypeOfCube_cube {type : DatacubeType} {row : PixelType}
    (h : pixelTypeOfCube type = some row) : row.cube = type := by
  simpa using List.find?_some h

/-- The row of a MEOS name is a row of that name. The induction is on the rows the loop has left. -/
theorem pixelTypeOfMeos_eq_some {name : String} {row : PixelType}
    (h : pixelTypeOfMeos name = some row) : row ∈ pixelTypes ∧ row.meos = name := by
  have hall : ∀ (l : List PixelType) (found : Option PixelType),
      (∀ r, found = some r → r ∈ pixelTypes ∧ r.meos = name) → (∀ r ∈ l, r ∈ pixelTypes) →
      ∀ r, l.foldl (fun found row => if row.meos = name then some row else found) found = some r →
        r ∈ pixelTypes ∧ r.meos = name := by
    intro l
    induction l with
    | nil => exact fun found hf _ => hf
    | cons r l ih =>
      intro found hf hl
      refine ih _ (fun r' hr' => ?_) fun r' hr' => hl r' (List.mem_cons_of_mem _ hr')
      simp only at hr'
      split at hr'
      · rename_i hname
        exact Option.some.inj hr' ▸ ⟨hl r List.mem_cons_self, hname⟩
      · exact hf r' hr'
  exact hall pixelTypes none nofun (fun _ h => h) row h

/-- MEOS answers the name of the row for the PostGIS name of the row, and a nodata value that
fits the row's type is one its pixels hold. -/
theorem rtPixelType_row {type : DatacubeType} {row : PixelType}
    (h : pixelTypeOfCube type = some row) :
    ∃ kind, rtPixelType row.postgis = some (kind, row.meos) ∧
      pixelTypeOfMeos row.meos = some row ∧
      ∀ v, ¬ v.IsNaN → NoDataFitsType type v → kind.Holds v := by
  cases type <;> cases h <;>
    exact ⟨_, rfl, rfl, fun v => by simp +contextual [PixelKind.Holds, NoDataFitsType]⟩

/-! ### Rasters -/

structure RasterBand where
  pixelType : String
  nodata : Option Binary64
  pixels : List UInt8
  deriving DecidableEq, Repr

/-- A raster as plain data. -/
structure RasterView where
  width : ℕ
  height : ℕ
  upperLeftX : Binary64
  upperLeftY : Binary64
  scaleX : Binary64
  scaleY : Binary64
  skewX : Binary64
  skewY : Binary64
  srid : ℤ
  bands : List RasterBand
  deriving DecidableEq, Repr

/-- The arguments of `raster_make`, in its order. -/
structure MakeArgs where
  width : ℤ
  height : ℤ
  upperLeftX : Binary64
  upperLeftY : Binary64
  scaleX : Binary64
  scaleY : Binary64
  skewX : Binary64
  skewY : Binary64
  srid : ℤ
  pixelType : String
  nodata : Binary64
  hasNodata : Bool
  pixels : List UInt8

/-- The raster functions of MEOS; a band is named by its number, from one on. -/
structure RasterApi where
  Raster : Type
  make : MakeArgs → Option Raster
  addBandRaster : Raster → Raster → (fromBand toIndex : ℤ) → Option Raster
  asWkb : Raster → Option (List UInt8)
  fromWkb : List UInt8 → Option Raster
  width : Raster → ℤ
  height : Raster → ℤ
  numBands : Raster → ℤ
  srid : Raster → ℤ
  upperLeftX : Raster → Binary64
  upperLeftY : Raster → Binary64
  scaleX : Raster → Binary64
  scaleY : Raster → Binary64
  skewX : Raster → Binary64
  skewY : Raster → Binary64
  bandPixelType : Raster → ℕ → Option String
  bandNodataValue : Raster → ℕ → Option Binary64
  bandPixels : Raster → ℕ → Option (List UInt8)

/-- Two bands state no nodata value, or the same one. -/
def SameNodata : Option Binary64 → Option Binary64 → Prop
  | none, none => True
  | some x, some y => x.Eq y
  | _, _ => False

instance : ∀ a b : Option Binary64, Decidable (SameNodata a b)
  | none, none => inferInstanceAs (Decidable True)
  | some _, some _ => inferInstanceAs (Decidable (_ ∧ _))
  | none, some _ => inferInstanceAs (Decidable False)
  | some _, none => inferInstanceAs (Decidable False)

theorem SameNodata.symm : ∀ {a b : Option Binary64}, SameNodata a b → SameNodata b a
  | none, none, _ => trivial
  | some _, some _, h => Binary64.Eq.symm h

theorem SameNodata.trans : ∀ {a b c : Option Binary64}, SameNodata a b → SameNodata b c →
    SameNodata a c
  | none, none, none, _, _ => trivial
  | some _, some _, some _, h, h' => Binary64.Eq.trans h h'

/-- The number of bytes of a pixel of a MEOS pixel type. -/
def meosPixelSize (name : String) : ℕ :=
  match pixelTypeOfMeos name with
  | some row => datacubeTypeSize row.cube
  | none => 0

/-- The bytes of the serialisation of a raster: its header, and for each band its flags, its
nodata value and its pixels. -/
def RasterView.wkbSize (v : RasterView) : ℕ :=
  61 + (v.bands.map fun band => 1 + meosPixelSize band.pixelType + band.pixels.length).sum

/-- MEOS stores what it is given and returns it: the size, the coefficients and the reference
system, the pixel type under its MEOS name, a nodata value the pixel type holds, and the bytes of
each band; a band added last is the last; and the serialisation loses nothing. -/
structure RasterApi.Stores (api : RasterApi) (view : api.Raster → RasterView) : Prop where
  width : ∀ r, api.width r = (view r).width
  height : ∀ r, api.height r = (view r).height
  numBands : ∀ r, api.numBands r = (view r).bands.length
  srid : ∀ r, api.srid r = (view r).srid
  upperLeftX : ∀ r, api.upperLeftX r = (view r).upperLeftX
  upperLeftY : ∀ r, api.upperLeftY r = (view r).upperLeftY
  scaleX : ∀ r, api.scaleX r = (view r).scaleX
  scaleY : ∀ r, api.scaleY r = (view r).scaleY
  skewX : ∀ r, api.skewX r = (view r).skewX
  skewY : ∀ r, api.skewY r = (view r).skewY
  bandPixelType : ∀ r i band, (view r).bands[i]? = some band →
    api.bandPixelType r (i + 1) = some band.pixelType
  bandNodataValue : ∀ r i band, (view r).bands[i]? = some band →
    api.bandNodataValue r (i + 1) = band.nodata
  bandPixels : ∀ r i band, (view r).bands[i]? = some band →
    api.bandPixels r (i + 1) = some band.pixels
  make : ∀ a kind name r, rtPixelType a.pixelType = some (kind, name) → 0 ≤ a.width →
    0 ≤ a.height → (a.hasNodata = true → kind.Holds a.nodata) → api.make a = some r →
    ∃ nodata, SameNodata nodata (if a.hasNodata then some a.nodata else none) ∧
      view r = ⟨a.width.toNat, a.height.toNat, a.upperLeftX, a.upperLeftY, a.scaleX, a.scaleY,
        a.skewX, a.skewY, a.srid, [⟨name, nodata, a.pixels⟩]⟩
  addBandRaster : ∀ r s r' band, (view s).bands = [band] → api.addBandRaster r s 1 0 = some r' →
    view r' = { view r with bands := (view r).bands ++ [band] }
  asWkb : ∀ r wkb, api.asWkb r = some wkb → ∃ r', api.fromWkb wkb = some r' ∧ view r' = view r
  asWkb_length : ∀ r wkb, api.asWkb r = some wkb → wkb.length = (view r).wkbSize

/-! ### Reading a raster -/

def throwFault {α : Type} (message : String) : Except Fault α :=
  .error (.raised (.invalidInput message))

/-- `StringVector::AddStringOrBlob`: a value holds at most `2 ^ 32 - 1` bytes. -/
def addStringOrBlob (bytes : List UInt8) : Except Fault (List UInt8) :=
  if bytes.length > UINT_MAX then .error .outOfRange else .ok bytes

/-- The pixel type and nodata value of a band. -/
structure Band where
  type : PixelType
  nodata : Option Binary64

section Api

variable (api : RasterApi)

def readRaster (blob : List UInt8) : Except Fault api.Raster :=
  match api.fromWkb blob with
  | some r => .ok r
  | none => throwFault "raster: invalid raster serialisation"

/-- `ReadBand` of band `b`. -/
def readBand (r : api.Raster) (b : ℕ) : Except Fault Band :=
  match api.bandPixelType r b with
  | none => throwFault ("raster: cannot read the pixel type of band " ++ toString b)
  | some name =>
    match pixelTypeOfMeos name with
    | none =>
      throwFault ("raster: band " ++ toString b ++ " of pixel type " ++ name ++
        " has no datacube data type")
    | some type =>
      match api.bandNodataValue r b with
      | none => .ok ⟨type, none⟩
      | some nodata =>
        if ¬ nodata.IsFinite then
          throwFault ("raster: band " ++ toString b ++ " states the nodata value " ++
            (if nodata.IsNaN then "NaN" else if Binary64.zero.Lt nodata then "+inf" else "-inf") ++
            ", which a datacube and its metadata cannot state")
        else .ok ⟨type, some nodata⟩

/-- Band `b`, of which the first was read before the loop. -/
def nthBand (r : api.Raster) (first : Band) (b : ℕ) : Except Fault Band :=
  if b = 1 then .ok first else readBand api r b

/-- The checks of a band against the first. -/
def checkBand (first : Band) (b : ℕ) (band : Band) : Except Fault Unit :=
  if band.type ≠ first.type then
    throwFault ("raster: band " ++ toString b ++ " is of pixel type " ++ band.type.meos ++
      " and band 1 of " ++ first.type.meos ++ ", where a datacube holds one data type")
  else if ¬ SameNodata band.nodata first.nodata then
    throwFault ("raster: band " ++ toString b ++
      " states a nodata value other than band 1's, where a datacube holds one")
  else .ok ()

/-- `raster_band_pixels` of band `b`. -/
def readPixels (r : api.Raster) (b : ℕ) : Except Fault (List UInt8) :=
  match api.bandPixels r b with
  | none => throwFault ("raster: cannot read the pixels of band " ++ toString b)
  | some bytes => .ok bytes

/-- The loop of `DatacubeOfRaster` over the bands, which appends their pixels. -/
def appendBands (r : api.Raster) (first : Band) : List ℕ → List UInt8 →
    Except Fault (List UInt8)
  | [], pixels => .ok pixels
  | b :: bs, pixels => do
    let band ← nthBand api r first b
    checkBand first b band
    let bytes ← readPixels api r b
    appendBands r first bs (pixels ++ bytes)

def checkSize (nbands width height : ℤ) : Except Fault Unit :=
  if nbands ≤ 0 ∨ width ≤ 0 ∨ height ≤ 0 then
    throwFault ("raster: a raster of " ++ toString nbands ++ " bands of " ++ toString width ++
      " x " ++ toString height ++ " pixels has no datacube, which holds at least one pixel")
  else .ok ()

/-- `DatacubeOfRaster`. -/
def datacubeOfRaster (blob : List UInt8) : Except Fault (List UInt8) := do
  let rast ← readRaster api blob
  let nbands := api.numBands rast
  let width := api.width rast
  let height := api.height rast
  checkSize nbands width height
  let first ← readBand api rast 1
  let pixels ← appendBands api rast first (List.range' 1 nbands.toNat) []
  let header : DatacubeHeader :=
    ⟨.raw, first.type.cube, Int32.ofInt nbands, Int32.ofInt width, Int32.ofInt height,
      first.nodata.getD .negInf, pixels.length⟩
  addStringOrBlob (writeDatacube header pixels)

end Api

/-! ### What has a datacube -/

/-- A band of the pixel type and the nodata value of the first one, which a datacube can state. -/
structure Band.Fits (first : Band) (band : RasterBand) : Prop where
  type : pixelTypeOfMeos band.pixelType = some first.type
  nodata : SameNodata band.nodata first.nodata
  finite : ∀ x, band.nodata = some x → x.IsFinite

/-- A raster of at least one pixel whose bands have one type and one nodata value. -/
structure RasterView.Uniform (v : RasterView) (first : Band) : Prop where
  width_pos : 0 < v.width
  height_pos : 0 < v.height
  head : v.bands.head?.map RasterBand.nodata = some first.nodata
  fits : ∀ band ∈ v.bands, first.Fits band

def RasterView.pixels (v : RasterView) : List UInt8 := v.bands.flatMap RasterBand.pixels

/-- The header of the datacube of a raster. -/
def RasterView.header (v : RasterView) (first : Band) : DatacubeHeader :=
  ⟨.raw, first.type.cube, Int32.ofInt v.bands.length, Int32.ofInt v.width, Int32.ofInt v.height,
    first.nodata.getD .negInf, v.pixels.length⟩

section Datacube

variable {api : RasterApi} {view : api.Raster → RasterView} (hapi : api.Stores view)
include hapi

theorem readBand_eq_ok_iff {r : api.Raster} {i : ℕ} {band : RasterBand}
    (hb : (view r).bands[i]? = some band) {b : Band} :
    readBand api r (i + 1) = .ok b ↔ pixelTypeOfMeos band.pixelType = some b.type ∧
      b.nodata = band.nodata ∧ ∀ x, band.nodata = some x → x.IsFinite := by
  unfold readBand
  rw [hapi.bandPixelType r i band hb, hapi.bandNodataValue r i band hb]
  simp only
  cases ht : pixelTypeOfMeos band.pixelType with
  | none => simp [throwFault]
  | some type =>
    cases hn : band.nodata with
    | none =>
      cases b
      simp [eq_comm]
    | some x =>
      by_cases hf : x.IsFinite
      · cases b
        simp [hf, eq_comm]
      · simp [hf, throwFault]

omit hapi in
theorem checkSize_eq_ok_iff {nbands width height : ℤ} {u : Unit} :
    checkSize nbands width height = .ok u ↔ 0 < nbands ∧ 0 < width ∧ 0 < height := by
  unfold checkSize
  split
  · simp only [throwFault, reduceCtorEq, false_iff]
    omega
  · simp only [true_iff]
    omega

omit hapi in
theorem addStringOrBlob_eq_ok_iff {bytes out : List UInt8} :
    addStringOrBlob bytes = .ok out ↔ out = bytes ∧ bytes.length ≤ UINT_MAX := by
  unfold addStringOrBlob
  split
  · simp only [reduceCtorEq, false_iff]
    omega
  · simp only [Except.ok.injEq, eq_comm, iff_self_and]
    omega

omit hapi in
theorem checkBand_eq_ok_iff {first band : Band} {b : ℕ} {u : Unit} :
    checkBand first b band = .ok u ↔
      band.type = first.type ∧ SameNodata band.nodata first.nodata := by
  unfold checkBand
  by_cases ht : band.type = first.type <;>
    by_cases hn : SameNodata band.nodata first.nodata <;> simp [ht, hn, throwFault]

/-- The loop returns when every band fits the first, with their pixels one after the other. The
induction is on the bands that are left. -/
theorem appendBands_eq_ok_iff {r : api.Raster} {first : Band}
    (hfirst : readBand api r 1 = .ok first) :
    ∀ (i : ℕ) (l : List RasterBand) (pixels out : List UInt8), (view r).bands.drop i = l →
      (appendBands api r first (List.range' (i + 1) l.length) pixels = .ok out ↔
        (∀ band ∈ l, first.Fits band) ∧ out = pixels ++ l.flatMap RasterBand.pixels)
  | i, [], pixels, out, _ => by
    simp [appendBands, eq_comm]
  | i, band :: l, pixels, out, hl => by
    have hb : (view r).bands[i]? = some band := by
      rw [← List.head?_drop, hl]
      rfl
    have hdrop : (view r).bands.drop (i + 1) = l := by
      rw [← List.tail_drop, hl]
      rfl
    have hread : nthBand api r first (i + 1) = readBand api r (i + 1) := by
      unfold nthBand
      split
      · rename_i h1
        rw [h1, hfirst]
      · rfl
    have hpixels : readPixels api r (i + 1) = .ok band.pixels := by
      rw [readPixels, hapi.bandPixels r i band hb]
    have ih := appendBands_eq_ok_iff hfirst (i + 1) l (pixels ++ band.pixels) out hdrop
    rw [List.length_cons, List.range'_succ, appendBands, hread, except_bind_eq_ok]
    simp only [except_bind_eq_ok, readBand_eq_ok_iff hapi hb, checkBand_eq_ok_iff, hpixels,
      Except.ok.injEq, exists_eq_left', ih, List.forall_mem_cons, List.flatMap_cons,
      List.append_assoc, exists_const]
    constructor
    · rintro ⟨b, ⟨ht, hn, hf⟩, ⟨hbt, hbn⟩, hall, rfl⟩
      exact ⟨⟨⟨by rw [ht, hbt], hn ▸ hbn, hf⟩, hall⟩, rfl⟩
    · rintro ⟨⟨⟨ht, hn, hf⟩, hall⟩, rfl⟩
      exact ⟨⟨first.type, band.nodata⟩, ⟨ht, rfl, hf⟩, ⟨rfl, hn⟩, hall, rfl⟩

/-- A raster has a datacube exactly when its bands are uniform and the cube is short enough for a
value, and it is the RAW cube of its pixels. -/
theorem datacubeOfRaster_eq_ok_iff {blob : List UInt8} {r : api.Raster}
    (hr : api.fromWkb blob = some r) {cube : List UInt8} :
    datacubeOfRaster api blob = .ok cube ↔ ∃ first, (view r).Uniform first ∧
      cube = writeDatacube ((view r).header first) (view r).pixels ∧ cube.length ≤ UINT_MAX := by
  have hread : readRaster api blob = .ok r := by rw [readRaster, hr]
  unfold datacubeOfRaster
  simp only [except_bind_eq_ok, hread, Except.ok.injEq, exists_eq_left']
  rw [hapi.numBands, hapi.width, hapi.height]
  simp only [checkSize_eq_ok_iff, exists_const, addStringOrBlob_eq_ok_iff, Int.toNat_natCast,
    Nat.cast_pos]
  constructor
  · rintro ⟨⟨hpos, hw, hh⟩, first, hfirst, pixels, happ, rfl, hlen⟩
    cases hbands : (view r).bands with
    | nil =>
      rw [hbands] at hpos
      exact absurd hpos (lt_irrefl 0)
    | cons head l =>
      have hhead : (view r).bands[0]? = some head := by rw [hbands]; rfl
      have hn := ((readBand_eq_ok_iff hapi hhead).mp hfirst).2.1
      obtain ⟨hfits, hpixels⟩ :=
        (appendBands_eq_ok_iff hapi hfirst 0 (view r).bands [] pixels (List.drop_zero)).mp happ
      rw [List.nil_append] at hpixels
      refine ⟨first, ⟨hw, hh, by rw [hbands, hn]; rfl, hfits⟩, ?_, hlen⟩
      rw [← hbands, RasterView.header, RasterView.pixels, ← hpixels]
  · rintro ⟨first, hu, rfl, hlen⟩
    cases hbands : (view r).bands with
    | nil =>
      have hhead := hu.head
      rw [hbands] at hhead
      cases hhead
    | cons head l =>
      have hhead : (view r).bands[0]? = some head := by rw [hbands]; rfl
      have hmem : head ∈ (view r).bands := by rw [hbands]; exact List.mem_cons_self
      have hn : head.nodata = first.nodata := by
        have h := hu.head
        rw [hbands] at h
        simpa using h
      have hfits := hu.fits head hmem
      have hfirst : readBand api r 1 = .ok first :=
        (readBand_eq_ok_iff hapi hhead).mpr ⟨hfits.type, hn.symm, hfits.finite⟩
      have happ := (appendBands_eq_ok_iff hapi hfirst 0 (view r).bands [] (view r).pixels
        (List.drop_zero)).mpr ⟨hu.fits, rfl⟩
      rw [← hbands]
      refine ⟨⟨by rw [hbands]; simp, hu.width_pos, hu.height_pos⟩, first, hfirst, _, happ, rfl, hlen⟩

end Datacube

end MobilityDuck
