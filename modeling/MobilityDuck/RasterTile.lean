/-
# The raster of a tile, and back

`RasterFromTile` builds a raster from a datacube and the metadata of its
tile: it checks the header, places the tile, decodes the pixels, and makes one
raster of each band's slice of them, adding one after the other. Casting what
it built back to a datacube gives the RAW cube of the same header fields and
pixels (`cast_rasterFromTile`), whatever the format of the cube.

Key definition: `rasterFromTile`. Key theorems: `wp_buildBands`, `cast_rasterFromTile`.
-/
import MobilityDuck.Raster
import Mathlib.Algebra.Order.BigOperators.Group.List
import Mathlib.Data.List.Forall2

namespace MobilityDuck

open Lib

/-- The width, the height and the number of bands of a raster are 16-bit unsigned integers. -/
def RT_MAX : ℤ := 2 ^ 16 - 1

/-- What raises without touching the buffer, run with it. -/
def liftMeta {α : Type} : Except Exception α → Codec α
  | .ok a => pure a
  | .error e => throw (.raised e)

def liftFault {α : Type} : Except Fault α → Codec α
  | .ok a => pure a
  | .error e => throw e

/-- What a header must meet beyond its own checks to make a raster of `type`. -/
def checkTile (d : DoubleOps) (header : DatacubeHeader) (tileX tileY : Int32) : Codec Unit := do
  let counts := toString header.bands.toInt ++ " bands of " ++ toString header.cols.toInt ++
    " x " ++ toString header.rows.toInt ++ " pixels"
  raiseIf (header.cols.toInt > RT_MAX ∨ header.rows.toInt > RT_MAX ∨ header.bands.toInt > RT_MAX)
    (throwInvalid ("raster: a datacube of " ++ counts ++ " exceeds the " ++ toString RT_MAX ++
      " bands, columns and rows of a raster"))
  raiseIf (header.dataSize > UINT_MAX)
    (throwInvalid ("raster: a datacube of " ++ counts ++ " of " ++ datacubeTypeName header.type ++
      " exceeds the size of a raster value"))
  raiseIf (¬ DatacubeNoDataIsNone header.noData ∧ ¬ NoDataFitsType header.type header.noData)
    (throwInvalid ("raster: the datacube nodata value " ++ d.toText header.noData ++
      " is no value of its data type " ++ datacubeTypeName header.type))
  raiseIf (tileX < 0 ∨ tileY < 0)
    (throwInvalid ("raster: the tile (" ++ toString tileX.toInt ++ ", " ++ toString tileY.toInt ++
      ") has a negative coordinate"))

/-- Where the pixels of the tile start, within the pixel offsets of a raster. -/
def tileOffset (tileX tileY : Int32) (grid : TileGrid) : Codec (ℤ × ℤ) := do
  let offsetX := tileX.toInt * grid.blocksizeX
  let offsetY := tileY.toInt * grid.blocksizeY
  raiseIf (offsetX > INT32_MAX ∨ offsetY > INT32_MAX)
    (throwInvalid ("raster: the tile (" ++ toString tileX.toInt ++ ", " ++ toString tileY.toInt ++
      ") of " ++ toString grid.blocksizeX ++ " x " ++ toString grid.blocksizeY ++
      " pixels lies beyond the pixel offsets of a raster"))
  return (offsetX, offsetY)

/-- The arguments `raster_make` is called with for a band of these bytes. -/
def bandArgs (header : DatacubeHeader) (type : PixelType) (grid : TileGrid)
    (upperLeft : Binary64 × Binary64) (bytes : List UInt8) : MakeArgs where
  width := header.cols.toInt
  height := header.rows.toInt
  upperLeftX := upperLeft.1
  upperLeftY := upperLeft.2
  scaleX := grid.transform.getD 1 .zero
  scaleY := grid.transform.getD 5 .zero
  skewX := grid.transform.getD 2 .zero
  skewY := grid.transform.getD 4 .zero
  srid := grid.srid
  pixelType := type.postgis
  nodata := if DatacubeNoDataIsNone header.noData then .zero else header.noData
  hasNodata := ¬ DatacubeNoDataIsNone header.noData
  pixels := bytes

section Tile

variable (api : RasterApi) (c : Codecs) (d : DoubleOps) (y : Yyjson)

/-- The loop of `RasterFromTile`, which makes a raster of each band and adds it to those before
it. -/
def buildBands (args : List UInt8 → MakeArgs) (pixels : List UInt8) (bandSize : ℕ) :
    List ℕ → Option api.Raster → Codec (Option api.Raster)
  | [], rast => pure rast
  | b :: bs, rast => do
    let bytes ← bytesAt pixels (b * bandSize) bandSize
    match api.make (args bytes) with
    | none => throwInvalid ("raster: cannot build band " ++ toString (b + 1) ++ " of the datacube")
    | some band =>
      match rast with
      | none => buildBands args pixels bandSize bs (some band)
      | some rast =>
        match api.addBandRaster rast band 1 0 with
        | none =>
          throwInvalid ("raster: cannot add band " ++ toString (b + 1) ++ " of the datacube")
        | some added => buildBands args pixels bandSize bs (some added)

/-- `WriteRaster`. -/
def writeRaster (rast : Option api.Raster) : Codec (List UInt8) :=
  match rast.bind api.asWkb with
  | none => throwInvalid "raster: cannot serialise the raster"
  | some wkb => liftFault (addStringOrBlob wkb)

/-- `RasterFromTile`; the buffer is its own. -/
def rasterFromTile (cube : List UInt8) (tileX tileY : Int32) (metadata : String) :
    Codec (List UInt8) := do
  modify fun m => { m with buffer := [] }
  let header ← readDatacubeHeader cube
  match pixelTypeOfCube header.type with
  | none =>
    throwInvalid ("raster: a datacube of " ++ datacubeTypeName header.type ++
      " has no MEOS pixel type")
  | some type =>
    checkTile d header tileX tileY
    let grid ← liftMeta (readTileGrid d y metadata)
    let offset ← tileOffset tileX tileY grid
    let upperLeft := pixelToWorld d grid.transform offset.1 offset.2
    let pixels ← readDatacubePixels c cube header
    let bandSize := header.dataSize / header.bands.toInt.toNat
    let rast ← buildBands api (bandArgs header type grid upperLeft) pixels bandSize
      (List.range header.bands.toInt.toNat) none
    writeRaster api rast

end Tile

/-! ### Building a raster -/

/-- MEOS makes what it can store: a band of the right size of values its type holds, and a band more
on a raster of its size. -/
structure RasterApi.Makes (api : RasterApi) (view : api.Raster → RasterView) : Prop where
  make : ∀ a kind name, rtPixelType a.pixelType = some (kind, name) → 0 < a.width →
    a.width ≤ RT_MAX → 0 < a.height → a.height ≤ RT_MAX →
    (a.hasNodata = true → kind.Holds a.nodata) →
    (a.pixels.length : ℤ) = a.width * a.height * meosPixelSize name → (api.make a).isSome
  addBandRaster : ∀ r s, (view s).bands.length = 1 → (view s).width = (view r).width →
    (view s).height = (view r).height → ((view r).bands.length : ℤ) < RT_MAX →
    (api.addBandRaster r s 1 0).isSome

/-- The raster made of these arguments and bands. -/
def MakeArgs.view (a : MakeArgs) (bands : List RasterBand) : RasterView :=
  ⟨a.width.toNat, a.height.toNat, a.upperLeftX, a.upperLeftY, a.scaleX, a.scaleY, a.skewX,
    a.skewY, a.srid, bands⟩

/-- Band `b` of a tile: the name of its type, the nodata value, and its slice of the pixels. -/
structure MakeArgs.IsBand (a : MakeArgs) (name : String) (pixels : List UInt8) (bandSize : ℕ)
    (b : ℕ) (band : RasterBand) : Prop where
  pixelType : band.pixelType = name
  nodata : SameNodata band.nodata (if a.hasNodata then some a.nodata else none)
  pixels : band.pixels = (pixels.drop (b * bandSize)).take bandSize

/-- What the loop has built of the bands `bs`, which is nothing before the first. -/
def Built {api : RasterApi} (view : api.Raster → RasterView) (a : MakeArgs) (name : String)
    (pixels : List UInt8) (bandSize : ℕ) (bs : List ℕ) : Option api.Raster → Prop
  | none => bs = []
  | some r => ∃ bands, bands ≠ [] ∧ view r = a.view bands ∧
      List.Forall₂ (a.IsBand name pixels bandSize) bs bands

section Build

variable {api : RasterApi} {view : api.Raster → RasterView}

/-- A raster of one band of the tile. -/
theorem view_make (hapi : api.Stores view) {a : MakeArgs} {kind : PixelKind} {name : String}
    {pixels : List UInt8} {bandSize b : ℕ} (ht : rtPixelType a.pixelType = some (kind, name))
    (hw : 0 < a.width) (hh : 0 < a.height) (hn : a.hasNodata = true → kind.Holds a.nodata)
    {s : api.Raster}
    (hs : api.make { a with pixels := (pixels.drop (b * bandSize)).take bandSize } = some s) :
    ∃ band, view s = a.view [band] ∧ a.IsBand name pixels bandSize b band := by
  obtain ⟨nodata, hsame, hview⟩ :=
    hapi.make { a with pixels := (pixels.drop (b * bandSize)).take bandSize } kind name s ht hw.le
      hh.le hn hs
  exact ⟨⟨name, nodata, _⟩, hview, rfl, hsame, rfl⟩

/-- Adding a raster of one band builds one band more. -/
theorem Built.add (hapi : api.Stores view) {a : MakeArgs} {name : String} {pixels : List UInt8}
    {bandSize b : ℕ} {done : List ℕ} {r s added : api.Raster} {band : RasterBand}
    (h : Built view a name pixels bandSize done (some r)) (hview : view s = a.view [band])
    (hband : a.IsBand name pixels bandSize b band)
    (hadd : api.addBandRaster r s 1 0 = some added) :
    Built view a name pixels bandSize (done ++ [b]) (some added) := by
  obtain ⟨bands, -, hr, hall⟩ := h
  have hadded := hapi.addBandRaster r s added band (by rw [hview]; rfl) hadd
  refine ⟨bands ++ [band], by simp, ?_, ?_⟩
  · rw [hadded, hr]
    rfl
  · exact List.rel_append hall (.cons hband .nil)

/-- The loop adds the bands one after the other. It raises only where `p`, under which MEOS makes
every band, fails. The induction is on the bands that are left. -/
theorem wp_buildBands (hapi : api.Stores view) {a : MakeArgs} {kind : PixelKind} {name : String}
    {pixels : List UInt8} {bandSize n : ℕ} {p : Prop} {m : Memory}
    (ht : rtPixelType a.pixelType = some (kind, name)) (hw : 0 < a.width) (hh : 0 < a.height)
    (hn : a.hasNodata = true → kind.Holds a.nodata)
    (hp : p → api.Makes view ∧ n * bandSize ≤ pixels.length ∧ a.width ≤ RT_MAX ∧
      a.height ≤ RT_MAX ∧ (n : ℤ) ≤ RT_MAX ∧
      (bandSize : ℤ) = a.width * a.height * meosPixelSize name) :
    ∀ (bs done : List ℕ) (rast : Option api.Raster), (∀ b ∈ bs, b < n) →
      done.length + bs.length ≤ n → Built view a name pixels bandSize done rast →
      wp (buildBands api (fun bytes => { a with pixels := bytes }) pixels bandSize bs rast)
        (fun rast' m' => m' = m ∧ Built view a name pixels bandSize (done ++ bs) rast')
        (fun _ _ => ¬ p) m
  | [], done, rast, _, _, hbuilt => by
    rw [buildBands, wp_pure, List.append_nil]
    exact ⟨rfl, hbuilt⟩
  | b :: bs, done, rast, hlt, hlen, hbuilt => by
    have hb : b < n := hlt b List.mem_cons_self
    have hbs : ∀ b' ∈ bs, b' < n := fun b' h => hlt b' (List.mem_cons_of_mem _ h)
    have hlen' : (done ++ [b]).length + bs.length ≤ n := by
      simp only [List.length_append, List.length_cons, List.length_nil] at hlen ⊢
      omega
    have hinside : n * bandSize ≤ pixels.length → b * bandSize + bandSize ≤ pixels.length := by
      intro hle
      have : (b + 1) * bandSize ≤ n * bandSize := Nat.mul_le_mul_right _ hb
      rw [Nat.succ_mul] at this
      omega
    rw [buildBands, wp_bind]
    by_cases hbound : b * bandSize + bandSize ≤ pixels.length
    swap
    · rw [bytesAt, if_neg hbound, wp_throw]
      exact fun h => hbound (hinside (hp h).2.1)
    rw [wp_bytesAt hbound]
    cases hmake : api.make { a with pixels := (pixels.drop (b * bandSize)).take bandSize } with
    | none =>
      intro h
      obtain ⟨hmakes, -, hw', hh', -, hsize⟩ := hp h
      have hlength : ((pixels.drop (b * bandSize)).take bandSize).length = bandSize := by
        rw [List.length_take, List.length_drop]
        omega
      have hsome := hmakes.make { a with pixels := (pixels.drop (b * bandSize)).take bandSize }
        kind name ht hw hw' hh hh' hn (by rw [hlength]; exact hsize)
      rw [hmake] at hsome
      cases hsome
    | some s =>
      obtain ⟨band, hview, hband⟩ := view_make hapi ht hw hh hn hmake
      cases rast with
      | none =>
        obtain rfl : done = [] := hbuilt
        exact wp_buildBands hapi ht hw hh hn hp bs [b] (some s) hbs hlen'
          ⟨[band], by simp, hview, .cons hband .nil⟩
      | some r =>
        simp only
        cases hadd : api.addBandRaster r s 1 0 with
        | none =>
          intro h
          obtain ⟨hmakes, -, -, -, hn', -⟩ := hp h
          obtain ⟨bands, -, hr, hall⟩ := hbuilt
          have hl := hall.length_eq
          have hsome := hmakes.addBandRaster r s (by rw [hview]; rfl) (by rw [hview, hr]; rfl)
            (by rw [hview, hr]; rfl) (by
              rw [hr, MakeArgs.view, ← hl]
              simp only [List.length_cons] at hlen
              omega)
          rw [hadd] at hsome
          cases hsome
        | some added =>
          rw [List.append_cons]
          exact wp_buildBands hapi ht hw hh hn hp bs (done ++ [b]) (some added) hbs hlen'
            (hbuilt.add hapi hview hband hadd)

end Build

/-! ### What a tile is made of -/

/-- What the checks of a tile leave. -/
structure Tileable (header : DatacubeHeader) (tileX tileY : Int32) : Prop where
  cols_le : header.cols.toInt ≤ RT_MAX
  rows_le : header.rows.toInt ≤ RT_MAX
  bands_le : header.bands.toInt ≤ RT_MAX
  size_le : header.dataSize ≤ UINT_MAX
  fits : header.noData ≠ .negInf → NoDataFitsType header.type header.noData
  tileX_nonneg : ¬ tileX < 0
  tileY_nonneg : ¬ tileY < 0

theorem wp_checkTile {d : DoubleOps} {header : DatacubeHeader} {tileX tileY : Int32} {m : Memory} :
    wp (checkTile d header tileX tileY) (fun _ m' => m' = m ∧ Tileable header tileX tileY)
      (fun _ _ => ¬ Tileable header tileX tileY) m := by
  unfold checkTile
  simp only
  rw [wp_bind, wp_raiseIf]
  refine ⟨fun h ht => ?_, fun hcounts => ?_⟩
  · have := ht.cols_le
    have := ht.rows_le
    have := ht.bands_le
    omega
  rw [wp_bind, wp_raiseIf]
  refine ⟨fun h ht => Nat.not_lt.mpr ht.size_le h, fun hsize => ?_⟩
  rw [wp_bind, wp_raiseIf, datacubeNoDataIsNone_iff]
  refine ⟨fun h ht => h.2 (ht.fits h.1), fun hfits => ?_⟩
  rw [wp_raiseIf]
  refine ⟨fun h ht => h.elim ht.tileX_nonneg ht.tileY_nonneg, fun htile => ⟨rfl, ?_⟩⟩
  simp only [not_or, not_lt] at hcounts
  rw [not_or] at htile
  exact ⟨hcounts.1, hcounts.2.1, hcounts.2.2, Nat.le_of_not_lt hsize,
    fun hne => by_contra fun hf => hfits ⟨hne, hf⟩, htile.1, htile.2⟩

/-- The arguments of the bands of a tile, but for their bytes. -/
def tileArgs (d : DoubleOps) (header : DatacubeHeader) (type : PixelType) (grid : TileGrid)
    (tileX tileY : Int32) : MakeArgs :=
  bandArgs header type grid (pixelToWorld d grid.transform (tileX.toInt * grid.blocksizeX)
    (tileY.toInt * grid.blocksizeY)) []

/-- What `RasterFromTile` made `blob` of: the cube it read, its pixel type, the grid of the tile,
and a band of the raster for each band of the cube. -/
structure TileOf (api : RasterApi) (view : api.Raster → RasterView) (c : Codecs) (d : DoubleOps)
    (y : Yyjson) (cube : List UInt8) (tileX tileY : Int32) (metadata : String) (m m' : Memory)
    (blob : List UInt8) (header : DatacubeHeader) (pixels : List UInt8) (type : PixelType)
    (grid : TileGrid) (bands : List RasterBand) : Prop where
  read : (readDatacube c cube).run { m with buffer := [] } = .ok (header, pixels) m'
  checked : header.Checked
  length : pixels.length = header.dataSize
  typed : pixelTypeOfCube header.type = some type
  tileable : Tileable header tileX tileY
  located : readTileGrid d y metadata = .ok grid
  blob_le : blob.length ≤ UINT_MAX
  written : ∃ r, api.asWkb r = some blob ∧
    view r = (tileArgs d header type grid tileX tileY).view bands
  bands_ne : bands ≠ []
  bands : List.Forall₂ ((tileArgs d header type grid tileX tileY).IsBand type.meos pixels
      (header.dataSize / header.bands.toInt.toNat))
    (List.range header.bands.toInt.toNat) bands

section Tile

variable {api : RasterApi} {view : api.Raster → RasterView} {c : Codecs} {d : DoubleOps}
  {y : Yyjson}

/-- The nodata value a band is made with is one its type holds. -/
theorem Tileable.holds {header : DatacubeHeader} {tileX tileY : Int32}
    (h : Tileable header tileX tileY) (hchecked : header.Checked) {type : PixelType} {grid : TileGrid}
    {upperLeft : Binary64 × Binary64} {bytes : List UInt8} {kind : PixelKind}
    (hkind : ∀ v, ¬ v.IsNaN → NoDataFitsType header.type v → kind.Holds v) :
    (bandArgs header type grid upperLeft bytes).hasNodata = true →
      kind.Holds (bandArgs header type grid upperLeft bytes).nodata := by
  intro hn
  have hsome : ¬ DatacubeNoDataIsNone header.noData := by simpa [bandArgs] using hn
  simp only [bandArgs, hsome, if_false]
  rw [datacubeNoDataIsNone_iff] at hsome
  have hfinite := hchecked.noData.resolve_right hsome
  exact hkind _ (Binary64.not_isNaN_of_isFinite hfinite) (h.fits hsome)

theorem wp_rasterFromTile (hapi : api.Stores view) (hc : c.Truthful) (cube : List UInt8)
    (tileX tileY : Int32) (metadata : String) (m : Memory) :
    wp (rasterFromTile api c d y cube tileX tileY metadata)
      (fun blob m' => ∃ header pixels type grid bands,
        TileOf api view c d y cube tileX tileY metadata m m' blob header pixels type grid bands)
      (fun _ _ => True) m := by
  unfold rasterFromTile
  rw [wp_bind, wp_modify, wp_bind]
  set m₀ : Memory := { m with buffer := [] } with hm₀
  have hheader := wp_readDatacubeHeader cube m₀
  cases hrun : (readDatacubeHeader cube).run m₀ with
  | error e m₁ => exact (wp_of_error hrun).mpr trivial
  | ok header m₁ =>
    obtain ⟨rfl, hn, hchecked⟩ := hheader.of_run_ok hrun
    rw [wp_of_ok hrun]
    cases htype : pixelTypeOfCube header.type with
    | none => trivial
    | some type =>
      obtain ⟨kind, hkind, -, hholds⟩ := rtPixelType_row htype
      simp only
      rw [wp_bind]
      refine wp_checkTile.mono ?_ fun _ _ _ => trivial
      rintro _ m₁ ⟨rfl, htile⟩
      cases hgrid : readTileGrid d y metadata with
      | error e => trivial
      | ok grid =>
        rw [liftMeta, wp_bind, wp_pure, tileOffset, wp_bind, wp_bind, wp_raiseIf]
        refine ⟨fun _ => trivial, fun _ => ?_⟩
        rw [wp_pure, wp_bind]
        have hpixels := @wp_readDatacubePixels c m₀ hc cube header hn
        cases hread : (readDatacubePixels c cube header).run m₀ with
        | error e m₂ => exact (wp_of_error hread).mpr trivial
        | ok pixels m₂ =>
          have hlength := (hpixels.of_run_ok hread).1
          rw [wp_of_ok hread, wp_bind]
          have hbuild := @wp_buildBands api view hapi (tileArgs d header type grid tileX tileY) kind
            type.meos pixels (header.dataSize / header.bands.toInt.toNat) header.bands.toInt.toNat
            False m₂ hkind hchecked.cols_pos hchecked.rows_pos (htile.holds hchecked hholds) False.elim
            (List.range header.bands.toInt.toNat) [] none (fun b hb => List.mem_range.mp hb)
            (by simp) rfl
          refine wp.mono hbuild ?_ fun _ _ _ => trivial
          rintro rast m' ⟨rfl, hbuilt⟩
          rw [List.nil_append] at hbuilt
          have hcube : (readDatacube c cube).run m₀ = .ok (header, pixels) m' := by
            unfold readDatacube
            simp only [EStateM.run_bind, hrun, hread, EStateM.run_pure]
          cases rast with
          | none => trivial
          | some r =>
            obtain ⟨bands, hne, hview, hall⟩ := hbuilt
            unfold writeRaster
            rw [Option.bind_some]
            cases hwkb : api.asWkb r with
            | none => trivial
            | some wkb =>
              simp only
              unfold addStringOrBlob
              split
              · trivial
              · rename_i hle
                exact ⟨header, pixels, type, grid, bands, hcube, hchecked, hlength, htype, htile, hgrid,
                  Nat.le_of_not_lt hle, ⟨r, hwkb, hview⟩, hne, hall⟩

/-! ### Casting the raster of a tile -/

/-- The bands of a tile hold the slices of its pixels, one after the other. -/
theorem flatMap_pixels_of_isBand {a : MakeArgs} {name : String} {pixels : List UInt8}
    {bandSize : ℕ} {bs : List ℕ} {bands : List RasterBand}
    (h : List.Forall₂ (a.IsBand name pixels bandSize) bs bands) :
    bands.flatMap RasterBand.pixels =
      bs.flatMap fun b => (pixels.drop (b * bandSize)).take bandSize := by
  induction h with
  | nil => rfl
  | cons hband _ ih => rw [List.flatMap_cons, List.flatMap_cons, ih, hband.pixels]

/-- Each band of a tile has the tile's pixel type and nodata value. -/
theorem isBand_of_mem {a : MakeArgs} {name : String} {pixels : List UInt8} {bandSize : ℕ}
    {bs : List ℕ} {bands : List RasterBand}
    (h : List.Forall₂ (a.IsBand name pixels bandSize) bs bands) :
    ∀ band ∈ bands, band.pixelType = name ∧
      SameNodata band.nodata (if a.hasNodata then some a.nodata else none) := by
  induction h with
  | nil => simp
  | cons hband _ ih => exact List.forall_mem_cons.mpr ⟨⟨hband.pixelType, hband.nodata⟩, ih⟩

/-- The size of a band divides the size the header states. -/
theorem DatacubeHeader.Checked.bands_mul_bandSize {header : DatacubeHeader} (h : header.Checked) :
    header.bands.toInt.toNat * (header.dataSize / header.bands.toInt.toNat) = header.dataSize := by
  apply Nat.mul_div_cancel'
  have hb : ((header.bands.toInt.toNat : ℕ) : ℤ) = header.bands.toInt :=
    Int.toNat_of_nonneg h.bands_pos.le
  rw [← Int.natCast_dvd_natCast, hb, h.dataSize, mul_assoc, mul_assoc]
  exact dvd_mul_right _ _

/-- A serialisation is longer than the datacube of the same bands. -/
theorem RasterView.cube_le_wkbSize (v : RasterView) :
    DATACUBE_HEADER_SIZE + v.pixels.length ≤ v.wkbSize := by
  have h : v.pixels.length ≤
      (v.bands.map fun band => 1 + meosPixelSize band.pixelType + band.pixels.length).sum := by
    rw [RasterView.pixels, List.length_flatMap]
    exact List.sum_le_sum (fun band _ => Nat.le_add_left _ _)
  have h24 : DATACUBE_HEADER_SIZE = 24 := rfl
  unfold RasterView.wkbSize
  omega

/-- What the nodata value of a band of a tile says about the header's. -/
theorem sameNodata_getD {header : DatacubeHeader} (hchecked : header.Checked)
    {nodata : Option Binary64}
    (h : SameNodata nodata
      (if DatacubeNoDataIsNone header.noData then none else some header.noData)) :
    (∀ x, nodata = some x → x.IsFinite) ∧ (nodata.getD .negInf).Eq header.noData ∧
      (nodata.getD .negInf = .negInf ↔ header.noData = .negInf) := by
  rw [show (if DatacubeNoDataIsNone header.noData then none else some header.noData) =
    if header.noData = .negInf then none else some header.noData by
      simp only [datacubeNoDataIsNone_iff]] at h
  by_cases hnone : header.noData = .negInf
  · rw [if_pos hnone] at h
    cases nodata with
    | some x => exact h.elim
    | none =>
      rw [hnone]
      exact ⟨nofun, Binary64.Eq.refl (by decide), Iff.rfl⟩
  · rw [if_neg hnone] at h
    have hfinite : header.noData.IsFinite := hchecked.noData.resolve_right hnone
    cases nodata with
    | none => exact h.elim
    | some x =>
      have hx : x.IsFinite := Binary64.Eq.isFinite h hfinite
      have hne : x ≠ .negInf := by
        rintro rfl
        exact absurd hx (by decide)
      exact ⟨fun _ he => Option.some.inj he ▸ hx, h, iff_of_false hne hnone⟩

section Parts

variable {cube blob : List UInt8} {tileX tileY : Int32} {metadata : String} {m m' : Memory}
  {header : DatacubeHeader} {pixels : List UInt8} {type : PixelType} {grid : TileGrid}
  {bands : List RasterBand}
  (h : TileOf api view c d y cube tileX tileY metadata m m' blob header pixels type grid bands)
include h

theorem TileOf.length_bands : bands.length = header.bands.toInt.toNat := by
  rw [← h.bands.length_eq, List.length_range]

/-- The bands of a tile hold all of its pixels. -/
theorem TileOf.flatMap_pixels : bands.flatMap RasterBand.pixels = pixels := by
  rw [flatMap_pixels_of_isBand h.bands, flatMap_slices, h.checked.bands_mul_bandSize, ← h.length,
    List.take_length]

/-- Every band states the nodata value of the header. -/
theorem TileOf.band : ∀ band ∈ bands, band.pixelType = type.meos ∧ SameNodata band.nodata
    (if DatacubeNoDataIsNone header.noData then none else some header.noData) := by
  intro band hmem
  have h := isBand_of_mem h.bands band hmem
  by_cases hnone : DatacubeNoDataIsNone header.noData <;> simpa [tileArgs, bandArgs, hnone] using h

end Parts

/-- Another nodata value that is finite, or none as the header's, leaves the header in range. -/
theorem DatacubeHeader.Checked.with_nodata {header : DatacubeHeader} (h : header.Checked)
    {noData : Binary64} (heq : noData.Eq header.noData)
    (hnone : noData = .negInf ↔ header.noData = .negInf) :
    DatacubeHeader.Checked { header with format := .raw, noData := noData } := by
  refine ⟨h.bands_pos, h.cols_pos, h.rows_pos, ?_, h.dataSize, h.fits⟩
  rcases h.noData with hf | hi
  · exact .inl (Binary64.Eq.isFinite heq hf)
  · exact .inr (hnone.mpr hi)

/-- **Casting gives the cube back.** Whatever cube, tile and metadata a raster was made of, casting
it gives the RAW cube of the header that was read, and of the pixels its payload decodes to; its
nodata value is the header's, and negative infinity exactly when the header states none. That cube
reads back as its header and these pixels. -/
theorem cast_rasterFromTile (hapi : api.Stores view) (hc : c.Truthful) {cube : List UInt8}
    {tileX tileY : Int32} {metadata : String} {m m' : Memory} {blob : List UInt8}
    (h : (rasterFromTile api c d y cube tileX tileY metadata).run m = .ok blob m') :
    ∃ header pixels noData,
      (readDatacube c cube).run { m with buffer := [] } = .ok (header, pixels) m' ∧
        c.Decodes header.format (cube.drop DATACUBE_HEADER_SIZE) pixels ∧
        noData.Eq header.noData ∧ (noData = .negInf ↔ header.noData = .negInf) ∧
        datacubeOfRaster api blob =
          .ok (writeDatacube { header with format := .raw, noData := noData } pixels) ∧
        ∀ m, (readDatacube c
            (writeDatacube { header with format := .raw, noData := noData } pixels)).run m =
          .ok ({ header with format := .raw, noData := noData }, pixels) m := by
  obtain ⟨header, pixels, type, grid, bands, htile⟩ :=
    (wp_rasterFromTile hapi hc cube tileX tileY metadata m).of_run_ok h
  obtain ⟨r, hwkb, hview⟩ := htile.written
  obtain ⟨r', hread, hview'⟩ := hapi.asWkb r blob hwkb
  obtain ⟨-, -, hdecodes, -⟩ := (wp_readDatacube hc cube { m with buffer := [] }).of_run_ok htile.read
  obtain ⟨-, -, hrow, -⟩ := rtPixelType_row htile.typed
  have hbands : ((header.bands.toInt.toNat : ℕ) : ℤ) = header.bands.toInt :=
    Int.toNat_of_nonneg htile.checked.bands_pos.le
  have hcount := htile.length_bands
  have hpixels := htile.flatMap_pixels
  have hband := htile.band
  obtain ⟨head, rest, rfl⟩ := List.exists_cons_of_ne_nil htile.bands_ne
  have hhead := (hband head List.mem_cons_self).2
  obtain ⟨-, heq, hnone⟩ := sameNodata_getD htile.checked hhead
  have hfits : ∀ band ∈ head :: rest, Band.Fits ⟨type, head.nodata⟩ band := by
    intro band hmem
    obtain ⟨htype, hn⟩ := hband band hmem
    exact ⟨htype ▸ hrow, hn.trans hhead.symm, (sameNodata_getD htile.checked hn).1⟩
  have huniform : (view r').Uniform ⟨type, head.nodata⟩ := by
    rw [hview', hview]
    exact ⟨Int.lt_toNat.mpr htile.checked.cols_pos, Int.lt_toNat.mpr htile.checked.rows_pos, rfl,
      hfits⟩
  have hheader : (view r').header ⟨type, head.nodata⟩ =
      { header with format := .raw, noData := head.nodata.getD .negInf } := by
    rw [hview', hview, RasterView.header, RasterView.pixels]
    simp only [MakeArgs.view, hcount, hpixels, htile.length, pixelTypeOfCube_cube htile.typed,
      tileArgs, bandArgs, hbands, Int.toNat_of_nonneg htile.checked.cols_pos.le,
      Int.toNat_of_nonneg htile.checked.rows_pos.le, Int32.ofInt_toInt]
  have hviewPixels : (view r').pixels = pixels := by
    rw [hview', hview]
    exact hpixels
  have hlength : (writeDatacube { header with format := .raw, noData := head.nodata.getD .negInf }
      pixels).length ≤ UINT_MAX := by
    have hle := RasterView.cube_le_wkbSize (view r')
    rw [hviewPixels, hview', ← hapi.asWkb_length r blob hwkb] at hle
    rw [length_writeDatacube]
    exact hle.trans htile.blob_le
  have hchecked := htile.checked.with_nodata heq hnone
  refine ⟨header, pixels, head.nodata.getD .negInf, htile.read, hdecodes, heq, hnone, ?_,
    fun m => run_readDatacube_write c hchecked htile.length m⟩
  refine (datacubeOfRaster_eq_ok_iff hapi hread).mpr ⟨_, huniform, ?_, hlength⟩
  rw [hheader, hviewPixels]

end Tile

/-- A MEOS that keeps rasters as plain data, and has one it serialises. -/
def plainApi (v : RasterView) (wkb : List UInt8) : RasterApi where
  Raster := RasterView
  make a := (rtPixelType a.pixelType).map fun t =>
    a.view [⟨t.2, if a.hasNodata then some a.nodata else none, a.pixels⟩]
  addBandRaster r s _ _ := match s.bands with
    | [band] => some { r with bands := r.bands ++ [band] }
    | _ => none
  asWkb r := if r = v then some wkb else none
  fromWkb bytes := if bytes = wkb then some v else none
  width r := r.width
  height r := r.height
  numBands r := r.bands.length
  srid r := r.srid
  upperLeftX r := r.upperLeftX
  upperLeftY r := r.upperLeftY
  scaleX r := r.scaleX
  scaleY r := r.scaleY
  skewX r := r.skewX
  skewY r := r.skewY
  bandPixelType r b := r.bands[b - 1]?.map RasterBand.pixelType
  bandNodataValue r b := r.bands[b - 1]?.bind RasterBand.nodata
  bandPixels r b := r.bands[b - 1]?.map RasterBand.pixels

theorem plainApi_stores {v : RasterView} {wkb : List UInt8} (h : wkb.length = v.wkbSize) :
    (plainApi v wkb).Stores id where
  width _ := rfl
  height _ := rfl
  numBands _ := rfl
  srid _ := rfl
  upperLeftX _ := rfl
  upperLeftY _ := rfl
  scaleX _ := rfl
  scaleY _ := rfl
  skewX _ := rfl
  skewY _ := rfl
  bandPixelType r i band hb := by
    have hb : r.bands[i]? = some band := hb
    simp [plainApi, hb]
  bandNodataValue r i band hb := by
    have hb : r.bands[i]? = some band := hb
    simp [plainApi, hb]
  bandPixels r i band hb := by
    have hb : r.bands[i]? = some band := hb
    simp [plainApi, hb]
  make a kind name r ht _ _ hn hmake := by
    simp only [plainApi, ht, Option.map_some] at hmake
    obtain rfl := Option.some.inj hmake
    refine ⟨_, ?_, rfl⟩
    by_cases hsome : a.hasNodata = true
    · simp only [hsome, if_true]
      exact Binary64.Eq.refl (hn hsome).not_isNaN
    · simp [hsome, SameNodata]
  addBandRaster r s r' band hs hadd := by
    have hs : s.bands = [band] := hs
    simp only [plainApi, hs] at hadd
    exact (Option.some.inj hadd).symm
  asWkb r wkb' hwkb := by
    obtain ⟨hr, hw⟩ := Option.ite_none_right_eq_some.mp hwkb
    exact ⟨r, by simp [plainApi, ← Option.some.inj hw, hr], rfl⟩
  asWkb_length r wkb' hwkb := by
    obtain ⟨hr, hw⟩ := Option.ite_none_right_eq_some.mp hwkb
    rw [← Option.some.inj hw, h, hr]
    rfl

/-- Two bands of one 8-bit pixel each, whose nodata value is zero. -/
def tileRaster : RasterView :=
  ⟨1, 1, .zero, .zero, .ofInt 1, .ofInt (-1), .zero, .zero, 0,
    [⟨"uint8", some .zero, [0x41]⟩, ⟨"uint8", some .zero, [0x42]⟩]⟩

/-- Its serialisation: one endianness byte, the version, the number of bands, the coefficients, the
reference system, the size and the bands. -/
def tileWkb : List UInt8 :=
  [1, 0, 0, 2, 0] ++ leBytes 8 0x3FF0000000000000 ++ leBytes 8 0xBFF0000000000000 ++ leBytes 8 0 ++
    leBytes 8 0 ++ leBytes 8 0 ++ leBytes 8 0 ++ leBytes 4 0 ++ [1, 0, 1, 0] ++ [0x44, 0, 0x41] ++
    [0x44, 0, 0x42]

/-- A GZIP datacube of its bands. -/
def tileCube : List UInt8 :=
  [0x53, 0x52, 0x02, 0x00, 2, 0, 0, 0, 1, 0, 0, 0, 1, 0, 0, 0, 0, 0, 0, 0, 0, 0, 0, 0] ++
    [0x1F, 0x8B, 0x08, 0, 0, 0, 0, 0, 0, 0x03, 0x01, 0x02, 0x00, 0xFD, 0xFF, 0x41, 0x42, 0x07, 0x4C,
      0x69, 0x30, 2, 0, 0, 0]

/-- Its metadata, between the braces `\x7b` and `\x7d`. -/
def tileText : String :=
  "\x7b\"transform\": [0.0, 1.0, 0.0, 0.0, 0.0, -1.0], \"blocksize_x\": 1, \"blocksize_y\": 1, " ++
    "\"crs\": \"\"\x7d"

/-- A reader of `tileText`. -/
def tileJson : Yyjson where
  read text := if text = tileText then
      some (.obj [("transform", .arr ([0, 1, 0, 0, 0, -1].map fun n => .real (.ofInt n))),
        ("blocksize_x", .uint 1), ("blocksize_y", .uint 1), ("crs", .str "")])
    else none
  number _ _ := False

def tileHeader : DatacubeHeader := ⟨.gzip, .uint8, 2, 1, 1, .zero, 2⟩

theorem checkTile_tileHeader (m : Memory) :
    (checkTile integerDoubles tileHeader 0 0).run m = .ok () m := by
  have hfits : NoDataFitsType .uint8 .zero := by decide +kernel
  simp [checkTile, raiseIf, tileHeader, hfits, RT_MAX, UINT_MAX]

set_option maxRecDepth 2000 in
theorem readDatacubePixels_tileCube :
    (readDatacubePixels storedCodecs tileCube tileHeader).run ⟨[], []⟩ =
      .ok [0x41, 0x42] ⟨[0x41, 0x42], [2]⟩ := by rfl

theorem rasterFromTile_tileCube :
    (rasterFromTile (plainApi tileRaster tileWkb) storedCodecs integerDoubles tileJson tileCube 0 0
      tileText).run ⟨[], []⟩ = .ok tileWkb ⟨[0x41, 0x42], [2]⟩ := by
  have hheader : (readDatacubeHeader tileCube).run ⟨[], []⟩ = .ok tileHeader ⟨[], []⟩ := by rfl
  have htype : pixelTypeOfCube tileHeader.type = some ⟨"uint8", .uint8, "8BUI", "Byte", 1⟩ := by rfl
  have hgrid : readTileGrid integerDoubles tileJson tileText =
      .ok ⟨[0, 1, 0, 0, 0, -1].map .ofInt, 1, 1, 0⟩ := by rfl
  apply run_eq_ok_of_wp
  unfold rasterFromTile
  rw [wp_bind, wp_modify, wp_bind, wp_of_ok hheader, htype]
  simp only
  rw [wp_bind, wp_of_ok (checkTile_tileHeader _), hgrid, liftMeta, wp_bind, wp_pure, tileOffset,
    wp_bind, wp_bind, wp_raiseIf]
  refine ⟨fun h => absurd h (by decide), fun _ => ?_⟩
  rw [wp_pure, wp_bind, wp_of_ok readDatacubePixels_tileCube]
  exact ⟨rfl, rfl⟩

set_option maxRecDepth 2000 in
theorem readDatacube_tileCube : (readDatacube storedCodecs tileCube).run ⟨[], []⟩ =
    .ok (tileHeader, [0x41, 0x42]) ⟨[0x41, 0x42], [2]⟩ := by rfl

theorem cast_rasterFromTile_tileCube : ∃ noData : Binary64, noData.Eq .zero ∧
    storedCodecs.Decodes .gzip (tileCube.drop DATACUBE_HEADER_SIZE) [0x41, 0x42] ∧
    datacubeOfRaster (plainApi tileRaster tileWkb) tileWkb =
      .ok (writeDatacube { tileHeader with format := .raw, noData := noData } [0x41, 0x42]) := by
  obtain ⟨header, pixels, noData, hread, hdecodes, heq, -, hcast, -⟩ :=
    cast_rasterFromTile (plainApi_stores rfl) storedCodecs_truthful rasterFromTile_tileCube
  cases readDatacube_tileCube.symm.trans hread
  exact ⟨noData, heq, hdecodes, hcast⟩

end MobilityDuck
