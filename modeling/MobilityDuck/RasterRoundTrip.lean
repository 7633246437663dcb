/-
# A raster and its tile

A raster that has a datacube and metadata is built again from the two: what
`RasterFromTile` checks of a cube and of metadata holds of those a raster is
written as (`Castable.tileable`, `readTileGrid_metadata`), and the bands it
slices off the pixels are the bands that were put together
(`same_of_isBand`).

Of MEOS it is asked, besides that it stores what it is given, that what it
read from a serialisation is well formed and can be serialised again
(`RasterApi.Reads`), and that it makes what it can store (`RasterApi.Makes`).

Key definitions: `RasterView.Same`, `RasterApi.Reads`. Key theorem: `rasterFromTile_metadata`.
-/
import MobilityDuck.RasterMetadata

namespace MobilityDuck

open Lib

/-- Two bands of one MEOS pixel type hold the same bytes, and nodata values that are equal. -/
structure RasterBand.Same (a b : RasterBand) : Prop where
  pixelType : a.pixelType = b.pixelType
  nodata : SameNodata a.nodata b.nodata
  pixels : a.pixels = b.pixels

/-- Two rasters have one size, one reference system, the same coefficients bit for bit, and the same
bands. -/
structure RasterView.Same (v w : RasterView) : Prop where
  width : v.width = w.width
  height : v.height = w.height
  upperLeftX : v.upperLeftX = w.upperLeftX
  upperLeftY : v.upperLeftY = w.upperLeftY
  scaleX : v.scaleX = w.scaleX
  scaleY : v.scaleY = w.scaleY
  skewX : v.skewX = w.skewX
  skewY : v.skewY = w.skewY
  srid : v.srid = w.srid
  bands : List.Forall₂ RasterBand.Same v.bands w.bands

/-- A raster MEOS read has sizes of 16 bits, a reference system of 31, and bands of a pixel type of
rt_core with as many bytes as their pixels take; a finite nodata value is one its type holds. It is
no longer than what it was read from, and can be serialised again. -/
structure RasterApi.Reads (api : RasterApi) (view : api.Raster → RasterView) : Prop where
  wkbSize_le : ∀ blob r, api.fromWkb blob = some r → (view r).wkbSize ≤ blob.length
  width_le : ∀ blob r, api.fromWkb blob = some r → ((view r).width : ℤ) ≤ RT_MAX
  height_le : ∀ blob r, api.fromWkb blob = some r → ((view r).height : ℤ) ≤ RT_MAX
  bands_le : ∀ blob r, api.fromWkb blob = some r → ((view r).bands.length : ℤ) ≤ RT_MAX
  srid_le : ∀ blob r, api.fromWkb blob = some r → (view r).srid ≤ INT32_MAX
  band : ∀ blob r, api.fromWkb blob = some r → ∀ band ∈ (view r).bands, ∃ postgis kind,
    rtPixelType postgis = some (kind, band.pixelType) ∧
      (∀ x, band.nodata = some x → x.IsFinite → kind.Holds x) ∧
      band.pixels.length = (view r).width * (view r).height * meosPixelSize band.pixelType
  asWkb : ∀ blob r r', api.fromWkb blob = some r → (view r').Same (view r) → (api.asWkb r').isSome

theorem map_eq_of_same {β : Type} {f : RasterBand → β}
    (hf : ∀ a b : RasterBand, a.Same b → f a = f b) {xs ys : List RasterBand}
    (h : List.Forall₂ RasterBand.Same xs ys) : xs.map f = ys.map f := by
  induction h with
  | nil => rfl
  | cons hband _ ih => rw [List.map_cons, List.map_cons, ih, hf _ _ hband]

/-- The same values take the same room. -/
theorem RasterView.Same.wkbSize_eq {v w : RasterView} (h : v.Same w) : v.wkbSize = w.wkbSize := by
  unfold RasterView.wkbSize
  rw [map_eq_of_same (fun a b hband => by rw [hband.pixelType, hband.pixels]) h.bands]

/-! ### Pixel types -/

/-- Each row is the row of its cube code. -/
theorem pixelTypeOfCube_of_mem : ∀ row ∈ pixelTypes, pixelTypeOfCube row.cube = some row := by
  decide

theorem Between.mono {lo hi lo' hi' : ℤ} {v : Binary64} (h : Between lo hi v) (hlo : lo' ≤ lo)
    (hhi : hi ≤ hi') : Between lo' hi' v := by
  have hunit : (0 : ℤ) ≤ Binary64.unit := by
    unfold Binary64.unit
    positivity
  exact ⟨h.1, (mul_le_mul_of_nonneg_right hlo hunit).trans h.2.1,
    h.2.2.trans (mul_le_mul_of_nonneg_right hhi hunit)⟩

/-- A value of a pixel type of rt_core fits the data type its MEOS name stands for. -/
theorem noDataFitsType_of_holds {postgis name : String} {kind : PixelKind} {row : PixelType}
    (ht : rtPixelType postgis = some (kind, name)) (hrow : pixelTypeOfMeos name = some row)
    {x : Binary64} (h : kind.Holds x) : NoDataFitsType row.cube x := by
  unfold rtPixelType at ht
  split at ht <;> cases ht <;> cases hrow
  all_goals first
    | exact ⟨h.1, h.2.mono (by decide) (by decide)⟩
    | exact h
    | trivial

/-! ### The tile of a raster -/

section RoundTrip

variable {api : RasterApi} {view : api.Raster → RasterView} {blob : List UInt8} {r : api.Raster}
  {first : Band}

theorem readRaster_eq_ok : readRaster api blob = .ok r ↔ api.fromWkb blob = some r := by
  unfold readRaster
  cases api.fromWkb blob <;> simp [throwFault]

theorem toInt_ofInt_of_le {n : ℕ} (h : (n : ℤ) ≤ RT_MAX) : (Int32.ofInt n).toInt = n := by
  unfold RT_MAX at h
  exact Int32.toInt_ofInt_of_le (by omega) (by omega)

/-- What is known of a raster that was read, and has a datacube. -/
structure Castable (v : RasterView) (first : Band) : Prop where
  uniform : v.Uniform first
  width_le : (v.width : ℤ) ≤ RT_MAX
  height_le : (v.height : ℤ) ≤ RT_MAX
  bands_le : (v.bands.length : ℤ) ≤ RT_MAX
  bands_pos : 0 < v.bands.length
  row : first.type ∈ pixelTypes
  name : ∀ band ∈ v.bands, band.pixelType = first.type.meos
  bandSize : ∀ band ∈ v.bands,
    band.pixels.length = v.width * v.height * datacubeTypeSize first.type.cube
  nodata : ∀ x, first.nodata = some x → x.IsFinite ∧ NoDataFitsType first.type.cube x
  length_le : DATACUBE_HEADER_SIZE + v.pixels.length ≤ UINT_MAX

theorem RasterView.Uniform.bands_pos {v : RasterView} (h : v.Uniform first) :
    0 < v.bands.length := by
  have hhead := h.head
  cases hbands : v.bands with
  | nil =>
    rw [hbands] at hhead
    cases hhead
  | cons band l => exact Nat.succ_pos _

theorem castable_of_uniform (hreads : api.Reads view) (hr : api.fromWkb blob = some r)
    (hu : (view r).Uniform first)
    (hle : DATACUBE_HEADER_SIZE + (view r).pixels.length ≤ UINT_MAX) :
    Castable (view r) first := by
  have hhead : ∃ band ∈ (view r).bands, band.nodata = first.nodata := by
    have hhead := hu.head
    cases hbands : (view r).bands with
    | nil =>
      rw [hbands] at hhead
      cases hhead
    | cons band l =>
      rw [hbands] at hhead
      exact ⟨band, List.mem_cons_self, by simpa using hhead⟩
  obtain ⟨head, hmem, hnodata⟩ := hhead
  have hname : ∀ band ∈ (view r).bands, band.pixelType = first.type.meos := fun band hb =>
    (pixelTypeOfMeos_eq_some (hu.fits band hb).type).2.symm
  refine ⟨hu, hreads.width_le blob r hr, hreads.height_le blob r hr, hreads.bands_le blob r hr,
    hu.bands_pos, (pixelTypeOfMeos_eq_some (hu.fits head hmem).type).1, hname, ?_, ?_, hle⟩
  · intro band hb
    obtain ⟨-, -, -, -, hlength⟩ := hreads.band blob r hr band hb
    rw [hlength, meosPixelSize, (hu.fits band hb).type]
  · intro x hx
    obtain ⟨postgis, kind, ht, hholds, -⟩ := hreads.band blob r hr head hmem
    have hfinite := (hu.fits head hmem).finite x (hnodata.trans hx)
    exact ⟨hfinite, noDataFitsType_of_holds ht (hu.fits head hmem).type
      (hholds x (hnodata.trans hx) hfinite)⟩

section Castable

variable {v : RasterView} (h : Castable v first)
include h

theorem Castable.length_pixels : v.pixels.length =
    v.bands.length * (v.width * v.height * datacubeTypeSize first.type.cube) :=
  length_flatMap_const RasterBand.pixels _ v.bands h.bandSize

/-- The cube of such a raster has a header in range. -/
theorem Castable.checked : (v.header first).Checked where
  bands_pos := by
    have := h.bands_pos
    rw [RasterView.header, toInt_ofInt_of_le h.bands_le]
    omega
  cols_pos := by
    have := h.uniform.width_pos
    rw [RasterView.header, toInt_ofInt_of_le h.width_le]
    omega
  rows_pos := by
    have := h.uniform.height_pos
    rw [RasterView.header, toInt_ofInt_of_le h.height_le]
    omega
  noData := by
    simp only [RasterView.header]
    cases hn : first.nodata with
    | none => exact .inr rfl
    | some x => exact .inl (h.nodata x hn).1
  dataSize := by
    simp only [RasterView.header, toInt_ofInt_of_le h.bands_le, toInt_ofInt_of_le h.width_le,
      toInt_ofInt_of_le h.height_le, h.length_pixels]
    push_cast
    ring
  fits := by
    have := h.length_le
    unfold UINT_MAX at this
    simp only [RasterView.header]
    omega

/-- The header meets what is checked of the first tile. -/
theorem Castable.tileable : Tileable (v.header first) 0 0 where
  cols_le := by
    rw [RasterView.header, toInt_ofInt_of_le h.width_le]
    exact h.width_le
  rows_le := by
    rw [RasterView.header, toInt_ofInt_of_le h.height_le]
    exact h.height_le
  bands_le := by
    rw [RasterView.header, toInt_ofInt_of_le h.bands_le]
    exact h.bands_le
  size_le := (Nat.le_add_left _ _).trans h.length_le
  fits := by
    simp only [RasterView.header]
    cases hn : first.nodata with
    | none => exact fun hne => absurd rfl hne
    | some x => exact fun _ => (h.nodata x hn).2
  tileX_nonneg := by decide
  tileY_nonneg := by decide

/-- The nodata value a band of the tile is made with is that of the first band. -/
theorem Castable.nodataArg (grid : TileGrid) (upperLeft : Binary64 × Binary64)
    (bytes : List UInt8) :
    let a := bandArgs (v.header first) first.type grid upperLeft bytes
    (if a.hasNodata then some a.nodata else none) = first.nodata := by
  simp only [bandArgs, datacubeNoDataIsNone_iff, RasterView.header]
  cases hn : first.nodata with
  | none => simp
  | some x =>
    have hne : x ≠ .negInf := by
      rintro rfl
      exact absurd (h.nodata _ hn).1 (by decide)
    simp [hne]

/-- The slices of the pixels are the bands they were put together of. -/
theorem Castable.same_of_isBand {d : DoubleOps} {grid : TileGrid} {bands : List RasterBand}
    (hb : List.Forall₂ ((tileArgs d (v.header first) first.type grid 0 0).IsBand first.type.meos
      v.pixels (v.width * v.height * datacubeTypeSize first.type.cube))
      (List.range v.bands.length) bands) :
    List.Forall₂ RasterBand.Same bands v.bands := by
  obtain ⟨hlength, hb⟩ := List.forall₂_iff_get.mp hb
  rw [List.length_range] at hlength
  refine List.forall₂_iff_get.mpr ⟨hlength.symm, fun i hi hi' => ?_⟩
  have hband := hb i (by rw [List.length_range]; exact hi') hi
  have hmem : v.bands.get ⟨i, hi'⟩ ∈ v.bands := List.get_mem _ _
  simp only [List.get_eq_getElem, List.getElem_range] at hband hmem ⊢
  refine ⟨hband.pixelType.trans (h.name _ hmem).symm, ?_, ?_⟩
  · have hn := hband.nodata
    unfold tileArgs at hn
    rw [h.nodataArg] at hn
    exact hn.trans (h.uniform.fits _ hmem).nodata.symm
  · rw [hband.pixels]
    exact slice_flatMap RasterBand.pixels _ v.bands i hi' h.bandSize

end Castable

/-- The cube holds as many bands as the raster, each of the size its header says. -/
theorem Castable.bands_header {v : RasterView} (h : Castable v first) :
    (v.header first).bands.toInt.toNat = v.bands.length ∧
      (v.header first).dataSize / v.bands.length =
        v.width * v.height * datacubeTypeSize first.type.cube := by
  constructor
  · rw [RasterView.header, toInt_ofInt_of_le h.bands_le, Int.toNat_natCast]
  · rw [RasterView.header, h.length_pixels, Nat.mul_div_cancel_left _ h.bands_pos]

/-- The bands of the tile are within what the raster library makes. -/
theorem Castable.makes_bands {v : RasterView} (h : Castable v first) {d : DoubleOps} {grid : TileGrid}
    (hrow : pixelTypeOfMeos first.type.meos = some first.type) (hmakes : api.Makes view) :
    api.Makes view ∧
      v.bands.length * (v.width * v.height * datacubeTypeSize first.type.cube) ≤ v.pixels.length ∧
      (tileArgs d (v.header first) first.type grid 0 0).width ≤ RT_MAX ∧
      (tileArgs d (v.header first) first.type grid 0 0).height ≤ RT_MAX ∧
      (v.bands.length : ℤ) ≤ RT_MAX ∧
      ((v.width * v.height * datacubeTypeSize first.type.cube : ℕ) : ℤ) =
        (tileArgs d (v.header first) first.type grid 0 0).width *
          (tileArgs d (v.header first) first.type grid 0 0).height *
            meosPixelSize first.type.meos := by
  have hcols : (tileArgs d (v.header first) first.type grid 0 0).width = v.width :=
    toInt_ofInt_of_le h.width_le
  have hrows : (tileArgs d (v.header first) first.type grid 0 0).height = v.height :=
    toInt_ofInt_of_le h.height_le
  rw [hcols, hrows, meosPixelSize, hrow]
  exact ⟨hmakes, h.length_pixels.ge, h.width_le, h.height_le, h.bands_le, by push_cast; rfl⟩

/-- The tile of a cube written of a raster is built, if what was built can be serialised. -/
theorem Castable.wp_rasterFromTile {v : RasterView} (h : Castable v first) {c : Codecs}
    {d : DoubleOps} {y : Yyjson} (hapi : api.Stores view) (hmakes : api.Makes view)
    {grid : TileGrid} {metadata : String} (hgrid : readTileGrid d y metadata = .ok grid)
    (hwkb : ∀ r' bands, view r' = (tileArgs d (v.header first) first.type grid 0 0).view bands →
      List.Forall₂ RasterBand.Same bands v.bands →
      ∃ wkb, api.asWkb r' = some wkb ∧ wkb.length ≤ UINT_MAX) (m : Memory) :
    wp (rasterFromTile api c d y (writeDatacube (v.header first) v.pixels) 0 0 metadata)
      (fun blob' m' => m' = { m with buffer := [] } ∧ ∃ r' bands, api.asWkb r' = some blob' ∧
        view r' = (tileArgs d (v.header first) first.type grid 0 0).view bands ∧
        List.Forall₂ RasterBand.Same bands v.bands)
      (fun _ _ => False) m := by
  have hchecked := h.checked
  have htype : pixelTypeOfCube (v.header first).type = some first.type :=
    pixelTypeOfCube_of_mem first.type h.row
  obtain ⟨kind, hkind, hrow, hholds⟩ := rtPixelType_row htype
  obtain ⟨hbands, hbandSize⟩ := h.bands_header
  have hheader : ∀ m, (readDatacubeHeader (writeDatacube (v.header first) v.pixels)).run m =
      .ok (v.header first) m := run_readDatacubeHeader_write hchecked
  have hpixels : ∀ m, (readDatacubePixels c (writeDatacube (v.header first) v.pixels)
      (v.header first)).run m = .ok v.pixels m := run_readDatacubePixels_write c rfl
  have hargs : bandArgs (v.header first) first.type grid (pixelToWorld d grid.transform 0 0) =
      fun bytes => { tileArgs d (v.header first) first.type grid 0 0 with pixels := bytes } := by
    funext bytes
    simp [tileArgs, bandArgs]
  unfold rasterFromTile
  rw [wp_bind, wp_modify, wp_bind, wp_of_ok (hheader _), htype]
  simp only
  rw [wp_bind]
  refine wp_checkTile.mono ?_ fun _ _ hn => hn h.tileable
  rintro _ _ ⟨rfl, -⟩
  rw [hgrid, liftMeta, wp_bind, wp_pure, tileOffset, wp_bind, wp_bind, wp_raiseIf]
  simp only [Int32.toInt_zero, Int.zero_mul]
  refine ⟨fun hbeyond => absurd hbeyond (by decide), fun _ => ?_⟩
  rw [wp_pure, wp_bind, wp_of_ok (hpixels _), wp_bind, hbands, hbandSize, hargs]
  have hbuild := @wp_buildBands api view hapi (tileArgs d (v.header first) first.type grid 0 0) kind
    first.type.meos v.pixels (v.width * v.height * datacubeTypeSize first.type.cube)
    v.bands.length True { m with buffer := [] } hkind hchecked.cols_pos hchecked.rows_pos
    (h.tileable.holds hchecked hholds) (fun _ => h.makes_bands hrow hmakes) (List.range v.bands.length) []
    none (fun b hb => List.mem_range.mp hb) (by simp) rfl
  refine wp.mono hbuild ?_ fun _ _ hn => hn trivial
  rintro rast _ ⟨rfl, hbuilt⟩
  rw [List.nil_append] at hbuilt
  cases rast with
  | none =>
    have hpos := h.bands_pos
    rw [List.range_eq_nil.mp hbuilt] at hpos
    exact absurd hpos (lt_irrefl 0)
  | some r' =>
    obtain ⟨bands, -, hview, hall⟩ := hbuilt
    have hsame := h.same_of_isBand hall
    obtain ⟨wkb, hwkb, hle⟩ := hwkb r' bands hview hsame
    unfold writeRaster
    rw [Option.bind_some, hwkb]
    simp only
    rw [addStringOrBlob, if_neg (Nat.not_lt.mpr hle)]
    exact ⟨rfl, r', bands, hwkb, hview, hsame⟩

/-- The raster of the tile has the size, the reference system and the coefficients of the raster the
cube and the metadata were written of. -/
theorem Castable.same_view {v : RasterView} (h : Castable v first) {d : DoubleOps}
    {bands : List RasterBand} (hbands : List.Forall₂ RasterBand.Same bands v.bands) :
    ((tileArgs d (v.header first) first.type ⟨[v.upperLeftX, v.scaleX, v.skewX, v.upperLeftY,
      v.skewY, v.scaleY], v.width, v.height, v.srid⟩ 0 0).view bands).Same v := by
  have hcols : (v.header first).cols.toInt = v.width := toInt_ofInt_of_le h.width_le
  have hrows : (v.header first).rows.toInt = v.height := toInt_ofInt_of_le h.height_le
  constructor <;> simp [MakeArgs.view, tileArgs, bandArgs, hcols, hrows, hbands]

/-- **A raster comes back from its datacube and its metadata.** Whenever both are written of a
raster, the metadata reads as the grid of the raster with blocks of its own size, and building a raster from them,
as tile `(0, 0)`, succeeds and leaves a raster of the same size, reference system and bands, and of the same
coefficients bit for bit. -/
theorem rasterFromTile_metadata {c : Codecs} {d : DoubleOps} {y : Yyjson} (hapi : api.Stores view)
    (hmakes : api.Makes view) (hreads : api.Reads view) (hy : y.Reads) (hd : d.RoundTrips y)
    (hblob : blob.length ≤ UINT_MAX) {cube : List UInt8} {metadata : String}
    (hcube : datacubeOfRaster api blob = .ok cube)
    (hmeta : rasterMetadata api d blob = .ok metadata) (m : Memory) :
    ∃ r blob' r', api.fromWkb blob = some r ∧
      readTileGrid d y metadata = .ok ⟨georeference api r, (view r).width, (view r).height, api.srid r⟩ ∧
      (rasterFromTile api c d y cube 0 0 metadata).run m = .ok blob' { m with buffer := [] } ∧
      api.fromWkb blob' = some r' ∧ (view r').Same (view r) := by
  -- one raster was read, by the cast and by `rasterMetadata`
  unfold rasterMetadata at hmeta
  simp only [except_bind_eq_ok, readRaster_eq_ok] at hmeta
  obtain ⟨r, hr, text, htext, hadd⟩ := hmeta
  obtain rfl : metadata = text := by
    unfold addString at hadd
    split at hadd
    · cases hadd
    · exact (Except.ok.inj hadd).symm
  obtain ⟨first, hu, rfl, hle⟩ := (datacubeOfRaster_eq_ok_iff hapi hr).mp hcube
  rw [length_writeDatacube] at hle
  have h := castable_of_uniform hreads hr hu hle
  -- the metadata reads as the grid of the raster
  choose val hval hnum using hd.number
  obtain ⟨n, hn⟩ : ∃ n, (view r).bands.length = n + 1 := ⟨_, (Nat.succ_pred h.bands_pos.ne').symm⟩
  have hmax : RT_MAX = 2 ^ 16 - 1 := rfl
  have hmax' : INT32_MAX = 2 ^ 31 - 1 := rfl
  have := h.width_le
  have := h.height_le
  have := h.bands_le
  have hsrid : api.srid r ≤ INT32_MAX := hapi.srid r ▸ hreads.srid_le blob r hr
  have hblocks := readTileGrid_metadata hd hval hy hnum (hapi.width r) (hapi.height r)
    (by rw [hapi.numBands, hn]) (by omega) h.uniform.width_pos (by omega) h.uniform.height_pos
    (by omega) hsrid htext
  have hgrid := hblocks
  rw [georeference, hapi.upperLeftX, hapi.upperLeftY, hapi.scaleX, hapi.scaleY, hapi.skewX,
    hapi.skewY, hapi.srid] at hgrid
  obtain ⟨blob', _, hrun, rfl, r', bands, hwkb, hview, hbands⟩ := exists_run_eq_ok_of_wp
    (h.wp_rasterFromTile (c := c) hapi hmakes hgrid (fun r' bands hview hbands => by
      have hsame : (view r').Same (view r) := hview ▸ h.same_view hbands
      obtain ⟨wkb, hwkb⟩ := Option.isSome_iff_exists.mp (hreads.asWkb blob r r' hr hsame)
      refine ⟨wkb, hwkb, ?_⟩
      rw [hapi.asWkb_length r' wkb hwkb, hsame.wkbSize_eq]
      exact (hreads.wkbSize_le blob r hr).trans hblob) m)
  obtain ⟨r'', hread, hview''⟩ := hapi.asWkb r' blob' hwkb
  refine ⟨r, blob', r'', hr, hblocks, hrun, hread, ?_⟩
  rw [hview'', hview]
  exact h.same_view hbands

end RoundTrip

/-! ### A raster that comes back -/

/-- The rasters of `tileRaster` without a nodata value. -/
def bareRaster : RasterView :=
  { tileRaster with bands := [⟨"uint8", none, [0x41]⟩, ⟨"uint8", none, [0x42]⟩] }

def bareWkb : List UInt8 := tileWkb.take 61 ++ [0x04, 0, 0x41] ++ [0x04, 0, 0x42]

theorem plainApi_makes (v : RasterView) (wkb : List UInt8) : (plainApi v wkb).Makes id where
  make a kind name ht _ _ _ _ _ _ := by simp [plainApi, ht]
  addBandRaster r s hs _ _ _ := by
    have hs : s.bands.length = 1 := hs
    obtain ⟨band, hband⟩ := List.length_eq_one_iff.mp hs
    simp [plainApi, hband]

/-- Only one raster can be read. -/
theorem fromWkb_bareRaster {blob : List UInt8} {r : RasterView}
    (h : (plainApi bareRaster bareWkb).fromWkb blob = some r) : blob = bareWkb ∧ r = bareRaster := by
  obtain ⟨hblob, hr⟩ := Option.ite_none_right_eq_some.mp h
  exact ⟨hblob, (Option.some.inj hr).symm⟩

theorem eq_bareRaster_of_same {v : RasterView} (h : v.Same bareRaster) : v = bareRaster := by
  cases v with
  | mk width height ulx uly sx sy kx ky srid bands =>
    obtain ⟨rfl, rfl, rfl, rfl, rfl, rfl, rfl, rfl, rfl, hbands⟩ := h
    have heq : ∀ (a : RasterBand) (name : String) (pixels : List UInt8),
        a.Same ⟨name, none, pixels⟩ → a = ⟨name, none, pixels⟩ := by
      rintro ⟨_, nodata, _⟩ name pixels ⟨rfl, hn, rfl⟩
      cases nodata with
      | none => rfl
      | some x => exact hn.elim
    cases hbands with
    | cons hband hbands =>
      cases hbands with
      | cons hband' hbands =>
        cases hbands
        rw [heq _ _ _ hband, heq _ _ _ hband']
        rfl

theorem plainApi_bareRaster_reads : (plainApi bareRaster bareWkb).Reads id where
  wkbSize_le _ _ h := by
    obtain ⟨rfl, rfl⟩ := fromWkb_bareRaster h
    decide
  width_le _ _ h := by
    obtain ⟨rfl, rfl⟩ := fromWkb_bareRaster h
    decide
  height_le _ _ h := by
    obtain ⟨rfl, rfl⟩ := fromWkb_bareRaster h
    decide
  bands_le _ _ h := by
    obtain ⟨rfl, rfl⟩ := fromWkb_bareRaster h
    decide
  srid_le _ _ h := by
    obtain ⟨rfl, rfl⟩ := fromWkb_bareRaster h
    decide
  band _ _ h band hmem := by
    obtain ⟨rfl, rfl⟩ := fromWkb_bareRaster h
    have hall : ∀ band ∈ bareRaster.bands, band.pixelType = "uint8" ∧ band.nodata = none ∧
        band.pixels.length = 1 := by decide
    obtain ⟨htype, hnodata, hlength⟩ := hall band hmem
    refine ⟨"8BUI", .unsigned 8, by rw [htype]; rfl, by simp [hnodata], ?_⟩
    rw [hlength, htype]
    rfl
  asWkb _ _ r' h hsame := by
    obtain ⟨rfl, rfl⟩ := fromWkb_bareRaster h
    have hr : r' = bareRaster := eq_bareRaster_of_same hsame
    simp [plainApi, hr]

/-- A reader of the numbers of the metadata of a raster whose coefficients are minus one, zero and
one. -/
def numberOfText (t : List Char) : Option Json :=
  if t.all Char.isDigit then some (.uint (Nat.ofDigitChars 10 t 0))
  else if t = ['0', '.', '0'] then some (.real .zero)
  else if t = ['1', '.', '0'] then some (.real (.ofInt 1))
  else if t = ['-', '1', '.', '0'] then some (.real (.ofInt (-1)))
  else some (.real ⟨UInt64.ofNat (Nat.ofDigitChars 10 (t.take (t.length - 2)) 0)⟩)

def plainJson : Yyjson where
  read text := Json.ofText numberOfText text.toList
  number v t := numberOfText t = some v ∧ t ≠ [] ∧ ∀ c ∈ t, isNumberChar c = true

theorem plainJson_reads : plainJson.Reads := fun _ _ h => Json.Text.ofText (fun _ _ h => h) h

theorem isOk_bareRaster :
    (datacubeOfRaster (plainApi bareRaster bareWkb) bareWkb).isOk = true ∧
      (rasterMetadata (plainApi bareRaster bareWkb) integerDoubles bareWkb).isOk = true := by
  decide +kernel

theorem toList_toString (n : ℕ) : (toString n).toList = Nat.toDigits 10 n := by simp

theorem isDigit_of_mem_toString {n : ℕ} {c : Char} (h : c ∈ (toString n).toList) :
    c.isDigit = true := by
  rw [toList_toString] at h
  exact Nat.isDigit_of_mem_toDigits (by decide) (by decide) h

/-- The text of a natural number. -/
theorem number_toString (n : ℕ) : plainJson.number (.uint n) (toString n).toList := by
  refine ⟨?_, ?_, fun c hc => ?_⟩
  · have hall : (toString n).toList.all Char.isDigit = true :=
      List.all_eq_true.mpr fun c hc => isDigit_of_mem_toString hc
    rw [numberOfText, if_pos hall, toList_toString, Nat.ofDigitChars_ten_toDigits]
  · rw [Ne, String.toList_eq_nil_iff]
    exact Nat.repr_ne_empty
  · simp [isNumberChar, isDigit_of_mem_toString hc]

/-- The text of a double that is not among the three. -/
theorem number_bits (x : Binary64) :
    plainJson.number (.real x) (toString x.bits.toNat ++ "e0").toList := by
  have htext : (toString x.bits.toNat ++ "e0").toList =
      Nat.toDigits 10 x.bits.toNat ++ ['e', '0'] := by simp
  have he : 'e' ∈ (toString x.bits.toNat ++ "e0").toList := by
    rw [htext]
    simp
  have hne : ∀ t : List Char, 'e' ∉ t → (toString x.bits.toNat ++ "e0").toList ≠ t :=
    fun t ht heq => ht (heq ▸ he)
  have hall : ¬ (toString x.bits.toNat ++ "e0").toList.all Char.isDigit = true := fun h =>
    absurd (List.all_eq_true.mp h 'e' he) (by decide)
  refine ⟨?_, hne [] (by simp), fun c hc => ?_⟩
  · rw [numberOfText, if_neg hall, if_neg (hne _ (by decide)), if_neg (hne _ (by decide)),
      if_neg (hne _ (by decide)), htext]
    simp
  · rw [String.toList_append, List.mem_append] at hc
    rcases hc with hc | hc
    · simp [isNumberChar, isDigit_of_mem_toString hc]
    · have hall : "e0".toList.all isNumberChar = true := by decide
      exact List.all_eq_true.mp hall c hc

theorem integerDoubles_roundTrips : integerDoubles.RoundTrips plainJson where
  plain x := by
    simp only [integerDoubles]
    split_ifs
    · decide
    · decide
    · decide
    · exact plain_append (plain_toString _) (by decide)
  number x := by
    refine ⟨.real x, ?_, fun _ => ⟨trivial, rfl⟩⟩
    simp only [integerDoubles]
    split_ifs with h0 h1 h2
    · rw [h0]
      exact ⟨rfl, by decide, List.all_eq_true.mp (by decide)⟩
    · rw [h1]
      exact ⟨rfl, by decide, List.all_eq_true.mp (by decide)⟩
    · rw [h2]
      exact ⟨rfl, by decide, List.all_eq_true.mp (by decide)⟩
    · exact number_bits x
  uint n _ := number_toString n

theorem rasterFromTile_metadata_bareRaster : ∃ cube metadata,
    datacubeOfRaster (plainApi bareRaster bareWkb) bareWkb = .ok cube ∧
      rasterMetadata (plainApi bareRaster bareWkb) integerDoubles bareWkb = .ok metadata ∧
      ∃ r blob' r', (plainApi bareRaster bareWkb).fromWkb bareWkb = some r ∧
        readTileGrid integerDoubles plainJson metadata =
          .ok ⟨georeference (plainApi bareRaster bareWkb) r, r.width, r.height, (plainApi bareRaster bareWkb).srid r⟩ ∧
        (rasterFromTile (plainApi bareRaster bareWkb) storedCodecs integerDoubles plainJson cube 0 0
          metadata).run ⟨[], []⟩ = .ok blob' ⟨[], []⟩ ∧
        (plainApi bareRaster bareWkb).fromWkb blob' = some r' ∧ RasterView.Same r' r := by
  obtain ⟨hcube, hmeta⟩ := isOk_bareRaster
  cases hc : datacubeOfRaster (plainApi bareRaster bareWkb) bareWkb with
  | error e =>
    rw [hc] at hcube
    cases hcube
  | ok cube =>
    cases hm : rasterMetadata (plainApi bareRaster bareWkb) integerDoubles bareWkb with
    | error e =>
      rw [hm] at hmeta
      cases hmeta
    | ok metadata =>
      exact ⟨cube, metadata, rfl, rfl, rasterFromTile_metadata (plainApi_stores rfl)
        (plainApi_makes _ _) plainApi_bareRaster_reads plainJson_reads integerDoubles_roundTrips
        (by decide) hc hm ⟨[], []⟩⟩

end MobilityDuck
