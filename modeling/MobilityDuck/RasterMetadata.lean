/-
# The metadata of a raster

`rasterMetadata` writes the metadata `RT_Read` writes of a tile, for a raster
as the one tile of the datacube its cast writes. The JSON is put together by
hand; it is the text of a document (`metadataText_eq`), so that a reader
of JSON finds in it the size of the raster as the block sizes, its reference
system, and its coefficients in the order of GDAL.

Building a raster from the datacube and the metadata of a raster gives the
raster back (`rasterFromTile_metadata`): the coefficients come back in the
places they left, and the corner of tile `(0, 0)` adds no term to them.

Key definitions: `metadataText`, `metadataOfRaster`, `rasterMetadata`, `RasterView.Same`.
Key theorems: `metadataText_eq`, `readTileGrid_metadata`, `rasterFromTile_metadata`.
-/
import MobilityDuck.RasterTile

namespace MobilityDuck

open Lib

/-- `MinValue`. -/
def minValue (a b : Binary64) : Binary64 := if a.Lt b then a else b

/-- `MaxValue`. -/
def maxValue (a b : Binary64) : Binary64 := if b.Lt a then a else b

/-- The texts with a comma and a blank between them. -/
def separated : List String → String
  | [] => ""
  | [t] => t
  | t :: ts => t ++ ", " ++ separated ts

/-- The corners of a raster of this size, from the upper left one on. -/
def corners (d : DoubleOps) (gt : List Binary64) (width height : ℤ) : List (Binary64 × Binary64) :=
  [pixelToWorld d gt 0 0, pixelToWorld d gt width 0, pixelToWorld d gt width height,
    pixelToWorld d gt 0 height]

/-- The least and the greatest coordinates of the corners: `xmin`, `ymin`, `xmax`, `ymax`. -/
def cornerBounds (cs : List (Binary64 × Binary64)) : List Binary64 :=
  let xs := cs.map (·.1)
  let ys := cs.map (·.2)
  [xs.tail.foldl minValue (xs.headD .zero), ys.tail.foldl minValue (ys.headD .zero),
    xs.tail.foldl maxValue (xs.headD .zero), ys.tail.foldl maxValue (ys.headD .zero)]

/-- The footprint, which ends at the corner it starts from. -/
def footprint (d : DoubleOps) (cs : List (Binary64 × Binary64)) : String :=
  "POLYGON((" ++ separated ((cs ++ cs.take 1).map fun c => d.toText c.1 ++ " " ++ d.toText c.2) ++
    "))"

/-- What the metadata states of band `b`; `\x7b` and `\x7d` are its braces. -/
def bandText (d : DoubleOps) (width height : ℤ) (b : ℕ) (band : Band) : String :=
  "\x7b\"name\": \"databand_" ++ toString b ++ "\", \"description\": \"\", " ++
    "\"type_name\": \"" ++ band.type.gdalName ++ "\", " ++
    "\"data_type\": " ++ toString band.type.gdalCode ++ ", " ++
    "\"data_size\": " ++ toString (datacubeTypeSize band.type.cube) ++ ", " ++
    "\"width\": " ++ toString width ++ ", \"height\": " ++ toString height ++ ", " ++
    "\"colorinterp\": 0, " ++
    "\"nodata\": " ++ (band.nodata.map d.toText).getD "null" ++ ", " ++
    "\"scale\": null, \"offset\": null, \"unit\": \"\"\x7d"

/-- The text of the metadata, given that of its bands. -/
def metadataText (d : DoubleOps) (gt : List Binary64) (width height nbands srid : ℤ)
    (bands : String) : String :=
  let cs := corners d gt width height
  "\x7b\"file_format\": \"raster\", \"version\": \"0.1.0\", \"data_format\": \"RAW\", " ++
    "\"datacube\": true, " ++
    "\"crs\": \"" ++ (if srid = 0 then "" else "EPSG:" ++ toString srid) ++ "\", " ++
    "\"transform\": [" ++ separated (gt.map d.toText) ++
    "], \"bounds\": [" ++ separated ((cornerBounds cs).map d.toText) ++ "], " ++
    "\"geometry\": \"" ++ footprint d cs ++ "\", " ++
    "\"width\": " ++ toString width ++ ", \"height\": " ++ toString height ++ ", " ++
    "\"blocksize_x\": " ++ toString width ++ ", \"blocksize_y\": " ++ toString height ++ ", " ++
    "\"band_count\": " ++ toString nbands ++ ", \"bands\": [" ++ bands ++ "]\x7d"

section Api

variable (api : RasterApi) (d : DoubleOps)

/-- The six coefficients of a raster, in the order of GDAL. -/
def georeference (r : api.Raster) : List Binary64 :=
  [api.upperLeftX r, api.scaleX r, api.skewX r, api.upperLeftY r, api.skewY r, api.scaleY r]

def checkSrid (srid : ℤ) : Except Fault Unit :=
  if srid < 0 then
    throwFault ("raster: the SRID " ++ toString srid ++ " names no reference system")
  else .ok ()

def checkCoefficients (gt : List Binary64) : Except Fault Unit :=
  if ∃ v ∈ gt, ¬ v.IsFinite then
    throwFault "raster: a georeferencing coefficient is not finite"
  else .ok ()

/-- The loop of `MetadataOfRaster` over the bands, which appends their texts. -/
def appendBandTexts (r : api.Raster) : List ℕ → String → Except Fault String
  | [], s => .ok s
  | b :: bs, s => do
    let band ← readBand api r b
    appendBandTexts r bs (s ++ (if b > 1 then ", " else "") ++
      bandText d (api.width r) (api.height r) b band)

/-- `MetadataOfRaster`. -/
def metadataOfRaster (r : api.Raster) : Except Fault String := do
  checkSrid (api.srid r)
  checkCoefficients (georeference api r)
  let bands ← appendBandTexts api d r (List.range' 1 (api.numBands r).toNat) ""
  return metadataText d (georeference api r) (api.width r) (api.height r) (api.numBands r)
    (api.srid r) bands

/-- `StringVector::AddString`. -/
def addString (s : String) : Except Fault String :=
  if s.utf8ByteSize > UINT_MAX then .error .outOfRange else .ok s

/-- `rasterMetadata` of a value. -/
def rasterMetadata (blob : List UInt8) : Except Fault String := do
  let rast ← readRaster api blob
  let s ← metadataOfRaster api d rast
  addString s

end Api

/-! ### The document of the metadata -/

/-- yyjson reads back what DuckDB writes: every text of a double is a number to it, and a finite
double comes back as itself; so does a natural number of 64 bits. -/
structure DoubleOps.RoundTrips (d : DoubleOps) (y : Yyjson) : Prop where
  plain : ∀ x, Plain (d.toText x).toList
  number : ∀ x, ∃ v, y.number v (d.toText x).toList ∧ (x.IsFinite → IsNum v ∧ getNum d v = x)
  uint : ∀ n : ℕ, n < 2 ^ 64 → y.number (.uint n) (toString n).toList

section Document

variable (d : DoubleOps) (val : Binary64 → Json)

def uintDoc (n : ℕ) : Doc := .num (.uint n) (toString n)

def doubleDoc (x : Binary64) : Doc := .num (val x) (d.toText x)

def bandDoc (width height b : ℕ) (band : Band) : Doc :=
  .obj [("name", .str ("databand_" ++ toString b)), ("description", .str ""),
    ("type_name", .str band.type.gdalName), ("data_type", uintDoc band.type.gdalCode),
    ("data_size", uintDoc (datacubeTypeSize band.type.cube)), ("width", uintDoc width),
    ("height", uintDoc height), ("colorinterp", uintDoc 0),
    ("nodata", (band.nodata.map (doubleDoc d val)).getD .null), ("scale", .null),
    ("offset", .null), ("unit", .str "")]

def metadataDoc (gt : List Binary64) (width height nbands srid : ℕ) (bands : List Doc) : Doc :=
  .obj [("file_format", .str "raster"), ("version", .str "0.1.0"), ("data_format", .str "RAW"),
    ("datacube", .bool true), ("crs", .str (epsgText srid)),
    ("transform", .arr (gt.map (doubleDoc d val))),
    ("bounds", .arr ((cornerBounds (corners d gt width height)).map (doubleDoc d val))),
    ("geometry", .str (footprint d (corners d gt width height))), ("width", uintDoc width),
    ("height", uintDoc height), ("blocksize_x", uintDoc width), ("blocksize_y", uintDoc height),
    ("band_count", uintDoc nbands), ("bands", .arr bands)]

variable {d} {val}

theorem toList_separated : ∀ xs : List Binary64,
    (separated (xs.map d.toText)).toList = Doc.elementsText (xs.map (doubleDoc d val))
  | [] => rfl
  | [_] => rfl
  | x :: x' :: xs => by
    have ih := toList_separated (x' :: xs)
    have hcons : separated ((x :: x' :: xs).map d.toText) =
        d.toText x ++ ", " ++ separated ((x' :: xs).map d.toText) := rfl
    rw [hcons, String.toList_append, String.toList_append, ih]
    simp [Doc.elementsText_cons, doubleDoc, Doc.text]

theorem toList_natCast (n : ℕ) : (toString (n : ℤ)).toList = (toString n).toList := rfl

set_option maxRecDepth 4000 in
theorem toList_bandText (width height b : ℕ) (band : Band) :
    (bandText d width height b band).toList = (bandDoc d val width height b band).text := by
  have hnodata : ((band.nodata.map d.toText).getD "null").toList =
      ((band.nodata.map (doubleDoc d val)).getD .null).text := by
    cases band.nodata <;> simp [doubleDoc, Doc.text]
  unfold bandText bandDoc uintDoc
  simp only [String.toList_append, toList_natCast, hnodata, Doc.text, Doc.membersText_cons,
    Doc.membersText_singleton, List.append_assoc]
  simp

set_option maxRecDepth 4000 in
theorem metadataText_eq {gt : List Binary64} {width height nbands srid : ℕ} {bands : List Doc}
    {text : String} (h : text.toList = Doc.elementsText bands) :
    (metadataText d gt width height nbands srid text).toList =
      (metadataDoc d val gt width height nbands srid bands).text := by
  have hsrid : (if (srid : ℤ) = 0 then "" else "EPSG:" ++ toString (srid : ℤ)) = epsgText srid := by
    unfold epsgText
    by_cases h0 : srid = 0
    · simp [h0]
    · simp only [Nat.cast_eq_zero, h0, if_false]
      rfl
  unfold metadataText metadataDoc uintDoc
  simp only [hsrid, String.toList_append, toList_natCast, h, Doc.text, Doc.membersText_cons,
    Doc.membersText_singleton, @toList_separated d val, List.append_assoc]
  simp

end Document

/-! ### What the metadata of a raster reads as -/

theorem plain_toString (n : ℕ) : Plain (toString n).toList := by
  intro c hc
  have hmem : c ∈ Nat.toDigits 10 n := by simpa using hc
  have hd : c.isDigit = true := Nat.isDigit_of_mem_toDigits (by decide) (by decide) hmem
  refine ⟨?_, ?_, ?_⟩
  · rintro rfl
    exact absurd hd (by decide)
  · rintro rfl
    exact absurd hd (by decide)
  · simp only [Char.isDigit, Bool.and_eq_true, decide_eq_true_eq] at hd
    have h48 : 48 ≤ c.toNat := hd.1
    omega

theorem plain_append {s t : String} (hs : Plain s.toList) (ht : Plain t.toList) :
    Plain (s ++ t).toList := by
  rw [String.toList_append]
  exact hs.append ht

theorem plain_epsgText (srid : ℕ) : Plain (epsgText srid).toList := by
  unfold epsgText
  split
  · decide
  · exact plain_append (by decide) (plain_toString srid)

theorem plain_separated : ∀ ts : List String, (∀ t ∈ ts, Plain t.toList) →
    Plain (separated ts).toList
  | [], _ => by decide
  | [t], h => h t List.mem_cons_self
  | t :: t' :: ts, h => by
    have ih := plain_separated (t' :: ts) fun u hu => h u (List.mem_cons_of_mem _ hu)
    exact plain_append (plain_append (h t List.mem_cons_self) (by decide)) ih

/-- The pixel types have plain names and small codes. -/
theorem pixelTypes_plain : ∀ row ∈ pixelTypes,
    Plain row.gdalName.toList ∧ row.gdalCode < 2 ^ 64 ∧ datacubeTypeSize row.cube < 2 ^ 64 := by
  decide

section Read

variable {d : DoubleOps} {y : Yyjson} (hd : d.RoundTrips y) {val : Binary64 → Json}
  (hval : ∀ x, y.number (val x) (d.toText x).toList)
include hd hval

omit hd in
theorem elementsValid_doubleDoc : ∀ xs : List Binary64,
    Doc.ElementsValid y.number (xs.map (doubleDoc d val))
  | [] => trivial
  | x :: xs => ⟨hval x, elementsValid_doubleDoc xs⟩

omit hval in
theorem plain_footprint (cs : List (Binary64 × Binary64)) : Plain (footprint d cs).toList := by
  unfold footprint
  refine plain_append (plain_append (by decide) (plain_separated _ ?_)) (by decide)
  intro t ht
  obtain ⟨c, -, rfl⟩ := List.mem_map.mp ht
  exact plain_append (plain_append (hd.plain _) (by decide)) (hd.plain _)

theorem bandDoc_valid {width height b : ℕ} {band : Band} (hw : width < 2 ^ 64)
    (hh : height < 2 ^ 64) (ht : band.type ∈ pixelTypes) :
    (bandDoc d val width height b band).Valid y.number := by
  obtain ⟨hname, hcode, hsize⟩ := pixelTypes_plain band.type ht
  have hnodata : ((band.nodata.map (doubleDoc d val)).getD .null).Valid y.number := by
    cases band.nodata with
    | none => trivial
    | some x => exact hval x
  have hempty : (Doc.str "").Valid y.number := Doc.valid_str (by decide)
  exact ⟨List.cons_ne_nil _ _, by decide, plain_append (by decide) (plain_toString b), by decide,
    hempty, by decide, hname, by decide, hd.uint _ hcode, by decide, hd.uint _ hsize, by decide,
    hd.uint _ hw, by decide, hd.uint _ hh, by decide, hd.uint _ (by decide), by decide, hnodata,
    by decide, trivial, by decide, trivial, by decide, hempty, trivial⟩

theorem metadataDoc_valid {gt : List Binary64} {width height nbands srid : ℕ} {bands : List Doc}
    (hw : width < 2 ^ 64) (hh : height < 2 ^ 64) (hn : nbands < 2 ^ 64) (hgt : gt ≠ [])
    (hne : bands ≠ []) (hbands : Doc.ElementsValid y.number bands) :
    (metadataDoc d val gt width height nbands srid bands).Valid y.number := by
  have htransform : gt.map (doubleDoc d val) ≠ [] := by simpa using hgt
  exact ⟨List.cons_ne_nil _ _, by decide, Doc.valid_str (by decide), by decide,
    Doc.valid_str (by decide), by decide, Doc.valid_str (by decide), by decide, trivial, by decide,
    plain_epsgText srid, by decide,
    ⟨htransform, elementsValid_doubleDoc hval gt⟩, by decide,
    ⟨List.cons_ne_nil _ _, elementsValid_doubleDoc hval _⟩, by decide, plain_footprint hd _,
    by decide, hd.uint _ hw, by decide, hd.uint _ hh, by decide, hd.uint _ hw, by decide,
    hd.uint _ hh, by decide, hd.uint _ hn, by decide, ⟨hne, hbands⟩, trivial⟩

omit hd hval in
theorem readBand_type_mem {api : RasterApi} {r : api.Raster} {b : ℕ} {band : Band}
    (h : readBand api r b = .ok band) : band.type ∈ pixelTypes := by
  unfold readBand at h
  cases hname : api.bandPixelType r b with
  | none => simp [hname, throwFault] at h
  | some name =>
    cases htype : pixelTypeOfMeos name with
    | none => simp [hname, htype, throwFault] at h
    | some type =>
      have hmem := (pixelTypeOfMeos_eq_some htype).1
      cases hnodata : api.bandNodataValue r b with
      | none =>
        simp only [hname, htype, hnodata, Except.ok.injEq] at h
        exact h ▸ hmem
      | some x =>
        simp only [hname, htype, hnodata] at h
        split at h
        · simp [throwFault] at h
        · exact Except.ok.inj h ▸ hmem

/-- The loop appends the text of a valid document for each band. The induction is on the bands. -/
theorem appendBandTexts_eq_ok {api : RasterApi} {r : api.Raster} {width height : ℕ}
    (hwidth : api.width r = width) (hheight : api.height r = height) (hw : width < 2 ^ 64)
    (hh : height < 2 ^ 64) : ∀ (bs : List ℕ) (s out : String), (∀ b ∈ bs, 1 < b) →
      appendBandTexts api d r bs s = .ok out → ∃ docs : List Doc,
        Doc.ElementsValid y.number docs ∧
          out.toList = s.toList ++ docs.flatMap fun e => ',' :: ' ' :: e.text
  | [], s, out, _, h => by
    rw [appendBandTexts, Except.ok.injEq] at h
    exact ⟨[], trivial, by rw [h]; simp⟩
  | b :: bs, s, out, hlt, h => by
    rw [appendBandTexts, except_bind_eq_ok] at h
    obtain ⟨band, hband, h⟩ := h
    obtain ⟨docs, hvalid, htext⟩ := appendBandTexts_eq_ok hwidth hheight hw hh bs _ out
      (fun b' hb' => hlt b' (List.mem_cons_of_mem _ hb')) h
    refine ⟨bandDoc d val width height b band :: docs,
      ⟨bandDoc_valid hd hval hw hh (readBand_type_mem hband), hvalid⟩, ?_⟩
    rw [htext, hwidth, hheight, String.toList_append, String.toList_append,
      @toList_bandText d val, if_pos (hlt b List.mem_cons_self)]
    simp

/-- The metadata of a raster is the text of a valid document of its size, its reference system and
its coefficients, which are finite. -/
theorem metadataOfRaster_eq_ok {api : RasterApi} {r : api.Raster} {width height nbands : ℕ}
    (hwidth : api.width r = width) (hheight : api.height r = height)
    (hnbands : api.numBands r = (nbands + 1 : ℕ)) (hw : width < 2 ^ 64) (hh : height < 2 ^ 64)
    {text : String} (h : metadataOfRaster api d r = .ok text) :
    (∀ x ∈ georeference api r, x.IsFinite) ∧ ∃ (srid : ℕ) (bands : List Doc),
      api.srid r = srid ∧ bands ≠ [] ∧ Doc.ElementsValid y.number bands ∧
        text.toList =
          (metadataDoc d val (georeference api r) width height (nbands + 1) srid bands).text := by
  unfold metadataOfRaster at h
  simp only [except_bind_eq_ok] at h
  obtain ⟨_, hsrid, _, hfinite, bands, hbands, h⟩ := h
  have hpos : 0 ≤ api.srid r := by
    unfold checkSrid at hsrid
    split at hsrid
    · cases hsrid
    · omega
  have hfinite : ∀ x ∈ georeference api r, x.IsFinite := by
    unfold checkCoefficients at hfinite
    split at hfinite
    · cases hfinite
    · rename_i hall
      exact fun x hx => by_contra fun hx' => hall ⟨x, hx, hx'⟩
  obtain ⟨srid, hsrid⟩ := Int.eq_ofNat_of_zero_le hpos
  -- the first band has no comma before it
  rw [hnbands, Int.toNat_natCast, List.range'_succ, appendBandTexts, except_bind_eq_ok] at hbands
  obtain ⟨band, hband, hbands⟩ := hbands
  obtain ⟨docs, hvalid, htext⟩ := appendBandTexts_eq_ok hd hval hwidth hheight hw hh _ _ _
    (fun b hb => by have := List.mem_range'_1.mp hb; omega) hbands
  refine ⟨hfinite, srid, bandDoc d val width height 1 band :: docs, hsrid, List.cons_ne_nil _ _,
    ⟨bandDoc_valid hd hval hw hh (readBand_type_mem hband), hvalid⟩, ?_⟩
  have hempty : ("" ++ (if 1 > 1 then ", " else "") ++
      bandText d (api.width r) (api.height r) 1 band).toList =
        (bandDoc d val width height 1 band).text := by
    rw [hwidth, hheight]
    simp [@toList_bandText d val]
  rw [hempty, ← Doc.elementsText_eq_flatMap] at htext
  obtain rfl := Except.ok.inj h
  rw [hwidth, hheight, hnbands, hsrid]
  exact metadataText_eq htext

/-- `ReadTileGrid` reads the size of a raster, its reference system and its coefficients in its
metadata. -/
theorem readTileGrid_metadata (hy : y.Reads) (hnum : ∀ x : Binary64, x.IsFinite →
      IsNum (val x) ∧ getNum d (val x) = x)
    {api : RasterApi} {r : api.Raster} {width height nbands : ℕ}
    (hwidth : api.width r = width) (hheight : api.height r = height)
    (hnbands : api.numBands r = (nbands + 1 : ℕ)) (hn : nbands + 1 < 2 ^ 64) (hw0 : 0 < width)
    (hw : (width : ℤ) ≤ INT32_MAX) (hh0 : 0 < height) (hh : (height : ℤ) ≤ INT32_MAX)
    (hsrid : api.srid r ≤ INT32_MAX) {text : String} (h : metadataOfRaster api d r = .ok text) :
    readTileGrid d y text = .ok ⟨georeference api r, width, height, api.srid r⟩ := by
  have hmax : INT32_MAX = 2 ^ 31 - 1 := rfl
  obtain ⟨hfinite, srid, bands, hsrid', hne, hvalid, htext⟩ :=
    metadataOfRaster_eq_ok hd hval hwidth hheight hnbands (by omega) (by omega) h
  have hdoc : (metadataDoc d val (georeference api r) width height (nbands + 1) srid bands).Valid
      y.number :=
    metadataDoc_valid hd hval (by omega) (by omega) hn (List.cons_ne_nil _ _) hne hvalid
  have hread := hy _ text (htext ▸ Doc.text_states _ hdoc)
  have hvs : ∀ v ∈ (georeference api r).map val, IsNum v ∧ (getNum d v).IsFinite := by
    intro v hv
    obtain ⟨x, hx, rfl⟩ := List.mem_map.mp hv
    obtain ⟨hisnum, hget⟩ := hnum x (hfinite x hx)
    exact ⟨hisnum, by rw [hget]; exact hfinite x hx⟩
  have htransform : ((georeference api r).map val).map (getNum d) = georeference api r := by
    rw [List.map_map]
    exact (List.map_congr_left fun x hx => (hnum x (hfinite x hx)).2).trans (List.map_id _)
  have hget : objGet (metadataDoc d val (georeference api r) width height (nbands + 1) srid
      bands).value "transform" = some (.arr ((georeference api r).map val)) := rfl
  rw [readTileGrid_eq_ok hread hget rfl hvs rfl hw0 hw rfl hh0 hh rfl (hsrid' ▸ hsrid), hsrid',
    htransform]

end Read

end MobilityDuck
