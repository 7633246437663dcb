/-
# The TemporalParquet footer

`temporalFooter` turns a map from column names to temporal base types into the
JSON text that TemporalParquet keeps in the metadata of a file. The text is put
together by hand: `appendJsonString` writes a string byte by byte, and
`appendCovering`, `appendColumn` and the loop over a row's entries write the
members around it, each with a comma bookkeeping of its own.

Whatever the names and the types are, the row's text is one JSON object
(`Json.Compact`), it decodes to the version and one member for each entry whose
key and value are there, and the members say of the column what the tables of
`generated_temporal_covering.cpp` fix for its type (`temporalFooter_decodes`).
What a row becomes depends on its own entries only.

Key definitions: `temporalCoveringOf`, `appendJsonString`, `appendCovering`,
`appendColumn`, `temporalFooterFun`, `DescribesColumn`, `DescribesFooter`. Key
theorems: `writes_appendJsonString`, `writes_appendColumn`,
`temporalFooter_decodes`.
-/
import MobilityDuck.Lib.JsonCompact
import Mathlib.Data.List.Forall2

namespace MobilityDuck

open Lib

/-- A string literal, as bytes; its braces are `\x7b` and `\x7d`. -/
def literal (s : String) : List UInt8 := utf8 s.toList

/-! ### The coverings of the base types -/

/-- `TemporalCovering`. -/
structure TemporalCovering where
  key : String
  columnSuffix : String
  bounds : List String
  deriving DecidableEq

/-- `TemporalCoveringType`. -/
structure TemporalCoveringType where
  baseType : String
  edges : Option String
  coverings : List TemporalCovering

def bboxCovering : TemporalCovering := ⟨"bbox", "_bbox", ["xmin", "ymin", "xmax", "ymax"]⟩

def vspanCovering : TemporalCovering := ⟨"vspan", "_vspan", ["vmin", "vmax"]⟩

def tspanCovering : TemporalCovering := ⟨"tspan", "_tspan", ["tmin", "tmax"]⟩

/-- `TEMPORAL_COVERING_TYPES`. -/
def temporalCoveringTypes : List TemporalCoveringType :=
  [⟨"tgeompoint", some "planar", [bboxCovering, tspanCovering]⟩,
    ⟨"tgeogpoint", some "spherical", [bboxCovering, tspanCovering]⟩,
    ⟨"tgeometry", some "planar", [bboxCovering, tspanCovering]⟩,
    ⟨"tgeography", some "spherical", [bboxCovering, tspanCovering]⟩,
    ⟨"tcbuffer", none, [bboxCovering, tspanCovering]⟩,
    ⟨"tnpoint", none, [bboxCovering, tspanCovering]⟩,
    ⟨"tpose", none, [bboxCovering, tspanCovering]⟩,
    ⟨"trgeometry", none, [bboxCovering, tspanCovering]⟩,
    ⟨"tint", none, [vspanCovering, tspanCovering]⟩,
    ⟨"tfloat", none, [vspanCovering, tspanCovering]⟩,
    ⟨"tbigint", none, [vspanCovering, tspanCovering]⟩,
    ⟨"tbool", none, [tspanCovering]⟩,
    ⟨"ttext", none, [tspanCovering]⟩]

/-- `TemporalCoveringOf`. -/
def temporalCoveringOf (baseType : List UInt8) : Option TemporalCoveringType :=
  temporalCoveringTypes.find? fun entry => baseType = literal entry.baseType

/-! ### The writers -/

def temporalParquetVersion : String := "2.0.0"

def meosWkbEncodingVersion : String := "1.0"

def hexDigit (n : ℕ) : Char := if n < 10 then Char.ofNat (48 + n) else Char.ofNat (87 + n)

/-- `snprintf` of a byte with `\u%04x`. -/
def hexEscape (c : UInt8) : List Char :=
  ['\\', 'u', hexDigit 0, hexDigit 0, hexDigit (c.toNat / 16), hexDigit (c.toNat % 16)]

/-- The body of the loop of `AppendJsonString`. -/
def appendJsonByte (out : List UInt8) (c : UInt8) : List UInt8 :=
  if c = 0x22 then out ++ literal "\\\""
  else if c = 0x5c then out ++ literal "\\\\"
  else if c = 0x08 then out ++ literal "\\b"
  else if c = 0x0c then out ++ literal "\\f"
  else if c = 0x0a then out ++ literal "\\n"
  else if c = 0x0d then out ++ literal "\\r"
  else if c = 0x09 then out ++ literal "\\t"
  else if c < 0x20 then out ++ utf8 (hexEscape c)
  else out ++ [c]

/-- `AppendJsonString`. -/
def appendJsonString (out s : List UInt8) : List UInt8 :=
  s.foldl appendJsonByte (out ++ literal "\"") ++ literal "\""

/-- A bound of a covering: the field of the struct column `target` that carries it. -/
def appendBound (target : List UInt8) (out : List UInt8) (bound : String) : List UInt8 :=
  let out := appendJsonString out (literal bound) ++ literal ":["
  let out := appendJsonString out target ++ literal ","
  appendJsonString out (literal bound) ++ literal "]"

/-- `AppendCovering`. -/
def appendCovering (column : List UInt8) (out : List UInt8) (covering : TemporalCovering) :
    List UInt8 :=
  let target := column ++ literal covering.columnSuffix
  let out := appendJsonString out (literal covering.key) ++ literal ":\x7b"
  let out := covering.bounds.zipIdx.foldl (fun out bound =>
    appendBound target (if bound.2 ≠ 0 then out ++ literal "," else out) bound.1) out
  out ++ literal "\x7d"

/-- The members the edges of the type add to a column. -/
def appendEdges (out : List UInt8) (edges : String) : List UInt8 :=
  out ++ literal ",\"edges\":\"" ++ literal edges ++ literal "\",\"geodetic\":" ++
    if edges = "planar" then literal "false" else literal "true"

/-- The member the coverings of the type add to a column. -/
def appendCoverings (column : List UInt8) (out : List UInt8) (coverings : List TemporalCovering) :
    List UInt8 :=
  let out := out ++ literal ",\"covering\":\x7b"
  let out := coverings.zipIdx.foldl (fun out covering =>
    appendCovering column (if covering.2 ≠ 0 then out ++ literal "," else out) covering.1) out
  out ++ literal "\x7d"

/-- `AppendColumn`. -/
def appendColumn (out column baseType : List UInt8) : List UInt8 :=
  let out := appendJsonString out column
  let out := out ++ literal ":\x7b\"encoding\":\"MEOS-WKB\",\"encoding_version\":\""
  let out := out ++ literal meosWkbEncodingVersion ++ literal "\",\"base_type\":"
  let out := appendJsonString out baseType
  let type := temporalCoveringOf baseType
  let out := match type.bind (·.edges) with
    | some edges => appendEdges out edges
    | none => out
  let out := match type with
    | some type => if type.coverings ≠ [] then appendCoverings column out type.coverings else out
    | none => out
  out ++ literal "\x7d"

/-- The argument of `temporalFooter`: the rows select list entries, which are runs of the keys and the
values of all rows together. A key or value that is not valid is `none`. -/
structure MapVector where
  count : ℕ
  keys : ℕ → Option String
  vals : ℕ → Option String
  sel : ℕ → ℕ
  listEntries : ℕ → ℕ × ℕ
  validity : ℕ → Bool

/-- The body of the loop over a row's entries, over the text and `first`. -/
def MapVector.footerStep (map : MapVector) (state : List UInt8 × Bool) (j : ℕ) : List UInt8 × Bool :=
  match map.keys j, map.vals j with
  | some key, some val =>
    let json := if !state.2 then state.1 ++ literal "," else state.1
    (appendColumn json (literal key) (literal val), false)
  | _, _ => state

/-- One row of `TemporalFooterFun`. -/
def MapVector.footerRow (map : MapVector) (i : ℕ) : Option (List UInt8) :=
  let idx := map.sel i
  if !map.validity idx then none
  else
    let entry := map.listEntries idx
    let json := literal "\x7b\"version\":\"" ++ literal temporalParquetVersion ++
      literal "\",\"columns\":\x7b"
    let state := (List.range' entry.1 entry.2).foldl map.footerStep (json, true)
    some (state.1 ++ literal "\x7d\x7d")

/-- `TemporalFooterFun`: the result vector, written row by row. -/
def temporalFooterFun (map : MapVector) (result : ℕ → Option (List UInt8)) :
    ℕ → Option (List UInt8) :=
  (List.range map.count).foldl (fun result i => Function.update result i (map.footerRow i)) result

/-! ### Strings -/

/-- The text `appendJsonByte` writes of a character below 128. -/
def escapeAscii (c : Char) : List Char :=
  if c = '"' then ['\\', '"']
  else if c = '\\' then ['\\', '\\']
  else if c.toNat = 8 then ['\\', 'b']
  else if c.toNat = 12 then ['\\', 'f']
  else if c.toNat = 10 then ['\\', 'n']
  else if c.toNat = 13 then ['\\', 'r']
  else if c.toNat = 9 then ['\\', 't']
  else if c.toNat < 32 then hexEscape (UInt8.ofNat c.toNat)
  else [c]

theorem appendJsonByte_eq (out : List UInt8) (c : UInt8) :
    appendJsonByte out c = out ++ appendJsonByte [] c := by
  unfold appendJsonByte
  split_ifs <;> rfl

/-- Below 128 the bytes are characters; 128 of them. -/
theorem appendJsonByte_ascii : ∀ n < 128,
    appendJsonByte [] (UInt8.ofNat n) = utf8 (escapeAscii (Char.ofNat n)) := by
  decide

theorem hex4_control : ∀ n < 32,
    hex4 (hexDigit 0) (hexDigit 0) (hexDigit (n / 16)) (hexDigit (n % 16)) = some n := by
  decide

/-- A character with an escape of its own. -/
theorem escaped_short {c e : Char} {n : ℕ} (hc : c.toNat = n) (he : unescape e = some (Char.ofNat n)) :
    Escaped [c] ['\\', e] := by
  have hchar : c = Char.ofNat n := by rw [← hc, Char.ofNat_toNat]
  rw [hchar]
  exact .short he .nil

/-- A character below 32 by its number. -/
theorem escaped_hexEscape {c : Char} (hc : c.toNat < 32) : Escaped [c] (hexEscape (UInt8.ofNat c.toNat)) := by
  have hbyte : (UInt8.ofNat c.toNat).toNat = c.toNat := UInt8.toNat_ofNat_of_lt' (lt_trans hc (by decide))
  have hwritten := Escaped.unicode (hex4_control _ hc) (.inl (by omega)) .nil
  rw [Char.ofNat_toNat] at hwritten
  rw [hexEscape, hbyte]
  exact hwritten

/-- What is written of a character states it. -/
theorem escaped_escapeAscii (c : Char) : Escaped [c] (escapeAscii c) := by
  unfold escapeAscii
  by_cases hquote : c = '"'
  · rw [if_pos hquote]
    exact escaped_short (congrArg Char.toNat hquote) (by decide)
  rw [if_neg hquote]
  by_cases hback : c = '\\'
  · rw [if_pos hback]
    exact escaped_short (congrArg Char.toNat hback) (by decide)
  rw [if_neg hback]
  by_cases h8 : c.toNat = 8
  · rw [if_pos h8]
    exact escaped_short h8 (by decide)
  rw [if_neg h8]
  by_cases h12 : c.toNat = 12
  · rw [if_pos h12]
    exact escaped_short h12 (by decide)
  rw [if_neg h12]
  by_cases h10 : c.toNat = 10
  · rw [if_pos h10]
    exact escaped_short h10 (by decide)
  rw [if_neg h10]
  by_cases h13 : c.toNat = 13
  · rw [if_pos h13]
    exact escaped_short h13 (by decide)
  rw [if_neg h13]
  by_cases h9 : c.toNat = 9
  · rw [if_pos h9]
    exact escaped_short h9 (by decide)
  rw [if_neg h9]
  by_cases hcontrol : c.toNat < 32
  · rw [if_pos hcontrol]
    exact escaped_hexEscape hcontrol
  · rw [if_neg hcontrol]
    exact .plain hquote hback (not_lt.mp hcontrol) .nil

/-- Bytes from 128 on are kept. -/
theorem foldl_appendJsonByte_high : ∀ (bs out : List UInt8), (∀ b ∈ bs, 128 ≤ b.toNat) →
    bs.foldl appendJsonByte out = out ++ bs
  | [], out, _ => (List.append_nil out).symm
  | b :: bs, out, h => by
    have hb := h b List.mem_cons_self
    have hne : ∀ k : UInt8, k.toNat < 128 → b ≠ k := by
      rintro k hk rfl
      omega
    have hlt : ¬ b < 0x20 := by
      rw [UInt8.lt_iff_toNat_lt]
      have : (0x20 : UInt8).toNat = 32 := rfl
      omega
    have hkeep : appendJsonByte out b = out ++ [b] := by
      rw [appendJsonByte, if_neg (hne _ (by decide)), if_neg (hne _ (by decide)),
        if_neg (hne _ (by decide)), if_neg (hne _ (by decide)), if_neg (hne _ (by decide)),
        if_neg (hne _ (by decide)), if_neg (hne _ (by decide)), if_neg hlt]
    have hbs := foldl_appendJsonByte_high bs (out ++ [b]) fun c hc => h c (List.mem_cons_of_mem _ hc)
    rw [List.foldl_cons, hkeep, hbs, List.append_assoc, List.singleton_append]

/-- The bytes of one character are written as a text that states it. -/
theorem writes_char (c : Char) :
    Writes (Escaped [c]) fun out => (String.utf8EncodeChar c).foldl appendJsonByte out := by
  by_cases hc : c.toNat < 128
  · refine ⟨escapeAscii c, escaped_escapeAscii c, fun out => ?_⟩
    have hascii := appendJsonByte_ascii c.toNat hc
    rw [Char.ofNat_toNat] at hascii
    beta_reduce
    rw [utf8EncodeChar_ascii hc, List.foldl_cons, List.foldl_nil, appendJsonByte_eq, hascii]
  · have hne : ∀ d : Char, d.toNat < 128 → c ≠ d := by
      rintro d hd rfl
      exact hc hd
    refine ⟨[c], .plain (hne _ (by decide)) (hne _ (by decide)) (by omega) .nil, fun out => ?_⟩
    beta_reduce
    rw [foldl_appendJsonByte_high _ _ (le_of_mem_utf8EncodeChar (by omega)), utf8_cons, utf8_nil,
      List.append_nil]

/-- The bytes of a text are written as a text that states it. -/
theorem writes_chars : ∀ cs : List Char,
    Writes (Escaped cs) fun out => (utf8 cs).foldl appendJsonByte out
  | [] => ⟨[], .nil, fun out => (List.append_nil out).symm⟩
  | c :: cs => by
    obtain ⟨t, ht, hf⟩ := writes_char c
    obtain ⟨ts, hts, hfs⟩ := writes_chars cs
    beta_reduce at hf hfs
    refine ⟨t ++ ts, ht.append hts, fun out => ?_⟩
    beta_reduce
    rw [utf8_cons, List.foldl_append, hf, hfs, utf8_append, List.append_assoc]

/-- `appendJsonString` writes a string literal that decodes to the string. -/
theorem writes_appendJsonString (s : String) :
    ∃ t, Escaped s.toList t ∧
      ∀ out, appendJsonString out (literal s) = out ++ utf8 ('"' :: (t ++ ['"'])) := by
  obtain ⟨t, ht, hf⟩ := writes_chars s.toList
  beta_reduce at hf
  refine ⟨t, ht, fun out => ?_⟩
  calc appendJsonString out (literal s)
      = out ++ literal "\"" ++ utf8 t ++ literal "\"" := by
        rw [appendJsonString, ← hf]
        rfl
    _ = out ++ utf8 (['"'] ++ (t ++ ['"'])) := by
      simp only [utf8_append, List.append_assoc]
      rfl

/-- As a value. -/
theorem writes_str (s : String) :
    Writes (Json.Compact (.str s)) fun out => appendJsonString out (literal s) := by
  obtain ⟨t, ht, hf⟩ := writes_appendJsonString s
  exact ⟨_, .str ht, hf⟩

/-- A key, a colon and a value. -/
theorem writes_member (k : String) {v : Json} {f : List UInt8 → List UInt8}
    (hf : Writes (Json.Compact v) f) :
    Writes (Json.CompactMember (k, v)) fun out =>
      f (appendJsonString out (literal k) ++ utf8 [':']) := by
  obtain ⟨tk, htk, hk⟩ := writes_appendJsonString k
  obtain ⟨t, ht, hf⟩ := hf
  refine ⟨_, .mk htk ht, fun out => ?_⟩
  calc f (appendJsonString out (literal k) ++ utf8 [':'])
      = out ++ utf8 ('"' :: (tk ++ ['"'])) ++ utf8 [':'] ++ utf8 t := by rw [hf, hk]
    _ = out ++ utf8 ('"' :: (tk ++ ['"']) ++ ([':'] ++ t)) := by
      simp only [utf8_append, List.append_assoc]
    _ = out ++ utf8 ('"' :: (tk ++ '"' :: ':' :: t)) := by simp

theorem literal_append (s t : String) : literal (s ++ t) = literal s ++ literal t := by
  rw [literal, String.toList_append, utf8_append]
  rfl

theorem literal_injective : Function.Injective literal :=
  fun _ _ h => String.toList_injective (utf8_injective h)

/-! ### Coverings and columns -/

/-- The value a covering is written as. -/
def coveringJson (column : String) (covering : TemporalCovering) : Json :=
  .obj (covering.bounds.map fun b => (b, .arr [.str (column ++ covering.columnSuffix), .str b]))

theorem writes_appendBound (target b : String) :
    Writes (Json.CompactMember (b, .arr [.str target, .str b])) fun out =>
      appendBound (literal target) out b := by
  obtain ⟨t, ht, hf⟩ := writes_str target
  obtain ⟨t', ht', hf'⟩ := writes_str b
  beta_reduce at hf hf'
  have hpath : Writes (Json.Compact (.arr [.str target, .str b])) fun out =>
      appendJsonString (appendJsonString (out ++ utf8 ['[']) (literal target) ++ literal ",") (literal b)
        ++ literal "]" := by
    refine ⟨'[' :: (t ++ (',' :: (t' ++ [])) ++ [']']), .arr (.cons ht (.cons ht' .nil)), fun out => ?_⟩
    beta_reduce
    calc appendJsonString (appendJsonString (out ++ utf8 ['[']) (literal target) ++ literal ",")
          (literal b) ++ literal "]"
        = out ++ utf8 ['['] ++ utf8 t ++ utf8 [','] ++ utf8 t' ++ utf8 [']'] := by
          rw [hf', hf]
          rfl
      _ = out ++ utf8 (['['] ++ t ++ [','] ++ t' ++ [']']) := by
          simp only [utf8_append, List.append_assoc]
      _ = out ++ utf8 ('[' :: (t ++ (',' :: (t' ++ [])) ++ [']'])) := by simp
  obtain ⟨tm, htm, hm⟩ := writes_member b hpath
  beta_reduce at hm
  refine ⟨tm, htm, fun out => ?_⟩
  rw [← hm]
  have hopen : literal ":[" = utf8 [':'] ++ utf8 ['['] := rfl
  beta_reduce
  rw [appendBound, hopen, List.append_assoc]

theorem writes_appendCovering (column : String) (covering : TemporalCovering) :
    Writes (Json.CompactMember (covering.key, coveringJson column covering)) fun out =>
      appendCovering (literal column) out covering := by
  have hbounds := Writes.members_zipIdx (l := covering.bounds)
    (f := fun out b => appendBound (literal (column ++ covering.columnSuffix)) out b)
    fun b _ => writes_appendBound (column ++ covering.columnSuffix) b
  obtain ⟨t, ht, hf⟩ := writes_member covering.key hbounds.obj
  beta_reduce at hf
  refine ⟨t, ht, fun out => ?_⟩
  have hopen : literal ":\x7b" = utf8 [':'] ++ utf8 ['{'] := rfl
  beta_reduce
  rw [← hf, appendCovering, hopen, ← List.append_assoc, literal_append]
  rfl

/-- The members of a column that its type's edges and coverings make. -/
def edgesMembers (edges : String) : List (String × Json) :=
  [("edges", .str edges), ("geodetic", .bool (edges ≠ "planar"))]

def coveringMembers (column : String) (coverings : List TemporalCovering) : List (String × Json) :=
  if coverings ≠ [] then
    [("covering", .obj (coverings.map fun covering => (covering.key, coveringJson column covering)))]
  else []

theorem writes_geodetic (b : Bool) :
    Writes (Json.Compact (.bool b)) fun out =>
      out ++ if b then literal "true" else literal "false" := by
  cases b with
  | false => exact ⟨_, .false, fun _ => rfl⟩
  | true => exact ⟨_, .true, fun _ => rfl⟩

theorem writes_appendEdges {edges : String} (hplain : Plain edges.toList) :
    Writes (Json.MoreMembers (edgesMembers edges)) fun out => appendEdges out edges := by
  have hedges := (Writes.plainMember (k := "edges") (by decide) (Writes.plainStr hplain)).moreMembers_one
  have hgeodetic := (Writes.plainMember (k := "geodetic") (by decide)
    (writes_geodetic (edges ≠ "planar"))).moreMembers_one
  obtain ⟨t, ht, hf⟩ := hedges.moreMembers_append hgeodetic
  beta_reduce at hf
  refine ⟨t, ht, fun out => ?_⟩
  have hword : (if edges = "planar" then literal "false" else literal "true") =
      if decide (edges ≠ "planar") then literal "true" else literal "false" := by
    by_cases hplanar : edges = "planar"
    · simp [hplanar]
    · simp [hplanar]
  have hopen : literal ",\"edges\":\"" =
      utf8 [','] ++ utf8 ('"' :: ("edges".toList ++ ['"', ':'])) ++ utf8 ['"'] := rfl
  have hmid : literal "\",\"geodetic\":" =
      utf8 ['"'] ++ utf8 [','] ++ utf8 ('"' :: ("geodetic".toList ++ ['"', ':'])) := rfl
  have hstr : utf8 ('"' :: (edges.toList ++ ['"'])) = utf8 ['"'] ++ literal edges ++ utf8 ['"'] := by
    rw [← List.singleton_append, utf8_append, utf8_append, List.append_assoc]
    rfl
  beta_reduce
  rw [← hf, appendEdges, hword, hopen, hmid, hstr]
  simp only [List.append_assoc]

theorem writes_appendCoverings (column : String) {coverings : List TemporalCovering}
    (hne : coverings ≠ []) :
    Writes (Json.MoreMembers (coveringMembers column coverings)) fun out =>
      appendCoverings (literal column) out coverings := by
  have hall := Writes.members_zipIdx (l := coverings)
    (f := fun out covering => appendCovering (literal column) out covering)
    fun covering _ => writes_appendCovering column covering
  rw [coveringMembers, if_pos hne]
  obtain ⟨t, ht, hf⟩ := (Writes.plainMember (k := "covering") (by decide) hall.obj).moreMembers_one
  beta_reduce at hf
  refine ⟨t, ht, fun out => ?_⟩
  have hopen : literal ",\"covering\":\x7b" =
      utf8 [','] ++ utf8 ('"' :: ("covering".toList ++ ['"', ':'])) ++ utf8 ['{'] := rfl
  beta_reduce
  rw [← hf, appendCoverings, hopen, ← List.append_assoc, ← List.append_assoc]
  rfl

/-- What the tables fix for a type. -/
def coveringTypeOf (baseType : String) : Option TemporalCoveringType :=
  temporalCoveringTypes.find? fun entry => baseType = entry.baseType

def coveringsOf (baseType : String) : List TemporalCovering :=
  ((coveringTypeOf baseType).map (·.coverings)).getD []

theorem temporalCoveringOf_literal (baseType : String) :
    temporalCoveringOf (literal baseType) = coveringTypeOf baseType := by
  unfold temporalCoveringOf coveringTypeOf
  congr 1
  funext entry
  exact decide_eq_decide.mpr literal_injective.eq_iff

/-- The edges of every type are written as they are. -/
theorem plain_of_coveringTypeOf {baseType edges : String}
    (h : (coveringTypeOf baseType).bind (·.edges) = some edges) : Plain edges.toList := by
  obtain ⟨type, htype, hedges⟩ := Option.bind_eq_some_iff.mp h
  have hall : ∀ type ∈ temporalCoveringTypes, ∀ edges ∈ type.edges, Plain edges.toList := by decide
  exact hall type (List.mem_of_find?_eq_some htype) edges hedges

/-- The members of a column after its type. -/
def moreMembers (column baseType : String) : List (String × Json) :=
  (((coveringTypeOf baseType).bind (·.edges)).map edgesMembers).getD [] ++
    coveringMembers column (coveringsOf baseType)

/-- The value a column is written as. -/
def columnJson (column baseType : String) : Json :=
  .obj (("encoding", .str "MEOS-WKB") :: ([("encoding_version", .str meosWkbEncodingVersion)] ++
    ([("base_type", .str baseType)] ++ moreMembers column baseType)))

theorem writes_edges (baseType : String) :
    Writes (Json.MoreMembers ((((coveringTypeOf baseType).bind (·.edges)).map edgesMembers).getD []))
      fun out =>
        match (coveringTypeOf baseType).bind (·.edges) with
        | some edges => appendEdges out edges
        | none => out := by
  cases h : (coveringTypeOf baseType).bind (·.edges) with
  | none => exact ⟨[], .nil, fun out => (List.append_nil out).symm⟩
  | some edges => exact writes_appendEdges (plain_of_coveringTypeOf h)

theorem writes_coverings (column baseType : String) :
    Writes (Json.MoreMembers (coveringMembers column (coveringsOf baseType))) fun out =>
      match coveringTypeOf baseType with
      | some type =>
        if type.coverings ≠ [] then appendCoverings (literal column) out type.coverings else out
      | none => out := by
  unfold coveringsOf
  have hnone : Writes (Json.MoreMembers (coveringMembers column [])) fun out => out :=
    ⟨[], .nil, fun out => (List.append_nil out).symm⟩
  cases h : coveringTypeOf baseType with
  | none => exact hnone
  | some type =>
    by_cases hne : type.coverings ≠ []
    · obtain ⟨t, ht, hf⟩ := writes_appendCoverings column hne
      refine ⟨t, ht, fun out => ?_⟩
      exact (if_pos hne).trans (hf out)
    · rw [Option.map_some, Option.getD_some, not_not.mp hne]
      obtain ⟨t, ht, hf⟩ := hnone
      refine ⟨t, ht, fun out => ?_⟩
      exact (if_neg hne).trans (hf out)

theorem writes_appendColumn (column baseType : String) :
    Writes (Json.CompactMember (column, columnJson column baseType)) fun out =>
      appendColumn out (literal column) (literal baseType) := by
  have hencoding := Writes.plainMember (k := "encoding") (by decide)
    (Writes.plainStr (s := "MEOS-WKB") (by decide))
  have hversion := (Writes.plainMember (k := "encoding_version") (by decide)
    (Writes.plainStr (s := meosWkbEncodingVersion) (by decide))).moreMembers_one
  have hbase := (Writes.plainMember (k := "base_type") (by decide) (writes_str baseType)).moreMembers_one
  have hmore := (writes_edges baseType).moreMembers_append (writes_coverings column baseType)
  have hmembers := hencoding.members_append
    (hversion.moreMembers_append (hbase.moreMembers_append hmore))
  obtain ⟨t, ht, hf⟩ := writes_member column hmembers.obj
  beta_reduce at hf
  refine ⟨t, ht, fun out => ?_⟩
  have hopen : literal ":\x7b\"encoding\":\"MEOS-WKB\",\"encoding_version\":\"" =
      utf8 [':'] ++ utf8 ['{'] ++ utf8 ('"' :: ("encoding".toList ++ ['"', ':'])) ++
        utf8 ('"' :: ("MEOS-WKB".toList ++ ['"'])) ++ utf8 [','] ++
          utf8 ('"' :: ("encoding_version".toList ++ ['"', ':'])) ++ utf8 ['"'] := rfl
  have hversion' : utf8 ('"' :: (meosWkbEncodingVersion.toList ++ ['"'])) =
      utf8 ['"'] ++ literal meosWkbEncodingVersion ++ utf8 ['"'] := rfl
  have hbase' : literal "\",\"base_type\":" =
      utf8 ['"'] ++ utf8 [','] ++ utf8 ('"' :: ("base_type".toList ++ ['"', ':'])) := rfl
  beta_reduce
  rw [← hf, appendColumn, temporalCoveringOf_literal, hopen, hversion', hbase']
  simp only [List.append_assoc]
  rfl

example : appendColumn [] (literal "a\"b\\c") (literal "tstzspan") =
    literal "\"a\\\"b\\\\c\":\x7b\"encoding\":\"MEOS-WKB\",\"encoding_version\":\"1.0\"," ++
      literal "\"base_type\":\"tstzspan\"\x7d" := by
  decide

/-! ### What a footer says -/

/-- The value says of the column its type, and the covering its type fixes: of every bound, the struct
column and the field that carry it. -/
structure DescribesColumn (column baseType : String) (v : Json) : Prop where
  type : v.member "base_type" = some (.str baseType)
  covering : v.member "covering" = if coveringsOf baseType = [] then none else
    some (.obj ((coveringsOf baseType).map fun covering => (covering.key,
      .obj (covering.bounds.map fun b => (b, .arr [.str (column ++ covering.columnSuffix), .str b])))))

/-- The value says the version, and of every entry its column; it says nothing of other columns. -/
structure DescribesFooter (entries : List (String × String)) (v : Json) : Prop where
  version : v.member "version" = some (.str temporalParquetVersion)
  columns : ∃ columns, v.member "columns" = some (.obj columns) ∧
    List.Forall₂ (fun entry column => column.1 = entry.1 ∧ DescribesColumn entry.1 entry.2 column.2)
      entries columns

theorem describesColumn_columnJson (column baseType : String) :
    DescribesColumn column baseType (columnJson column baseType) where
  type := rfl
  covering := by
    have hmore : (columnJson column baseType).member "covering" =
        ((moreMembers column baseType).find? fun m => m.1 = "covering").map (·.2) := rfl
    have hedges : ((((coveringTypeOf baseType).bind (·.edges)).map edgesMembers).getD []).find?
        (fun m => m.1 = "covering") = none := by
      cases (coveringTypeOf baseType).bind (·.edges) with
      | none => rfl
      | some edges => rfl
    rw [hmore, moreMembers, List.find?_append, hedges, Option.none_or, coveringMembers]
    by_cases hnil : coveringsOf baseType = []
    · rw [if_neg (not_not.mpr hnil), if_pos hnil]
      rfl
    · rw [if_pos hnil, if_neg hnil]
      rfl

/-- The members of a footer. -/
def footerMembers (entries : List (String × String)) : List (String × Json) :=
  [("version", .str temporalParquetVersion),
    ("columns", .obj (entries.map fun entry => (entry.1, columnJson entry.1 entry.2)))]

theorem describesFooter_footerMembers (entries : List (String × String)) :
    DescribesFooter entries (.obj (footerMembers entries)) where
  version := rfl
  columns := by
    refine ⟨_, rfl, ?_⟩
    rw [List.forall₂_map_right_iff, List.forall₂_same]
    exact fun entry _ => ⟨rfl, describesColumn_columnJson entry.1 entry.2⟩

/-! ### Rows -/

/-- The entry, if its key and its value are there. -/
def presentEntry (entry : Option String × Option String) : Option (String × String) :=
  match entry with
  | (some key, some val) => some (key, val)
  | _ => none

/-- The map of a row: its entries in their order, or no map. -/
def MapVector.value (map : MapVector) (i : ℕ) : Option (List (Option String × Option String)) :=
  if map.validity (map.sel i) then
    some ((List.range' (map.listEntries (map.sel i)).1 (map.listEntries (map.sel i)).2).map
      fun j => (map.keys j, map.vals j))
  else none

/-- The column of an entry, at the end of the text. -/
def appendEntry (out : List UInt8) (entry : String × String) : List UInt8 :=
  appendColumn out (literal entry.1) (literal entry.2)

theorem footerStep_eq (map : MapVector) (state : List UInt8 × Bool) (j : ℕ) :
    map.footerStep state j = match presentEntry (map.keys j, map.vals j) with
      | some entry => (appendEntry (if !state.2 then state.1 ++ literal "," else state.1) entry, false)
      | none => state := by
  unfold MapVector.footerStep presentEntry
  cases map.keys j with
  | none => rfl
  | some key =>
    cases map.vals j with
    | none => rfl
    | some val => rfl

/-- After a first column, every entry that is there comes with a comma. -/
theorem foldl_footerStep_false (map : MapVector) : ∀ (js : List ℕ) (out : List UInt8),
    (js.foldl map.footerStep (out, false)).1 =
      ((js.map fun j => (map.keys j, map.vals j)).filterMap presentEntry).foldl
        (fun out entry => appendEntry (out ++ literal ",") entry) out
  | [], _ => rfl
  | j :: js, out => by
    rw [List.foldl_cons, footerStep_eq, List.map_cons, List.filterMap_cons]
    cases presentEntry (map.keys j, map.vals j) with
    | none => exact foldl_footerStep_false map js out
    | some entry => exact foldl_footerStep_false map js _

/-- The entries of a row that are there, and only these, become columns; the first has no comma. -/
theorem foldl_footerStep_true (map : MapVector) : ∀ (js : List ℕ) (out : List UInt8),
    (js.foldl map.footerStep (out, true)).1 =
      match (js.map fun j => (map.keys j, map.vals j)).filterMap presentEntry with
      | [] => out
      | entry :: entries =>
        entries.foldl (fun out entry => appendEntry (out ++ literal ",") entry) (appendEntry out entry)
  | [], _ => rfl
  | j :: js, out => by
    rw [List.foldl_cons, footerStep_eq, List.map_cons, List.filterMap_cons]
    cases presentEntry (map.keys j, map.vals j) with
    | none => exact foldl_footerStep_true map js out
    | some entry => exact foldl_footerStep_false map js _

theorem writes_appendEntry (entry : String × String) :
    Writes (Json.CompactMember (entry.1, columnJson entry.1 entry.2)) fun out => appendEntry out entry :=
  writes_appendColumn entry.1 entry.2

/-- The columns of a row. -/
theorem writes_columns : ∀ entries : List (String × String),
    Writes (Json.CompactMembers (entries.map fun entry => (entry.1, columnJson entry.1 entry.2)))
      fun out => match entries with
        | [] => out
        | entry :: entries =>
          entries.foldl (fun out entry => appendEntry (out ++ literal ",") entry) (appendEntry out entry)
  | [] => ⟨[], .nil, fun out => (List.append_nil out).symm⟩
  | _ :: _ => Writes.members fun entry _ => writes_appendEntry entry

/-- The text of a row's entries: one object, which says of them what it should. -/
theorem exists_footerText (entries : List (String × String)) :
    ∃ text, Json.Compact (.obj (footerMembers entries)) text ∧
      ∀ (map : MapVector) (js : List ℕ),
        (js.map fun j => (map.keys j, map.vals j)).filterMap presentEntry = entries →
        (js.foldl map.footerStep (literal "\x7b\"version\":\"" ++ literal temporalParquetVersion ++
          literal "\",\"columns\":\x7b", true)).1 ++ literal "\x7d\x7d" = utf8 text := by
  have hversion := Writes.plainMember (k := "version") (by decide)
    (Writes.plainStr (s := temporalParquetVersion) (by decide))
  have hcolumns :=
    (Writes.plainMember (k := "columns") (by decide) (writes_columns entries).obj).moreMembers_one
  obtain ⟨t, ht, hf⟩ := (hversion.members_append hcolumns).obj
  beta_reduce at hf
  refine ⟨t, ht, fun map js hjs => ?_⟩
  have hopen : literal "\x7b\"version\":\"" ++ literal temporalParquetVersion ++
      literal "\",\"columns\":\x7b" = [] ++ utf8 ['{'] ++ utf8 ('"' :: ("version".toList ++ ['"', ':'])) ++
        utf8 ('"' :: (temporalParquetVersion.toList ++ ['"'])) ++ utf8 [','] ++
          utf8 ('"' :: ("columns".toList ++ ['"', ':'])) ++ utf8 ['{'] := rfl
  have hclose : literal "\x7d\x7d" = utf8 ['}'] ++ utf8 ['}'] := rfl
  rw [foldl_footerStep_true, hjs, hopen, hclose, ← List.append_assoc]
  exact hf []

theorem temporalFooterFun_apply (map : MapVector) (result : ℕ → Option (List UInt8)) :
    ∀ n i : ℕ, i < n →
      ((List.range n).foldl (fun result i => Function.update result i (map.footerRow i)) result) i =
        map.footerRow i
  | n + 1, i, h => by
    rw [List.range_succ, List.foldl_append, List.foldl_cons, List.foldl_nil]
    by_cases hi : i = n
    · rw [hi, Function.update_self]
    · rw [Function.update_of_ne hi]
      exact temporalFooterFun_apply map result n i (by omega)

/-- **`temporalFooter` writes a row's own map as one JSON object that describes it.** There is one text
for the entries of a map, whatever rows the chunk holds beside; it decodes to the version and to one
column for each entry that is there. -/
theorem temporalFooter_decodes :
    ∃ footer : List (Option String × Option String) → List Char,
      (∀ (map : MapVector) (result : ℕ → Option (List UInt8)) (i : Fin map.count),
        temporalFooterFun map result i = (map.value i).map fun entries => utf8 (footer entries)) ∧
      ∀ entries, ∃ members, Json.Compact (.obj members) (footer entries) ∧
        Json.decode (footer entries) = some (.obj members) ∧
          DescribesFooter (entries.filterMap presentEntry) (.obj members) := by
  choose footer hcompact hrow using exists_footerText
  refine ⟨fun entries => footer (entries.filterMap presentEntry), fun map result i => ?_,
    fun entries => ?_⟩
  · rw [temporalFooterFun, temporalFooterFun_apply map result map.count i i.isLt, MapVector.footerRow,
      MapVector.value]
    by_cases hvalid : map.validity (map.sel i) = true
    · rw [if_neg (by simp [hvalid]), if_pos hvalid, Option.map_some]
      exact congrArg some (hrow _ map _ rfl)
    · rw [if_pos (by simpa using hvalid), if_neg hvalid]
      rfl
  · have h := hcompact (entries.filterMap presentEntry)
    exact ⟨_, h, h.decode, describesFooter_footerMembers _⟩

end MobilityDuck
