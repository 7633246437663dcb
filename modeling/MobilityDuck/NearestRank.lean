/-
# The rank of a row, and the operator it stands for

A nearest-neighbour scan ranks a row by `exactDistance`, which goes by the kind of
box of the index and then by the type found in the value. The query orders by
`|=|`, whose overload is chosen by the types of its operands. An index measures
against a box, so the overloads that count are those between an indexed type and
its box (`boxOverload`): the numbers and the spatial types with theirs, and the
stbox with itself.

For the temporal types the two agree for every value, also for one of another
type, which the operator refuses (`rankRight_temporal`). A stored stbox is handed to
MEOS as a temporal value, which MEOS refuses. So the rank is the operator's distance
but for an index over stboxes, where it is only when the operator raises itself
(`rankRight_iff`).

Key definitions: `boxOverload`, `Nearest.Documented`, `StoredBox`, `RankRight`. Key theorem:
`rankRight_iff`.
-/
import MobilityDuck.OptimizeTopN

namespace MobilityDuck

variable {n : ℕ} {meos : Meos n} {δ : Type} [LinearOrder δ]

/-! ### The overloads -/

/-- The answer for a stored value and a query box, the column standing on the left or on the right. -/
def DistanceOperator.answer (op : DistanceOperator δ) (columnLeft : Bool) (value query : List UInt8) :
    Except Exception (Option δ) :=
  if columnLeft then op (.blob value) (.blob query) else op (.blob query) (.blob value)

section Overloads

variable (near : Nearest meos δ) (intMax : δ) (nadStboxStbox : List UInt8 → List UInt8 → Except String δ)

/-- The documented behaviour of the distances of MEOS. Each answers the greatest number of its type when
there is no nearest approach, and refuses a value of another kind; two stboxes have a distance when they can
be compared. -/
structure Nearest.Documented (isTgeo : List UInt8 → Bool) (comparable : List UInt8 → List UInt8 → Bool) :
    Prop where
  le_max : ∀ type v q d, near.nad type v q = .ok d → d ≤ maxDistance near intMax type
  refuses : ∀ type v q, near.temporalType v ≠ some type.temporalType → ∃ e, near.nad type v q = .error e
  refuses_tgeo : ∀ v q, isTgeo v = false → ∃ e, near.nadTgeoStbox v q = .error e
  refuses_stbox : ∀ b q, (∃ e, nadStboxStbox b q = .error e) ↔ comparable b q = false

/-- A box a column of stboxes holds. Its bytes, read as a temporal value, are of no spatial type. -/
structure StoredBox (isTgeo : List UInt8 → Bool) (b : List UInt8) : Prop where
  read : near.temporalType b = some .other
  not_tgeo : isTgeo b = false

end Overloads

/-- The rank of a value is the distance the operator answers; where that is NULL the rank is behind all its
numbers, and the rank raises only where the operator does. -/
structure RankRight (near : Nearest meos δ) (bboxType : MeosType) (op : DistanceOperator δ) (columnLeft : Bool)
    (value query : List UInt8) : Prop where
  equal : ∀ d, op.answer columnLeft value query = .ok (some d) → exactDistance near bboxType value query = .ok d
  last : op.answer columnLeft value query = .ok none → ∃ r, exactDistance near bboxType value query = .ok r ∧
    ∀ a b d, op a b = .ok (some d) → d < r
  raises : ∀ e, exactDistance near bboxType value query = .error e →
    ∃ e', op.answer columnLeft value query = .error e'

variable {near : Nearest meos δ} {intMax : δ} {nadStboxStbox : List UInt8 → List UInt8 → Except String δ}
  {isTgeo : List UInt8 → Bool} {comparable : List UInt8 → List UInt8 → Bool}

section Answers

variable {bboxType : MeosType} {op : DistanceOperator δ} {columnLeft : Bool} {value query : List UInt8} {r : δ}

/-- Where the operator raises, every rank will do. -/
theorem rankRight_of_error {e : Exception} (h : op.answer columnLeft value query = .error e) :
    RankRight near bboxType op columnLeft value query where
  equal d hd := by
    rw [h] at hd
    cases hd
  last hnone := by
    rw [h] at hnone
    cases hnone
  raises _ _ := ⟨e, h⟩

theorem rankRight_of_number (h : op.answer columnLeft value query = .ok (some r))
    (hrank : exactDistance near bboxType value query = .ok r) :
    RankRight near bboxType op columnLeft value query where
  equal d hd := by
    rw [h] at hd
    obtain rfl := Option.some.inj (Except.ok.inj hd)
    exact hrank
  last hnone := by
    rw [h] at hnone
    cases hnone
  raises e he := by
    rw [hrank] at he
    cases he

theorem rankRight_of_null (h : op.answer columnLeft value query = .ok none)
    (hrank : exactDistance near bboxType value query = .ok r) (hlast : ∀ a b d, op a b = .ok (some d) → d < r) :
    RankRight near bboxType op columnLeft value query where
  equal d hd := by
    rw [h] at hd
    cases hd
  last _ := ⟨r, hrank, hlast⟩
  raises e he := by
    rw [hrank] at he
    cases he

end Answers

/-- What an operator of this shape answers is a distance short of the greatest number. -/
theorem genNad_eq_ok_some {nad : List UInt8 → List UInt8 → Except String δ} {max d : δ} {value box : Value}
    (h : genNad nad max value box = .ok (some d)) : ∃ v q, nad v q = .ok d ∧ d ≠ max := by
  unfold genNad at h
  split at h
  · rename_i v q
    cases hnad : nad v q with
    | error e =>
      rw [hnad] at h
      cases h
    | ok r =>
      rw [hnad] at h
      have hr : (if r = max then none else some r) = some d := Except.ok.inj h
      by_cases hmax : r = max
      · rw [if_pos hmax] at hr
        cases hr
      · rw [if_neg hmax] at hr
        obtain rfl := Option.some.inj hr
        exact ⟨v, q, hnad, hmax⟩
  · cases h

/-! ### The temporal types -/

/-- **A column of a temporal type.** Where the overload is the distance of that type, the rank is right. -/
theorem rankRight_temporal (hmeos : near.Documented intMax nadStboxStbox isTgeo comparable)
    {type : LogicalType} {bboxType : MeosType} (hbox : bboxTypeOf type = some bboxType)
    (htemporal : indexesTemporal type = true) {op : DistanceOperator δ} {columnLeft : Bool}
    (hop : ∀ value query : Value, (if columnLeft then op value query else op query value) =
      genNad (near.nad type) (maxDistance near intMax type) value query) (v q : List UInt8) :
    RankRight near bboxType op columnLeft v q := by
  have hanswer : op.answer columnLeft v q =
      (callMeos (near.nad type v q)).map fun r => if r = maxDistance near intMax type then none else some r :=
    hop (.blob v) (.blob q)
  by_cases hv : near.temporalType v = some type.temporalType
  · have hrank : exactDistance near bboxType v q = callMeos (near.nad type v q) :=
      exactDistance_of_typed hbox htemporal hv
    cases hnad : near.nad type v q with
    | error e =>
      rw [hnad] at hanswer
      exact rankRight_of_error hanswer
    | ok r =>
      rw [hnad] at hanswer hrank
      by_cases hmax : r = maxDistance near intMax type
      · have hnone : op.answer columnLeft v q = .ok none := hanswer.trans (congrArg _ (if_pos hmax))
        refine rankRight_of_null hnone hrank fun a b d hd => ?_
        have hgen : ∃ value query : Value,
            genNad (near.nad type) (maxDistance near intMax type) value query = .ok (some d) := by
          cases columnLeft with
          | true => exact ⟨a, b, (hop a b).symm.trans hd⟩
          | false => exact ⟨b, a, (hop b a).symm.trans hd⟩
        obtain ⟨value, query, hgen⟩ := hgen
        obtain ⟨v', q', hd', hne⟩ := genNad_eq_ok_some hgen
        rw [hmax]
        exact lt_of_le_of_ne (hmeos.le_max type v' q' d hd') hne
      · exact rankRight_of_number (hanswer.trans (congrArg _ (if_neg hmax))) hrank
  · -- The operator refuses a value of another type, whatever the rank makes of it.
    obtain ⟨e, hnad⟩ := hmeos.refuses type v q hv
    rw [hnad] at hanswer
    exact rankRight_of_error hanswer

/-! ### The boxes -/

/-- **A column of stboxes.** A stored box is refused as a temporal value; the rank is right only where the
operator refuses the two boxes. -/
theorem rankRight_stbox_iff (hmeos : near.Documented intMax nadStboxStbox isTgeo comparable) (columnLeft : Bool)
    {b : List UInt8} (hb : StoredBox near isTgeo b) (q : List UInt8) :
    RankRight near .stbox (genNadStboxStboxV1 near nadStboxStbox) columnLeft b q ↔
      (if columnLeft then comparable b q else comparable q b) = false := by
  obtain ⟨e, hrefused⟩ := hmeos.refuses_tgeo b q hb.not_tgeo
  have hrank : exactDistance near .stbox b q = .error (.meos e) := by
    rw [exactDistance, hb.read]
    exact congrArg callMeos hrefused
  have hanswer : ∀ x y, (∃ e', genNadStboxStboxV1 near nadStboxStbox (.blob x) (.blob y) = .error e') ↔
      comparable x y = false := by
    intro x y
    rw [← hmeos.refuses_stbox x y]
    cases hnad : nadStboxStbox x y with
    | error e' => simp [genNadStboxStboxV1, genNad, hnad, callMeos, Except.map]
    | ok r => simp [genNadStboxStboxV1, genNad, hnad, callMeos, Except.map]
  have hraises : (∃ e', (genNadStboxStboxV1 near nadStboxStbox).answer columnLeft b q = .error e') ↔
      (if columnLeft then comparable b q else comparable q b) = false := by
    cases columnLeft with
    | true => exact hanswer b q
    | false => exact hanswer q b
  constructor
  · intro h
    exact hraises.mp (h.raises _ hrank)
  · intro h
    obtain ⟨e', he'⟩ := hraises.mpr h
    exact rankRight_of_error he'

/-! ### Every index -/

/-- The operands of an overload that the matcher of an index accepts are the indexed type and its box. -/
theorem operands_of_accepted {sets : SetMatcher} {info : IndexInfo} {type : LogicalType} {x y : Expression}
    (h : (info.tryMatchNearestFunction sets (.function nnOperation type [x, y])).isSome) :
    (info.bboxType = .stbox ∨ info.bboxType = .tbox) ∧
      ((x.returnType = info.columnType ∧ y.returnType = info.bboxType.logicalType) ∨
        (y.returnType = info.columnType ∧ x.returnType = info.bboxType.logicalType)) := by
  obtain ⟨bindings, h⟩ := Option.isSome_iff_exists.mp h
  obtain ⟨m, hm, hmatch⟩ := Option.bind_eq_some_iff.mp h
  unfold IndexInfo.makeNearestMatcher at hm
  by_cases hbox : info.bboxType = .stbox ∨ info.bboxType = .tbox
  · rw [if_pos hbox] at hm
    obtain rfl := Option.some.inj hm
    obtain ⟨_, _, x', y', heq, -, -, htypes⟩ := match_pair_eq_some hmatch
    obtain ⟨-, -, hargs⟩ := Expression.function.inj heq
    obtain ⟨rfl, rfl⟩ : x = x' ∧ y = y' := by simpa using hargs
    simp only [operandMatcher_some] at htypes
    exact ⟨hbox, htypes⟩
  · rw [if_neg hbox] at hm
    cases hm

/-- **The rank of a row.** For every index, every overload of `|=|` its matcher accepts, every stored value
and every query box, the rank is right if and only if the index is over another type than stboxes, or the
two boxes cannot be compared. -/
theorem rankRight_iff (near : Nearest meos δ) (intMax : δ)
    (nadStboxStbox : List UInt8 → List UInt8 → Except String δ) (isTgeo : List UInt8 → Bool)
    (comparable : List UInt8 → List UInt8 → Bool)
    (hmeos : near.Documented intMax nadStboxStbox isTgeo comparable) (sets : SetMatcher) (info : IndexInfo)
    (type : LogicalType) (x y : Expression)
    (haccepted : (info.tryMatchNearestFunction sets (.function nnOperation type [x, y])).isSome)
    (columnLeft : Bool) (hcolumn : (if columnLeft then x else y).returnType = info.columnType)
    (op : DistanceOperator δ)
    (hop : boxOverload near intMax nadStboxStbox x.returnType y.returnType = some op) (v q : List UInt8)
    (hstored : info.columnType = .stbox → StoredBox near isTgeo v) :
    RankRight near info.bboxType op columnLeft v q ↔
      info.columnType ≠ .stbox ∨ (if columnLeft then comparable v q else comparable q v) = false := by
  obtain ⟨hbox, htypes⟩ := operands_of_accepted haccepted
  rcases bboxTypeOf_eq_some info.bboxType_eq with hself | htemporal
  · -- An index over boxes: both operands are boxes of its kind.
    rw [hself] at htypes
    obtain ⟨hx, hy⟩ : x.returnType = info.bboxType.logicalType ∧ y.returnType = info.bboxType.logicalType :=
      htypes.elim id And.symm
    rw [hx, hy] at hop
    rcases hbox with hstbox | htbox
    · rw [hstbox] at hself hop ⊢
      obtain rfl : genNadStboxStboxV1 near nadStboxStbox = op := Option.some.inj hop
      have hcol : info.columnType = .stbox := hself
      rw [rankRight_stbox_iff hmeos columnLeft (hstored hcol) q]
      simp [hcol]
    · rw [htbox] at hop
      cases hop
  · -- An index over temporal values: the box stands on the other side.
    have hboxless : ∀ t : MeosType, t.logicalType ≠ info.columnType := by
      intro t ht
      rw [← ht, indexesTemporal_logicalType] at htemporal
      cases htemporal
    have hne : info.columnType ≠ .stbox := fun h => hboxless .stbox h.symm
    have hoverload : distanceOverload near intMax x.returnType y.returnType = some op := by
      rw [boxOverload, if_neg] at hop
      · exact hop
      · rintro ⟨hx, hy⟩
        cases columnLeft with
        | true => exact hne (hcolumn.symm.trans hx)
        | false => exact hne (hcolumn.symm.trans hy)
    refine iff_of_true ?_ (.inl hne)
    refine rankRight_temporal hmeos info.bboxType_eq htemporal ?_ v q
    intro value query
    cases columnLeft with
    | true =>
      have hx : x.returnType = info.columnType := hcolumn
      rcases distanceOverload_eq_some hoverload with ⟨t, -, -, hnad⟩ | ⟨t, -, hleft, -⟩
      · rw [hx] at hnad
        exact hnad value query
      · exact absurd (hleft.symm.trans hx) (hboxless t)
    | false =>
      have hy : y.returnType = info.columnType := hcolumn
      rcases distanceOverload_eq_some hoverload with ⟨t, -, hright, -⟩ | ⟨t, -, -, hnad⟩
      · exact absurd (hright.symm.trans hy) (hboxless t)
      · rw [hy] at hnad
        exact hnad value query

/-! ### Values with a type byte -/

/-- The distance of the bytes behind the first, for values that start with a tag. -/
def taggedNad (tag : UInt8) (v q : List UInt8) : Except String ℕ :=
  if v.headD 0 = tag then .ok (byteDistance v.tail q.tail) else .error "a value of another type"

/-- A MEOS of values that start with a byte for their type: 1 a tint, 2 a tfloat, 3 a spatial one. The byte
of a box is 0. -/
def taggedNear : Nearest pointMeos ℕ where
  cursor _ _ := []
  temporalType v := some (if v.headD 0 = 1 then .tint else if v.headD 0 = 2 then .tfloat else .other)
  nadTintTbox := taggedNad 1
  nadTbigintTbox := taggedNad 4
  nadTfloatTbox := taggedNad 2
  nadTgeoStbox := taggedNad 3
  max := 512

/-- The distance of two boxes there, which can all be compared. -/
def taggedStboxStbox (b q : List UInt8) : Except String ℕ := .ok (byteDistance b.tail q.tail)

theorem byteDistance_le (x y : List UInt8) : byteDistance x y ≤ 256 := by
  have hx := (x.headD 0).toNat_lt
  have hy := (y.headD 0).toNat_lt
  unfold byteDistance
  omega

theorem taggedNad_le {tag : UInt8} {v q : List UInt8} {d : ℕ} (h : taggedNad tag v q = .ok d) : d ≤ 256 := by
  unfold taggedNad at h
  by_cases htag : v.headD 0 = tag
  · rw [if_pos htag] at h
    exact Except.ok.inj h ▸ byteDistance_le _ _
  · rw [if_neg htag] at h
    cases h

theorem taggedNad_of_ne {tag : UInt8} {v : List UInt8} (h : v.headD 0 ≠ tag) (q : List UInt8) :
    ∃ e, taggedNad tag v q = .error e := ⟨_, if_neg h⟩

theorem taggedNear_documented :
    taggedNear.Documented 256 taggedStboxStbox (fun v => v.headD 0 = 3) fun _ _ => true where
  le_max type v q d h := by
    unfold Nearest.nad at h
    unfold maxDistance
    by_cases htint : type = .tint
    · rw [if_pos htint] at h ⊢
      exact taggedNad_le h
    · rw [if_neg htint] at h ⊢
      by_cases htfloat : type = .tfloat
      · rw [if_pos htfloat] at h
        exact (taggedNad_le h).trans (by decide)
      · rw [if_neg htfloat] at h
        exact (taggedNad_le h).trans (by decide)
  refuses type v q h := by
    unfold LogicalType.temporalType at h
    unfold Nearest.nad
    by_cases htint : type = .tint
    · rw [if_pos htint] at h ⊢
      exact taggedNad_of_ne (fun hv => h (congrArg some (if_pos hv))) q
    · rw [if_neg htint] at h ⊢
      by_cases htfloat : type = .tfloat
      · rw [if_pos htfloat] at h ⊢
        refine taggedNad_of_ne (fun hv => h ?_) q
        simp only [taggedNear, hv]
        rfl
      · rw [if_neg htfloat] at h ⊢
        refine taggedNad_of_ne (fun hv => h ?_) q
        simp only [taggedNear, hv]
        rfl
  refuses_tgeo _ q h := taggedNad_of_ne (of_decide_eq_false h) q
  refuses_stbox b q := by simp [taggedStboxStbox]

/-- A column of integers, on the right of the operator. -/
theorem rankRight_iff_tint : RankRight taggedNear .tbox (genNadTintTboxRev taggedNear 256) false [1, 9]
    (List.replicate MeosType.tbox.boxSize 0) := by
  have h := rankRight_iff taggedNear 256 taggedStboxStbox (fun v => v.headD 0 = 3) (fun _ _ => true)
    taggedNear_documented .backtracking ⟨"i", .trtree, [0], .tint, .tbox, rfl⟩ ⟨.double, ""⟩
    (.constant (zeroBox .tbox)) (.columnRef .tint ⟨0, 0⟩) rfl false rfl (genNadTintTboxRev taggedNear 256) rfl
    [1, 9] (List.replicate MeosType.tbox.boxSize 0) nofun
  exact h.mpr (.inl (by decide))

/-- An index over stboxes. -/
def boxInfo : IndexInfo := ⟨"i", .trtree, [0], .stbox, .stbox, bboxTypeOf_stbox⟩

/-- A stored stbox. -/
def farBox : List UInt8 := 0 :: 9 :: List.replicate 78 0

/-- The matcher accepts the distance of a column of stboxes to a box, and the rank raises where the operator
answers. -/
theorem stbox_misranked :
    (boxInfo.tryMatchNearestFunction .backtracking (.function nnOperation ⟨.double, ""⟩
      [.columnRef .stbox ⟨0, 0⟩, .constant (zeroBox .stbox)])).isSome ∧
    boxOverload taggedNear 256 taggedStboxStbox .stbox .stbox =
      some (genNadStboxStboxV1 taggedNear taggedStboxStbox) ∧
    (genNadStboxStboxV1 taggedNear taggedStboxStbox).answer true farBox
      (List.replicate MeosType.stbox.boxSize 0) = .ok (some 9) ∧
    ¬ RankRight taggedNear boxInfo.bboxType (genNadStboxStboxV1 taggedNear taggedStboxStbox) true farBox
      (List.replicate MeosType.stbox.boxSize 0) := by
  have hanswer : (genNadStboxStboxV1 taggedNear taggedStboxStbox).answer true farBox
      (List.replicate MeosType.stbox.boxSize 0) = .ok (some 9) := rfl
  refine ⟨rfl, rfl, hanswer, fun h => ?_⟩
  have hrank : exactDistance taggedNear boxInfo.bboxType farBox (List.replicate MeosType.stbox.boxSize 0) =
      .error (.meos "a value of another type") := rfl
  rw [h.equal 9 hanswer] at hrank
  cases hrank

end MobilityDuck
