/-
# The operators an index answers

`indexOperators` is the generated table: for each operator symbol and each
SQL name of the function behind it, the MEOS search of `column <name> query`
and, where the operator has a commutator, of `query <name> column`. A search
compares along one axis, and an index answers it when its box carries that
axis. Every row of the table commutes its search in one way
(`commuted_eq`), an involution that keeps the axis, so the search of a
predicate with the query on the left is the commuted one
(`indexSearchOpFromName_left`).

Key definitions: `IndexSearchOp`, `indexOperators`, `indexSearchOpFromName`,
`indexOperatorNames`, `IndexSearchOp.commute`.
-/
import MobilityDuck.Types

namespace MobilityDuck

/-- The searches a MEOS tree offers. -/
inductive IndexSearchOp
  | overlaps
  | contains
  | containedBy
  | same
  | adjacent
  | left
  | overleft
  | right
  | overright
  | below
  | overbelow
  | above
  | overabove
  | front
  | overfront
  | back
  | overback
  | before
  | overbefore
  | after
  | overafter
  deriving DecidableEq, Repr

/-- The axis a bounding-box operator compares along. -/
inductive IndexOperatorAxis
  | extent
  | horizontal
  | vertical
  | depth
  | time
  deriving DecidableEq, Repr

/-- `IndexSearchAxis`. -/
def IndexSearchOp.axis : IndexSearchOp → IndexOperatorAxis
  | .overlaps | .contains | .containedBy | .same | .adjacent => .extent
  | .left | .overleft | .right | .overright => .horizontal
  | .below | .overbelow | .above | .overabove => .vertical
  | .front | .overfront | .back | .overback => .depth
  | .before | .overbefore | .after | .overafter => .time

/-- `IndexBboxHasAxis`. -/
def MeosType.hasAxis (bboxType : MeosType) (axis : IndexOperatorAxis) : Bool :=
  if axis = .extent then true
  else
    match bboxType with
    | .stbox => true
    | .tbox => axis = .horizontal ∨ axis = .time
    | .tstzspan | .datespan => axis = .time
    | .intspan | .bigintspan | .floatspan => axis = .horizontal

/-- An entry of the operator table. -/
structure IndexOperatorEntry where
  name : String
  /-- The search of `column <name> query`. -/
  direct : IndexSearchOp
  /-- Whether `query <name> column` has a search. -/
  hasCommuted : Bool
  /-- The search of `query <name> column`, where there is one. -/
  commuted : IndexSearchOp

/-- `INDEX_OPERATORS`. -/
def indexOperators : List IndexOperatorEntry := [
  ⟨"#&>", .overafter, false, .overafter⟩,
  ⟨"#>>", .after, true, .before⟩,
  ⟨"&&", .overlaps, true, .overlaps⟩,
  ⟨"&<", .overleft, false, .overleft⟩,
  ⟨"&<#", .overbefore, false, .overbefore⟩,
  ⟨"&</", .overfront, false, .overfront⟩,
  ⟨"&<|", .overbelow, false, .overbelow⟩,
  ⟨"&>", .overright, false, .overright⟩,
  ⟨"-|-", .adjacent, true, .adjacent⟩,
  ⟨"/&>", .overback, false, .overback⟩,
  ⟨"/>>", .back, true, .front⟩,
  ⟨"<<", .left, true, .right⟩,
  ⟨"<<#", .before, true, .after⟩,
  ⟨"<</", .front, true, .back⟩,
  ⟨"<<|", .below, true, .above⟩,
  ⟨"<@", .containedBy, true, .contains⟩,
  ⟨">>", .right, true, .left⟩,
  ⟨"@>", .contains, true, .containedBy⟩,
  ⟨"setAfter", .after, true, .before⟩,
  ⟨"setBefore", .before, true, .after⟩,
  ⟨"setContained", .containedBy, true, .contains⟩,
  ⟨"setContains", .contains, true, .containedBy⟩,
  ⟨"setLeft", .left, true, .right⟩,
  ⟨"setOverafter", .overafter, false, .overafter⟩,
  ⟨"setOverbefore", .overbefore, false, .overbefore⟩,
  ⟨"setOverlaps", .overlaps, true, .overlaps⟩,
  ⟨"setOverleft", .overleft, false, .overleft⟩,
  ⟨"setOverright", .overright, false, .overright⟩,
  ⟨"setRight", .right, true, .left⟩,
  ⟨"spanAdjacent", .adjacent, true, .adjacent⟩,
  ⟨"spanAfter", .after, true, .before⟩,
  ⟨"spanBefore", .before, true, .after⟩,
  ⟨"spanContained", .containedBy, true, .contains⟩,
  ⟨"spanContains", .contains, true, .containedBy⟩,
  ⟨"spanLeft", .left, true, .right⟩,
  ⟨"spanOverafter", .overafter, false, .overafter⟩,
  ⟨"spanOverbefore", .overbefore, false, .overbefore⟩,
  ⟨"spanOverlaps", .overlaps, true, .overlaps⟩,
  ⟨"spanOverleft", .overleft, false, .overleft⟩,
  ⟨"spanOverright", .overright, false, .overright⟩,
  ⟨"spanRight", .right, true, .left⟩,
  ⟨"spanSame", .same, true, .same⟩,
  ⟨"spansetAdjacent", .adjacent, true, .adjacent⟩,
  ⟨"spansetAfter", .after, true, .before⟩,
  ⟨"spansetBefore", .before, true, .after⟩,
  ⟨"spansetContained", .containedBy, true, .contains⟩,
  ⟨"spansetContains", .contains, true, .containedBy⟩,
  ⟨"spansetLeft", .left, true, .right⟩,
  ⟨"spansetOverafter", .overafter, false, .overafter⟩,
  ⟨"spansetOverbefore", .overbefore, false, .overbefore⟩,
  ⟨"spansetOverlaps", .overlaps, true, .overlaps⟩,
  ⟨"spansetOverleft", .overleft, false, .overleft⟩,
  ⟨"spansetOverright", .overright, false, .overright⟩,
  ⟨"spansetRight", .right, true, .left⟩,
  ⟨"stboxAbove", .above, true, .below⟩,
  ⟨"stboxAdjacent", .adjacent, true, .adjacent⟩,
  ⟨"stboxAfter", .after, true, .before⟩,
  ⟨"stboxBack", .back, true, .front⟩,
  ⟨"stboxBefore", .before, true, .after⟩,
  ⟨"stboxBelow", .below, true, .above⟩,
  ⟨"stboxContained", .containedBy, true, .contains⟩,
  ⟨"stboxContains", .contains, true, .containedBy⟩,
  ⟨"stboxFront", .front, true, .back⟩,
  ⟨"stboxLeft", .left, true, .right⟩,
  ⟨"stboxOverabove", .overabove, false, .overabove⟩,
  ⟨"stboxOverafter", .overafter, false, .overafter⟩,
  ⟨"stboxOverback", .overback, false, .overback⟩,
  ⟨"stboxOverbefore", .overbefore, false, .overbefore⟩,
  ⟨"stboxOverbelow", .overbelow, false, .overbelow⟩,
  ⟨"stboxOverfront", .overfront, false, .overfront⟩,
  ⟨"stboxOverlaps", .overlaps, true, .overlaps⟩,
  ⟨"stboxOverleft", .overleft, false, .overleft⟩,
  ⟨"stboxOverright", .overright, false, .overright⟩,
  ⟨"stboxRight", .right, true, .left⟩,
  ⟨"stboxSame", .same, true, .same⟩,
  ⟨"tboxAdjacent", .adjacent, true, .adjacent⟩,
  ⟨"tboxAfter", .after, true, .before⟩,
  ⟨"tboxBefore", .before, true, .after⟩,
  ⟨"tboxContained", .containedBy, true, .contains⟩,
  ⟨"tboxContains", .contains, true, .containedBy⟩,
  ⟨"tboxLeft", .left, true, .right⟩,
  ⟨"tboxOverafter", .overafter, false, .overafter⟩,
  ⟨"tboxOverbefore", .overbefore, false, .overbefore⟩,
  ⟨"tboxOverlaps", .overlaps, true, .overlaps⟩,
  ⟨"tboxOverleft", .overleft, false, .overleft⟩,
  ⟨"tboxOverright", .overright, false, .overright⟩,
  ⟨"tboxRight", .right, true, .left⟩,
  ⟨"tboxSame", .same, true, .same⟩,
  ⟨"tpcboxAbove", .above, true, .below⟩,
  ⟨"tpcboxAdjacent", .adjacent, true, .adjacent⟩,
  ⟨"tpcboxAfter", .after, true, .before⟩,
  ⟨"tpcboxBack", .back, true, .front⟩,
  ⟨"tpcboxBefore", .before, true, .after⟩,
  ⟨"tpcboxBelow", .below, true, .above⟩,
  ⟨"tpcboxContained", .containedBy, true, .contains⟩,
  ⟨"tpcboxContains", .contains, true, .containedBy⟩,
  ⟨"tpcboxFront", .front, true, .back⟩,
  ⟨"tpcboxLeft", .left, true, .right⟩,
  ⟨"tpcboxOverabove", .overabove, false, .overabove⟩,
  ⟨"tpcboxOverafter", .overafter, false, .overafter⟩,
  ⟨"tpcboxOverback", .overback, false, .overback⟩,
  ⟨"tpcboxOverbefore", .overbefore, false, .overbefore⟩,
  ⟨"tpcboxOverbelow", .overbelow, false, .overbelow⟩,
  ⟨"tpcboxOverfront", .overfront, false, .overfront⟩,
  ⟨"tpcboxOverlaps", .overlaps, true, .overlaps⟩,
  ⟨"tpcboxOverleft", .overleft, false, .overleft⟩,
  ⟨"tpcboxOverright", .overright, false, .overright⟩,
  ⟨"tpcboxRight", .right, true, .left⟩,
  ⟨"tpcboxSame", .same, true, .same⟩,
  ⟨"|&>", .overabove, false, .overabove⟩,
  ⟨"|>>", .above, true, .below⟩,
  ⟨"~=", .same, true, .same⟩]

/-- `IndexSearchOpFromName`: the search `name` asks of an index over `bboxType`, with the query on
the left or on the right. -/
def indexSearchOpFromName (name : String) (bboxType : MeosType) (queryOnLeft : Bool) :
    Option IndexSearchOp :=
  (indexOperators.find? fun e => e.name == name && bboxType.hasAxis e.direct.axis).bind fun e =>
    if queryOnLeft then (if e.hasCommuted then some e.commuted else none) else some e.direct

/-- `IndexOperatorNames`: the names an index over `bboxType` answers in at least one operand
order. -/
def indexOperatorNames (bboxType : MeosType) : List String :=
  (indexOperators.filter fun e => bboxType.hasAxis e.direct.axis).map (·.name)

/-- An answered name is one the matcher lets through. -/
theorem mem_indexOperatorNames {name : String} {bboxType : MeosType} {queryOnLeft : Bool}
    {op : IndexSearchOp} (h : indexSearchOpFromName name bboxType queryOnLeft = some op) :
    name ∈ indexOperatorNames bboxType := by
  obtain ⟨e, he, -⟩ := Option.bind_eq_some_iff.mp h
  have hp := List.find?_some he
  simp only [Bool.and_eq_true, beq_iff_eq] at hp
  exact List.mem_map.mpr ⟨e, List.mem_filter.mpr ⟨List.mem_of_find?_eq_some he, hp.2⟩, hp.1⟩

/-- With the column on the left, every name the matcher lets through is answered. -/
theorem indexSearchOpFromName_isSome {name : String} {bboxType : MeosType}
    (h : name ∈ indexOperatorNames bboxType) : (indexSearchOpFromName name bboxType false).isSome := by
  obtain ⟨e, he, rfl⟩ := List.mem_map.mp h
  obtain ⟨hm, ha⟩ := List.mem_filter.mp he
  have hs : (indexOperators.find? fun f => f.name == e.name && bboxType.hasAxis f.direct.axis).isSome :=
    List.find?_isSome.mpr ⟨e, hm, by simp [ha]⟩
  obtain ⟨f, hf⟩ := Option.isSome_iff_exists.mp hs
  simp [indexSearchOpFromName, hf]

/-- The search of `query <name> column`, given the one of `column <name> query`. An overlapping
ordering has none. -/
def IndexSearchOp.commute : IndexSearchOp → Option IndexSearchOp
  | .overlaps => some .overlaps
  | .same => some .same
  | .adjacent => some .adjacent
  | .contains => some .containedBy
  | .containedBy => some .contains
  | .left => some .right
  | .right => some .left
  | .below => some .above
  | .above => some .below
  | .front => some .back
  | .back => some .front
  | .before => some .after
  | .after => some .before
  | .overleft | .overright | .overbelow | .overabove | .overfront | .overback | .overbefore
  | .overafter => none

/-- Every row of the table commutes its search this one way. -/
theorem commuted_eq : ∀ e ∈ indexOperators,
    (if e.hasCommuted then some e.commuted else none) = e.direct.commute := by
  decide

/-- A search and its commuted form compare along one axis. -/
theorem IndexSearchOp.commute_axis {op op' : IndexSearchOp} (h : op.commute = some op') :
    op'.axis = op.axis := by
  cases op <;> simp only [commute, Option.some.injEq, reduceCtorEq] at h <;> subst h <;> rfl

/-- Commuting twice gives the search back. -/
theorem IndexSearchOp.commute_commute {op op' : IndexSearchOp} (h : op.commute = some op') :
    op'.commute = some op := by
  cases op <;> simp only [commute, Option.some.injEq, reduceCtorEq] at h <;> subst h <;> rfl

/-- With the query on the left the index is asked for the commuted search. -/
theorem indexSearchOpFromName_left (name : String) (bboxType : MeosType) :
    indexSearchOpFromName name bboxType true =
      (indexSearchOpFromName name bboxType false).bind IndexSearchOp.commute := by
  unfold indexSearchOpFromName
  cases hf : indexOperators.find? fun e => e.name == name && bboxType.hasAxis e.direct.axis with
  | none => rfl
  | some e => exact commuted_eq e (List.mem_of_find?_eq_some hf)

end MobilityDuck
