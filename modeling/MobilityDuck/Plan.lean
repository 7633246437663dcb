/-
# Plans, and what they may answer

A plan is a tree of operators. What an operator may answer depends on what
those below it may: a get answers its rows in any order, a TopN what some way
of putting its rows in order leaves in the window, a nested loop its pairs in
any order. A row of an answer gives each binding of its operator a value.

Most operators read a row by its bindings, and do not mind if those come in
another order; some read it by position: the operators below them have to
keep the order, too, and so has the plan as a whole. A plan refines another
if it has the same bindings, answers nothing the other could not, and answers
something if the other could (`Relation.Refines`); every operator keeps that
(`Database.refinement`).

Key definitions: `Relation`, `Operator`, `PlanNode`, `Database`,
`Database.sem`, `Relation.Refines`, `Database.refinement`.
-/
import MobilityDuck.OptimizeTopN
import MobilityDuck.OptimizeJoin
import MobilityDuck.ScanProjection
import MobilityDuck.Lib.Rewriting
import MobilityDuck.Lib.Window

namespace MobilityDuck

open Lib

/-! ### Rows by their bindings -/

/-- A row of an answer; what is no binding of it is NULL. -/
abbrev Row := ColumnBinding → Value

/-- The row as bindings name it. -/
def Row.restrict (row : Row) (bindings : List ColumnBinding) : Row := fun b => if b ∈ bindings then row b else .null

/-- The row of a pair: the bindings of the left side are read there. -/
def Row.join (left : List ColumnBinding) (x y : Row) : Row := fun b => if b ∈ left then x b else y b

theorem Row.restrict_restrict (row : Row) {bindings bindings' : List ColumnBinding} (h : bindings ⊆ bindings') :
    (row.restrict bindings').restrict bindings = row.restrict bindings := by
  funext b
  unfold Row.restrict
  by_cases hb : b ∈ bindings
  · rw [if_pos hb, if_pos hb, if_pos (h hb)]
  · rw [if_neg hb, if_neg hb]

theorem Row.restrict_congr {row row' : Row} {bindings : List ColumnBinding} (h : ∀ b ∈ bindings, row b = row' b) :
    row.restrict bindings = row'.restrict bindings := by
  funext b
  unfold Row.restrict
  by_cases hb : b ∈ bindings
  · rw [if_pos hb, if_pos hb, h b hb]
  · rw [if_neg hb, if_neg hb]

theorem Row.restrict_perm (row : Row) {bindings bindings' : List ColumnBinding} (h : bindings.Perm bindings') :
    row.restrict bindings = row.restrict bindings' := by
  funext b
  simp only [Row.restrict, h.mem_iff]

/-- A row of a chunk, as its bindings name it. -/
def Row.named (bindings : List ColumnBinding) (row : List Value) : Row := Row.restrict (resolve bindings row) bindings

/-- Of a row of values, its bindings name these. -/
theorem Row.named_map (row : Row) (bindings : List ColumnBinding) :
    Row.named bindings (bindings.map row) = row.restrict bindings :=
  Row.restrict_congr fun _ hb => resolve_map row hb

/-- A row of no more values than bindings has nothing else to name. -/
theorem Row.named_eq_resolve {bindings : List ColumnBinding} {row : List Value} (h : row.length ≤ bindings.length) :
    Row.named bindings row = resolve bindings row := by
  funext b
  unfold Row.named Row.restrict
  by_cases hb : b ∈ bindings
  · rw [if_pos hb]
  · rw [if_neg hb, resolve, readName, List.getElem?_eq_none]
    · rfl
    · rwa [List.idxOf_eq_length hb]

theorem map_restrict (row : Row) (bindings : List ColumnBinding) :
    bindings.map (row.restrict bindings) = bindings.map row :=
  List.map_congr_left fun _ hb => if_pos hb

/-- The row of a get that stands for a row of its table. -/
def LogicalGet.namedRow (get : LogicalGet) (r : ReadRow) : Row :=
  Row.restrict (get.bindingValue r) get.columnBindings

/-! ### Relations -/

/-- What an operator hands on: its bindings, the lists of rows it may answer, and whether it may fail, by an
exception or by not coming to an end. -/
structure Relation where
  bindings : List ColumnBinding
  answers : List Row → Prop
  fails : Prop
  total : ¬ fails → ∃ rows, answers rows

/-- An operator that cannot be planned. -/
def Relation.none : Relation := ⟨[], fun _ => False, True, fun h => absurd trivial h⟩

/-- One relation refines another; where rows are read by position, with its bindings in the same order. -/
structure Relation.Refines (positional : Bool) (r r' : Relation) : Prop where
  bindings : r'.bindings.Perm r.bindings
  positions : positional = true → r'.bindings = r.bindings
  answers : ∀ rows, r'.answers rows → r.answers rows
  fails : r'.fails → r.fails

/-- An operator the optimizers pass by. Unless it reads rows by position, it does not mind the order of the
bindings below it. -/
structure Operator where
  positional : Bool
  bindings : List (List ColumnBinding) → List ColumnBinding
  answers : List (List ColumnBinding) → List (List Row) → List Row → Prop
  fails : List (List ColumnBinding) → List (List Row) → Prop
  total : ∀ bs inputs, ¬ fails bs inputs → ∃ rows, answers bs inputs rows
  bindings_perm : ∀ {bs bs'}, List.Forall₂ List.Perm bs' bs → (bindings bs').Perm (bindings bs)
  congr : positional = false → ∀ {bs bs'}, List.Forall₂ List.Perm bs' bs →
    answers bs' = answers bs ∧ fails bs' = fails bs

theorem exists_forall₂_answers : ∀ {rs : List Relation}, ¬ (∃ r ∈ rs, r.fails) →
    ∃ inputs, List.Forall₂ Relation.answers rs inputs
  | [], _ => ⟨[], .nil⟩
  | r :: rs, h => by
    obtain ⟨rows, hrows⟩ := r.total fun hr => h ⟨r, List.mem_cons_self, hr⟩
    have hrest : ¬ ∃ r ∈ rs, r.fails := fun ⟨s, hs, hfails⟩ => h ⟨s, List.mem_cons_of_mem _ hs, hfails⟩
    obtain ⟨inputs, hinputs⟩ := exists_forall₂_answers hrest
    exact ⟨rows :: inputs, .cons hrows hinputs⟩

/-- What it makes of the relations below. -/
def Operator.relation (op : Operator) (rs : List Relation) : Relation where
  bindings := op.bindings (rs.map Relation.bindings)
  answers rows := ∃ inputs, List.Forall₂ Relation.answers rs inputs ∧
    op.answers (rs.map Relation.bindings) inputs rows
  fails := (∃ r ∈ rs, r.fails) ∨ ∃ inputs, List.Forall₂ Relation.answers rs inputs ∧
    op.fails (rs.map Relation.bindings) inputs
  total h := by
    obtain ⟨hbelow, hop⟩ := not_or.mp h
    obtain ⟨inputs, hinputs⟩ := exists_forall₂_answers hbelow
    obtain ⟨rows, hrows⟩ := op.total _ inputs fun hfails => hop ⟨inputs, hinputs, hfails⟩
    exact ⟨rows, inputs, hinputs, hrows⟩

/-! ### Plans -/

/-- The operators of a plan; the children are below. -/
inductive PlanNode
  | get (get : LogicalGet)
  | filter (expressions : List Expression) (projectionMap : List ℕ)
  | projection (tableIndex : ℕ) (expressions : List Expression)
  | topN (orders : List OrderByNode) (limit offset : ℕ)
  | anyJoin (joinType : JoinType) (condition : Option Expression) (estimatedCardinality : ℕ)
  | indexJoin (join : LogicalIndexJoin)
  | other (op : Operator)

abbrev Plan := RoseTree PlanNode

/-- What plans are run against: what the transaction sees of each table and the indexes over it, what MEOS
computes, and what sorts. -/
structure Database (δ : Type) [LinearOrder δ] where
  interpretation : Interpretation
  view : TableEntry → Transaction
  meos : (t : MeosType) → Meos t.boxSize
  near : (t : MeosType) → Nearest (meos t) δ
  index : TableEntry → (info : IndexInfo) → Index (meos info.bboxType)
  before : List OrderByNode → Row → Row → Prop
  before_total : ∀ orders, Std.Total (before orders)
  before_trans : ∀ orders, IsTrans Row (before orders)
  otherJoin : Option Expression → Operator
  reset : FetchBuffer → FetchBuffer
  memory : FetchBuffer

namespace Database

variable {δ : Type} [LinearOrder δ] (db : Database δ)

def viewOf (get : LogicalGet) : Transaction := db.view get.table

/-- The chunk a get returns, whatever the number of calls from some on. -/
def Scans (get : LogicalGet) (chunk : Chunk) : Prop :=
  match get.bindData with
  | none => chunk = get.seqScan db.interpretation (db.viewOf get)
  | some scan => ∃ calls, ∀ fuel ≥ calls,
    get.run db.interpretation (db.near scan.index.bboxType) (db.index get.table scan.index) (db.viewOf get) fuel =
      .ok chunk

/-- The chunk an index join returns for chunks of its probe side. -/
def Joins (join : LogicalIndexJoin) (inputs : List Chunk) (chunk : Chunk) : Prop :=
  ∃ calls, ∀ fuel ≥ calls,
    (join.createPlan (db.index join.indexTable join.index)).joinRows (db.view join.indexTable).snapshot db.reset fuel
      inputs db.memory = .ok chunk

/-- A predicate accepts a row. -/
def accepts (row : Row) (e : Expression) : Bool := e.accepts db.interpretation .null row

/-- The row a projection makes. -/
def project (tableIndex : ℕ) (expressions : List Expression) (row : Row) : Row := fun b =>
  if b.tableIndex = tableIndex then
    (expressions[b.columnIndex]?.map (·.eval db.interpretation .null row)).getD .null
  else .null

/-! Each operator, over what those below it hand on. -/

def getRelation (get : LogicalGet) : Relation where
  bindings := get.columnBindings
  answers rows := ∃ chunk, db.Scans get chunk ∧ rows.Perm (chunk.map (Row.named get.columnBindings))
  fails := ¬ ∃ chunk, db.Scans get chunk
  total h := by
    obtain ⟨chunk, hchunk⟩ := not_not.mp h
    exact ⟨_, chunk, hchunk, .refl _⟩

def filterRelation (expressions : List Expression) (projectionMap : List ℕ) (r : Relation) : Relation where
  bindings := mapBindings r.bindings projectionMap
  answers rows := ∃ input, r.answers input ∧
    rows = (input.filter fun row => expressions.all (db.accepts row)).map
      (Row.restrict · (mapBindings r.bindings projectionMap))
  fails := r.fails
  total h := by
    obtain ⟨input, hinput⟩ := r.total h
    exact ⟨_, input, hinput, rfl⟩

def projectionRelation (tableIndex : ℕ) (expressions : List Expression) (r : Relation) : Relation where
  bindings := (List.range expressions.length).map (ColumnBinding.mk tableIndex)
  answers rows := ∃ input, r.answers input ∧ rows = input.map (db.project tableIndex expressions)
  fails := r.fails
  total h := by
    obtain ⟨input, hinput⟩ := r.total h
    exact ⟨_, input, hinput, rfl⟩

def topNRelation (orders : List OrderByNode) (limit offset : ℕ) (r : Relation) : Relation where
  bindings := r.bindings
  answers rows := ∃ input, r.answers input ∧ Takes (db.before orders) limit offset input rows
  fails := r.fails
  total h := by
    obtain ⟨input, hinput⟩ := r.total h
    have := db.before_total orders
    have := db.before_trans orders
    obtain ⟨rows, hrows⟩ := exists_takes (db.before orders) limit offset input
    exact ⟨rows, input, hinput, hrows⟩

/-- The nested loop of an inner join. -/
def innerJoinRelation (condition : Option Expression) (l r : Relation) : Relation where
  bindings := l.bindings ++ r.bindings
  answers rows := ∃ left right, l.answers left ∧ r.answers right ∧
    rows.Perm ((nestedLoop (fun x y => condition.all (db.accepts (Row.join l.bindings x y))) left right).map
      fun q => Row.join l.bindings q.1 q.2)
  fails := l.fails ∨ r.fails
  total h := by
    obtain ⟨hl, hr⟩ := not_or.mp h
    obtain ⟨left, hleft⟩ := l.total hl
    obtain ⟨right, hright⟩ := r.total hr
    exact ⟨_, left, right, hleft, hright, .refl _⟩

/-- The join is handed the rows of the probe side in some chunks. -/
def indexJoinRelation (join : LogicalIndexJoin) (r : Relation) : Relation where
  bindings := r.bindings ++ join.indexBindings
  answers rows := ∃ input inputs chunk, r.answers input ∧ inputs.flatten = input.map (r.bindings.map ·) ∧
    db.Joins join inputs chunk ∧ rows.Perm (chunk.map (Row.named (r.bindings ++ join.indexBindings)))
  fails := r.fails ∨ ∃ input inputs, r.answers input ∧ inputs.flatten = input.map (r.bindings.map ·) ∧
    ¬ ∃ chunk, db.Joins join inputs chunk
  total h := by
    obtain ⟨hr, hjoins⟩ := not_or.mp h
    obtain ⟨input, hinput⟩ := r.total hr
    have hflat : [input.map (r.bindings.map ·)].flatten = input.map (r.bindings.map ·) := by simp
    obtain ⟨chunk, hchunk⟩ := not_not.mp fun hnone => hjoins ⟨input, _, hinput, hflat, hnone⟩
    exact ⟨_, input, _, chunk, hinput, hflat, hchunk, .refl _⟩

/-- What an operator hands on of what those below it do. -/
def sem : PlanNode → List Relation → Relation
  | .get g, _ => db.getRelation g
  | .filter expressions projectionMap, [r] => db.filterRelation expressions projectionMap r
  | .projection tableIndex expressions, [r] => db.projectionRelation tableIndex expressions r
  | .topN orders limit offset, [r] => db.topNRelation orders limit offset r
  | .anyJoin .inner condition _, [l, r] => db.innerJoinRelation condition l r
  | .anyJoin .other condition _, rs => (db.otherJoin condition).relation rs
  | .indexJoin join, [r] => db.indexJoinRelation join r
  | .other op, rs => op.relation rs
  | _, _ => .none

/-- What a plan may answer. -/
def eval (plan : Plan) : Relation := plan.eval db.sem

/-- Whether the rows below an operator are read by position: there, or above. -/
def inside : PlanNode → Bool → Bool
  | .get _, positional => positional
  | .filter _ projectionMap, positional => positional || !projectionMap.isEmpty
  | .projection .., _ => false
  | .topN .., positional => positional
  | .anyJoin .inner .., positional => positional
  | .anyJoin .other condition _, positional => positional || (db.otherJoin condition).positional
  | .indexJoin _, _ => true
  | .other op, positional => positional || op.positional

end Database

/-! ### Operators keep refinement -/

namespace Relation.Refines

variable {m : Bool} {r s t : Relation}

theorem refl (m : Bool) (r : Relation) : Refines m r r := ⟨.refl _, fun _ => rfl, fun _ h => h, id⟩

theorem trans (h : Refines m r s) (h' : Refines m s t) : Refines m r t where
  bindings := h'.bindings.trans h.bindings
  positions hm := (h'.positions hm).trans (h.positions hm)
  answers rows hrows := h.answers rows (h'.answers rows hrows)
  fails hfails := h.fails (h'.fails hfails)

/-- What refines where rows are read by position refines anywhere. -/
theorem of_positional (h : Refines true r s) (m : Bool) : Refines m r s :=
  ⟨h.bindings, fun _ => h.positions rfl, h.answers, h.fails⟩

variable {rs rs' : List Relation}

theorem forall₂_bindings (h : List.Forall₂ (Refines m) rs rs') :
    List.Forall₂ List.Perm (rs'.map Relation.bindings) (rs.map Relation.bindings) := by
  rw [List.forall₂_map_left_iff, List.forall₂_map_right_iff]
  exact h.flip.imp fun _ _ h => h.bindings

theorem forall₂_positions (h : List.Forall₂ (Refines true) rs rs') :
    rs'.map Relation.bindings = rs.map Relation.bindings := by
  induction h with
  | nil => rfl
  | cons h _ ih => rw [List.map_cons, List.map_cons, ih, h.positions rfl]

theorem forall₂_answers (h : List.Forall₂ (Refines m) rs rs') {inputs : List (List Row)}
    (hi : List.Forall₂ Relation.answers rs' inputs) : List.Forall₂ Relation.answers rs inputs := by
  induction h generalizing inputs with
  | nil => exact hi
  | cons h _ ih =>
    cases hi with
    | cons hr hi => exact .cons (h.answers _ hr) (ih hi)

theorem exists_fails (h : List.Forall₂ (Refines m) rs rs') (hfails : ∃ r ∈ rs', r.fails) : ∃ r ∈ rs, r.fails := by
  induction h with
  | nil => exact hfails
  | @cons r r' rs rs' h _ ih =>
    obtain ⟨s, hs, hfails⟩ := hfails
    rcases List.mem_cons.mp hs with rfl | hs
    · exact ⟨r, List.mem_cons_self, h.fails hfails⟩
    · obtain ⟨t, ht, htfails⟩ := ih ⟨s, hs, hfails⟩
      exact ⟨t, List.mem_cons_of_mem _ ht, htfails⟩

end Relation.Refines

/-- An operator that is passed by. -/
theorem Operator.refines (op : Operator) {m : Bool} {rs rs' : List Relation}
    (h : List.Forall₂ (Relation.Refines (m || op.positional)) rs rs') :
    (op.relation rs).Refines m (op.relation rs') := by
  have hcongr : op.answers (rs'.map Relation.bindings) = op.answers (rs.map Relation.bindings) ∧
      op.fails (rs'.map Relation.bindings) = op.fails (rs.map Relation.bindings) := by
    cases hop : op.positional with
    | true =>
      rw [hop, Bool.or_true] at h
      rw [Relation.Refines.forall₂_positions h]
      exact ⟨rfl, rfl⟩
    | false => exact op.congr hop (Relation.Refines.forall₂_bindings h)
  refine ⟨op.bindings_perm (Relation.Refines.forall₂_bindings h), fun hm => ?_, ?_, ?_⟩
  · rw [hm] at h
    exact congrArg op.bindings (Relation.Refines.forall₂_positions h)
  · intro rows ⟨inputs, hinputs, hrows⟩
    rw [hcongr.1] at hrows
    exact ⟨inputs, Relation.Refines.forall₂_answers h hinputs, hrows⟩
  · intro hfails
    rcases hfails with hbelow | ⟨inputs, hinputs, hop⟩
    · exact .inl (Relation.Refines.exists_fails h hbelow)
    · rw [hcongr.2] at hop
      exact .inr ⟨inputs, Relation.Refines.forall₂_answers h hinputs, hop⟩

namespace Database

variable {δ : Type} [LinearOrder δ] (db : Database δ) {m : Bool} {l l' r r' : Relation}

/-- Either the bindings are the same, or all of them are passed on. -/
theorem mapBindings_perm {projectionMap : List ℕ} (h : r.Refines (m || !projectionMap.isEmpty) r') :
    (mapBindings r'.bindings projectionMap).Perm (mapBindings r.bindings projectionMap) := by
  by_cases hnil : projectionMap = []
  · simp only [mapBindings, if_pos hnil]
    exact h.bindings
  · rw [h.positions (by simp [hnil])]

theorem filterRelation_refines (expressions : List Expression) (projectionMap : List ℕ)
    (h : r.Refines (m || !projectionMap.isEmpty) r') : (db.filterRelation expressions projectionMap r).Refines m
      (db.filterRelation expressions projectionMap r') := by
  refine ⟨mapBindings_perm h, fun hm => ?_, ?_, h.fails⟩
  · show mapBindings _ _ = mapBindings _ _
    rw [h.positions (by simp [hm])]
  · intro rows ⟨input, hinput, hrows⟩
    refine ⟨input, h.answers _ hinput, hrows.trans (List.map_congr_left fun row _ => ?_)⟩
    exact row.restrict_perm (mapBindings_perm h)

theorem projectionRelation_refines (tableIndex : ℕ) (expressions : List Expression) (h : r.Refines false r') :
    (db.projectionRelation tableIndex expressions r).Refines m
      (db.projectionRelation tableIndex expressions r') := by
  refine ⟨.refl _, fun _ => rfl, ?_, h.fails⟩
  intro rows ⟨input, hinput, hrows⟩
  exact ⟨input, h.answers _ hinput, hrows⟩

theorem topNRelation_refines (orders : List OrderByNode) (limit offset : ℕ) (h : r.Refines m r') :
    (db.topNRelation orders limit offset r).Refines m (db.topNRelation orders limit offset r') := by
  refine ⟨h.bindings, h.positions, ?_, h.fails⟩
  intro rows ⟨input, hinput, hrows⟩
  exact ⟨input, h.answers _ hinput, hrows⟩

theorem innerJoinRelation_refines (condition : Option Expression) (hl : l.Refines m l') (hr : r.Refines m r') :
    (db.innerJoinRelation condition l r).Refines m (db.innerJoinRelation condition l' r') := by
  have hjoin : Row.join l'.bindings = Row.join l.bindings := by
    funext x y b
    simp only [Row.join, hl.bindings.mem_iff]
  refine ⟨hl.bindings.append hr.bindings, fun hm => ?_, ?_, ?_⟩
  · show l'.bindings ++ r'.bindings = l.bindings ++ r.bindings
    rw [hl.positions hm, hr.positions hm]
  · intro rows ⟨left, right, hleft, hright, hrows⟩
    rw [hjoin] at hrows
    exact ⟨left, right, hl.answers _ hleft, hr.answers _ hright, hrows⟩
  · exact Or.imp hl.fails hr.fails

/-- The join reads the rows of the probe side by position. -/
theorem indexJoinRelation_refines (join : LogicalIndexJoin) (h : r.Refines true r') :
    (db.indexJoinRelation join r).Refines m (db.indexJoinRelation join r') := by
  have hbindings := h.positions rfl
  have heq : r'.bindings ++ join.indexBindings = r.bindings ++ join.indexBindings := by rw [hbindings]
  refine ⟨.of_eq heq, fun _ => heq, ?_, ?_⟩
  · intro rows ⟨input, inputs, chunk, hinput, hinputs, hchunk, hrows⟩
    rw [hbindings] at hinputs hrows
    exact ⟨input, inputs, chunk, h.answers _ hinput, hinputs, hchunk, hrows⟩
  · refine Or.imp h.fails ?_
    intro ⟨input, inputs, hinput, hinputs, hnone⟩
    rw [hbindings] at hinputs
    exact ⟨input, inputs, h.answers _ hinput, hinputs, hnone⟩

/-- Every operator keeps refinement, in the modes it puts those below it in. -/
theorem sem_refines {m : Bool} : ∀ (a : PlanNode) {rs rs' : List Relation},
    List.Forall₂ (Relation.Refines (db.inside a m)) rs rs' → (db.sem a rs).Refines m (db.sem a rs')
  | .get _, _, _, _ => .refl _ _
  | .filter expressions projectionMap, [_], [_], .cons h .nil =>
    db.filterRelation_refines expressions projectionMap h
  | .projection tableIndex expressions, [_], [_], .cons h .nil =>
    db.projectionRelation_refines tableIndex expressions h
  | .topN orders limit offset, [_], [_], .cons h .nil => db.topNRelation_refines orders limit offset h
  | .anyJoin .inner condition _, [_, _], [_, _], .cons hl (.cons hr .nil) =>
    db.innerJoinRelation_refines condition hl hr
  | .anyJoin .other condition _, _, _, h => (db.otherJoin condition).refines h
  | .indexJoin join, [_], [_], .cons h .nil => db.indexJoinRelation_refines join h
  | .other op, _, _, h => op.refines h
  | .filter .., [], [], _ | .projection .., [], [], _ | .topN .., [], [], _ | .indexJoin _, [], [], _
  | .filter .., _ :: _ :: _, _ :: _ :: _, _ | .projection .., _ :: _ :: _, _ :: _ :: _, _
  | .topN .., _ :: _ :: _, _ :: _ :: _, _ | .indexJoin _, _ :: _ :: _, _ :: _ :: _, _
  | .anyJoin .inner .., [], [], _ | .anyJoin .inner .., [_], [_], _
  | .anyJoin .inner .., _ :: _ :: _ :: _, _ :: _ :: _ :: _, _ => .refl _ _

/-- What plans mean, and when one refines another. -/
def refinement : Refinement PlanNode Relation Bool where
  sem := db.sem
  inside := db.inside
  le := Relation.Refines
  refl := .refl
  trans := .trans
  mono := db.sem_refines

end Database

end MobilityDuck
