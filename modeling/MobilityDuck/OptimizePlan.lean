/-
# What the optimizers do to a plan

Every rule is right under conditions of its own: an index answers the filter
it was taken for and the scan applies the projection (`ScanServed`), an index
scan delivers the rows a TopN needs (`NearestServed`), an index join probes
with the operand and returns what the nested loop did (`JoinServed`). Whoever
states them of a plan states them of its sequential scans only: no rule
touches a get twice, and what takes the place of one under a join returns its
rows (`Database.Becomes`). A plan whose operators are served keeps that while
it is rewritten (`Database.served`).

Key definitions: `Database.ScanServed`, `Database.NearestServed`,
`Database.JoinServed`, `Database.Served`, `Database.served`.
-/
import MobilityDuck.OptimizeRecursive

namespace MobilityDuck

open Lib

/-! ### What a rule relies on -/

/-- What a scan returns depends on these. -/
structure LogicalGet.SameColumns (get get' : LogicalGet) : Prop where
  table : get'.table = get.table
  tableIndex : get'.tableIndex = get.tableIndex
  columnIds : get'.columnIds = get.columnIds
  projectionIds : get'.projectionIds = get.projectionIds
  tableFilters : get'.tableFilters = get.tableFilters

namespace Database

variable {δ : Type} [LinearOrder δ] (db : Database δ) (sets : SetMatcher)

/-- A get returns the rows of a sequential scan. -/
def Right (get : LogicalGet) : Prop :=
  ∃ chunk, db.Scans get chunk ∧ chunk.Perm (get.seqScan db.interpretation (db.viewOf get))

/-- Wherever an index is found for a filter of the get, it answers that filter, and the scan returns the
columns the get did. -/
structure ScanServed (get : LogicalGet) : Prop where
  bindData : get.bindData = none
  wellFormed : get.WellFormed
  keeps : ∀ indexType, get.KeepsProjection sets indexType
  projection : ∀ indexType matched scan, get.findMatch sets indexType = some (matched, scan) →
    get.projectionIds = [] ∨ (get.extended matched).length ≠ get.columnIds.length ∨
      select get.columnIds (get.extended matched) = get.columnIds
  answered : ∀ indexType matched scan, get.findMatch sets indexType = some (matched, scan) →
    ∃ hits, get.Answered db.interpretation (db.index get.table scan.index) (db.viewOf get) matched scan hits

/-- The row above a get, or above a projection over it. -/
def rowOver : Option (ℕ × List Expression) → LogicalGet → ReadRow → Row
  | none, get, r => get.namedRow r
  | some (tableIndex, expressions), get, r => db.project tableIndex expressions (get.namedRow r)

/-- The index scan delivers rows of the table in which the TopN, which sorts by the distance, finds the keys it
would find in all of them. -/
structure NearestServed (order : OrderByNode) (limit offset : ℕ) (p : Option (ℕ × List Expression))
    (get : LogicalGet) (scan : PlannedScan) : Prop where
  bindData : get.bindData = none
  wellFormed : get.WellFormed
  chunk : get.chunkColumns = get.outputColumns
  right : ∃ key, TopNRight (db.near scan.index.bboxType)
      (scan.bindData get.table.columns (db.index get.table scan.index)) order limit offset (db.viewOf get) key ∧
    (∀ ids, nearestIds (db.near scan.index.bboxType) (scan.bindData get.table.columns (db.index get.table scan.index))
      (db.viewOf get).snapshot = .ok ids → (rowsAt (db.viewOf get).snapshot ids).Subperm (db.viewOf get).seqRows) ∧
    ∀ x ∈ (db.viewOf get).seqRows, ∀ y ∈ (db.viewOf get).seqRows,
      (db.before [order] (db.rowOver p get x) (db.rowOver p get y) ↔ keyLe order.nullsFirst (key x) (key y))

/-- The index join that is built for these sides probes with the operand, returns the columns of the join, in
their order where they are read by position, and finds the partners of every row of the probe side. -/
structure JoinServed (positional : Bool) (join : LogicalAnyJoin) (sides : JoinSides) (plan : LogicalIndexJoin) :
    Prop where
  wellFormed : sides.WellFormed
  place : (select sides.probe.columnIds sides.probe.outputPositions)[sides.probeRef.binding.columnIndex]? =
    sides.probe.columnIds[sides.probeRef.binding.columnIndex]?
  order : select sides.indexed.columnIds sides.indexed.outputPositions = sides.indexed.columnIds
  positions : positional = true → join.children = [.get sides.probe, .get sides.indexed]
  answered : ∀ condition, join.condition = some condition →
    sides.Answered db.interpretation condition (plan.createPlan (db.index plan.indexTable plan.index)) db.viewOf

/-- What an operator relies on when a rule takes it. The sides of a join may have become index scans by then. -/
def Served (positional : Bool) : PlanNode → List Plan → Prop
  | .get get, _ => get.functionName = "seq_scan" → db.ScanServed sets get
  | .topN [order] limit offset, [child] => ∀ p ordered indexType scan,
    child.toLogical = (Plan.overGet p ordered.get).toLogical →
    resolveOrderedGet [order] limit offset [child.toLogical] = some ordered →
    ordered.get.functionName = "seq_scan" →
    ordered.get.findNearest sets indexType ordered.orderExpr (offset + limit) = some scan →
    db.NearestServed order limit offset p ordered.get scan
  | .anyJoin joinType condition _, [left, right] => ∀ l r,
    left.toLogical = .get l → right.toLogical = .get r → db.Right l ∧ db.Right r ∧
      ∀ l' r' estimated indexType sides plan, l.SameColumns l' → r.SameColumns r' →
        sides ∈ (LogicalAnyJoin.mk joinType condition [.get l', .get r'] estimated).attempts →
        sides.tryBuild indexType estimated = some plan →
        db.JoinServed positional ⟨joinType, condition, [.get l', .get r'], estimated⟩ sides plan
  | _, _ => True

/-- What may stand in the place of a get: nothing else, or an index scan that answers one of its filters. -/
inductive Becomes : LogicalGet → LogicalGet → Prop
  | refl (get : LogicalGet) : Becomes get get
  | scanned {get get' : LogicalGet} (columns : get.SameColumns get') (name : get'.functionName ≠ "seq_scan")
    (right : db.Right get') : Becomes get get'

/-- What may come in the place of a plan: no get, and no projection over one, but in the place of another. -/
def Turns (plan plan' : Plan) : Prop :=
  ∀ p get', plan'.toLogical = (Plan.overGet p get').toLogical →
    ∃ get, plan.toLogical = (Plan.overGet p get).toLogical ∧ db.Becomes get get'

end Database

namespace LogicalGet.SameColumns

variable {get get' get'' : LogicalGet}

theorem refl (get : LogicalGet) : get.SameColumns get := ⟨rfl, rfl, rfl, rfl, rfl⟩

theorem trans (h : get.SameColumns get') (h' : get'.SameColumns get'') : get.SameColumns get'' :=
  ⟨h'.table.trans h.table, h'.tableIndex.trans h.tableIndex, h'.columnIds.trans h.columnIds,
    h'.projectionIds.trans h.projectionIds, h'.tableFilters.trans h.tableFilters⟩

variable (h : get.SameColumns get')

include h

theorem columnBindings : get'.columnBindings = get.columnBindings := by
  unfold LogicalGet.columnBindings LogicalGet.outputPositions
  rw [h.projectionIds, h.columnIds, h.tableIndex]

theorem wellFormed (hget : get.WellFormed) : get'.WellFormed where
  columnIds_stored := by
    rw [h.columnIds, h.table]
    exact hget.columnIds_stored
  filters_sorted := by
    rw [h.tableFilters]
    exact hget.filters_sorted
  filters_over := by
    rw [h.tableFilters, h.table]
    exact hget.filters_over
  projectionIds_lt := by
    rw [h.projectionIds, h.columnIds]
    exact hget.projectionIds_lt

/-- Gets of the same columns are told apart by how they scan. -/
theorem eq_with : ∃ name bind estimated has,
    get' = { get with
      functionName := name, bindData := bind, estimatedCardinality := estimated, hasEstimatedCardinality := has } := by
  obtain ⟨htable, hindex, hcolumns, hprojection, hfilters⟩ := h
  cases get'
  simp only at htable hindex hcolumns hprojection hfilters
  subst htable hindex hcolumns hprojection hfilters
  exact ⟨_, _, _, _, rfl⟩

end LogicalGet.SameColumns

namespace Database

variable {δ : Type} [LinearOrder δ] {db : Database δ} {sets : SetMatcher}

theorem Becomes.columns {get get' : LogicalGet} (h : db.Becomes get get') : get.SameColumns get' := by
  cases h with
  | refl => exact .refl _
  | scanned columns => exact columns

theorem Becomes.right {get get' : LogicalGet} (h : db.Becomes get get') (hget : db.Right get) : db.Right get' := by
  cases h with
  | refl => exact hget
  | scanned _ _ right => exact right

theorem Becomes.eq_of_seq_scan {get get' : LogicalGet} (h : db.Becomes get get')
    (hname : get'.functionName = "seq_scan") : get' = get := by
  cases h with
  | refl => rfl
  | scanned _ name => exact absurd hname name

theorem Becomes.trans {get get' get'' : LogicalGet} (h : db.Becomes get get') (h' : db.Becomes get' get'') :
    db.Becomes get get'' := by
  cases h' with
  | refl => exact h
  | scanned columns name right => exact .scanned (h.columns.trans columns) name right

theorem turns_refl (plan : Plan) : db.Turns plan plan := fun _ _ h => ⟨_, h, .refl _⟩

theorem turns_trans {t u v : Plan} (h : db.Turns t u) (h' : db.Turns u v) : db.Turns t v := by
  intro p get'' hv
  obtain ⟨get', hu, hbecomes'⟩ := h' p get'' hv
  obtain ⟨get, ht, hbecomes⟩ := h p get' hu
  exact ⟨get, ht, hbecomes.trans hbecomes'⟩

theorem turns_node (a : PlanNode) {ts us : List Plan} (h : List.Forall₂ db.Turns ts us) :
    db.Turns (.node a ts) (.node a us) := by
  intro p get' hu
  rcases p with - | ⟨tableIndex, expressions⟩
  · obtain ⟨us', hus'⟩ := Plan.toLogical_eq_get hu
    obtain ⟨rfl, -⟩ := RoseTree.node.inj hus'
    exact ⟨get', rfl, .refl _⟩
  · obtain ⟨us', hus', hchildren⟩ := Plan.toLogical_eq_projection hu
    obtain ⟨rfl, rfl⟩ := RoseTree.node.inj hus'
    obtain ⟨u, rfl, hu'⟩ := List.map_eq_singleton_iff.mp hchildren
    obtain ⟨t, _, hturns, hnil, rfl⟩ := List.forall₂_cons_right_iff.mp h
    obtain rfl := List.forall₂_nil_right_iff.mp hnil
    obtain ⟨get, ht, hbecomes⟩ := hturns none get' hu'
    refine ⟨get, ?_, hbecomes⟩
    rw [Plan.toLogical_node, List.map_singleton, ht]
    rfl

/-- What stands in the place of the plans below an operator is as good for the rules. -/
theorem served_node {m : Bool} : ∀ {a : PlanNode} {ts us : List Plan}, db.Served sets m a ts →
    List.Forall₂ db.Turns ts us → db.Served sets m a us
  | .get _, _, _, h, _ => h
  | .topN [order] limit offset, [t], [u], h, .cons hturns .nil => by
    intro p ordered indexType scan hu hordered hname hscan
    obtain ⟨get, ht, hbecomes⟩ := hturns p ordered.get hu
    rw [← hbecomes.eq_of_seq_scan hname] at ht
    rw [hu, ← ht] at hordered
    exact h p ordered indexType scan ht hordered hname hscan
  | .anyJoin joinType condition _, [t₁, t₂], [u₁, u₂], h, .cons hturns₁ (.cons hturns₂ .nil) => by
    intro l r hl hr
    obtain ⟨get₁, ht₁, hbecomes₁⟩ := hturns₁ none l hl
    obtain ⟨get₂, ht₂, hbecomes₂⟩ := hturns₂ none r hr
    obtain ⟨hright₁, hright₂, hserved⟩ := h get₁ get₂ ht₁ ht₂
    refine ⟨hbecomes₁.right hright₁, hbecomes₂.right hright₂, ?_⟩
    intro l' r' estimated indexType sides plan hl' hr'
    exact hserved l' r' estimated indexType sides plan (hbecomes₁.columns.trans hl') (hbecomes₂.columns.trans hr')
  | .topN [_] _ _, [], [], _, _ | .topN [_] _ _, _ :: _ :: _, _ :: _ :: _, _, _
  | .topN [] _ _, _, _, _, _ | .topN (_ :: _ :: _) _ _, _, _, _, _
  | .anyJoin .., [], [], _, _ | .anyJoin .., [_], [_], _, _
  | .anyJoin .., _ :: _ :: _ :: _, _ :: _ :: _ :: _, _, _
  | .filter .., _, _, _, _ | .projection .., _, _, _, _ | .indexJoin _, _, _, _, _ | .other _, _, _, _, _ => trivial

variable (db sets) in
/-- What is known of a plan while it is rewritten. -/
def served : Invariant db.refinement where
  ok := db.Served sets
  turns := db.Turns
  turns_refl := turns_refl
  turns_trans := turns_trans
  turns_node a _ _ h := turns_node a h
  ok_node := served_node

end Database

end MobilityDuck
