/-
# The optimizers, over whole plans

Each of the four optimizers walks the plan from the root (`OptimizeRecursive`):
it tries its rules on an operator, and goes on with the children of what then
stands there. They run in the order they are registered in: for either kind of
index the one for scans, then the one for joins (`optimize`).

A get that was put over an index is no sequential scan any more, so no rule
for scans takes it again (`scanTryOptimize_of_scanned`); it may still become
the probe side of a join. So a walk ends with the plan, and its height is fuel
enough (`optimizeRecursive_of_height`).

Key definitions: `scanTryOptimize`, `joinTryOptimize`, `optimizeRecursive`,
`optimize`. Key theorem: `optimizeRecursive_of_height`.
-/
import MobilityDuck.Plan
import MobilityDuck.OptimizeRefusal

namespace MobilityDuck

open Lib

/-! ### Plans as the rules see them -/

/-- The rules for scans do not tell the other operators apart. -/
def PlanNode.toLogical : PlanNode → List LogicalOperator → LogicalOperator
  | .get g, _ => .get g
  | .filter expressions projectionMap, children => .filter expressions projectionMap children
  | .projection tableIndex expressions, children => .projection tableIndex expressions children
  | .topN orders limit offset, children => .topN orders limit offset children
  | .anyJoin .., children | .indexJoin _, children | .other _, children => .other children

namespace Plan

def toLogical (plan : Plan) : LogicalOperator := plan.eval PlanNode.toLogical

/-- A plan of a get, or of a projection over it. -/
def overGet : Option (ℕ × List Expression) → LogicalGet → Plan
  | none, get => .node (.get get) []
  | some (tableIndex, expressions), get => .node (.projection tableIndex expressions) [.node (.get get) []]

/-- What the rules for scans put in the place of an operator. -/
def ofLogical : LogicalOperator → Option Plan
  | .get get => some (overGet none get)
  | .filter expressions projectionMap [.get get] =>
    some (.node (.filter expressions projectionMap) [overGet none get])
  | .topN orders limit offset [.get get] => some (.node (.topN orders limit offset) [overGet none get])
  | .topN orders limit offset [.projection tableIndex expressions [.get get]] =>
    some (.node (.topN orders limit offset) [overGet (some (tableIndex, expressions)) get])
  | .filter .. | .projection .. | .topN .. | .other _ => none

end Plan

/-! ### The optimizers -/

/-- `TryOptimize` of `TRTreeIndexScanOptimizer` and `TSPTreeIndexScanOptimizer`. -/
def scanTryOptimize (sets : SetMatcher) (indexType : IndexType) (plan : Plan) : Plan :=
  match plan.toLogical with
  | .get get => (Plan.ofLogical (tryOptimizeLogicalGet sets indexType get).2).getD plan
  | .topN orders limit offset children =>
    match tryOptimizeLogicalTopN sets indexType orders limit offset children with
    | (true, optimized) => (Plan.ofLogical optimized).getD plan
    | (false, _) => plan
  | .filter .. | .projection .. | .other _ => plan

/-- `TryOptimize` of `TRTreeIndexJoinOptimizer` and `TSPTreeIndexJoinOptimizer`. -/
def joinTryOptimize (indexType : IndexType) (plan : Plan) : Plan :=
  match plan with
  | .node (.anyJoin joinType condition estimated) children =>
    match LogicalAnyJoin.tryOptimizeJoin ⟨joinType, condition, children.map Plan.toLogical, estimated⟩ indexType with
    | some join => .node (.indexJoin join) [Plan.overGet none join.child]
    | none => plan
  | plan => plan

/-- `OptimizeRecursive`. -/
def optimizeRecursive (tryOptimize : Plan → Plan) (fuel : ℕ) (plan : Plan) : Plan := plan.topDown tryOptimize fuel

/-- The optimizers in the order `LoadInternal` registers them. -/
def optimizers (sets : SetMatcher) : List (Plan → Plan) :=
  [scanTryOptimize sets .trtree, joinTryOptimize .trtree, scanTryOptimize sets .tsptree, joinTryOptimize .tsptree]

/-- `Optimize` of each of them. -/
def optimize (sets : SetMatcher) (plan : Plan) : Plan :=
  (optimizers sets).foldl (fun plan tryOptimize => optimizeRecursive tryOptimize plan.height plan) plan

/-! ### What stands below a rule -/

namespace Plan

@[simp] theorem toLogical_node (a : PlanNode) (ts : List Plan) :
    toLogical (.node a ts) = a.toLogical (ts.map toLogical) :=
  RoseTree.eval_node _ _ _

theorem toLogical_eq_get {plan : Plan} {get : LogicalGet} (h : plan.toLogical = .get get) :
    ∃ ts, plan = .node (.get get) ts := by
  obtain ⟨a, ts⟩ := plan
  rw [toLogical_node] at h
  cases a with
  | get get' =>
    obtain rfl := LogicalOperator.get.inj h
    exact ⟨ts, rfl⟩
  | filter | projection | topN | anyJoin | indexJoin | other => cases h

theorem toLogical_eq_projection {plan : Plan} {tableIndex : ℕ} {expressions : List Expression}
    {children : List LogicalOperator} (h : plan.toLogical = .projection tableIndex expressions children) :
    ∃ ts, plan = .node (.projection tableIndex expressions) ts ∧ ts.map toLogical = children := by
  obtain ⟨a, ts⟩ := plan
  rw [toLogical_node] at h
  cases a with
  | projection =>
    obtain ⟨rfl, rfl, rfl⟩ := LogicalOperator.projection.inj h
    exact ⟨ts, rfl, rfl⟩
  | get | filter | topN | anyJoin | indexJoin | other => cases h

theorem toLogical_eq_topN {plan : Plan} {orders : List OrderByNode} {limit offset : ℕ}
    {children : List LogicalOperator} (h : plan.toLogical = .topN orders limit offset children) :
    ∃ ts, plan = .node (.topN orders limit offset) ts ∧ ts.map toLogical = children := by
  obtain ⟨a, ts⟩ := plan
  rw [toLogical_node] at h
  cases a with
  | topN =>
    obtain ⟨rfl, rfl, rfl, rfl⟩ := LogicalOperator.topN.inj h
    exact ⟨ts, rfl, rfl⟩
  | get | filter | projection | anyJoin | indexJoin | other => cases h

theorem ofLogical_topN (orders : List OrderByNode) (limit offset : ℕ) (p : Option (ℕ × List Expression))
    (get : LogicalGet) : ofLogical (.topN orders limit offset [(overGet p get).toLogical]) =
      some (.node (.topN orders limit offset) [overGet p get]) := by
  cases p <;> rfl

end Plan

theorem scanName_ne (indexType : IndexType) : indexType.scanName ≠ "seq_scan" := by
  cases indexType <;> decide

section Rules

variable {sets : SetMatcher} {indexType : IndexType} {get : LogicalGet}

/-- What a get is rewritten to: the get that reads the index if that answers the only filter, or a filter
over such a get. -/
theorem tryOptimizeLogicalGet_cases {plan : LogicalOperator}
    (h : tryOptimizeLogicalGet sets indexType get = (true, plan)) :
    ∃ matched scan, get.findMatch sets indexType = some (matched, scan) ∧
      (plan = .get (get.readIndex indexType scan) ∨
        ∃ expressions projectionMap g, plan = .filter expressions projectionMap [.get g] ∧
          g.functionName = indexType.scanName) := by
  obtain ⟨matched, scan, get', residual, hfind, hres, rfl⟩ := tryOptimizeLogicalGet_eq_true h
  refine ⟨matched, scan, hfind, ?_⟩
  obtain ⟨-, hget', hresidual⟩ := residuals_eq_true hres
  unfold LogicalGet.rewritten
  by_cases hempty : residual.isEmpty = true
  · rw [if_pos hempty]
    rw [List.isEmpty_iff.mp hempty, List.nil_append] at hresidual
    have hsame : get' = get := by
      rw [hget', List.map_eq_nil_iff.mp hresidual.symm]
      rfl
    rw [hsame]
    exact .inl rfl
  · rw [if_neg hempty]
    exact .inr ⟨_, _, _, rfl, rfl⟩

/-- A get that is not rewritten stays a get. -/
theorem tryOptimizeLogicalGet_refused {plan : LogicalOperator}
    (h : tryOptimizeLogicalGet sets indexType get = (false, plan)) : ∃ get', plan = .get get' := by
  unfold tryOptimizeLogicalGet at h
  split at h
  · exact ⟨get, (Prod.mk.inj h).2.symm⟩
  split at h
  · exact ⟨get, (Prod.mk.inj h).2.symm⟩
  split at h
  · exact ⟨_, (Prod.mk.inj h).2.symm⟩
  · cases h

/-- What is found below a TopN: a get, or a projection over it. -/
theorem resolveOrderedGet_cases {orders : List OrderByNode} {limit offset : ℕ}
    {children : List LogicalOperator} {ordered : OrderedGet}
    (h : resolveOrderedGet orders limit offset children = some ordered) :
    ∃ p, children = [(Plan.overGet p ordered.get).toLogical] ∧
      ∀ g, ordered.around g = .topN orders limit offset [(Plan.overGet p g).toLogical] := by
  unfold resolveOrderedGet at h
  split at h
  · obtain rfl := Option.some.inj h
    exact ⟨none, rfl, fun _ => rfl⟩
  · rename_i tableIndex expressions get order _
    split at h
    · split at h
      · cases h
      · obtain ⟨e, -, rfl⟩ := Option.map_eq_some_iff.mp h
        exact ⟨some (tableIndex, expressions), rfl, fun _ => rfl⟩
    · cases h
  · cases h

/-- What a TopN is rewritten to: the same over a get that reads the index nearest first. -/
theorem tryOptimizeLogicalTopN_cases {orders : List OrderByNode} {limit offset : ℕ}
    {children : List LogicalOperator} {plan : LogicalOperator}
    (h : tryOptimizeLogicalTopN sets indexType orders limit offset children = (true, plan)) :
    ∃ order ordered scan p, orders = [order] ∧
      resolveOrderedGet orders limit offset children = some ordered ∧
      ordered.get.functionName = "seq_scan" ∧ ordered.get.tableFilters = [] ∧
      ordered.get.findNearest sets indexType ordered.orderExpr (offset + limit) = some scan ∧
      children = [(Plan.overGet p ordered.get).toLogical] ∧
      plan = .topN orders limit offset [(Plan.overGet p (ordered.get.readNearest indexType scan)).toLogical] := by
  unfold tryOptimizeLogicalTopN at h
  simp only at h
  split at h
  · cases h
  rename_i hshape
  simp only [not_or, not_not] at hshape
  obtain ⟨order, horders⟩ := List.length_eq_one_iff.mp hshape.1
  split at h
  · cases h
  rename_i ordered hordered
  split at h
  · cases h
  rename_i hget
  simp only [not_or, not_not] at hget
  split at h
  · cases h
  rename_i scan hscan
  obtain ⟨p, hchildren, haround⟩ := resolveOrderedGet_cases hordered
  obtain rfl := (Prod.mk.inj h).2
  exact ⟨order, ordered, scan, p, horders, hordered, hget.1, hget.2.2, hscan, hchildren, haround _⟩

/-- A get that is no sequential scan is left alone. -/
theorem tryOptimizeLogicalGet_of_scanned (h : get.functionName ≠ "seq_scan") :
    tryOptimizeLogicalGet sets indexType get = (false, .get get) :=
  if_pos (.inl h)

end Rules

/-! ### What the optimizers do at an operator -/

/-- What the rules for scans do: nothing, or they put a plan in the place of a get, or under a TopN a get that
reads the index nearest first in the place of a sequential scan. -/
inductive ScanStep (sets : SetMatcher) (indexType : IndexType) : Plan → Plan → Prop
  | none (plan : Plan) : ScanStep sets indexType plan plan
  | refused {get get' : LogicalGet} {ts : List Plan}
    (h : tryOptimizeLogicalGet sets indexType get = (false, .get get')) :
    ScanStep sets indexType (.node (.get get) ts) (Plan.overGet none get')
  | get {get : LogicalGet} {ts : List Plan} {optimized : LogicalOperator} {plan : Plan}
    (h : tryOptimizeLogicalGet sets indexType get = (true, optimized)) (hplan : Plan.ofLogical optimized = some plan) :
    ScanStep sets indexType (.node (.get get) ts) plan
  | topN {order : OrderByNode} {limit offset : ℕ} {ordered : OrderedGet} {scan : PlannedScan}
    {p : Option (ℕ × List Expression)} {child : Plan} (hchild : child.toLogical = (Plan.overGet p ordered.get).toLogical)
    (hordered : resolveOrderedGet [order] limit offset [child.toLogical] = some ordered)
    (hname : ordered.get.functionName = "seq_scan") (hfilters : ordered.get.tableFilters = [])
    (hscan : ordered.get.findNearest sets indexType ordered.orderExpr (offset + limit) = some scan) :
    ScanStep sets indexType (.node (.topN [order] limit offset) [child])
      (.node (.topN [order] limit offset) [Plan.overGet p (ordered.get.readNearest indexType scan)])

theorem scanStep (sets : SetMatcher) (indexType : IndexType) (plan : Plan) :
    ScanStep sets indexType plan (scanTryOptimize sets indexType plan) := by
  unfold scanTryOptimize
  split
  · rename_i get hget
    obtain ⟨ts, rfl⟩ := Plan.toLogical_eq_get hget
    obtain ⟨r, hr⟩ : ∃ r, tryOptimizeLogicalGet sets indexType get = r := ⟨_, rfl⟩
    obtain ⟨rewritten, optimized⟩ := r
    rw [hr]
    cases rewritten with
    | false =>
      obtain ⟨get', rfl⟩ := tryOptimizeLogicalGet_refused hr
      exact .refused hr
    | true =>
      cases hplan : Plan.ofLogical optimized with
      | none => exact .none _
      | some plan => exact .get hr hplan
  · rename_i orders limit offset children htopN
    obtain ⟨ts, rfl, hts⟩ := Plan.toLogical_eq_topN htopN
    split
    · rename_i optimized h
      obtain ⟨order, ordered, scan, p, rfl, hordered, hname, hfilters, hscan, hchildren, rfl⟩ :=
        tryOptimizeLogicalTopN_cases h
      rw [Plan.ofLogical_topN, Option.getD_some]
      rw [← hts] at hordered hchildren
      obtain ⟨child, rfl, hchild⟩ := List.map_eq_singleton_iff.mp hchildren
      exact .topN hchild hordered hname hfilters hscan
    · exact .none _
  · exact .none _
  · exact .none _
  · exact .none _

/-- What the rule for joins does: nothing, or it puts an index join over the probe side. -/
inductive JoinStep (indexType : IndexType) : Plan → Plan → Prop
  | none (plan : Plan) : JoinStep indexType plan plan
  | join {joinType : JoinType} {condition : Option Expression} {estimated : ℕ} {ts : List Plan}
    {join : LogicalIndexJoin}
    (h : LogicalAnyJoin.tryOptimizeJoin ⟨joinType, condition, ts.map Plan.toLogical, estimated⟩ indexType = some join) :
    JoinStep indexType (.node (.anyJoin joinType condition estimated) ts)
      (.node (.indexJoin join) [Plan.overGet none join.child])

theorem joinStep (indexType : IndexType) (plan : Plan) : JoinStep indexType plan (joinTryOptimize indexType plan) := by
  unfold joinTryOptimize
  split
  · split
    · rename_i h
      exact .join h
    · exact .none _
  · exact .none _

/-! ### Where a walk ends -/

section Walk

variable (sets : SetMatcher) (indexType : IndexType)

theorem scanTryOptimize_of_scanned {get : LogicalGet} (h : get.functionName ≠ "seq_scan") :
    scanTryOptimize sets indexType (Plan.overGet none get) = Plan.overGet none get := by
  show (Plan.ofLogical (tryOptimizeLogicalGet sets indexType get).2).getD _ = _
  rw [tryOptimizeLogicalGet_of_scanned h]
  rfl

/-- A walk leaves a get that reads an index, and a projection over it, as they are. -/
theorem fixed_scan_overGet {get : LogicalGet} (h : get.functionName ≠ "seq_scan") :
    ∀ p, RoseTree.Fixed (scanTryOptimize sets indexType) (Plan.overGet p get)
  | none, 0 => rfl
  | none, fuel + 1 => by
    rw [RoseTree.topDown, scanTryOptimize_of_scanned sets indexType h]
    rfl
  | some _, 0 => rfl
  | some p, fuel + 1 => by
    have hget := fixed_scan_overGet h none fuel
    show RoseTree.node _ [_] = RoseTree.node _ [_]
    rw [show RoseTree.topDown (scanTryOptimize sets indexType) fuel (.node (.get get) []) = .node (.get get) [] from hget]

theorem fixed_join_overGet (get : LogicalGet) : RoseTree.Fixed (joinTryOptimize indexType) (Plan.overGet none get)
  | 0 => rfl
  | _ + 1 => rfl

/-- A refused get is a get, and a rewritten one reads an index. -/
theorem descends_scan : RoseTree.Descends (scanTryOptimize sets indexType) := by
  intro t a ts h s hs
  have hstep := scanStep sets indexType t
  rw [h] at hstep
  cases hstep with
  | none => exact .inl (RoseTree.height_lt hs)
  | refused => cases hs
  | get hget hplan =>
    obtain ⟨matched, scan, -, rfl | ⟨es, map, g, rfl, hname⟩⟩ := tryOptimizeLogicalGet_cases hget
    · cases hplan
      cases hs
    · cases hplan
      obtain rfl := List.mem_singleton.mp hs
      exact .inr (fixed_scan_overGet sets indexType (by rw [hname]; exact scanName_ne indexType) none)
  | topN =>
    obtain rfl := List.mem_singleton.mp hs
    exact .inr (fixed_scan_overGet sets indexType (scanName_ne indexType) _)

theorem descends_join : RoseTree.Descends (joinTryOptimize indexType) := by
  intro t a ts h s hs
  have hstep := joinStep indexType t
  rw [h] at hstep
  cases hstep with
  | none => exact .inl (RoseTree.height_lt hs)
  | join =>
    obtain rfl := List.mem_singleton.mp hs
    exact .inr (fixed_join_overGet indexType _)

/-- A walk needs no more fuel than the plan is high. -/
theorem optimizeRecursive_of_height {tryOptimize : Plan → Plan} (h : tryOptimize ∈ optimizers sets) {plan : Plan}
    {fuel : ℕ} (hfuel : plan.height ≤ fuel) :
    optimizeRecursive tryOptimize fuel plan = optimizeRecursive tryOptimize plan.height plan := by
  refine RoseTree.topDown_of_height ?_ fuel plan hfuel
  simp only [optimizers, List.mem_cons, List.not_mem_nil, or_false] at h
  rcases h with rfl | rfl | rfl | rfl
  · exact descends_scan sets .trtree
  · exact descends_join .trtree
  · exact descends_scan sets .tsptree
  · exact descends_join .tsptree

end Walk

end MobilityDuck
