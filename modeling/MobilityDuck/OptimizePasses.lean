/-
# The optimized plan refines the plan

The index join that takes the place of a nested loop answers its pairs
(`join_improves`); with the rules for scans, each of the four optimizers leaves
a plan that refines the one it was given, and so do all of them in turn
(`optimize_refines`): the plan they leave has the same columns in the same
order, it answers nothing that the plan could not answer, and it fails only
where the plan may fail. What the rules rely on holds where the indexes were
built over the rows of their tables (`scanServed_of_over`,
`joinServed_of_over`).

Key definition: `Database.rules`. Key theorems: `join_improves`,
`optimize_refines`.
-/
import MobilityDuck.OptimizeSound
import MobilityDuck.IndexAnswers

namespace MobilityDuck

open Lib

namespace Database

variable {δ : Type} [LinearOrder δ] {db : Database δ} {sets : SetMatcher}

/-! ### A join over an index -/

section Join

variable {l r : LogicalGet} {join : LogicalAnyJoin} {sides : JoinSides} {plan : LogicalIndexJoin}
  {indexType : IndexType}

/-- Only inner joins are looked at. -/
theorem joinType_of_mem_attempts (h : sides ∈ join.attempts) : join.joinType = .inner := by
  cases hjoin : join.joinType with
  | inner => rfl
  | other =>
    have hnone : join.sides = none := by rw [LogicalAnyJoin.sides, hjoin]
    rw [LogicalAnyJoin.attempts, hnone] at h
    cases h

/-- The children of a join that is looked at are gets, its sides. -/
theorem children_of_mem_attempts (h : sides ∈ join.attempts) :
    join.children = [.get sides.indexed, .get sides.probe] ∨ join.children = [.get sides.probe, .get sides.indexed] := by
  rcases sides_of_mem_attempts h with h | h
  · obtain ⟨_, _, _, -, hchildren, -⟩ := sides_eq_some h
    exact .inl hchildren
  · obtain ⟨_, _, _, -, hchildren, -⟩ := sides_eq_some h
    exact .inr hchildren

/-- A right get may answer its rows in any order. -/
theorem answers_of_right (h : db.Right l) {rows : List Row}
    (hrows : rows.Perm ((l.seqScan db.interpretation (db.viewOf l)).map (Row.named l.columnBindings))) :
    (db.getRelation l).answers rows := by
  obtain ⟨chunk, hscans, hperm⟩ := h
  exact ⟨chunk, hscans, hrows.trans (hperm.symm.map _)⟩

theorem gives_of_right (h : db.Right l) :
    (db.getRelation l).Gives ((l.seqScan db.interpretation (db.viewOf l)).map (Row.named l.columnBindings)) := by
  obtain ⟨chunk, hscans, hperm⟩ := h
  have hgives := gives_get hscans
  exact ⟨fun rows hrows => (hgives.perm rows hrows).trans (hperm.map _), hgives.fails⟩

/-- The row of a pair names the values of either side. -/
theorem join_namedRow (hne : l.tableIndex ≠ r.tableIndex) (x y : ReadRow) :
    Row.join l.columnBindings (l.namedRow x) (r.namedRow y) =
      Row.restrict (pairValue l r x y) (l.columnBindings ++ r.columnBindings) := by
  funext b
  simp only [Row.join, LogicalGet.namedRow, Row.restrict, List.mem_append]
  by_cases hl : b ∈ l.columnBindings
  · rw [if_pos hl, if_pos hl, if_pos (.inl hl), pairValue_left hl]
  · rw [if_neg hl]
    by_cases hr : b ∈ r.columnBindings
    · rw [if_pos hr, if_pos (.inr hr), pairValue_right hne hr]
    · rw [if_neg hr, if_neg (not_or.mpr ⟨hl, hr⟩)]

/-- The nested loop answers the pairs of rows that the condition accepts. -/
theorem innerJoin_answers {condition : Expression} (hl : db.Right l) (hr : db.Right r)
    (hcondition : join.condition = some condition) (hchildren : join.children = [.get l, .get r])
    (hwfl : l.WellFormed) (hwfr : r.WellFormed) (hne : l.tableIndex ≠ r.tableIndex)
    (hreads : ∀ f g : ColumnBinding → Value, (∀ b ∈ l.columnBindings ++ r.columnBindings, f b = g b) →
      condition.accepts db.interpretation .null f = condition.accepts db.interpretation .null g) {rows : List Row}
    (hrows : rows.Perm ((join.run db.interpretation db.viewOf).map (Row.named join.columnBindings))) :
    (db.innerJoinRelation (some condition) (db.getRelation l) (db.getRelation r)).answers rows := by
  have hleft := answers_of_right hl (.of_eq (named_seqScan hwfl.outputPositions_lt _ _).symm)
  have hright := answers_of_right hr (.of_eq (named_seqScan hwfr.outputPositions_lt _ _).symm)
  have hbindings : join.columnBindings = l.columnBindings ++ r.columnBindings := by
    rw [LogicalAnyJoin.columnBindings, hchildren]
  have haccepts : ∀ x y : ReadRow, condition.accepts db.interpretation .null (pairValue l r x y) =
      (some condition).all (db.accepts (Row.join l.columnBindings (l.namedRow x) (r.namedRow y))) := by
    intro x y
    rw [join_namedRow hne]
    exact hreads _ _ fun b hb => (if_pos hb).symm
  refine ⟨_, _, hleft, hright, hrows.trans (.of_eq ?_)⟩
  rw [run_eq db.interpretation db.viewOf hcondition hchildren hwfl hwfr hne hreads, nestedLoop_map, List.map_map,
    List.map_map]
  simp only [haccepts]
  refine List.map_congr_left fun q _ => ?_
  show Row.named join.columnBindings _ = Row.join l.columnBindings (l.namedRow q.1) (r.namedRow q.2)
  rw [hbindings, Row.named_map, join_namedRow hne]

/-- The rows the join is handed are those of the probe side. -/
theorem inputs_perm (hright : db.Right l) (hwf : l.WellFormed) {input : List Row} {inputs : List Chunk}
    (hinput : (db.getRelation l).answers input) (hinputs : inputs.flatten = input.map (l.columnBindings.map ·)) :
    inputs.flatten.Perm (l.seqScan db.interpretation (db.viewOf l)) := by
  have hperm := (gives_of_right hright).perm input hinput
  rw [hinputs]
  refine (hperm.map _).trans (.of_eq ?_)
  rw [named_seqScan hwf.outputPositions_lt, List.map_map, LogicalGet.seqScan]
  refine List.map_congr_left fun r _ => ?_
  rw [LogicalGet.map_outputColumns hwf.outputPositions_lt]
  exact map_restrict _ _

theorem Joins.unique {inputs : List Chunk} {chunk chunk' : Chunk} (h : db.Joins plan inputs chunk)
    (h' : db.Joins plan inputs chunk') : chunk = chunk' := by
  obtain ⟨calls, hcalls⟩ := h
  obtain ⟨calls', hcalls'⟩ := h'
  have hrun := hcalls (max calls calls') (le_max_left _ _)
  rw [hcalls' (max calls calls') (le_max_right _ _)] at hrun
  exact (Except.ok.inj hrun).symm

/-- The index join answers the rows of the nested loop, and does not fail. -/
theorem gives_indexJoin {m : Bool} (hserved : db.JoinServed m join sides plan) (hmem : sides ∈ join.attempts)
    (hbuild : sides.tryBuild indexType join.estimatedCardinality = some plan) (hright : db.Right sides.probe) :
    (db.indexJoinRelation plan (db.getRelation sides.probe)).Gives
      ((join.run db.interpretation db.viewOf).map (Row.named join.columnBindings)) := by
  obtain ⟨hwf, hplace, horder, -, hanswered⟩ := hserved
  have hbuilds := builds_of_tryBuild hbuild
  have hbindings : sides.probe.columnBindings ++ plan.indexBindings = plan.columnBindings := by
    rw [LogicalIndexJoin.columnBindings, hbuilds.child]
  have hjoins : ∀ input inputs, (db.getRelation sides.probe).answers input →
      inputs.flatten = input.map (sides.probe.columnBindings.map ·) → ∃ chunk, db.Joins plan inputs chunk ∧
        (chunk.map fun row => join.columnBindings.map (resolve plan.columnBindings row)).Perm
          (join.run db.interpretation db.viewOf) := by
    intro input inputs hinput hinputs
    have hrun := run_perm hwf hmem hbuilds ((probeColumn_iff hwf hbuilds).mpr hplace) horder db.interpretation
      (db.index plan.indexTable plan.index) db.viewOf db.reset db.memory inputs hanswered
      (inputs_perm hright hwf.probe hinput hinputs)
    have hview : db.viewOf sides.indexed = db.view plan.indexTable := by rw [viewOf, hbuilds.indexTable]
    rw [hview] at hrun
    exact hrun
  constructor
  · intro rows hanswers
    obtain ⟨input, inputs, chunk, hinput, hinputs, hchunk, hrows⟩ := hanswers
    obtain ⟨chunk', hchunk', hperm⟩ := hjoins input inputs hinput hinputs
    obtain rfl := hchunk.unique hchunk'
    refine hrows.trans ((List.Perm.of_eq ?_).trans (hperm.map (Row.named join.columnBindings)))
    rw [List.map_map]
    refine List.map_congr_left fun row _ => ?_
    show Row.named (sides.probe.columnBindings ++ plan.indexBindings) row = Row.named join.columnBindings _
    rw [Row.named_map, hbindings]
    exact Row.restrict_perm _ (columnBindings_perm hwf hmem hbuilds)
  · rintro (hfails | ⟨input, inputs, hinput, hinputs, hnone⟩)
    · exact (gives_of_right hright).fails hfails
    · obtain ⟨chunk, hchunk, -⟩ := hjoins input inputs hinput hinputs
      exact hnone ⟨chunk, hchunk⟩

/-- The operands of a join are bindings of its sides. -/
theorem reads_sides (hwf : sides.WellFormed) (hmem : sides ∈ join.attempts) : ∃ condition,
    join.condition = some condition ∧ ∀ f g : ColumnBinding → Value,
      (∀ b ∈ sides.probe.columnBindings ++ sides.indexed.columnBindings, f b = g b) →
        condition.accepts db.interpretation .null f = condition.accepts db.interpretation .null g := by
  obtain ⟨type, x, y, hcondition, -, hrefs⟩ := attempts_spec hwf hmem
  have hprobe := List.mem_append_left sides.indexed.columnBindings hwf.probeRef_mem
  have hindexed := List.mem_append_right sides.probe.columnBindings hwf.indexedRef_mem
  refine ⟨_, hcondition, fun f g hfg => ?_⟩
  rcases hrefs with ⟨rfl, rfl⟩ | ⟨rfl, rfl⟩
  · exact accepts_congr _ .null (hfg _ hindexed) (hfg _ hprobe)
  · exact accepts_congr _ .null (hfg _ hprobe) (hfg _ hindexed)

/-- The index join refines the nested loop. -/
theorem join_refines {m : Bool} {condition : Option Expression} {estimated : ℕ}
    (hserved : db.JoinServed m ⟨.inner, condition, [.get l, .get r], estimated⟩ sides plan)
    (hmem : sides ∈ (LogicalAnyJoin.mk .inner condition [.get l, .get r] estimated).attempts)
    (hbuild : sides.tryBuild indexType estimated = some plan) (hl : db.Right l) (hr : db.Right r) :
    (db.innerJoinRelation condition (db.getRelation l) (db.getRelation r)).Refines m
      (db.indexJoinRelation plan (db.getRelation plan.child)) := by
  have hwf := hserved.wellFormed
  have hbuilds := builds_of_tryBuild hbuild
  have hbindings := columnBindings_perm hwf hmem hbuilds
  obtain ⟨condition, rfl, hreads⟩ := @reads_sides _ _ db _ _ hwf hmem
  have hsides : (sides.probe = l ∧ sides.indexed = r) ∨ (sides.indexed = l ∧ sides.probe = r) := by
    rcases children_of_mem_attempts hmem with hchildren | hchildren <;> cases hchildren
    · exact .inr ⟨rfl, rfl⟩
    · exact .inl ⟨rfl, rfl⟩
  have hright : db.Right sides.probe := by
    rcases hsides with ⟨hprobe, -⟩ | ⟨-, hprobe⟩ <;> rw [hprobe] <;> assumption
  have hgives := gives_indexJoin hserved hmem hbuild hright
  rw [hbuilds.child]
  have hplan : (db.indexJoinRelation plan (db.getRelation sides.probe)).bindings = plan.columnBindings := by
    show sides.probe.columnBindings ++ plan.indexBindings = _
    rw [LogicalIndexJoin.columnBindings, hbuilds.child]
  refine ⟨?_, fun hm => ?_, fun rows hrows => ?_, fun hfails => absurd hfails hgives.fails⟩
  · rw [hplan]
    exact hbindings
  · rw [hplan, hbuilds.columnBindings]
    have hchildren := hserved.positions hm
    cases hchildren
    rfl
  · have hrows := hgives.perm rows hrows
    rcases hsides with ⟨rfl, rfl⟩ | ⟨rfl, rfl⟩
    · exact innerJoin_answers hl hr rfl rfl hwf.probe hwf.indexed hwf.tableIndex_ne.symm hreads hrows
    · refine innerJoin_answers hl hr rfl rfl hwf.indexed hwf.probe hwf.tableIndex_ne (fun f g hfg => ?_) hrows
      exact hreads f g fun b hb => hfg b (List.perm_append_comm.mem_iff.mp hb)

theorem scanServed_of_holds {m : Bool} {t : Plan} {get : LogicalGet} (h : (db.served sets).Holds m t)
    (ht : t.toLogical = .get get) : get.functionName = "seq_scan" → db.ScanServed sets get := by
  obtain ⟨ts, rfl⟩ := Plan.toLogical_eq_get ht
  cases h with
  | node hserved _ => exact hserved

/-- **The rule for joins.** -/
theorem join_improves {m : Bool} {joinType : JoinType} {condition : Option Expression} {estimated : ℕ}
    {ts : List Plan} (hholds : (db.served sets).Holds m (.node (.anyJoin joinType condition estimated) ts))
    (h : LogicalAnyJoin.tryOptimizeJoin ⟨joinType, condition, ts.map Plan.toLogical, estimated⟩ indexType = some plan) :
    (db.served sets).Improves m (.node (.anyJoin joinType condition estimated) ts)
      (.node (.indexJoin plan) [Plan.overGet none plan.child]) := by
  obtain ⟨sides, hmem, hbuild⟩ := List.exists_of_findSome?_eq_some h
  obtain rfl : joinType = .inner := joinType_of_mem_attempts hmem
  obtain ⟨l, r, hchildren, hprobe⟩ : ∃ l r, ts.map Plan.toLogical = [.get l, .get r] ∧
      (sides.probe = l ∨ sides.probe = r) := by
    rcases children_of_mem_attempts hmem with hchildren | hchildren
    · exact ⟨_, _, hchildren, .inr rfl⟩
    · exact ⟨_, _, hchildren, .inl rfl⟩
  obtain ⟨left, rest, rfl, hleft, hrest⟩ := List.map_eq_cons_iff.mp hchildren
  obtain ⟨right, rfl, hright⟩ := List.map_eq_singleton_iff.mp hrest
  rw [hchildren] at hmem
  cases hholds with
  | node hserved hbelow =>
    obtain ⟨hl, hr, hjoin⟩ := hserved l r hleft hright
    have hjoin := hjoin l r estimated indexType sides plan (.refl l) (.refl r) hmem hbuild
    have hchild : plan.child.functionName = "seq_scan" → db.ScanServed sets plan.child := by
      rw [(builds_of_tryBuild hbuild).child]
      rcases hprobe with rfl | rfl
      · exact scanServed_of_holds (hbelow left (by simp)) hleft
      · exact scanServed_of_holds (hbelow right (by simp)) hright
    refine ⟨.node trivial fun t ht => ?_, ?_, ?_⟩
    · obtain rfl := List.mem_singleton.mp ht
      exact holds_get hchild
    · show Relation.Refines m (db.innerJoinRelation condition (db.eval left) (db.eval right))
        (db.indexJoinRelation plan (db.getRelation plan.child))
      rw [eval_eq_relationOver (p := none) hleft, eval_eq_relationOver (p := none) hright]
      exact join_refines hjoin hmem hbuild hl hr
    · intro p get heq
      rcases p with - | p <;> cases heq

end Join

/-! ### Over indexes of the rows -/

section Over

variable {get : LogicalGet} {join : LogicalAnyJoin} {sides : JoinSides} {plan : LogicalIndexJoin}

/-- Indexes over the rows serve a get: where each is over the column of the filter it is found for, which
compares that column with a box constant. -/
theorem scanServed_of_over (hbind : get.bindData = none) (hwf : get.WellFormed)
    (hkeeps : ∀ indexType, get.KeepsProjection sets indexType)
    (hprojection : ∀ indexType matched scan, get.findMatch sets indexType = some (matched, scan) →
      get.projectionIds = [] ∨ (get.extended matched).length ≠ get.columnIds.length ∨
        select get.columnIds (get.extended matched) = get.columnIds)
    (hown : ∀ indexType matched scan filter, get.findMatch sets indexType = some (matched, scan) →
      (matched, filter) ∈ get.tableFilters → storageOid get.table.columns matched = some scan.index.columnId ∧
        scan.Exact filter.expr)
    (hmeos : ∀ t, (db.meos t).Lawful)
    (hagrees : ∀ info ∈ get.table.indexes, db.interpretation.Agrees (db.meos info.bboxType) info)
    (hover : ∀ info ∈ get.table.indexes, (db.index get.table info).Over info (db.viewOf get)) :
    db.ScanServed sets get := by
  refine ⟨hbind, hwf, hkeeps, hprojection, fun indexType matched scan hfind => ?_⟩
  obtain ⟨filter, hfilter, hinfo, -⟩ := findMatch_eq_some hfind
  obtain ⟨hcolumn, hexact⟩ := hown indexType matched scan filter hfind hfilter
  exact answered_of_exact hwf hfilter hcolumn hexact (hmeos _) (hagrees _ hinfo) (hover _ hinfo)

/-- An index over the rows serves a join. -/
theorem joinServed_of_over {m : Bool} (hwf : sides.WellFormed) (hmem : sides ∈ join.attempts)
    (hbuilds : sides.Builds plan)
    (hplace : (select sides.probe.columnIds sides.probe.outputPositions)[sides.probeRef.binding.columnIndex]? =
      sides.probe.columnIds[sides.probeRef.binding.columnIndex]?)
    (horder : select sides.indexed.columnIds sides.indexed.outputPositions = sides.indexed.columnIds)
    (hpositions : m = true → join.children = [.get sides.probe, .get sides.indexed])
    (hmeos : ∀ t, (db.meos t).Lawful)
    (hagrees : sides.AgreesOverlap db.interpretation plan.index (plan.createPlan (db.index plan.indexTable plan.index)))
    (hover : (db.index plan.indexTable plan.index).Over plan.index (db.viewOf sides.indexed))
    (hprobe : ∀ x ∈ (db.viewOf sides.probe).seqRows, ∃ o,
      (plan.createPlan (db.index plan.indexTable plan.index)).probeBox
        (sides.probe.bindingValue x sides.probeRef.binding) = .ok o) :
    db.JoinServed m join sides plan :=
  ⟨hwf, hplace, horder, hpositions, fun condition hcondition =>
    answered_of_over hwf hmem hbuilds (hmeos _) hagrees hover hprobe condition hcondition⟩

end Over

/-! ### The optimizers, one after the other -/

theorem scan_improves (indexType : IndexType) {m : Bool} {plan : Plan} (h : (db.served sets).Holds m plan) :
    (db.served sets).Improves m plan (scanTryOptimize sets indexType plan) := by
  have hstep := scanStep sets indexType plan
  generalize scanTryOptimize sets indexType plan = optimized at hstep
  cases hstep with
  | none => exact .refl h
  | @refused get get' ts hrefused =>
    have hserved := scanServed_of_holds h rfl
    have hunchanged : (tryOptimizeLogicalGet sets indexType get).2 = .get get := by
      by_cases hname : get.functionName = "seq_scan"
      · exact (get_unchanged_iff sets indexType get).mpr ((hserved hname).keeps indexType) (by rw [hrefused])
      · rw [tryOptimizeLogicalGet_of_scanned hname]
    rw [hrefused] at hunchanged
    obtain rfl := LogicalOperator.get.inj hunchanged
    exact ⟨holds_get hserved, Relation.Refines.refl _ _, turns_get (.refl _)⟩
  | get hget hplan => exact get_improves (scanServed_of_holds h rfl) hget hplan
  | topN hchild hordered hname hfilters hscan =>
    cases h with
    | node hserved _ => exact topN_improves hserved hchild hordered hname hfilters hscan

theorem join_step_improves (indexType : IndexType) {m : Bool} {plan : Plan} (h : (db.served sets).Holds m plan) :
    (db.served sets).Improves m plan (joinTryOptimize indexType plan) := by
  have hstep := joinStep indexType plan
  generalize joinTryOptimize indexType plan = optimized at hstep
  cases hstep with
  | none => exact .refl h
  | join hjoin => exact join_improves h hjoin

variable (db sets) in
/-- The optimizers, as rules. -/
def rules : List (db.served sets).Rule :=
  [⟨scanTryOptimize sets .trtree, scan_improves .trtree⟩, ⟨joinTryOptimize .trtree, join_step_improves .trtree⟩,
    ⟨scanTryOptimize sets .tsptree, scan_improves .tsptree⟩, ⟨joinTryOptimize .tsptree, join_step_improves .tsptree⟩]

/-- **The optimized plan refines the plan.** Where the rules may rely on the operators of a plan, what the four
optimizers leave of it has its columns in their order, answers nothing it could not, and fails only where it
may. -/
theorem optimize_refines {plan : Plan} (h : (db.served sets).Holds true plan) :
    (db.eval plan).Refines true (db.eval (optimize sets plan)) :=
  (Invariant.improves_passes (rules db sets) h).le

/-! The table of two boxes, joined with itself: the first optimizer scans its index for the filter, the second
probes it with the boxes that are found. -/

/-- An operator that answers nothing. -/
def emptyOperator : Operator where
  positional := true
  bindings _ := []
  answers _ _ rows := rows = []
  fails _ _ := False
  total _ _ _ := ⟨[], rfl⟩
  bindings_perm _ := .refl _
  congr h := nomatch h

def boxDatabase : Database ℕ where
  interpretation := boxInterpretation
  view _ := boxRows
  meos t := wholeMeos t.boxSize
  near _ := noNearest _
  index _ := boxRowsIndex
  before _ _ _ := True
  before_total _ := ⟨fun _ _ => .inl trivial⟩
  before_trans _ := ⟨fun _ _ _ _ _ => trivial⟩
  otherJoin _ := emptyOperator
  reset := id
  memory _ := []

def boxJoinPlan : Plan := .node
  (.anyJoin .inner (boxJoin boxGet boxSide 0).condition 0)
  [Plan.overGet none boxGet, Plan.overGet none boxSide]

/-- The index is scanned for the filter, and then joined with. -/
example : optimize .backtracking boxJoinPlan =
    .node (.indexJoin (boxPlan (boxGet.readIndex .trtree boxScan) 0))
      [Plan.overGet none (boxGet.readIndex .trtree boxScan)] := rfl

theorem boxGet_served : boxDatabase.ScanServed .backtracking boxGet := by
  have hkeeps : ∀ indexType, boxGet.KeepsProjection .backtracking indexType := fun _ _ _ hne => absurd rfl hne
  refine scanServed_of_over rfl boxGet_wellFormed hkeeps (fun _ _ _ _ => .inl rfl) ?_ (fun _ => wholeMeos_lawful _)
    ?_ ?_
  · intro indexType matched scan filter hfind hfilter
    obtain ⟨rfl, rfl⟩ := Prod.mk.inj (List.mem_singleton.mp hfilter)
    obtain ⟨filter', hfilter', hinfo, -, -, hmatch⟩ := findMatch_eq_some hfind
    obtain ⟨-, rfl⟩ := Prod.mk.inj (List.mem_singleton.mp hfilter')
    have hindex : scan.index = boxIndex := List.mem_singleton.mp hinfo
    have hscan : boxIndex.matchFilter .backtracking ⟨.expressionFilter, boxPredicate (.reference .stbox)⟩ =
        some boxScan := matchFilter_comparison rfl (.inl rfl) (overlaps_isSome .stbox) (queryBytes_zeroBox .stbox)
    rw [hindex, hscan] at hmatch
    obtain rfl := Option.some.inj hmatch
    exact ⟨rfl, exact_of_matchFilter hscan (c := zeroBox .stbox) (.inl rfl) rfl⟩
  · intro info hinfo
    obtain rfl := List.mem_singleton.mp hinfo
    exact boxInterpretation_agrees
  · intro info hinfo
    obtain rfl := List.mem_singleton.mp hinfo
    exact over_boxRows

theorem boxSide_served : boxDatabase.ScanServed .backtracking boxSide := by
  have hnone : ∀ indexType matched scan, boxSide.findMatch .backtracking indexType ≠ some (matched, scan) :=
    fun _ _ _ h => nomatch h
  have hkeeps : ∀ indexType, boxSide.KeepsProjection .backtracking indexType := fun _ _ _ hne => absurd rfl hne
  exact ⟨rfl, boxSide_wellFormed, hkeeps, fun _ _ _ h => absurd h (hnone _ _ _),
    fun _ _ _ h => absurd h (hnone _ _ _)⟩

/-- Only the second side is indexed: the first one has a filter. -/
theorem boxJoin_sides {probe side : LogicalGet} (hprobe : boxGet.SameColumns probe) (hside : boxSide.SameColumns side)
    {estimated : ℕ} {indexType : IndexType} {sides : JoinSides} {plan : LogicalIndexJoin}
    (hmem : sides ∈ (boxJoin probe side estimated).attempts) (hbuild : sides.tryBuild indexType estimated = some plan) :
    sides = boxSides probe side ∧ plan = boxPlan probe estimated := by
  obtain ⟨name, bind, n, has, rfl⟩ := hprobe.eq_with
  obtain ⟨name', bind', n', has', rfl⟩ := hside.eq_with
  have hfilters : sides.indexed.tableFilters = [] := (builds_of_tryBuild hbuild).tableFilters
  rcases sides_of_mem_attempts hmem with h | h
  · obtain rfl := Option.some.inj h
    cases hfilters
  · obtain rfl : sides = boxSides _ _ := congrArg JoinSides.swap (Option.some.inj h).symm
    cases indexType with
    | trtree => exact ⟨rfl, (Option.some.inj hbuild).symm⟩
    | tsptree => cases hbuild

theorem boxJoin_served {probe side : LogicalGet} (hprobe : boxGet.SameColumns probe) (hside : boxSide.SameColumns side)
    {estimated : ℕ} {indexType : IndexType} {sides : JoinSides} {plan : LogicalIndexJoin}
    (hmem : sides ∈ (boxJoin probe side estimated).attempts) (hbuild : sides.tryBuild indexType estimated = some plan) :
    boxDatabase.JoinServed true (boxJoin probe side estimated) sides plan := by
  have hbuilds := builds_of_tryBuild hbuild
  obtain ⟨rfl, rfl⟩ := boxJoin_sides hprobe hside hmem hbuild
  have hwf : (boxSides probe side).WellFormed := by
    refine boxSides_wellFormed (hprobe.wellFormed boxGet_wellFormed) (hside.wellFormed boxSide_wellFormed) ?_ ?_
    · rw [hprobe.columnBindings]
      exact List.mem_cons_self
    · rw [hside.columnBindings]
      exact List.mem_cons_self
  obtain ⟨name, bind, n, has, rfl⟩ := hprobe.eq_with
  obtain ⟨name', bind', n', has', rfl⟩ := hside.eq_with
  exact joinServed_of_over hwf hmem hbuilds rfl rfl (fun _ => rfl) (fun _ => wholeMeos_lawful _)
    (boxInterpretation_overlap rfl rfl rfl) over_boxRows fun _ _ => ⟨_, probeBox_wholeMeos rfl _⟩

theorem boxJoinPlan_holds : (boxDatabase.served .backtracking).Holds true boxJoinPlan := by
  refine .node ?_ ?_
  · intro l r hl hr
    obtain rfl := LogicalOperator.get.inj hl
    obtain rfl := LogicalOperator.get.inj hr
    refine ⟨⟨_, scans_of_none rfl, .refl _⟩, ⟨_, scans_of_none rfl, .refl _⟩, ?_⟩
    intro l' r' estimated indexType sides plan hl' hr' hmem hbuild
    exact boxJoin_served hl' hr' hmem hbuild
  · intro t ht
    simp only [List.mem_cons, List.not_mem_nil, or_false] at ht
    rcases ht with rfl | rfl
    · exact holds_get fun _ => boxGet_served
    · exact holds_get fun _ => boxSide_served

theorem optimize_refines_boxJoinPlan :
    (boxDatabase.eval boxJoinPlan).Refines true (boxDatabase.eval (optimize .backtracking boxJoinPlan)) :=
  optimize_refines boxJoinPlan_holds

end Database

end MobilityDuck
