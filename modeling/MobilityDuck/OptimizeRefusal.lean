/-
# Plans the optimizer leaves alone

Where `TryOptimizeLogicalGet` or `TryOptimizeLogicalTopN` answers that a plan
was not rewritten, the plan should be the one it was given. A TopN is. A get
is not always: the loop over the other filters adds the column of each one to
the projection, and gives up at the first whose column the get does not read,
with the projection extended by then. So the get is as before exactly when
no filter that is passed on the way there needed to be added
(`plan_unchanged_iff`).

Key definitions: `LogicalGet.passed`, `LogicalGet.KeepsProjection`. Key
theorem: `plan_unchanged_iff`.
-/
import MobilityDuck.ScanProjection

namespace MobilityDuck

open Lib

/-! ### What the loop over the other filters leaves behind -/

/-- The positions the loop passes: those of the residual filters before the first whose column the
get does not read. -/
def LogicalGet.passed (get : LogicalGet) (matched : ℕ) : List (ℕ × TableFilter) → List ℕ
  | [] => []
  | (key, _) :: rest =>
    if key = matched then passed get matched rest
    else
      match get.position? key with
      | none => []
      | some position => position :: passed get matched rest

/-- They do not depend on the projection. -/
theorem passed_with_projectionIds (get : LogicalGet) (projectionIds : List ℕ) (matched : ℕ) :
    ∀ filters, { get with projectionIds := projectionIds }.passed matched filters = get.passed matched filters
  | [] => rfl
  | (key, _) :: rest => by
    rw [LogicalGet.passed, LogicalGet.passed, passed_with_projectionIds get projectionIds matched rest]
    rfl

theorem prefix_foldl_extendProjection (original : List ℕ) :
    ∀ ps projectionIds : List ℕ, projectionIds <+: ps.foldl (extendProjection original) projectionIds
  | [], _ => List.prefix_refl _
  | p :: ps, projectionIds => by
    have hstep : projectionIds <+: extendProjection original projectionIds p := by
      unfold extendProjection
      split
      · exact List.prefix_append _ _
      · exact List.prefix_refl _
    exact hstep.trans (prefix_foldl_extendProjection original ps _)

/-- A projection stays as it is when nothing needs to be added to it. -/
theorem foldl_extendProjection_eq_iff {original : List ℕ} (horiginal : original ≠ []) :
    ∀ ps projectionIds : List ℕ,
    ps.foldl (extendProjection original) projectionIds = projectionIds ↔ ∀ p ∈ ps, p ∈ projectionIds
  | [], projectionIds => by simp
  | p :: ps, projectionIds => by
    rw [List.foldl_cons]
    by_cases hmem : p ∈ projectionIds
    · have hkeep : extendProjection original projectionIds p = projectionIds := by
        rw [extendProjection, if_neg (by simp [hmem])]
      rw [hkeep, foldl_extendProjection_eq_iff horiginal ps projectionIds]
      simp [hmem]
    · have hadd : extendProjection original projectionIds p = projectionIds ++ [p] :=
        if_pos ⟨horiginal, hmem⟩
      constructor
      · intro heq
        have hlen := (prefix_foldl_extendProjection original ps (projectionIds ++ [p])).length_le
        rw [← hadd, heq, hadd, List.length_append, List.length_singleton] at hlen
        omega
      · exact fun hall => absurd (hall p List.mem_cons_self) hmem

/-- The loop gives up at a residual filter whose column the get does not read, and leaves the
projection extended by the positions it passed. -/
theorem residuals_eq_false {matched : ℕ} {original : List ℕ} : ∀ {filters : List (ℕ × TableFilter)}
    {get get' : LogicalGet} {residual residual' : List Expression},
    LogicalGet.residuals matched original filters get residual = (false, get', residual') →
    get' = { get with
      projectionIds := (get.passed matched filters).foldl (extendProjection original) get.projectionIds }
  | [], get, get', residual, residual', h => by
    obtain ⟨h, -⟩ := Prod.mk.inj h
    cases h
  | (key, filter) :: rest, get, get', residual, residual', h => by
    rw [LogicalGet.residuals] at h
    rw [LogicalGet.passed]
    by_cases hkey : key = matched
    · rw [if_pos hkey] at h ⊢
      exact residuals_eq_false h
    · rw [if_neg hkey] at h ⊢
      cases hpos : get.position? key with
      | none =>
        rw [hpos] at h
        obtain ⟨-, h⟩ := Prod.mk.inj h
        obtain ⟨rfl, -⟩ := Prod.mk.inj h
        rfl
      | some position =>
        rw [hpos] at h
        rw [residuals_eq_false h, passed_with_projectionIds, List.foldl_cons]

/-- And it gives up only there. -/
theorem exists_unread_of_residuals {matched : ℕ} {original : List ℕ} {filters : List (ℕ × TableFilter)}
    {get get' : LogicalGet} {residual residual' : List Expression}
    (h : LogicalGet.residuals matched original filters get residual = (false, get', residual')) :
    ∃ f ∈ filters, f.1 ≠ matched ∧ get.position? f.1 = none := by
  by_contra hnone
  have hread : ∀ f ∈ filters, f.1 ≠ matched → (get.position? f.1).isSome := by
    intro f hf hne
    rw [← Option.ne_none_iff_isSome]
    exact fun hpos => hnone ⟨f, hf, hne, hpos⟩
  obtain ⟨get'', residual'', htrue⟩ := @exists_residuals matched original filters get residual hread
  rw [htrue] at h
  cases (Prod.mk.inj h).1

/-- An unread column makes it give up. -/
theorem residuals_fst_eq_false {matched : ℕ} {filters : List (ℕ × TableFilter)} {get : LogicalGet}
    (original : List ℕ) (residual : List Expression)
    (h : ∃ f ∈ filters, f.1 ≠ matched ∧ get.position? f.1 = none) :
    ∃ get' residual', LogicalGet.residuals matched original filters get residual = (false, get', residual') := by
  obtain ⟨r, hr⟩ : ∃ r, LogicalGet.residuals matched original filters get residual = r := ⟨_, rfl⟩
  obtain ⟨ok, get', residual'⟩ := r
  cases ok with
  | false => exact ⟨get', residual', hr⟩
  | true =>
    obtain ⟨f, hf, hne, hpos⟩ := h
    obtain ⟨hread, -, -⟩ := residuals_eq_true hr
    have hsome := hread f (List.mem_filter.mpr ⟨hf, by simpa using hne⟩)
    rw [hpos] at hsome
    simp at hsome

/-! ### When a refused plan is unchanged -/

/-- Where an index answers a filter of the get and the loop over the others gives up, no column it
passed had to be added to the projection. -/
def LogicalGet.KeepsProjection (get : LogicalGet) (sets : SetMatcher) (indexType : IndexType) : Prop :=
  get.functionName = "seq_scan" → get.table.isDuckTable = true → get.projectionIds ≠ [] →
    ∀ matched scan, get.findMatch sets indexType = some (matched, scan) →
      (∃ f ∈ get.tableFilters, f.1 ≠ matched ∧ get.position? f.1 = none) →
      ∀ p ∈ get.passed matched get.tableFilters, p ∈ get.projectionIds

/-- A get that reads the column of every filter keeps its projection. -/
theorem keepsProjection_of_reads {get : LogicalGet} (h : ∀ f ∈ get.tableFilters, (get.position? f.1).isSome)
    (sets : SetMatcher) (indexType : IndexType) : get.KeepsProjection sets indexType := by
  intro _ _ _ matched scan _ hunread
  obtain ⟨f, hf, -, hpos⟩ := hunread
  have hsome := h f hf
  rw [hpos] at hsome
  simp at hsome

/-- A refused TopN is the plan that was given. -/
theorem topN_unchanged (sets : SetMatcher) (indexType : IndexType) (orders : List OrderByNode)
    (limit offset : ℕ) (children : List LogicalOperator)
    (h : (tryOptimizeLogicalTopN sets indexType orders limit offset children).1 = false) :
    (tryOptimizeLogicalTopN sets indexType orders limit offset children).2 =
      .topN orders limit offset children := by
  unfold tryOptimizeLogicalTopN at h ⊢
  simp only at h ⊢
  split
  · rfl
  rename_i hshape
  rw [if_neg hshape] at h
  split
  · rfl
  rename_i ordered hordered
  simp only [hordered] at h
  split
  · rfl
  rename_i hget
  rw [if_neg hget] at h
  split
  · rfl
  · rename_i scan hscan
    simp only [hscan] at h
    cases h

/-- A refused get is the one that was given, but for the positions its projection was extended by. -/
theorem get_unchanged_iff (sets : SetMatcher) (indexType : IndexType) (get : LogicalGet) :
    ((tryOptimizeLogicalGet sets indexType get).1 = false →
      (tryOptimizeLogicalGet sets indexType get).2 = .get get) ↔ get.KeepsProjection sets indexType := by
  unfold tryOptimizeLogicalGet LogicalGet.KeepsProjection
  by_cases hscan : get.functionName ≠ "seq_scan" ∨ get.table.isDuckTable = false
  · rw [if_pos hscan]
    refine iff_of_true (fun _ => rfl) fun hname hduck => ?_
    rcases hscan with hne | hne
    · exact absurd hname hne
    · rw [hduck] at hne
      cases hne
  rw [if_neg hscan]
  simp only [not_or, not_not, Bool.not_eq_false] at hscan
  cases hfind : get.findMatch sets indexType with
  | none => simp
  | some found =>
    obtain ⟨matched, scan⟩ := found
    obtain ⟨r, hr⟩ : ∃ r, get.residuals matched get.projectionIds get.tableFilters [] = r := ⟨_, rfl⟩
    obtain ⟨ok, get', residual⟩ := r
    simp only [hr]
    cases ok with
    | true =>
      refine iff_of_true (fun h => nomatch h) fun _ _ _ matched' scan' hfound hunread => ?_
      obtain ⟨rfl, -⟩ := Prod.mk.inj (Option.some.inj hfound)
      obtain ⟨get'', residual'', hfalse⟩ := residuals_fst_eq_false get.projectionIds [] hunread
      rw [hfalse] at hr
      cases (Prod.mk.inj hr).1
    | false =>
      have hunread := exists_unread_of_residuals hr
      simp only [true_implies, LogicalOperator.get.injEq]
      rw [residuals_eq_false hr]
      by_cases hnil : get.projectionIds = []
      · refine iff_of_true ?_ fun _ _ hne => absurd hnil hne
        rw [hnil, foldl_extendProjection_nil, ← hnil]
      · have hsame : { get with projectionIds :=
            (get.passed matched get.tableFilters).foldl (extendProjection get.projectionIds) get.projectionIds } =
              get ↔ ∀ p ∈ get.passed matched get.tableFilters, p ∈ get.projectionIds := by
          rw [← foldl_extendProjection_eq_iff hnil]
          constructor
          · exact fun heq => congrArg LogicalGet.projectionIds heq
          · intro heq
            rw [heq]
        rw [hsame]
        constructor
        · intro hall _ _ _ matched' scan' hfound _
          obtain ⟨rfl, -⟩ := Prod.mk.inj (Option.some.inj hfound)
          exact hall
        · exact fun hall => hall hscan.1 hscan.2 hnil matched scan rfl hunread

/-- **A refused plan is unchanged exactly when** its get keeps its projection; a refused TopN always
is. -/
theorem plan_unchanged_iff (sets : SetMatcher) (indexType : IndexType) :
    (∀ get : LogicalGet, ((tryOptimizeLogicalGet sets indexType get).1 = false →
      (tryOptimizeLogicalGet sets indexType get).2 = .get get) ↔ get.KeepsProjection sets indexType) ∧
    ∀ (orders : List OrderByNode) (limit offset : ℕ) (children : List LogicalOperator),
      (tryOptimizeLogicalTopN sets indexType orders limit offset children).1 = false →
      (tryOptimizeLogicalTopN sets indexType orders limit offset children).2 =
        .topN orders limit offset children :=
  ⟨get_unchanged_iff sets indexType, topN_unchanged sets indexType⟩

/-- A table of an indexed column between two others. -/
def betweenColumns : TableEntry where
  columns := [⟨⟨.integer, ""⟩, false⟩, ⟨.stbox, false⟩, ⟨⟨.integer, ""⟩, false⟩]
  indexes := [⟨"i", .trtree, [1], .stbox, .stbox, bboxTypeOf_stbox⟩]
  isDuckTable := true
  cardinality := none
  created info hinfo := by
    obtain rfl := List.mem_singleton.mp hinfo
    exact ⟨1, ⟨.stbox, false⟩, rfl, rfl, rfl⟩

/-- A get with a filter on each of them, which does not read the last. -/
def betweenGet : LogicalGet where
  functionName := "seq_scan"
  table := betweenColumns
  tableIndex := 0
  columnIds := [.column 1, .column 0]
  projectionIds := [0]
  tableFilters := [(0, notNullFilter),
    (1, ⟨.expressionFilter, overlapsZero ⟨"i", .trtree, [1], .stbox, .stbox, bboxTypeOf_stbox⟩ .stbox⟩),
    (2, notNullFilter)]
  bindData := none
  estimatedCardinality := 0
  hasEstimatedCardinality := false

theorem betweenGet_findMatch : ∃ scan, betweenGet.findMatch .backtracking .trtree = some (1, scan) := by
  have hinfo : (⟨"i", .trtree, [1], .stbox, .stbox, bboxTypeOf_stbox⟩ : IndexInfo) ∈ betweenColumns.indexes :=
    List.mem_cons_self
  obtain ⟨⟨matched, scan⟩, hfind⟩ := Option.isSome_iff_exists.mp (findMatch_isSome .backtracking betweenGet
    (List.mem_cons_of_mem _ List.mem_cons_self) hinfo rfl
    (matchFilter_overlapsZero .backtracking ⟨"i", .trtree, [1], .stbox, .stbox, bboxTypeOf_stbox⟩ .stbox))
  obtain ⟨_, -, hindex, -, hcolumn, -⟩ := findMatch_eq_some hfind
  have hmatched : matched = 1 := by
    rw [← hcolumn, List.mem_singleton.mp hindex]
    rfl
  exact ⟨scan, by rw [hfind, hmatched]⟩

/-- It is refused with the first column added to what it projects. -/
theorem betweenGet_changed : ¬ ∀ get : LogicalGet,
    (tryOptimizeLogicalGet .backtracking .trtree get).1 = false →
      (tryOptimizeLogicalGet .backtracking .trtree get).2 = .get get := by
  intro h
  have hkeeps := (get_unchanged_iff .backtracking .trtree betweenGet).mp (h betweenGet)
  obtain ⟨scan, hfind⟩ := betweenGet_findMatch
  have hunread : ∃ f ∈ betweenGet.tableFilters, f.1 ≠ 1 ∧ betweenGet.position? f.1 = none :=
    ⟨(2, notNullFilter), List.mem_cons_of_mem _ (List.mem_cons_of_mem _ List.mem_cons_self), by decide, rfl⟩
  have hpassed : 1 ∈ betweenGet.passed 1 betweenGet.tableFilters := List.mem_cons_self
  have hprojected : 1 ∈ [0] := hkeeps rfl rfl (by simp [betweenGet]) 1 scan hfind hunread 1 hpassed
  exact absurd hprojected (by decide)

end MobilityDuck
