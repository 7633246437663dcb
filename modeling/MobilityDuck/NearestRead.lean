/-
# What a nearest-neighbour scan reads

`GatherNearest` asks its cursor for one candidate after the other, until one
comes whose bound reaches the `k`-th distance it holds. `gatherRead` is its
loop with what the cursor has not handed out yet; it holds what `gatherLoop`
holds (`gatherRead_fst`), and leaves the end of the stream unread, all that
stands behind such a candidate (`suffix_unread_of_reaches`).

Key definitions: `gatherRead`, `Reaches`, `RowMeasures`. Key theorem:
`gatherNearest_topK`.
-/
import MobilityDuck.NearestRuns

namespace MobilityDuck

open Lib

variable {n : ℕ} {meos : Meos n} {δ : Type} [LinearOrder δ] {value : RowId → Option (List UInt8)}
  {exact : List UInt8 → Except Exception δ}

/-! ### What is read of the cursor -/

/-- The loop of `GatherNearest` with its cursor: what it holds at its end, and the candidates
`NNScanNext` has not handed out. -/
def gatherRead (k : ℕ) (value : RowId → Option (List UInt8)) (exact : List UInt8 → Except Exception δ) :
    List (RowId × δ) → List (δ ×ₗ RowId) → Except Exception (List (δ ×ₗ RowId) × List (RowId × δ))
  | [], best => .ok (best, [])
  | (id, bound) :: rest, best =>
    if k ≤ best.length ∧ ∀ w ∈ best.head?, (ofLex w).1 ≤ bound then .ok (best, rest)
    else
      match value id with
      | none => gatherRead k value exact rest best
      | some v =>
        match exact v with
        | .error e => .error e
        | .ok d => gatherRead k value exact rest (push k (toLex (d, id)) best)

/-- The bound of a candidate reaches the `k`-th distance held. -/
def Reaches (k : ℕ) (best : List (δ ×ₗ RowId)) (bound : δ) : Prop :=
  k ≤ best.length ∧ ∀ w ∈ best.head?, (ofLex w).1 ≤ bound

/-- What the loop holds behind a candidate that does not end it. -/
def hold (k : ℕ) (value : RowId → Option (List UInt8)) (exact : List UInt8 → Except Exception δ) (id : RowId)
    (best : List (δ ×ₗ RowId)) : Except Exception (List (δ ×ₗ RowId)) :=
  match value id with
  | none => .ok best
  | some v => (exact v).map fun d => push k (toLex (d, id)) best

section Steps

variable {k : ℕ} {id : RowId} {bound : δ} {best : List (δ ×ₗ RowId)}

/-- Both loops end at a candidate whose bound reaches the `k`-th distance. -/
theorem gatherLoop_stop (h : Reaches k best bound) (rest : List (RowId × δ)) :
    gatherLoop k value exact ((id, bound) :: rest) best = .ok best := if_pos h

theorem gatherRead_stop (h : Reaches k best bound) (rest : List (RowId × δ)) :
    gatherRead k value exact ((id, bound) :: rest) best = .ok (best, rest) := if_pos h

/-- Otherwise they go on from what is held behind it. -/
theorem gatherLoop_step (h : ¬ Reaches k best bound) (rest : List (RowId × δ)) :
    gatherLoop k value exact ((id, bound) :: rest) best =
      (hold k value exact id best).bind (gatherLoop k value exact rest) := by
  rw [gatherLoop, hold]
  refine (if_neg h).trans ?_
  cases value id with
  | none => rfl
  | some v => cases hd : exact v <;> simp only [hd] <;> rfl

theorem gatherRead_step (h : ¬ Reaches k best bound) (rest : List (RowId × δ)) :
    gatherRead k value exact ((id, bound) :: rest) best =
      (hold k value exact id best).bind (gatherRead k value exact rest) := by
  rw [gatherRead, hold]
  refine (if_neg h).trans ?_
  cases value id with
  | none => rfl
  | some v => cases hd : exact v <;> simp only [hd] <;> rfl

end Steps

/-- Following the cursor changes nothing in what the loop holds. -/
theorem gatherRead_fst {k : ℕ} (candidates : List (RowId × δ)) (best : List (δ ×ₗ RowId)) :
    (gatherRead k value exact candidates best).map Prod.fst = gatherLoop k value exact candidates best := by
  induction candidates generalizing best with
  | nil => rfl
  | cons c rest ih =>
    by_cases hstop : Reaches k best c.2
    · rw [gatherRead_stop hstop, gatherLoop_stop hstop]
      rfl
    · rw [gatherRead_step hstop, gatherLoop_step hstop]
      cases hold k value exact c.1 best with
      | error e => rfl
      | ok best' => exact ih best'

/-- What is unread is the end of the stream. -/
theorem unread_suffix {k : ℕ} (candidates : List (RowId × δ)) {best best' : List (δ ×ₗ RowId)}
    {unread : List (RowId × δ)} (h : gatherRead k value exact candidates best = .ok (best', unread)) :
    unread <:+ candidates := by
  induction candidates generalizing best with
  | nil =>
    obtain ⟨-, rfl⟩ := Prod.mk.inj (Except.ok.inj h)
    exact List.suffix_refl _
  | cons c rest ih =>
    apply List.IsSuffix.trans _ (List.suffix_cons c rest)
    by_cases hstop : Reaches k best c.2
    · rw [gatherRead_stop hstop] at h
      obtain ⟨-, rfl⟩ := Prod.mk.inj (Except.ok.inj h)
      exact List.suffix_refl _
    · rw [gatherRead_step hstop] at h
      cases hheld : hold k value exact c.1 best with
      | error e =>
        rw [hheld] at h
        cases h
      | ok held =>
        rw [hheld] at h
        exact ih h

/-- Nothing is read behind a candidate whose bound reaches the `k`-th distance held when it comes up. The
induction is on the candidates before it. -/
theorem suffix_unread_of_reaches {k : ℕ} {c : RowId × δ} {after : List (RowId × δ)}
    (before : List (RowId × δ)) {best held best' : List (δ ×ₗ RowId)} {unread : List (RowId × δ)}
    (hheld : gatherLoop k value exact before best = .ok held) (hreach : Reaches k held c.2)
    (h : gatherRead k value exact (before ++ c :: after) best = .ok (best', unread)) : after <:+ unread := by
  induction before generalizing best with
  | nil =>
    obtain rfl := Except.ok.inj hheld
    rw [List.nil_append, gatherRead_stop hreach] at h
    obtain ⟨-, rfl⟩ := Prod.mk.inj (Except.ok.inj h)
    exact List.suffix_refl _
  | cons b before ih =>
    rw [List.cons_append] at h
    by_cases hstop : Reaches k best b.2
    · rw [gatherRead_stop hstop] at h
      obtain ⟨-, rfl⟩ := Prod.mk.inj (Except.ok.inj h)
      exact (List.suffix_cons c after).trans (List.suffix_append _ _)
    · rw [gatherLoop_step hstop] at hheld
      rw [gatherRead_step hstop] at h
      cases hnext : hold k value exact b.1 best with
      | error e =>
        rw [hnext] at h
        cases h
      | ok next =>
        rw [hnext] at h hheld
        exact ih hheld h

/-- `GatherNearest` with its cursor. -/
def gatherNearestRead (near : Nearest meos δ) (bind : IndexScanBindData meos) (table : Snapshot)
    (candidates : List (RowId × δ)) : Except Exception (List RowId × List (RowId × δ)) :=
  if bind.limit = 0 then .ok ([], candidates)
  else
    (gatherRead bind.limit (recheckValue bind table)
      (fun v => exactDistance near bind.index.info.bboxType v bind.queryBox) candidates []).map
      fun r => (r.1.reverse.map fun p => (ofLex p).2, r.2)

/-- `GatherNearest` answers the same rows. -/
theorem gatherNearestRead_fst (near : Nearest meos δ) (bind : IndexScanBindData meos) (table : Snapshot)
    (candidates : List (RowId × δ)) :
    (gatherNearestRead near bind table candidates).map Prod.fst = gatherNearest near bind table candidates := by
  unfold gatherNearestRead gatherNearest
  by_cases hk : bind.limit = 0
  · rw [if_pos hk, if_pos hk]
    rfl
  · rw [if_neg hk, if_neg hk, ← gatherRead_fst]
    cases gatherRead bind.limit (recheckValue bind table)
      (fun v => exactDistance near bind.index.info.bboxType v bind.queryBox) candidates [] <;> rfl

/-- What `GatherNearest` leaves unread. -/
theorem gatherNearestRead_unread {near : Nearest meos δ} {bind : IndexScanBindData meos} {table : Snapshot}
    {candidates unread : List (RowId × δ)} {rows : List RowId}
    (h : gatherNearestRead near bind table candidates = .ok (rows, unread)) :
    unread <:+ candidates ∧ ∀ before c after held, candidates = before ++ c :: after →
      gatherLoop bind.limit (recheckValue bind table)
        (fun v => exactDistance near bind.index.info.bboxType v bind.queryBox) before [] = .ok held →
      Reaches bind.limit held c.2 → after <:+ unread := by
  unfold gatherNearestRead at h
  by_cases hk : bind.limit = 0
  · rw [if_pos hk] at h
    obtain ⟨-, rfl⟩ := Prod.mk.inj (Except.ok.inj h)
    refine ⟨List.suffix_refl _, fun before c after held hsplit _ _ => ?_⟩
    rw [hsplit]
    exact (List.suffix_cons c after).trans (List.suffix_append _ _)
  · rw [if_neg hk] at h
    cases hr : gatherRead bind.limit (recheckValue bind table)
        (fun v => exactDistance near bind.index.info.bboxType v bind.queryBox) candidates [] with
    | error e =>
      rw [hr] at h
      cases h
    | ok r =>
      rw [hr] at h
      obtain ⟨-, rfl⟩ := Prod.mk.inj (Except.ok.inj h)
      refine ⟨unread_suffix candidates hr, fun before c after held hsplit hheld hreach => ?_⟩
      rw [hsplit] at hr
      exact suffix_unread_of_reaches before hheld hreach hr

/-- The rows with a value, which are what is ranked. -/
def valued (value : RowId → Option (List UInt8)) (candidates : List (RowId × δ)) : List RowId :=
  (candidates.filter fun c => (value c.1).isSome).map Prod.fst

theorem map_ranked {candidates : List (RowId × δ)} (h : Bounded value exact candidates) :
    (ranked value exact candidates).map (fun p => (ofLex p).2) = valued value candidates := by
  unfold ranked valued
  rw [List.map_filterMap, ← List.filterMap_eq_map, List.filterMap_filter]
  apply List.filterMap_congr
  intro c hc
  cases hv : value c.1 with
  | none => simp
  | some v =>
    obtain ⟨d, hd, -⟩ := h.le_exact c hc v hv
    simp [hd]

/-- The exact distance of a row. -/
def RowMeasures (value : RowId → Option (List UInt8)) (exact : List UInt8 → Except Exception δ) (id : RowId)
    (d : δ) : Prop :=
  ∃ v, value id = some v ∧ exact v = .ok d

omit [LinearOrder δ] in
theorem RowMeasures.eq {id : RowId} {d d' : δ} (h : RowMeasures value exact id d)
    (h' : RowMeasures value exact id d') : d = d' := by
  obtain ⟨v, hv, hd⟩ := h
  obtain ⟨v', hv', hd'⟩ := h'
  rw [hv] at hv'
  obtain rfl := Option.some.inj hv'
  rw [hd] at hd'
  exact Except.ok.inj hd'

omit [LinearOrder δ] in
theorem rowMeasures_of_mem {candidates : List (RowId × δ)} {p : δ ×ₗ RowId}
    (hp : p ∈ ranked value exact candidates) : RowMeasures value exact (ofLex p).2 (rank p) := by
  obtain ⟨c, -, v, hv, hd, hid⟩ := mem_ranked hp
  exact ⟨v, by rw [hid, hv], hd⟩

/-- **`GatherNearest` answers the `k` nearest rows** of a stream in the order of a lower bound, and reads
none behind the first candidate whose bound reaches the `k`-th distance it holds. -/
theorem gatherNearest_topK (near : Nearest meos δ) (bind : IndexScanBindData meos) (table : Snapshot)
    (candidates : List (RowId × δ)) (hnodup : (candidates.map Prod.fst).Nodup)
    (hb : Bounded (recheckValue bind table)
      (fun v => exactDistance near bind.index.info.bboxType v bind.queryBox) candidates) :
    let value := recheckValue bind table
    let exact := fun v => exactDistance near bind.index.info.bboxType v bind.queryBox
    ∃ rows unread, gatherNearest near bind table candidates = .ok rows ∧
      gatherNearestRead near bind table candidates = .ok (rows, unread) ∧
      rows.length = min bind.limit (valued value candidates).length ∧
      rows.Nodup ∧ rows ⊆ valued value candidates ∧
      (∀ id ∈ rows, ∀ id' ∈ valued value candidates, id' ∉ rows → ∀ d d',
        RowMeasures value exact id d → RowMeasures value exact id' d' → d ≤ d') ∧
      rows.Pairwise (fun id id' => ∀ d d', RowMeasures value exact id d → RowMeasures value exact id' d' → d ≤ d') ∧
      unread <:+ candidates ∧
      ∀ before c after held, candidates = before ++ c :: after →
        gatherLoop bind.limit value exact before [] = .ok held → Reaches bind.limit held c.2 →
        after <:+ unread := by
  intro value exact
  obtain ⟨best, hgather, hsorted, hlength, out, hperm, hout⟩ := gatherNearest_spec near bind table candidates hb
  have hids : (valued value candidates).Perm
      (out.map (fun p => (ofLex p).2) ++ best.map fun p => (ofLex p).2) := by
    rw [← map_ranked hb, ← List.map_append]
    exact hperm.map _
  have hvalued : (valued value candidates).Nodup := hnodup.sublist (List.filter_sublist.map _)
  have hmeasures : ∀ p ∈ best, ∀ d, RowMeasures value exact (ofLex p).2 d → d = rank p := by
    intro p hp d hd
    exact hd.eq (rowMeasures_of_mem (hperm.mem_iff.mpr (List.mem_append_right _ hp)))
  obtain ⟨unread, hread⟩ : ∃ unread, gatherNearestRead near bind table candidates =
      .ok (best.map (fun p => (ofLex p).2), unread) := by
    have hfst := gatherNearestRead_fst near bind table candidates
    rw [hgather] at hfst
    cases hread : gatherNearestRead near bind table candidates with
    | error e =>
      rw [hread] at hfst
      cases hfst
    | ok r =>
      rw [hread] at hfst
      exact ⟨r.2, by rw [← Except.ok.inj hfst]⟩
  refine ⟨best.map fun p => (ofLex p).2, unread, hgather, hread, ?_, ?_, ?_, ?_, ?_,
    gatherNearestRead_unread hread⟩
  · rw [List.length_map, hlength, ← map_ranked hb, List.length_map]
  · exact (List.nodup_append.mp (hids.nodup_iff.mp hvalued)).2.1
  · exact fun id hid => hids.mem_iff.mpr (List.mem_append_right _ hid)
  · intro id hid id' hid' hnot d d' hd hd'
    obtain ⟨p, hp, rfl⟩ := List.mem_map.mp hid
    rcases List.mem_append.mp (hids.mem_iff.mp hid') with hmem | hmem
    · obtain ⟨p', hp', rfl⟩ := List.mem_map.mp hmem
      rw [hmeasures p hp d hd, hd'.eq (rowMeasures_of_mem (hperm.mem_iff.mpr (List.mem_append_left _ hp')))]
      exact hout p' hp' p hp
    · exact absurd hmem hnot
  · rw [List.pairwise_map]
    refine hsorted.imp_of_mem fun {p q} hp hq hle d d' hd hd' => ?_
    rw [hmeasures p hp d hd, hmeasures q hq d' hd']
    exact rank_monotone hle

/-- Row 7 at the distance 3 is the nearest of three candidates; the third is not read. -/
theorem gatherNearest_topK_point :
    ∃ rows unread, gatherNearestRead pointNear (pointBind [] 1) (pointSnapshot 3) [(7, 0), (8, 3), (9, 6)] =
        .ok (rows, unread) ∧ rows.length = 1 ∧ rows ⊆ [7] ∧ [(9, 6)] <:+ unread := by
  have hnodup : (([(7, 0), (8, 3), (9, 6)] : List (RowId × ℕ)).map Prod.fst).Nodup := by decide
  have hb : Bounded (recheckValue (pointBind [] 1) (pointSnapshot 3))
      (fun v => exactDistance pointNear (pointBind [] 1).index.info.bboxType v (pointBind [] 1).queryBox)
      [(7, 0), (8, 3), (9, 6)] := by
    refine ⟨by decide, fun c hc v hv => ?_⟩
    have hid : c.1 = 7 := by
      obtain ⟨row, hrow⟩ := snapshot_of_recheckValue hv
      by_contra hne
      rw [pointSnapshot, if_neg hne] at hrow
      cases hrow
    obtain rfl : c = (7, 0) := by
      simp only [List.mem_cons, List.not_mem_nil, or_false] at hc
      rcases hc with rfl | rfl | rfl
      · rfl
      · exact absurd hid (by decide)
      · exact absurd hid (by decide)
    obtain rfl : List.replicate 24 3 = v := Option.some.inj hv
    exact ⟨3, rfl, by decide⟩
  obtain ⟨rows, unread, -, hread, hlength, -, hsub, -, -, -, hunread⟩ :=
    gatherNearest_topK pointNear (pointBind [] 1) (pointSnapshot 3) [(7, 0), (8, 3), (9, 6)] hnodup hb
  exact ⟨rows, unread, hread, hlength, hsub,
    hunread [(7, 0)] (8, 3) [(9, 6)] [toLex (3, 7)] rfl (by decide) ⟨by decide, by decide⟩⟩

end MobilityDuck
