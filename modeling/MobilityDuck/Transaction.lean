/-
# Queries inside a transaction

A transaction sees the committed rows of its snapshot less those it deleted,
and the rows it inserted itself, which stand in its local storage until it
commits. A sequential scan reads both; an index holds committed rows only and
is maintained at commit, and its scan initialises a local-storage state that
it never reads.

`Query.Agrees` says that the index scan answers what the sequential scan
would: the rows a predicate accepts, or a correct choice of the nearest ones.
`Query.Meets` is the condition on the transaction under which it does
(`agrees_of_meets`): no local row satisfies the predicate and no whole vector
of hits is unseen before a seen one; for a nearest-neighbour query, at least
`limit` indexed rows outrank each row that the index does not hold. Every run
of inserts, deletions and queries that meets it agrees (`run_agrees`), also
where a distance is `NULL`: the operator takes the greatest number for none
(`orNull`), and the scan ranks it last.

Key definitions: `Transaction`, `Query`, `Query.Exact`, `Query.Agrees`,
`Query.Meets`, `TransactionOp`, `Transaction.step`.
-/
import MobilityDuck.GatherNearest
import Mathlib.Order.WithBot
import Mathlib.Data.List.Nodup

namespace MobilityDuck

open Lib

variable {n : ℕ} {meos : Meos n} {δ : Type}

/-! ### Transactions -/

/-- A row a query reads, with its row id. -/
abbrev ReadRow := RowId × StoredRow

/-- What a transaction reads of a table: the stored rows, those of them it sees, and its own. -/
structure Transaction where
  rowIds : List RowId
  snapshot : Snapshot
  localRows : List ReadRow
  nodup : rowIds.Nodup
  stored : ∀ id, snapshot id ≠ none → id ∈ rowIds

/-- The rows behind some ids, those the transaction sees. -/
def rowsAt (snapshot : Snapshot) (ids : List RowId) : List ReadRow :=
  ids.filterMap fun id => (snapshot id).map fun row => (id, row)

/-- What a sequential scan reads: the stored rows the transaction sees, then its local storage. -/
def Transaction.seqRows (t : Transaction) : List ReadRow := rowsAt t.snapshot t.rowIds ++ t.localRows

section RowsAt

variable {snapshot : Snapshot} {ids ids' : List RowId}

theorem mem_rowsAt {r : ReadRow} : r ∈ rowsAt snapshot ids ↔ r.1 ∈ ids ∧ snapshot r.1 = some r.2 := by
  obtain ⟨i, row⟩ := r
  simp only [rowsAt, List.mem_filterMap, Option.map_eq_some_iff, Prod.mk.injEq]
  constructor
  · rintro ⟨id, hid, row', hrow, rfl, rfl⟩
    exact ⟨hid, hrow⟩
  · rintro ⟨hid, hrow⟩
    exact ⟨i, hid, row, hrow, rfl, rfl⟩

theorem rowsAt_nodup (h : ids.Nodup) : (rowsAt snapshot ids).Nodup := by
  refine List.Nodup.filterMap (fun id id' r hr hr' => ?_) h
  obtain ⟨row, -, rfl⟩ := Option.map_eq_some_iff.mp hr
  obtain ⟨row', -, he⟩ := Option.map_eq_some_iff.mp hr'
  exact (congrArg Prod.fst he).symm

/-- Rows found by distinct ids are the rows of the table with those ids. -/
theorem rowsAt_perm (h : ids.Nodup) (h' : ids'.Nodup)
    (hsub : ∀ id ∈ ids, snapshot id ≠ none → id ∈ ids') :
    (rowsAt snapshot ids).Perm ((rowsAt snapshot ids').filter (·.1 ∈ ids)) := by
  apply (List.perm_ext_iff_of_nodup (rowsAt_nodup h) ((rowsAt_nodup h').filter _)).mpr
  intro r
  rw [mem_rowsAt, List.mem_filter, mem_rowsAt, decide_eq_true_eq]
  constructor
  · rintro ⟨hid, hrow⟩
    exact ⟨⟨hsub r.1 hid (by rw [hrow]; simp), hrow⟩, hid⟩
  · rintro ⟨⟨-, hrow⟩, hid⟩
    exact ⟨hid, hrow⟩

/-- The row behind a row id. -/
def rowOf (snapshot : Snapshot) (id : RowId) : ReadRow := (id, (snapshot id).getD [])

theorem rowsAt_of_seen (h : ∀ id ∈ ids, snapshot id ≠ none) :
    rowsAt snapshot ids = ids.map (rowOf snapshot) := by
  rw [rowsAt, ← List.filterMap_eq_map]
  refine List.filterMap_congr fun id hid => ?_
  obtain ⟨row, hrow⟩ := Option.ne_none_iff_exists'.mp (h id hid)
  simp [rowOf, hrow]

/-- A batch is emitted from the rows behind it. -/
theorem emit_eq_rowsAt (s : GlobalState δ) : emit snapshot s ids =
    (rowsAt snapshot ids).map fun r => emitRow s r.1 r.2 := by
  rw [emit_eq, rowsAt, List.map_filterMap]
  apply List.filterMap_congr
  intro id _
  rw [Option.map_map]
  rfl

end RowsAt

theorem seqRows_of_localRows {t : Transaction} (h : t.localRows = []) :
    t.seqRows = rowsAt t.snapshot t.rowIds := by
  rw [Transaction.seqRows, h, List.append_nil]

theorem mem_seqRows {t : Transaction} {id : RowId} {row : StoredRow} (h : t.snapshot id = some row) :
    (id, row) ∈ t.seqRows := by
  have hid : id ∈ t.rowIds := t.stored id (by rw [h]; exact Option.some_ne_none row)
  exact List.mem_append_left _ (mem_rowsAt.mpr ⟨hid, h⟩)

/-! ### Queries -/

/-- What a query asks of a row: to satisfy a predicate, or to be near; `⊤` is the distance `NULL`,
which sorts last. `max` is the number that the operator takes for no distance, `⊤` if it takes none. -/
inductive Meaning (δ : Type)
  | predicate (accepts : StoredRow → Bool)
  | nearest (max : WithTop δ) (distance : StoredRow → WithTop δ)

/-- A query answered by an index scan: the scan, its columns, and what the query means. -/
structure Query (meos : Meos n) (δ : Type) where
  bind : IndexScanBindData meos
  input : InitInput
  meaning : Meaning δ

variable [LinearOrder δ] (near : Nearest meos δ)

/-- What the operator answers for a distance: `NULL` for the greatest number. -/
def orNull (max : WithTop δ) (d : δ) : WithTop δ := if (d : WithTop δ) = max then ⊤ else d

/-- A greater distance is answered as a greater one. -/
theorem orNull_le_orNull {max : WithTop δ} {d d' : δ} (hmax : (d' : WithTop δ) ≤ max) (h : d ≤ d') :
    orNull max d ≤ orNull max d' := by
  have hle : (d : WithTop δ) ≤ d' := WithTop.coe_le_coe.mpr h
  unfold orNull
  by_cases hd' : (d' : WithTop δ) = max
  · rw [if_pos hd']
    exact le_top
  · have hd : (d : WithTop δ) ≠ max := fun heq => hd' (le_antisymm hmax (heq ▸ hle))
    rwa [if_neg hd, if_neg hd']

/-- The committed rows are indexed, and the index answers the query for them: its hits are the rows
that satisfy the predicate; its candidates come by a bound on their distance, each once, and the
operator answers that distance, or `NULL` where it is the greatest number. -/
def Query.Exact (q : Query meos δ) (snapshot : Snapshot) : Prop :=
  match q.meaning with
  | .predicate accepts =>
    q.bind.operation ≠ nnOperation ∧
    ∃ hits, q.bind.index.initializeScan q.bind.queryBox q.bind.operation q.bind.queryOnLeft = .ok hits ∧
      hits.Nodup ∧ ∀ id row, snapshot id = some row → (id ∈ hits ↔ accepts row = true)
  | .nearest max distance =>
    q.bind.operation = nnOperation ∧
    ∃ candidates, q.bind.index.initializeNNScan near q.bind.queryBox = .ok candidates ∧
      (candidates.map (·.1)).Nodup ∧ candidates.Pairwise (·.2 ≤ ·.2) ∧
      ∀ c ∈ candidates, ∀ row, snapshot c.1 = some row → ∃ v d, recheckValue q.bind snapshot c.1 = some v ∧
        exactDistance near q.bind.index.info.bboxType v q.bind.queryBox = .ok d ∧ c.2 ≤ d ∧
          (d : WithTop δ) ≤ max ∧ distance row = orNull max d

/-- The rows of `answer` are those a sequential scan would have answered. -/
def Query.SameRows (q : Query meos δ) (t : Transaction) (answer : List ReadRow) : Prop :=
  match q.meaning with
  | .predicate accepts => answer.Perm (t.seqRows.filter fun r => accepts r.2)
  | .nearest _ distance => IsTop (fun r : ReadRow => distance r.2) q.bind.limit t.seqRows answer

/-- The index scan ends, and answers what the sequential scan would have. -/
def Query.Agrees (q : Query meos δ) (t : Transaction) : Prop :=
  ∃ s answer, initGlobal near q.bind (t.localRows.map (·.2)) q.input = .ok s ∧ q.SameRows t answer ∧
    ∃ calls, ∀ fuel ≥ calls,
      scanRows near q.bind t.snapshot fuel s = .ok (answer.map fun r => emitRow s r.1 r.2)

/-- The rows a query reads that the index does not hold. -/
def Transaction.unheld (t : Transaction) (candidates : List (RowId × δ)) : List ReadRow :=
  (rowsAt t.snapshot t.rowIds).filter (·.1 ∉ candidates.map (·.1)) ++ t.localRows

/-- The condition under which the two agree. -/
def Query.Meets (q : Query meos δ) (t : Transaction) : Prop :=
  match q.meaning with
  | .predicate accepts =>
    (∀ r ∈ t.localRows, accepts r.2 = false) ∧
    ∀ hits, q.bind.index.initializeScan q.bind.queryBox q.bind.operation q.bind.queryOnLeft = .ok hits →
      (batches standardVectorSize hits.length hits).Pairwise fun batch later =>
        (∀ id ∈ batch, t.snapshot id = none) → ∀ id ∈ later, t.snapshot id = none
  | .nearest _ distance =>
    ∀ candidates, q.bind.index.initializeNNScan near q.bind.queryBox = .ok candidates →
      ∀ r ∈ t.unheld candidates, q.bind.limit ≤
        (rowsAt t.snapshot (candidates.map (·.1))).countP fun r' => distance r'.2 ≤ distance r.2

/-! ### One query -/

section OneQuery

variable {near} {q : Query meos δ} {t : Transaction}

/-- The rows behind the hits of an exact index are the stored rows the predicate accepts. -/
theorem rowsAt_hits {accepts : ReadRow → Bool} {hits : List RowId} (hnodup : hits.Nodup)
    (hhits : ∀ id row, t.snapshot id = some row → (id ∈ hits ↔ accepts (id, row) = true)) :
    (rowsAt t.snapshot hits).Perm ((rowsAt t.snapshot t.rowIds).filter accepts) := by
  have hperm := rowsAt_perm hnodup t.nodup fun id _ => t.stored id
  have hfilter : (rowsAt t.snapshot t.rowIds).filter (·.1 ∈ hits) =
      (rowsAt t.snapshot t.rowIds).filter accepts := by
    apply List.filter_congr
    intro r hr
    rw [Bool.eq_iff_iff, decide_eq_true_eq]
    exact hhits r.1 r.2 (mem_rowsAt.mp hr).2
  rwa [hfilter] at hperm

/-- A predicate agrees exactly under the condition. -/
theorem agrees_predicate_iff {accepts : StoredRow → Bool} (hq : q.meaning = .predicate accepts)
    (hexact : q.Exact near t.snapshot) : q.Agrees near t ↔ q.Meets near t := by
  simp only [Query.Exact, hq] at hexact
  obtain ⟨hop, hits, hscan, hnodup, hhits⟩ := hexact
  have hinit := initGlobal_search near hop hscan (t.localRows.map (·.2)) q.input
  simp only [Query.Agrees, Query.Meets, Query.SameRows, hq]
  generalize hs : (⟨q.input.columnIds.map (ColumnIndex.storage q.bind.columns),
    if q.input.canRemoveFilterColumns then q.input.projectionIds else [], t.localRows.map (·.2),
    .search ⟨hits, 0⟩, [], 0, false⟩ : GlobalState δ) = s at hinit
  have hrem : Remaining near q.bind t.snapshot hits s := by
    rw [← hs]
    rfl
  have hrows : (rowsAt t.snapshot hits).Perm ((rowsAt t.snapshot t.rowIds).filter fun r => accepts r.2) :=
    rowsAt_hits hnodup hhits
  have hseq : t.seqRows.filter (fun r => accepts r.2) =
      (rowsAt t.snapshot t.rowIds).filter (fun r => accepts r.2) ++
        t.localRows.filter fun r => accepts r.2 := List.filter_append ..
  constructor
  · rintro ⟨s', answer, hinit', hsame, calls, hcalls⟩
    obtain rfl : s = s' := Except.ok.inj (hinit.symm.trans hinit')
    have hfuel : hits.length < max calls (hits.length + 1) :=
      lt_of_lt_of_le (Nat.lt_succ_self _) (le_max_right _ _)
    obtain ⟨out, hout, hsub⟩ := scanRows_sublist hrem hfuel
    have hdel := hcalls _ (le_max_left calls (hits.length + 1))
    rw [hout, Except.ok.injEq] at hdel
    -- counting rows: the scan delivers at most the hits it sees, the sequential scan the local rows too
    have hlen := hsub.length_le
    rw [emit_eq_rowsAt, List.length_map, hrows.length_eq, hdel, List.length_map, hsame.length_eq, hseq,
      List.length_append] at hlen
    have hnone : t.localRows.filter (fun r => accepts r.2) = [] := List.length_eq_zero_iff.mp (by omega)
    refine ⟨fun r hr => ?_, fun hits' hscan' => ?_⟩
    · simpa using List.filter_eq_nil_iff.mp hnone r hr
    · obtain rfl := Except.ok.inj (hscan.symm.trans hscan')
      have hall : out = emit t.snapshot s hits := by
        apply hsub.eq_of_length
        rw [emit_eq_rowsAt, List.length_map, hrows.length_eq, hdel, List.length_map,
          hsame.length_eq, hseq, hnone, List.append_nil]
      rw [hall] at hout
      have hiff := (scanRows_emit_iff hrem hfuel).mp hout
      simpa only [emit_eq_nil_iff] using hiff
  · rintro ⟨hlocal, hbatches⟩
    have hnone : t.localRows.filter (fun r => accepts r.2) = [] :=
      List.filter_eq_nil_iff.mpr fun r hr => by simp [hlocal r hr]
    refine ⟨s, rowsAt t.snapshot hits, hinit, ?_, hits.length + 1, fun fuel hfuel => ?_⟩
    · rw [hseq, hnone, List.append_nil]
      exact hrows
    · rw [← emit_eq_rowsAt, scanRows_emit_iff hrem (by omega)]
      simpa only [emit_eq_nil_iff] using hbatches hits hscan

/-- A recheck finds no value for a row the transaction does not see. -/
theorem snapshot_of_recheckValue {bind : IndexScanBindData meos} {snapshot : Snapshot} {id : RowId}
    {v : List UInt8}
    (h : recheckValue bind snapshot id = some v) : ∃ row, snapshot id = some row := by
  cases hs : snapshot id with
  | none => simp [recheckValue, fetch, hs] at h
  | some row => exact ⟨row, rfl⟩

/-- The row behind a ranked candidate. -/
def rankedRow (snapshot : Snapshot) (p : δ ×ₗ RowId) : ReadRow :=
  ((ofLex p).2, (snapshot (ofLex p).2).getD [])

omit [LinearOrder δ] in
/-- What the sequential scan reads, split by whether the index holds it. -/
theorem seqRows_perm {candidates : List (RowId × δ)} (hnodup : (candidates.map (·.1)).Nodup) :
    t.seqRows.Perm (rowsAt t.snapshot (candidates.map (·.1)) ++ t.unheld candidates) := by
  have hheld := rowsAt_perm hnodup t.nodup fun id _ => t.stored id
  have hsplit := List.filter_append_perm (fun r : ReadRow => decide (r.1 ∈ candidates.map (·.1)))
    (rowsAt t.snapshot t.rowIds)
  unfold Transaction.seqRows Transaction.unheld
  rw [← List.append_assoc]
  refine List.Perm.append_right _ (hsplit.symm.trans ?_)
  refine hheld.symm.append (List.Perm.of_eq (List.filter_congr fun r _ => ?_))
  simp

section Ranked

variable {bind : IndexScanBindData meos} {snapshot : Snapshot} {candidates : List (RowId × δ)}
  {max : WithTop δ} {distance : StoredRow → WithTop δ}
  (hcand : ∀ c ∈ candidates, ∀ row, snapshot c.1 = some row → ∃ v d,
    recheckValue bind snapshot c.1 = some v ∧
      exactDistance near bind.index.info.bboxType v bind.queryBox = .ok d ∧ c.2 ≤ d ∧
        (d : WithTop δ) ≤ max ∧ distance row = orNull max d)

include hcand

theorem bounded_of_candidates (hsorted : candidates.Pairwise (·.2 ≤ ·.2)) :
    Bounded (recheckValue bind snapshot)
      (fun v => exactDistance near bind.index.info.bboxType v bind.queryBox) candidates := by
  refine ⟨hsorted, fun c hc v hv => ?_⟩
  obtain ⟨row, hrow⟩ := snapshot_of_recheckValue hv
  obtain ⟨v', d, hv', hd, hle, -⟩ := hcand c hc row hrow
  obtain rfl : v = v' := Option.some.inj (hv.symm.trans hv')
  exact ⟨d, hd, hle⟩

/-- A ranked candidate is seen, and its rank is the distance of its row, or the greatest number. -/
theorem rankedRow_of_mem {p : δ ×ₗ RowId} (hp : p ∈ rankedCandidates near bind snapshot candidates) :
    snapshot (ofLex p).2 = some (rankedRow snapshot p).2 ∧ ((rank p : δ) : WithTop δ) ≤ max ∧
      distance (rankedRow snapshot p).2 = orNull max (rank p) := by
  obtain ⟨c, hc, v, hv, he, hid⟩ := mem_ranked hp
  obtain ⟨row, hrow⟩ := snapshot_of_recheckValue hv
  obtain ⟨v', d, hv', hd, -, hmax, hdist⟩ := hcand c hc row hrow
  obtain rfl : v = v' := Option.some.inj (hv.symm.trans hv')
  have hrd : rank p = d := Except.ok.inj (he.symm.trans hd)
  have hr : (rankedRow snapshot p).2 = row := by
    show (snapshot (ofLex p).2).getD [] = row
    rw [hid, hrow]
    rfl
  rw [hid, hr, hrow, hdist, hrd]
  exact ⟨rfl, hmax, rfl⟩

/-- Every candidate that is seen is ranked. -/
theorem map_rankedRow : (rankedCandidates near bind snapshot candidates).map (rankedRow snapshot) =
    rowsAt snapshot (candidates.map (·.1)) := by
  rw [rankedCandidates, ranked, rowsAt, List.map_filterMap, List.filterMap_map]
  apply List.filterMap_congr
  intro c hc
  show Option.map _ (Option.bind _ _) = Option.map _ (snapshot c.1)
  cases hrow : snapshot c.1 with
  | none =>
    cases hv : recheckValue bind snapshot c.1 with
    | none => rfl
    | some v =>
      obtain ⟨row, hrow'⟩ := snapshot_of_recheckValue hv
      rw [hrow] at hrow'
      simp at hrow'
  | some row =>
    obtain ⟨v, d, hv, hd, -, -⟩ := hcand c hc row hrow
    rw [hv]
    simp only [Option.bind_some, hd, Option.map_some]
    show some (c.1, (snapshot c.1).getD []) = _
    rw [hrow]
    rfl

end Ranked

/-- A nearest-neighbour query agrees where every row the index does not hold is outranked. -/
theorem agrees_nearest {max : WithTop δ} {distance : StoredRow → WithTop δ}
    (hq : q.meaning = .nearest max distance)
    (hexact : q.Exact near t.snapshot) (hmeets : q.Meets near t) : q.Agrees near t := by
  simp only [Query.Exact, hq] at hexact
  simp only [Query.Meets, hq] at hmeets
  obtain ⟨hop, candidates, hscan, hnodup, hsorted, hcand⟩ := hexact
  have hinit := initGlobal_nearest hop hscan (t.localRows.map (·.2)) q.input
  simp only [Query.Agrees, Query.SameRows, hq]
  generalize hs : (⟨q.input.columnIds.map (ColumnIndex.storage q.bind.columns),
    if q.input.canRemoveFilterColumns then q.input.projectionIds else [], t.localRows.map (·.2),
    .nearest candidates, [], 0, false⟩ : GlobalState δ) = s at hinit
  obtain ⟨best, hgather, -, htop⟩ :=
    gatherNearest_spec near q.bind t.snapshot candidates (bounded_of_candidates hcand hsorted)
  have hseen : ∀ id ∈ best.map (fun p => (ofLex p).2), t.snapshot id ≠ none := by
    intro id hid
    obtain ⟨p, hp, rfl⟩ := List.mem_map.mp hid
    obtain ⟨out, hsplit, -⟩ := htop.split
    rw [(rankedRow_of_mem hcand (hsplit.mem_iff.mpr (List.mem_append_right out hp))).1]
    exact Option.some_ne_none _
  have hanswer : rowsAt t.snapshot (best.map fun p => (ofLex p).2) = best.map (rankedRow t.snapshot) := by
    rw [rowsAt_of_seen hseen, List.map_map]
    rfl
  refine ⟨s, best.map (rankedRow t.snapshot), hinit, ?_, best.length + 1, fun fuel hfuel => ?_⟩
  · have hmap : IsTop (fun r : ReadRow => distance r.2) q.bind.limit
        ((rankedCandidates near q.bind t.snapshot candidates).map (rankedRow t.snapshot))
        (best.map (rankedRow t.snapshot)) := by
      apply htop.map _
      intro x hx y hy hxy
      obtain ⟨-, hmax, hdist⟩ := rankedRow_of_mem hcand hx
      rw [hdist, (rankedRow_of_mem hcand hy).2.2]
      exact orNull_le_orNull hmax hxy
    rw [map_rankedRow hcand] at hmap
    exact (hmap.outranked (hmeets candidates hscan)).perm (seqRows_perm hnodup)
  · have hrem : Remaining near q.bind t.snapshot (best.map fun p => (ofLex p).2) s := by
      rw [← hs]
      show (gatherNearest near q.bind t.snapshot candidates).map _ = _
      rw [hgather]
      rfl
    have hlen : (best.map fun p => (ofLex p).2).length < fuel := by
      rw [List.length_map]
      omega
    rw [← hanswer, ← emit_eq_rowsAt]
    exact scanRows_of_seen hrem hseen hlen

/-- One query agrees under the condition. -/
theorem agrees_of_meets (hexact : q.Exact near t.snapshot) (hmeets : q.Meets near t) :
    q.Agrees near t := by
  cases hq : q.meaning with
  | predicate accepts => exact (agrees_predicate_iff hq hexact).mpr hmeets
  | nearest max distance => exact agrees_nearest hq hexact hmeets

end OneQuery

/-! ### Runs of a transaction -/

/-- One statement of a transaction. -/
inductive TransactionOp (meos : Meos n) (δ : Type)
  /-- `INSERT`: the rows go to the local storage, under the row ids it gives them. -/
  | insert (rows : List ReadRow)
  /-- `DELETE` of rows, stored or local. -/
  | delete (ids : List RowId)
  | query (q : Query meos δ)

/-- An insertion reaches the local storage only. -/
def Transaction.insert (t : Transaction) (rows : List ReadRow) : Transaction :=
  { t with localRows := t.localRows ++ rows }

/-- A deletion hides stored rows and drops local ones. -/
def Transaction.delete (t : Transaction) (ids : List RowId) : Transaction where
  rowIds := t.rowIds
  snapshot id := if id ∈ ids then none else t.snapshot id
  localRows := t.localRows.filter (·.1 ∉ ids)
  nodup := t.nodup
  stored id h := t.stored id fun hnone => h (by rw [hnone, ite_self])

/-- A statement takes the transaction to its next state; indexes are maintained at commit, so none of
them changes. -/
def Transaction.step (t : Transaction) : TransactionOp meos δ → Except Exception Transaction
  | .insert rows => .ok (t.insert rows)
  | .delete ids => .ok (t.delete ids)
  | .query _ => .ok t

omit [LinearOrder δ] in
/-- A statement shows no stored row that was hidden, and changes none. -/
theorem snapshot_of_step {t t' : Transaction} {op : TransactionOp meos δ} (h : t.step op = .ok t')
    (id : RowId)
    (row : StoredRow) (hrow : t'.snapshot id = some row) : t.snapshot id = some row := by
  cases op with
  | insert rows =>
    obtain rfl := Except.ok.inj h
    exact hrow
  | delete ids =>
    obtain rfl := Except.ok.inj h
    by_cases hid : id ∈ ids
    · rw [show (t.delete ids).snapshot id = none from if_pos hid] at hrow
      simp at hrow
    · rwa [show (t.delete ids).snapshot id = t.snapshot id from if_neg hid] at hrow
  | query q =>
    obtain rfl := Except.ok.inj h
    exact hrow

/-- An index that is exact for some stored rows is exact for those of them that are still seen. -/
theorem Query.Exact.of_seen {near : Nearest meos δ} {q : Query meos δ} {snapshot snapshot' : Snapshot}
    (hsub : ∀ id row, snapshot' id = some row → snapshot id = some row) (h : q.Exact near snapshot) :
    q.Exact near snapshot' := by
  unfold Query.Exact at h ⊢
  cases hq : q.meaning with
  | predicate accepts =>
    rw [hq] at h
    obtain ⟨hop, hits, hscan, hnodup, hhits⟩ := h
    exact ⟨hop, hits, hscan, hnodup, fun id row hrow => hhits id row (hsub id row hrow)⟩
  | nearest max distance =>
    rw [hq] at h
    obtain ⟨hop, candidates, hscan, hnodup, hsorted, hcand⟩ := h
    refine ⟨hop, candidates, hscan, hnodup, hsorted, fun c hc row hrow => ?_⟩
    have hvalue : recheckValue q.bind snapshot' c.1 = recheckValue q.bind snapshot c.1 := by
      have hsame : ∀ id ∈ [c.1], snapshot' id = snapshot id := by
        intro id hid
        rw [List.mem_singleton.mp hid, hrow, hsub c.1 row hrow]
      rw [recheckValue, recheckValue, fetch_congr _ hsame]
    rw [hvalue]
    exact hcand c hc row (hsub c.1 row hrow)

/-- **Every query of a transaction answers what the sequential scan would**, in every run whose queries
meet the condition when they are asked. The induction is on the statements; that the indexes are
exact for what the transaction still sees is carried along. -/
theorem run_agrees (near : Nearest meos δ) : ∀ (ops : List (TransactionOp meos δ)) (t : Transaction),
    (∀ q, .query q ∈ ops → q.Exact near t.snapshot) →
    Along Transaction.step (fun t op => ∀ q, op = .query q → q.Meets near t) t ops →
    Along Transaction.step (fun t op => ∀ q, op = .query q → q.Agrees near t) t ops
  | [], _, _, _ => trivial
  | op :: ops, t, hexact, hmeets => by
    refine ⟨fun q hq => ?_, fun t' ht' => ?_⟩
    · subst hq
      exact agrees_of_meets (hexact q List.mem_cons_self) (hmeets.1 q rfl)
    · apply run_agrees near ops t' _ (hmeets.2 t' ht')
      intro q hq
      exact (hexact q (List.mem_cons_of_mem _ hq)).of_seen (snapshot_of_step ht')

/-! ### A column of points -/

/-- MEOS over values that are their own boxes. -/
def pointMeos : Meos 24 :=
  { Meos.listed 24 with tspatialToStbox := fun data => .ok (some (Box.copy 24 data)) }

/-- The distance of their first bytes. -/
def byteDistance (x y : List UInt8) : ℕ :=
  ((x.headD 0).toNat - (y.headD 0).toNat) + ((y.headD 0).toNat - (x.headD 0).toNat)

def pointNear : Nearest pointMeos ℕ where
  cursor tree q := ((pointMeos.entries tree).map fun e => (e.1, byteDistance e.2.1 q.1)).insertionSort
    (·.2 ≤ ·.2)
  temporalType _ := some .other
  nadTintTbox _ _ := .ok 0
  nadTbigintTbox _ _ := .ok 0
  nadTfloatTbox _ _ := .ok 0
  nadTgeoStbox v q := .ok (byteDistance v q)
  max := 256

/-- An index over a column of points. -/
def pointInfo : IndexInfo := ⟨"i", .trtree, [0], .tgeompoint, .stbox, bboxTypeOf_tgeompoint⟩

/-- A scan of the rows nearest to zero, after some operations. -/
def pointBind (ops : List Operation) (limit : ℕ) : IndexScanBindData pointMeos where
  columns := [⟨.tgeompoint, false⟩]
  index := match run (Index.step .bump) (Index.new pointMeos pointInfo fun _ => ⟨.null, 0, fun _ => 0⟩) ops with
    | .ok s => s
    | .error _ => Index.new pointMeos pointInfo fun _ => ⟨.null, 0, fun _ => 0⟩
  limit := limit
  queryBox := List.replicate 24 0
  operation := nnOperation
  queryOnLeft := false

/-- Row 7 is at the distance 3, and row 8 at the greatest there is. -/
def pointsBind (limit : ℕ) : IndexScanBindData pointMeos :=
  pointBind [.append [Index.spanRow 3 7, Index.spanRow 255 8]] limit

/-- The point of a row. -/
def pointOf : StoredRow → Option (List UInt8)
  | [.blob v] => some v
  | _ => none

/-- The distance to zero. -/
def pointNearness (row : StoredRow) : WithTop ℕ :=
  ((pointOf row).map fun v => orNull 255 (byteDistance v (List.replicate 24 0))).getD ⊤

/-- The two nearest rows. -/
def nearestQuery : Query pointMeos ℕ := ⟨pointsBind 2, ⟨[.rowId], []⟩, .nearest 255 pointNearness⟩

/-- The rows with the point of row 7. -/
def samePointQuery : Query pointMeos ℕ where
  bind := { pointsBind 1000 with operation := "~=", queryBox := List.replicate 24 3 }
  input := ⟨[.rowId], []⟩
  meaning := .predicate fun row => row = [.blob (List.replicate 24 3)]

theorem nodup_pointRowIds : ([7, 8] : List RowId).Nodup := by decide

/-- A transaction that sees the two rows. -/
def pointsTransaction : Transaction where
  rowIds := [7, 8]
  snapshot id := if id = 7 then some [.blob (List.replicate 24 3)]
    else if id = 8 then some [.blob (List.replicate 24 255)] else none
  localRows := []
  nodup := nodup_pointRowIds
  stored id h := by
    by_cases h7 : id = 7
    · simp [h7]
    · by_cases h8 : id = 8
      · simp [h8]
      · rw [if_neg h7, if_neg h8] at h
        exact absurd rfl h

theorem snapshot_pointsTransaction {id : RowId} {row : StoredRow}
    (h : pointsTransaction.snapshot id = some row) :
    (id = 7 ∧ row = [.blob (List.replicate 24 3)]) ∨ (id = 8 ∧ row = [.blob (List.replicate 24 255)]) := by
  by_cases h7 : id = 7
  · rw [show pointsTransaction.snapshot id = some _ from if_pos h7] at h
    exact .inl ⟨h7, (Option.some.inj h).symm⟩
  · by_cases h8 : id = 8
    · rw [show pointsTransaction.snapshot id = some _ from (if_neg h7).trans (if_pos h8)] at h
      exact .inr ⟨h8, (Option.some.inj h).symm⟩
    · rw [show pointsTransaction.snapshot id = none from (if_neg h7).trans (if_neg h8)] at h
      cases h

theorem nearestQuery_scan : nearestQuery.bind.index.initializeNNScan { pointNear with max := 255 }
    nearestQuery.bind.queryBox = .ok [(7, 3), (8, 255)] := by
  decide

theorem samePointQuery_scan :
    samePointQuery.bind.index.initializeScan samePointQuery.bind.queryBox samePointQuery.bind.operation
      samePointQuery.bind.queryOnLeft = .ok [7] := by
  decide

theorem nearestQuery_exact : nearestQuery.Exact { pointNear with max := 255 } pointsTransaction.snapshot := by
  refine ⟨rfl, [(7, 3), (8, 255)], nearestQuery_scan, by decide, by decide, fun c hc row hrow => ?_⟩
  simp only [List.mem_cons, List.not_mem_nil, or_false] at hc
  rcases hc with rfl | rfl
  · obtain rfl := Option.some.inj hrow
    exact ⟨List.replicate 24 3, 3, rfl, rfl, le_rfl, by decide, by decide⟩
  · obtain rfl := Option.some.inj hrow
    exact ⟨List.replicate 24 255, 255, rfl, rfl, le_rfl, le_rfl, by decide⟩

theorem samePointQuery_exact :
    samePointQuery.Exact { pointNear with max := 255 } pointsTransaction.snapshot := by
  refine ⟨by decide, [7], samePointQuery_scan, List.nodup_singleton 7, fun id row hrow => ?_⟩
  rcases snapshot_pointsTransaction hrow with ⟨rfl, rfl⟩ | ⟨rfl, rfl⟩ <;> decide

theorem run_agrees_null : Along Transaction.step
    (fun t op => ∀ q, op = .query q → q.Agrees { pointNear with max := 255 } t) pointsTransaction
    [.insert [(9, [.null])], .query nearestQuery, .query samePointQuery] := by
  apply run_agrees { pointNear with max := 255 }
  · intro q hq
    have hq : q = nearestQuery ∨ q = samePointQuery := by simpa using hq
    rcases hq with rfl | rfl
    · exact nearestQuery_exact
    · exact samePointQuery_exact
  · refine ⟨fun q hq => by simp at hq, fun t ht => ?_⟩
    obtain rfl := Except.ok.inj ht
    refine ⟨fun q hq => ?_, fun t ht => ⟨fun q hq => ?_, fun _ _ => trivial⟩⟩
    · obtain rfl := TransactionOp.query.inj hq
      intro candidates hscan r hr
      obtain rfl := Except.ok.inj (nearestQuery_scan.symm.trans hscan)
      -- the row without a point is outranked by both, also by the one whose distance is NULL
      have hunheld : (pointsTransaction.insert [(9, [.null])]).unheld [((7 : RowId), 3), (8, 255)] =
          [(9, [.null])] := by decide
      rw [hunheld] at hr
      obtain rfl := List.mem_singleton.mp hr
      decide
    · obtain rfl := Except.ok.inj ht
      obtain rfl := TransactionOp.query.inj hq
      refine ⟨fun r hr => ?_, fun hits hscan => ?_⟩
      · obtain rfl := List.mem_singleton.mp hr
        rfl
      · obtain rfl := Except.ok.inj (samePointQuery_scan.symm.trans hscan)
        exact List.pairwise_singleton _ _

/-- The query for the rows whose span is all zeros, of which row 7 is one. -/
def spanQuery : Query (Meos.listed 24) ℕ where
  bind := { spanBind with index := spanBind.index.putEntry .bump (7, Index.span 0) }
  input := ⟨[.rowId], []⟩
  meaning := .predicate fun row => row = [.blob (List.replicate 24 0)]

/-- A transaction that sees row 7, and has inserted nothing. -/
def spanTransaction : Transaction where
  rowIds := [7]
  snapshot id := if id = 7 then some [.blob (List.replicate 24 0)] else none
  localRows := []
  nodup := List.nodup_singleton 7
  stored id h := by
    by_cases hid : id = 7
    · exact List.mem_singleton.mpr hid
    · exact absurd (if_neg hid) h

theorem spanQuery_scan :
    spanQuery.bind.index.initializeScan spanQuery.bind.queryBox spanQuery.bind.operation
    spanQuery.bind.queryOnLeft = .ok [7] := by
  decide

theorem spanQuery_exact : spanQuery.Exact (Nearest.none _) spanTransaction.snapshot := by
  refine ⟨by decide, [7], spanQuery_scan, List.nodup_singleton 7, fun id row hrow => ?_⟩
  by_cases hid : id = 7
  · rw [show spanTransaction.snapshot id = some _ from if_pos hid] at hrow
    obtain rfl := Option.some.inj hrow
    simp [hid]
  · rw [show spanTransaction.snapshot id = none from if_neg hid] at hrow
    simp at hrow

/-- A row inserted and searched for in one transaction is not found. -/
theorem run_misses_local : ¬ ∀ (ops : List (TransactionOp (Meos.listed 24) ℕ)) (t : Transaction),
    (∀ q, .query q ∈ ops → q.Exact (Nearest.none _) t.snapshot) →
    Along Transaction.step (fun t op => ∀ q, op = .query q → q.Agrees (Nearest.none _) t) t ops := by
  intro hall
  let t := spanTransaction.insert [(8, [.blob (List.replicate 24 0)])]
  have hquery : ∀ q, .query q ∈ [TransactionOp.insert [(8, [.blob (List.replicate 24 0)])], .query spanQuery] →
      q.Exact (Nearest.none _) spanTransaction.snapshot := by
    intro q hq
    obtain rfl : q = spanQuery := by simpa using hq
    exact spanQuery_exact
  have hrun := hall _ spanTransaction hquery
  have hexact : spanQuery.Exact (Nearest.none _) t.snapshot := spanQuery_exact
  have hagrees : spanQuery.Agrees (Nearest.none _) t := (hrun.2 _ rfl).1 spanQuery rfl
  have hfalse := ((agrees_predicate_iff rfl hexact).mp hagrees).1 _ (List.mem_singleton_self _)
  simp at hfalse

end MobilityDuck
