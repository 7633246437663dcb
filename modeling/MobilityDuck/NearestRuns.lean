/-
# Nearest-neighbour scans after any run

A cursor yields every pair of the tree, and unlike a search it is not
filtered: a nearest-neighbour scan relies on what the transaction sees. A
pair of the tree is current when it is the last one indexed under its row id
and not deleted since, and stale otherwise (`Log.currents`,
`Index.stale`). A stale pair whose row id is seen, because the id was
given out again, is ranked like a current one.

The scan answers the nearest of the rows currently indexed, whatever `k`,
exactly when no stale pair has a row id under which the transaction sees a
value (`nearest_iff`).

Key definitions: `Nearest.Lawful`, `Log.currents`, `Index.stale`, `NearestRight`.
Key theorems: `run_subperm`, `nearest_iff`.
-/
import MobilityDuck.Lib.Raise
import MobilityDuck.Transaction
import Mathlib.Data.List.Count

namespace MobilityDuck

open Lib

variable {n : ℕ} {meos : Meos n} {δ : Type}

/-- The documented behaviour of a cursor: each pair of the tree once, in the order of the distance
`dist` of its box to the query. -/
structure Nearest.Lawful [LE δ] (near : Nearest meos δ) (dist : Box n → Box n → δ) : Prop where
  cursor_perm : ∀ tree q,
    (near.cursor tree q).Perm ((meos.entries tree).map fun e => (e.1, dist e.2 q))
  cursor_sorted : ∀ tree q, (near.cursor tree q).Pairwise (·.2 ≤ ·.2)

/-- The pairs that are the last ones of their row id. -/
def Log.currents : Log n → Log n
  | [] => []
  | e :: l => if e.1 ∈ l.map (·.1) then Log.currents l else e :: Log.currents l

section Currents

theorem mem_map_currents {id : RowId} : ∀ l : Log n,
    id ∈ (Log.currents l).map (·.1) ↔ id ∈ l.map (·.1)
  | [] => Iff.rfl
  | e :: l => by
    have ih : id ∈ (Log.currents l).map (·.1) ↔ id ∈ l.map (·.1) := mem_map_currents l
    rw [Log.currents]
    by_cases he : e.1 ∈ l.map (·.1)
    · rw [if_pos he, ih, List.map_cons, List.mem_cons]
      exact ⟨.inr, fun h => h.elim (fun h => h ▸ he) fun h => h⟩
    · rw [if_neg he, List.map_cons, List.map_cons, List.mem_cons, List.mem_cons, ih]

theorem currents_sublist : ∀ l : Log n, (Log.currents l).Sublist l
  | [] => List.Sublist.refl _
  | e :: l => by
    rw [Log.currents]
    by_cases he : e.1 ∈ l.map (·.1)
    · rw [if_pos he]
      exact (currents_sublist l).cons e
    · rw [if_neg he]
      exact (currents_sublist l).cons_cons e

/-- A row id has one current pair at most. -/
theorem currents_nodup : ∀ l : Log n, ((Log.currents l).map (·.1)).Nodup
  | [] => List.nodup_nil
  | e :: l => by
    rw [Log.currents]
    by_cases he : e.1 ∈ l.map (·.1)
    · rw [if_pos he]
      exact currents_nodup l
    · rw [if_neg he, List.map_cons, List.nodup_cons, mem_map_currents]
      exact ⟨he, currents_nodup l⟩

/-- The current pair of a row id has the box most recently indexed under it. -/
theorem current_of_mem_currents {e : RowId × Box n} : ∀ {l : Log n}, e ∈ Log.currents l →
    Log.current l e.1 = some e.2
  | [], h => absurd h List.not_mem_nil
  | e' :: l, h => by
    have happend : (e' :: l).reverse.find? (·.1 = e.1) =
        (l.reverse.find? (·.1 = e.1)).or ([e'].find? (·.1 = e.1)) := by
      rw [List.reverse_cons, List.find?_append]
    rw [Log.currents] at h
    have hlater : e ∈ Log.currents l → Log.current (e' :: l) e.1 = some e.2 := by
      intro h
      have ih := current_of_mem_currents h
      unfold Log.current at ih ⊢
      obtain ⟨f, hf, hfe⟩ := Option.map_eq_some_iff.mp ih
      rw [happend, hf, Option.some_or, Option.map_some, hfe]
    by_cases he : e'.1 ∈ l.map (·.1)
    · rw [if_pos he] at h
      exact hlater h
    · rw [if_neg he] at h
      rcases List.mem_cons.mp h with rfl | h
      · have hnone : l.reverse.find? (·.1 = e.1) = none := by
          rw [List.find?_eq_none]
          intro f hf hfe
          exact he (List.mem_map.mpr ⟨f, List.mem_reverse.mp hf, by simpa using hfe⟩)
        unfold Log.current
        rw [happend, hnone, Option.none_or]
        simp
      · exact hlater h

end Currents

/-! ### What a tree holds, after any run -/

namespace Index

variable (alloc : Allocation n)

/-- The pairs of the tree but the current ones. -/
def stale (s : Index meos) (l : Log n) : Log n := (meos.entries s.tree).diff l.currents

theorem entries_putEntries (hmeos : meos.Lawful) : ∀ (es : Log n) {s : Index meos},
    s.bulkConstruct = false →
    (meos.entries (es.foldl (putEntry alloc) s).tree).Perm (meos.entries s.tree ++ es)
  | [], s, _ => by simp
  | e :: es, s, hb => by
    have hput : (meos.entries (s.putEntry alloc e).tree).Perm (meos.entries s.tree ++ [e]) := by
      simp only [putEntry, hb]
      exact hmeos.entries_insert s.tree e.2 e.1
    have hrest := entries_putEntries hmeos es (s := s.putEntry alloc e) hb
    rw [List.foldl_cons]
    refine hrest.trans ((hput.append_right es).trans ?_)
    rw [List.append_assoc, List.singleton_append]

/-- One operation keeps the pairs indexed in the tree. -/
theorem step_subperm (hmeos : meos.Lawful) {info : IndexInfo} {s s' : Index meos} {l : Log n}
    {op : Operation} (hh : s.Holds info l) (h : l.Subperm (meos.entries s.tree))
    (hs : s.step alloc op = .ok s') : (l.step meos info op).Subperm (meos.entries s'.tree) := by
  cases op with
  | append rows =>
    obtain rfl : (s.append alloc rows).1 = s' := by simpa [step] using hs
    rw [append, construct_eq, hh.info_eq]
    exact ((List.subperm_append_right _).mpr h).trans (entries_putEntries alloc hmeos _ hh.bulk).symm.subperm
  | delete ids =>
    obtain ⟨store, -, hd⟩ := delete_eq hh.store ids
    obtain rfl := Except.ok.inj (hd.symm.trans hs)
    exact (List.filter_sublist.subperm).trans h
  | reload =>
    obtain ⟨store, -, hr⟩ := reload_eq hh.store
    have hs : s.reload = .ok s' := hs
    rw [hr] at hs
    cases hb : rebuild meos s.info l with
    | error e =>
      rw [hb] at hs
      cases hs
    | ok tree =>
      rw [hb] at hs
      obtain rfl := Except.ok.inj hs
      exact (rebuild_entries hmeos hb).symm.subperm

/-- After any run the tree holds the pairs indexed and not deleted since, among others. -/
theorem run_subperm (hmeos : meos.Lawful) {info : IndexInfo} {memory : ℕ → Segment n}
    {ops : List Operation} (hops : ∀ op ∈ ops, op.RealRowIds) {s : Index meos}
    (hrun : run (step alloc) (new meos info memory) ops = .ok s) :
    s.info = info ∧ (ops.foldl (Log.step meos info) []).Subperm (meos.entries s.tree) := by
  have h := run_simulates (fun (t : Index meos) m => t.Holds info m ∧ m.Subperm (meos.entries t.tree))
    (Log.step meos info)
    (fun t m op t' hok hR hs => ⟨step_holds alloc hok hR.1 hs, step_subperm alloc hmeos hR.1 hR.2 hs⟩)
    ops (new meos info memory) [] s ⟨new_holds info memory, List.nil_subperm⟩ (Along.of_forall hops) hrun
  exact ⟨h.1.info_eq, h.2⟩

/-- The tree holds the current pairs and the stale ones. -/
theorem entries_perm {s : Index meos} {l : Log n} (h : l.Subperm (meos.entries s.tree)) :
    (meos.entries s.tree).Perm (l.currents ++ s.stale l) :=
  (List.subperm_append_diff_self_of_count_le
    (List.subperm_ext_iff.mp ((currents_sublist l).subperm.trans h))).symm

end Index

/-! ### What the scan answers -/

variable [LinearOrder δ]

/-- The row ids a nearest-neighbour scan gathers. -/
def nearestIds (near : Nearest meos δ) (bind : IndexScanBindData meos) (snapshot : Snapshot) :
    Except Exception (List RowId) := do
  let candidates ← bind.index.initializeNNScan near bind.queryBox
  gatherNearest near bind snapshot candidates

/-- The rows currently indexed under which the transaction sees a value. -/
def indexedRows (bind : IndexScanBindData meos) (snapshot : Snapshot) (l : Log n) : List RowId :=
  (l.currents.map (·.1)).filter fun id => (recheckValue bind snapshot id).isSome

/-- The exact distance of a row. -/
def rowDistance (near : Nearest meos δ) (bind : IndexScanBindData meos) (snapshot : Snapshot)
    (id : RowId) : WithTop δ :=
  match recheckValue bind snapshot id with
  | none => ⊤
  | some v =>
    match exactDistance near bind.index.info.bboxType v bind.queryBox with
    | .ok d => d
    | .error _ => ⊤

/-- The scan gathers distinct rows the transaction sees, `limit` of least exact distance among those
currently indexed, or all of them, and delivers each of them. -/
def NearestRight (near : Nearest meos δ) (bind : IndexScanBindData meos) (snapshot : Snapshot)
    (l : Log n) : Prop :=
  ∃ answer, nearestIds near bind snapshot = .ok answer ∧ answer.Nodup ∧
    (∀ id ∈ answer, snapshot id ≠ none) ∧
    IsTop (rowDistance near bind snapshot) bind.limit (indexedRows bind snapshot l) answer ∧
    ∀ localStorage input, ∃ s, initGlobal near bind localStorage input = .ok s ∧
      ∀ fuel > answer.length, scanRows near bind snapshot fuel s =
        .ok (answer.filterMap fun id => (snapshot id).map (emitRow s id))

section Gather

variable {value : RowId → Option (List UInt8)} {exact : List UInt8 → Except Exception δ}

/-- A queue that is never full takes every candidate that has a value. The induction is on the
candidates. -/
theorem length_gatherLoop {k : ℕ} : ∀ (candidates : List (RowId × δ)) (best best' : List (δ ×ₗ RowId)),
    gatherLoop k value exact candidates best = .ok best' → best.length + candidates.length < k →
    best'.length = best.length + candidates.countP fun c => (value c.1).isSome
  | [], best, best', h, _ => by
    obtain rfl := Except.ok.inj h
    simp
  | (id, bound) :: rest, best, best', h, hk => by
    rw [List.length_cons] at hk
    have hstop : ¬ (k ≤ best.length ∧ ∀ w ∈ best.head?, (ofLex w).1 ≤ bound) := fun hs => by
      have := hs.1
      omega
    rw [gatherLoop, if_neg hstop] at h
    rw [List.countP_cons]
    cases hv : value id with
    | none =>
      rw [hv] at h
      have := length_gatherLoop rest best best' h (by omega)
      simpa using this
    | some v =>
      rw [hv] at h
      simp only at h
      cases hd : exact v with
      | error e =>
        rw [hd] at h
        cases h
      | ok d =>
        rw [hd] at h
        have hpush := length_push_of_lt (by omega : best.length < k) (toLex (d, id))
        have := length_gatherLoop rest _ best' h (by omega)
        rw [hpush] at this
        simp only [Option.isSome_some, if_true]
        omega

end Gather

section Right

variable {near : Nearest meos δ} {dist : Box n → Box n → δ} {bind : IndexScanBindData meos}
  {snapshot : Snapshot} {l : Log n} {box : Box n}

/-- The exact distance of a row currently indexed can be computed, and its box is no further. -/
def BoxesBound (near : Nearest meos δ) (dist : Box n → Box n → δ) (bind : IndexScanBindData meos)
    (snapshot : Snapshot) (l : Log n) (box : Box n) : Prop :=
  ∀ id b v, l.current id = some b → recheckValue bind snapshot id = some v →
    ∃ d, exactDistance near bind.index.info.bboxType v bind.queryBox = .ok d ∧ dist b box ≤ d

/-- The scan hands out what it gathered: all of it is seen. -/
theorem scan_delivers (hop : bind.operation = nnOperation) {answer : List RowId}
    (hids : nearestIds near bind snapshot = .ok answer) (hseen : ∀ id ∈ answer, snapshot id ≠ none)
    (localStorage : List StoredRow) (input : InitInput) :
    ∃ s, initGlobal near bind localStorage input = .ok s ∧
      ∀ fuel > answer.length, scanRows near bind snapshot fuel s =
        .ok (answer.filterMap fun id => (snapshot id).map (emitRow s id)) := by
  obtain ⟨candidates, hscan, hgather⟩ := except_bind_eq_ok.mp hids
  refine ⟨_, initGlobal_nearest hop hscan localStorage input, fun fuel hfuel => ?_⟩
  rw [← emit_eq]
  refine scanRows_of_seen ?_ hseen hfuel
  show (gatherNearest near bind snapshot candidates).map _ = _
  rw [hgather]
  rfl

/-- Where no stale pair is seen, the candidates that have a value are the rows currently indexed. -/
theorem ranked_perm (hnear : near.Lawful dist) (hsub : l.Subperm (meos.entries bind.index.tree))
    (hbound : BoxesBound near dist bind snapshot l box)
    (hstale : ∀ e ∈ bind.index.stale l, recheckValue bind snapshot e.1 = none) :
    ((rankedCandidates near bind snapshot (near.cursor bind.index.tree box)).map
      fun p => (ofLex p).2).Perm (indexedRows bind snapshot l) := by
  have hcursor := (hnear.cursor_perm bind.index.tree box).trans
    ((Index.entries_perm hsub).map fun e => (e.1, dist e.2 box))
  rw [List.map_append] at hcursor
  have hnone : rankedCandidates near bind snapshot
      ((bind.index.stale l).map fun e => (e.1, dist e.2 box)) = [] := by
    rw [rankedCandidates, ranked, List.filterMap_map, List.filterMap_eq_nil_iff]
    intro e he
    simp [hstale e he]
  have hcurrents : ∀ e ∈ l.currents,
      (((recheckValue bind snapshot e.1).bind fun v =>
        match exactDistance near bind.index.info.bboxType v bind.queryBox with
        | .ok d => some (toLex (d, e.1))
        | .error _ => none).map fun p => (ofLex p).2) =
          if (recheckValue bind snapshot e.1).isSome then some e.1 else none := by
    intro e he
    cases hv : recheckValue bind snapshot e.1 with
    | none => rfl
    | some v =>
      obtain ⟨d, hd, -⟩ := hbound e.1 e.2 v (current_of_mem_currents he) hv
      simp [hd]
  have hperm : (rankedCandidates near bind snapshot (near.cursor bind.index.tree box)).Perm
      (rankedCandidates near bind snapshot (l.currents.map fun e => (e.1, dist e.2 box))) := by
    have h : (rankedCandidates near bind snapshot (near.cursor bind.index.tree box)).Perm
        (rankedCandidates near bind snapshot (l.currents.map fun e => (e.1, dist e.2 box)) ++
          rankedCandidates near bind snapshot
            ((bind.index.stale l).map fun e => (e.1, dist e.2 box))) :=
      (hcursor.filterMap _).trans (List.Perm.of_eq (ranked_append _ _))
    rwa [hnone, List.append_nil] at h
  refine (hperm.map _).trans (List.Perm.of_eq ?_)
  rw [rankedCandidates, ranked, List.filterMap_map, List.map_filterMap, indexedRows, List.filter_map,
    ← List.filterMap_eq_map, List.filterMap_filter]
  exact List.filterMap_congr hcurrents

variable (bind) in
/-- A stale pair whose row id is seen is gathered besides the rows currently indexed, when there is
room for all of them. -/
theorem stale_of_right (hnear : near.Lawful dist) (hsub : l.Subperm (meos.entries bind.index.tree))
    (hscan : bind.index.initializeNNScan near bind.queryBox =
      .ok (near.cursor bind.index.tree box))
    (hlimit : (meos.entries bind.index.tree).length < bind.limit)
    (hright : NearestRight near bind snapshot l) :
    ∀ e ∈ bind.index.stale l, recheckValue bind snapshot e.1 = none := by
  obtain ⟨answer, hids, -, -, htop, -⟩ := hright
  have hcursor := hnear.cursor_perm bind.index.tree box
  have hentries := Index.entries_perm hsub
  -- how many candidates have a value
  obtain ⟨candidates, hscan', hgather⟩ := except_bind_eq_ok.mp hids
  obtain rfl := Except.ok.inj (hscan.symm.trans hscan')
  obtain ⟨best, hbest, hanswer⟩ := gatherNearest_eq_ok (by omega) hgather
  have hlength : (near.cursor bind.index.tree box).length = (meos.entries bind.index.tree).length := by
    rw [hcursor.length_eq, List.length_map]
  have hgathered := length_gatherLoop _ _ _ hbest (by rw [List.length_nil, hlength]; omega)
  have hcount : answer.length = (l.currents.countP fun e => (recheckValue bind snapshot e.1).isSome) +
      (bind.index.stale l).countP fun e => (recheckValue bind snapshot e.1).isSome := by
    rw [← hanswer, List.length_map, List.length_reverse, hgathered, List.length_nil, zero_add,
      hcursor.countP_eq, List.countP_map, ← List.countP_append]
    exact hentries.countP_eq _
  have hindexed : (indexedRows bind snapshot l).length =
      l.currents.countP fun e => (recheckValue bind snapshot e.1).isSome := by
    rw [indexedRows, ← List.countP_eq_length_filter, List.countP_map]
    rfl
  have hzero : (bind.index.stale l).countP (fun e => (recheckValue bind snapshot e.1).isSome) = 0 := by
    have := htop.length
    omega
  intro e he
  simpa using List.countP_eq_zero.mp hzero e he

variable (bind) in
/-- Where no stale pair is seen, the scan answers the nearest of the rows currently indexed. -/
theorem right_of_stale (hnear : near.Lawful dist) (hsub : l.Subperm (meos.entries bind.index.tree))
    (hop : bind.operation = nnOperation)
    (hscan : bind.index.initializeNNScan near bind.queryBox =
      .ok (near.cursor bind.index.tree box))
    (hbound : BoxesBound near dist bind snapshot l box)
    (hstale : ∀ e ∈ bind.index.stale l, recheckValue bind snapshot e.1 = none) :
    NearestRight near bind snapshot l := by
  have hcandidates : Bounded (recheckValue bind snapshot)
      (fun v => exactDistance near bind.index.info.bboxType v bind.queryBox)
      (near.cursor bind.index.tree box) := by
    refine ⟨hnear.cursor_sorted _ _, fun c hc v hv => ?_⟩
    obtain ⟨e, he, rfl⟩ := List.mem_map.mp ((hnear.cursor_perm _ _).mem_iff.mp hc)
    rcases List.mem_append.mp ((Index.entries_perm hsub).mem_iff.mp he) with he | he
    · exact hbound e.1 e.2 v (current_of_mem_currents he) hv
    · rw [hstale e he] at hv
      cases hv
  obtain ⟨best, hgather, -, htop⟩ := gatherNearest_spec near bind snapshot _ hcandidates
  have hids : nearestIds near bind snapshot = .ok (best.map fun p => (ofLex p).2) := by
    unfold nearestIds
    rw [hscan]
    exact hgather
  have hperm := ranked_perm hnear hsub hbound hstale
  have hrank : ∀ p ∈ rankedCandidates near bind snapshot (near.cursor bind.index.tree box),
      rowDistance near bind snapshot (ofLex p).2 = rank p := by
    intro p hp
    obtain ⟨c, -, v, hv, hd, hid⟩ := mem_ranked hp
    simp only [rowDistance, hid, hv, hd]
  have hmap : IsTop (rowDistance near bind snapshot) bind.limit (indexedRows bind snapshot l)
      (best.map fun p => (ofLex p).2) := by
    refine IsTop.perm (htop.map (fun p => (ofLex p).2) fun x hx y hy hxy => ?_) hperm.symm
    rw [hrank x hx, hrank y hy]
    exact WithTop.coe_le_coe.mpr hxy
  obtain ⟨out, hout, -⟩ := hmap.split
  have hseen : ∀ id ∈ best.map (fun p => (ofLex p).2), snapshot id ≠ none := by
    intro id hid
    have hmem := List.mem_filter.mp (hout.mem_iff.mpr (List.mem_append_right _ hid))
    obtain ⟨v, hv⟩ := Option.isSome_iff_exists.mp hmem.2
    obtain ⟨row, hrow⟩ := snapshot_of_recheckValue hv
    rw [hrow]
    exact Option.some_ne_none row
  refine ⟨_, hids, ?_, hseen, hmap, scan_delivers hop hids hseen⟩
  have hnodup : (out ++ best.map fun p => (ofLex p).2).Nodup :=
    hout.nodup_iff.mp ((currents_nodup l).filter _)
  exact (List.nodup_append.mp hnodup).2.1

/-- **What a nearest-neighbour scan answers after any run.** The value the scan reads for a row
currently indexed is the one its box was derived from, and is no nearer to the query than that box.
Then the scan answers, for every `k`, distinct rows the transaction sees, `k` of least exact distance
among those currently indexed or all of them, exactly when the transaction sees a value under the row
id of no stale pair. -/
theorem nearest_iff (hmeos : meos.Lawful) (hnear : near.Lawful dist) (alloc : Allocation n)
    (info : IndexInfo) (memory : ℕ → Segment n) (ops : List Operation)
    (hops : ∀ op ∈ ops, op.RealRowIds)
    (hrun : run (Index.step alloc) (Index.new meos info memory) ops = .ok bind.index)
    (hop : bind.operation = nnOperation)
    (hscan : bind.index.initializeNNScan near bind.queryBox =
      .ok (near.cursor bind.index.tree box))
    (hrows : ∀ id b v, (ops.foldl (Log.step meos info) []).current id = some b →
      recheckValue bind snapshot id = some v → deriveBox meos info v = .ok (some b))
    (hbound : ∀ id b v, recheckValue bind snapshot id = some v → deriveBox meos info v = .ok (some b) →
      ∃ d, exactDistance near info.bboxType v bind.queryBox = .ok d ∧ dist b box ≤ d) :
    (∀ k, NearestRight near { bind with limit := k } snapshot (ops.foldl (Log.step meos info) [])) ↔
      ∀ e ∈ bind.index.stale (ops.foldl (Log.step meos info) []),
        recheckValue bind snapshot e.1 = none := by
  obtain ⟨hinfo, hsub⟩ := Index.run_subperm alloc hmeos hops hrun
  have hboxes : BoxesBound near dist bind snapshot (ops.foldl (Log.step meos info) []) box := by
    intro id b v hb hv
    rw [hinfo]
    exact hbound id b v hv (hrows id b v hb hv)
  constructor
  · intro hright
    exact stale_of_right { bind with limit := (meos.entries bind.index.tree).length + 1 } hnear hsub hscan
      (Nat.lt_succ_self _) (hright _)
  · exact fun hstale k => right_of_stale { bind with limit := k } hnear hsub hop hscan hboxes hstale

end Right

/-! ### A column of points -/

theorem pointMeos_lawful : pointMeos.Lawful where
  entries_create := rfl
  entries_insert := (Meos.listed_lawful 24).entries_insert
  entries_load := (Meos.listed_lawful 24).entries_load
  search_exact := (Meos.listed_lawful 24).search_exact

theorem pointNear_lawful : pointNear.Lawful fun b q => byteDistance b.1 q.1 where
  cursor_perm _ _ := List.perm_insertionSort _ _
  cursor_sorted tree q := by
    have : Std.Total fun a b : RowId × ℕ => a.2 ≤ b.2 := ⟨fun a b => le_total a.2 b.2⟩
    have : IsTrans (RowId × ℕ) fun a b => a.2 ≤ b.2 := ⟨fun _ _ _ => le_trans⟩
    exact List.pairwise_insertionSort _ _

/-- A transaction that sees row 7 with a point. -/
def pointSnapshot (x : UInt8) : Snapshot :=
  fun id => if id = 7 then some [.blob (List.replicate 24 x)] else none

/-- Two rows are indexed, and one of them is deleted. -/
def deleteOps : List Operation :=
  [.append [Index.spanRow 3 7, Index.spanRow 1 8], .delete [some 8]]

theorem nearest_iff_delete :
    (∀ k, NearestRight pointNear { pointBind deleteOps 0 with limit := k } (pointSnapshot 3)
      (deleteOps.foldl (Log.step pointMeos pointInfo) [])) ↔
      ∀ e ∈ (pointBind deleteOps 0).index.stale (deleteOps.foldl (Log.step pointMeos pointInfo) []),
        recheckValue (pointBind deleteOps 0) (pointSnapshot 3) e.1 = none := by
  have hvalue : ∀ id v, recheckValue (pointBind deleteOps 0) (pointSnapshot 3) id = some v →
      id = 7 ∧ v = List.replicate 24 3 := by
    intro id v hv
    by_cases hid : id = 7
    · subst hid
      exact ⟨rfl, (Option.some.inj hv).symm⟩
    · obtain ⟨row, hrow⟩ := snapshot_of_recheckValue hv
      rw [pointSnapshot, if_neg hid] at hrow
      cases hrow
  have hreal : ∀ op ∈ deleteOps, op.RealRowIds := by
    simp only [deleteOps, List.forall_mem_cons, Operation.RealRowIds]
    exact ⟨⟨by decide, by decide, by simp⟩, trivial, by simp⟩
  have hscan : (pointBind deleteOps 0).index.initializeNNScan pointNear (pointBind deleteOps 0).queryBox =
      .ok (pointNear.cursor (pointBind deleteOps 0).index.tree (Index.span 0)) := rfl
  refine nearest_iff pointMeos_lawful pointNear_lawful .bump pointInfo
    (fun _ => ⟨.null, 0, fun _ => 0⟩) deleteOps hreal rfl rfl hscan ?_ ?_
  · intro id b v hb hv
    obtain ⟨rfl, rfl⟩ := hvalue id v hv
    obtain rfl : Index.span 3 = b := Option.some.inj hb
    rfl
  · intro id b v hv hb
    obtain ⟨rfl, rfl⟩ := hvalue id v hv
    obtain rfl : Index.span 3 = b := Option.some.inj (Except.ok.inj hb)
    exact ⟨3, rfl, le_rfl⟩

/-- Row 7 is indexed, deleted, and indexed again with another point. -/
def reissueOps : List Operation :=
  [.append [Index.spanRow 0 7], .delete [some 7], .append [Index.spanRow 1 7]]

/-- The two nearest rows are row 7 twice. -/
theorem not_nearestRight : ¬ ∀ k, NearestRight pointNear (pointBind reissueOps k) (pointSnapshot 1)
    (reissueOps.foldl (Log.step pointMeos pointInfo) []) := by
  intro h
  obtain ⟨answer, hids, hnodup, -⟩ := h 2
  have htwice : nearestIds pointNear (pointBind reissueOps 2) (pointSnapshot 1) = .ok [7, 7] := by
    decide
  obtain rfl := Except.ok.inj (htwice.symm.trans hids)
  exact absurd hnodup (by decide)

end MobilityDuck
