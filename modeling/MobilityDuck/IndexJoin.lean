/-
# The join that probes an index

`PhysicalRTreeIndexJoin` and `PhysicalSPTreeIndexJoin` read one child, the
probe side. Each probe row is looked up in the index once (`probeMatches`),
and its matches are fetched and written behind copies of the row, as many as
the output chunk has room for; what is left is kept in the operator's state
for the next call (`execute`).

The operator counts matches, not fetched rows: where a fetch answers fewer
rows than it was asked for, what stands behind them in the memory of the
fetched chunk is written out as well. So the join answers one row for each
probe row and match (`Emits`), and the rows are those of the probe rows
with their visible matches, each pair once, exactly when every match is visible
and no match comes twice (`joinRows_perm_iff`).

Key definitions: `PhysicalIndexJoin`, `IndexJoinState`, `emitMatches`,
`execute`, `joinRows`. Key theorem: `joinRows_perm_iff`.
-/
import MobilityDuck.IndexScan
import MobilityDuck.Lib.Drain
import Mathlib.Data.List.GetD

namespace MobilityDuck

open Lib

variable {n : ℕ} {meos : Meos n}

/-- `PhysicalRTreeIndexJoin`, with the columns of the indexed table. -/
structure PhysicalIndexJoin (meos : Meos n) where
  columns : ColumnList
  index : Index meos
  types : List LogicalType
  probeColumn : ℕ
  probeIsTemporal : Bool
  indexColumns : List ℕ

/-- The memory of the fetched chunk, row by row. -/
abbrev FetchBuffer := ℕ → List Value

/-- `RTreeIndexJoinState`. -/
structure IndexJoinState where
  probeRow : ℕ
  matched : List RowId
  matchOffset : ℕ
  fetched : FetchBuffer

namespace PhysicalIndexJoin

variable (join : PhysicalIndexJoin meos)

def probeColumnCount : ℕ := join.types.length - join.indexColumns.length

/-- `GetOperatorState`: the columns to fetch. -/
def storageIds : List StorageIndex :=
  join.indexColumns.map fun id => ColumnIndex.storage join.columns (.column id)

/-- The matches of one probe value; a value without any, `NULL` among them, is passed over. A value of
the probe column is a `BLOB`. -/
def probeMatches : Value → Except Exception (List RowId)
  | .blob bytes =>
    if join.probeIsTemporal then do
      match ← callMeos (meos.tspatialToStbox bytes) with
      | none => pure []
      | some box => (normalizeStbox meos box).map fun b => join.index.search b .overlaps
    else if meos.hasX (Box.copy n bytes) then do
      let srid ← callMeos (meos.stboxSrid (Box.copy n bytes))
      if srid = 0 then pure (join.index.search (Box.copy n bytes) .overlaps)
      else
        match ← callMeos (meos.stboxSetSrid (Box.copy n bytes) 0) with
        | none => pure []
        | some normalized => pure (join.index.search normalized .overlaps)
    else pure (join.index.search (Box.copy n bytes) .overlaps)
  | _ => .ok []

/-- The matches of a probe row. The vectors of a chunk are indexed with a check. -/
def rowMatches (row : List Value) : Except Exception (List RowId) :=
  match row[join.probeColumn]? with
  | none =>
    let size := row.length
    .error (.internal s!"Attempted to access index {join.probeColumn} within vector of size {size}")
  | some value => join.probeMatches value

theorem rowMatches_of_getElem? {join : PhysicalIndexJoin meos} {row : List Value} {value : Value}
    (h : row[join.probeColumn]? = some value) : join.rowMatches row = join.probeMatches value := by
  rw [rowMatches, h]

/-- How an iteration of the loop ends. -/
inductive Iteration
  | next (s : IndexJoinState) (chunk : Chunk)
  | full (s : IndexJoinState) (chunk : Chunk)

variable (table : Snapshot) (reset : FetchBuffer → FetchBuffer)

/-- The lower part of the loop: fetch as many of the pending matches as the chunk has room for, and
write them behind copies of the probe row. `reset` is what `DataChunk::Reset` makes of the memory of
the fetched chunk; `Fetch` overwrites as many of its rows as it answers. -/
def emitMatches (row : List Value) (s : IndexJoinState) (chunk : Chunk) : Iteration :=
  let remaining := s.matched.length - s.matchOffset
  let take := min remaining (standardVectorSize - chunk.length)
  if take = 0 then .full s chunk
  else
    let ids := (s.matched.drop s.matchOffset).take take
    let rows := fetch table join.storageIds ids
    let fetched : FetchBuffer := fun k => rows.getD k (reset s.fetched k)
    let chunk := chunk ++ (List.range take).map fun k => row.take join.probeColumnCount ++ fetched k
    let s :=
      if s.matchOffset + take = s.matched.length then ⟨s.probeRow + 1, [], 0, fetched⟩
      else { s with matchOffset := s.matchOffset + take, fetched := fetched }
    if chunk.length = standardVectorSize then .full s chunk else .next s chunk

/-- The loop after a probe: a row without matches is passed over. -/
def afterProbe (row : List Value) (s : IndexJoinState) (chunk : Chunk) (ids : List RowId) : Iteration :=
  if ids = [] then .next { s with probeRow := s.probeRow + 1 } chunk
  else join.emitMatches table reset row { s with matched := ids } chunk

/-- The body of the loop. The index is probed unless matches of the row are pending. -/
def iterate (row : List Value) (s : IndexJoinState) (chunk : Chunk) : Except Exception Iteration :=
  if s.matchOffset = 0 ∧ s.matched = [] then
    (join.rowMatches row).map (join.afterProbe table reset row s chunk)
  else .ok (join.emitMatches table reset row s chunk)

/-- An iteration that does not fill the chunk has finished its probe row. -/
theorem emitMatches_next {row : List Value} {s s' : IndexJoinState} {chunk chunk' : Chunk}
    (h : join.emitMatches table reset row s chunk = .next s' chunk') :
    s'.probeRow = s.probeRow + 1 := by
  unfold emitMatches at h
  simp only at h
  split at h
  · simp at h
  rename_i htake
  split at h
  · simp at h
  rename_i hfull
  rw [List.length_append, List.length_map, List.length_range] at hfull
  obtain ⟨rfl, -⟩ := Iteration.next.inj h
  rw [if_pos (by omega)]

theorem iterate_next {row : List Value} {s s' : IndexJoinState} {chunk chunk' : Chunk}
    (h : join.iterate table reset row s chunk = .ok (.next s' chunk')) :
    s'.probeRow = s.probeRow + 1 := by
  unfold iterate at h
  split at h
  · cases hp : join.rowMatches row with
    | error e =>
      rw [hp] at h
      cases h
    | ok ids =>
      rw [hp] at h
      have h : join.afterProbe table reset row s chunk ids = .next s' chunk' := Except.ok.inj h
      unfold afterProbe at h
      split at h
      · obtain ⟨rfl, -⟩ := Iteration.next.inj h
        rfl
      · have hnext := join.emitMatches_next table reset h
        exact hnext
  · exact join.emitMatches_next table reset (Except.ok.inj h)

/-- The loop of `Execute`. -/
def executeLoop (input : Chunk) (s : IndexJoinState) (chunk : Chunk) :
    Except Exception (OperatorResult × Chunk × IndexJoinState) :=
  if h : s.probeRow < input.length then
    match hi : join.iterate table reset input[s.probeRow] s chunk with
    | .error e => .error e
    | .ok (.full s' chunk') => .ok (.haveMoreOutput, chunk', s')
    | .ok (.next s' chunk') => executeLoop input s' chunk'
  else .ok (.needMoreInput, chunk, { s with probeRow := 0 })
termination_by input.length - s.probeRow
decreasing_by
  have := join.iterate_next table reset hi
  omega

/-- One turn of the loop. -/
theorem executeLoop_turn {input : Chunk} {s : IndexJoinState} (chunk : Chunk) {row : List Value}
    {rest : Chunk}
    (hrow : input.drop s.probeRow = row :: rest) : join.executeLoop table reset input s chunk =
      (join.iterate table reset row s chunk).bind fun
        | .full s' chunk' => .ok (.haveMoreOutput, chunk', s')
        | .next s' chunk' => join.executeLoop table reset input s' chunk' := by
  have hlt : s.probeRow < input.length := by
    by_contra hge
    rw [List.drop_eq_nil_of_le (by omega)] at hrow
    simp at hrow
  have hget : input[s.probeRow] = row := by
    rw [List.drop_eq_getElem_cons hlt] at hrow
    exact (List.cons.inj hrow).1
  rw [executeLoop, dif_pos hlt, ← hget]
  split
  all_goals
    rename_i h
    rw [h]
    rfl

/-- `Execute`. -/
def execute (input : Chunk) (s : IndexJoinState) :
    Except Exception (OperatorResult × Chunk × IndexJoinState) :=
  join.executeLoop table reset input s []

/-- The rows of the join over a sequence of probe chunks: DuckDB calls `Execute` on a chunk until it
asks for the next one. -/
def joinRows (fuel : ℕ) (inputs : List Chunk) (memory : FetchBuffer) : Except Exception Chunk :=
  drainAll (join.execute table reset) .diverges fuel inputs ⟨0, [], 0, memory⟩

/-! ### What the calls answer -/

/-- The matches of a probe row, in the order they are worked off. -/
def rowWork (row : List Value) : Work (List Value × RowId) Exception :=
  match join.rowMatches row with
  | .error e => ⟨[], some e⟩
  | .ok ids => ⟨ids.map (row, ·), none⟩

/-- The matches of an input. -/
def inputWork (input : Chunk) : Work (List Value × RowId) Exception :=
  Work.concat (input.map join.rowWork)

/-- The row a match becomes when the transaction sees it. -/
def joinedRow (p : List Value × RowId) : Option (List Value) :=
  (table p.2).map fun stored => p.1.take join.probeColumnCount ++ join.storageIds.map (cell p.2 stored)

/-- There is a row for each match, and they are the joined rows where every match is seen. -/
structure Emits (pairs : List (List Value × RowId)) (rows : Chunk) : Prop where
  length : rows.length = pairs.length
  rows_eq : (∀ p ∈ pairs, table p.2 ≠ none) → rows = pairs.filterMap (join.joinedRow table)

variable {join table reset}

theorem Emits.nil : join.Emits table [] [] := ⟨rfl, fun _ => rfl⟩

theorem Emits.append {pairs pairs' : List (List Value × RowId)} {rows rows' : Chunk}
    (h : join.Emits table pairs rows)
    (h' : join.Emits table pairs' rows') : join.Emits table (pairs ++ pairs') (rows ++ rows') where
  length := by rw [List.length_append, List.length_append, h.length, h'.length]
  rows_eq hall := by
    rw [List.filterMap_append, h.rows_eq fun p hp => hall p (List.mem_append_left _ hp),
      h'.rows_eq fun p hp => hall p (List.mem_append_right _ hp)]

/-- The rows written for some matches of one probe row. -/
theorem emits_fetch (row : List Value) (ids : List RowId) (old : FetchBuffer) :
    join.Emits table (ids.map (row, ·)) ((List.range ids.length).map fun k =>
      row.take join.probeColumnCount ++ (fetch table join.storageIds ids).getD k (old k)) where
  length := by rw [List.length_map, List.length_range, List.length_map]
  rows_eq hall := by
    have hseen : ∀ id ∈ ids, table id ≠ none := fun id hid => hall (row, id) (List.mem_map_of_mem hid)
    have hlen : (fetch table join.storageIds ids).length = ids.length := fetch_length table _ hseen
    rw [List.filterMap_map]
    have hrows : ids.filterMap (join.joinedRow table ∘ fun id => (row, id)) =
        (fetch table join.storageIds ids).map (row.take join.probeColumnCount ++ ·) := by
      rw [fetch, List.map_filterMap]
      apply List.filterMap_congr
      intro id _
      rw [Option.map_map]
      rfl
    rw [hrows]
    apply List.ext_getElem (by rw [List.length_map, List.length_range, List.length_map, hlen])
    intro k hk hk'
    rw [List.length_map] at hk'
    rw [List.getElem_map, List.getElem_range, List.getElem_map, List.getD_eq_getElem _ _ hk']

/-- The operator between two calls: `w` is what is left of the input. -/
def Remaining (join : PhysicalIndexJoin meos) (input : Chunk) (w : Work (List Value × RowId) Exception)
    (s : IndexJoinState) : Prop :=
  (s.matchOffset = 0 ∧ s.matched = [] ∧ w = join.inputWork (input.drop s.probeRow)) ∨
  ∃ row rest, input.drop s.probeRow = row :: rest ∧ s.matchOffset < s.matched.length ∧
    w = ⟨(s.matched.drop s.matchOffset).map (row, ·) ++ (join.inputWork rest).items,
      (join.inputWork rest).failure⟩

/-- The operator between two inputs. -/
def Idle (s : IndexJoinState) : Prop := s.probeRow = 0 ∧ s.matched = [] ∧ s.matchOffset = 0

/-- What a call has to do, with some rows in its chunk. -/
abbrev RightCall (join : PhysicalIndexJoin meos) (table : Snapshot) (input : Chunk)
    (w : Work (List Value × RowId) Exception) (chunk : Chunk)
    (r : Except Exception (OperatorResult × Chunk × IndexJoinState)) : Prop :=
  Call (join.Emits table) (Remaining join input) Idle (standardVectorSize - chunk.length) w chunk r

variable (join table reset) in
/-- What stands in the chunk after some matches of a row were fetched, and the operator's state. -/
theorem emitMatches_eq (row : List Value) {s : IndexJoinState} {chunk : Chunk}
    (hoff : s.matchOffset < s.matched.length)
    (hchunk : chunk.length < standardVectorSize) {take : ℕ}
    (htake : take = min (s.matched.length - s.matchOffset) (standardVectorSize - chunk.length)) :
    ∃ rows f, join.Emits table (((s.matched.drop s.matchOffset).take take).map (row, ·)) rows ∧
      join.emitMatches table reset row s chunk =
        let s' : IndexJoinState :=
          if s.matchOffset + take = s.matched.length then ⟨s.probeRow + 1, [], 0, f⟩
          else ⟨s.probeRow, s.matched, s.matchOffset + take, f⟩
        if chunk.length + take = standardVectorSize then .full s' (chunk ++ rows)
        else .next s' (chunk ++ rows) := by
  subst htake
  set take := min (s.matched.length - s.matchOffset) (standardVectorSize - chunk.length) with htake
  set ids := (s.matched.drop s.matchOffset).take take with hids
  have hlen : ids.length = take := by
    rw [hids, List.length_take, List.length_drop]
    omega
  refine ⟨_, fun k => (fetch table join.storageIds ids).getD k (reset s.fetched k),
    emits_fetch row ids (reset s.fetched), ?_⟩
  unfold emitMatches
  simp only
  rw [← htake, if_neg (by omega), ← hids, List.length_append, List.length_map, List.length_range, hlen]

variable (join table reset) in
/-- Pending matches: the loop writes them and goes on with the next row, or fills the chunk. `hrest` is
the loop on the next row. -/
theorem emitMatches_call {input : Chunk} {row : List Value} {rest : Chunk} {s : IndexJoinState}
    {chunk : Chunk}
    (hrow : input.drop s.probeRow = row :: rest) (hoff : s.matchOffset < s.matched.length)
    (hchunk : chunk.length < standardVectorSize)
    (hrest : ∀ f chunk', chunk'.length < standardVectorSize →
      RightCall join table input (join.inputWork rest) chunk'
        (join.executeLoop table reset input ⟨s.probeRow + 1, [], 0, f⟩ chunk')) :
    RightCall join table input
      ⟨(s.matched.drop s.matchOffset).map (row, ·) ++ (join.inputWork rest).items,
        (join.inputWork rest).failure⟩ chunk
      (match join.emitMatches table reset row s chunk with
        | .full s' chunk' => .ok (.haveMoreOutput, chunk', s')
        | .next s' chunk' => join.executeLoop table reset input s' chunk') := by
  obtain ⟨rows, f, hemits, heq⟩ := emitMatches_eq join table reset row hoff hchunk rfl
  have hrest' : input.drop (s.probeRow + 1) = rest := by
    rw [← List.drop_drop, hrow, List.drop_one, List.tail_cons]
  set todo := s.matched.drop s.matchOffset with htodo
  have htodoLen : todo.length = s.matched.length - s.matchOffset := by rw [htodo, List.length_drop]
  rw [← htodoLen] at heq hemits
  rw [heq]
  by_cases hroom : todo.length < standardVectorSize - chunk.length
  · -- the matches fit, and the loop goes on behind them
    rw [min_eq_left hroom.le, List.take_length] at hemits
    rw [min_eq_left hroom.le, if_neg (by omega), if_pos (by omega)]
    apply Call.prepend Emits.append hemits (by rw [List.length_map]; omega)
    have hcall := hrest f (chunk ++ rows) (by rw [List.length_append, hemits.length, List.length_map]; omega)
    unfold RightCall at hcall
    rwa [List.length_append, hemits.length, Nat.sub_add_eq] at hcall
  · -- the chunk is full
    rw [min_eq_right (by omega)] at hemits
    rw [min_eq_right (by omega), if_pos (by omega)]
    unfold RightCall Call
    rw [if_neg (by rw [List.length_append, List.length_map]; omega)]
    refine ⟨rows, _, rfl, ?_, ?_⟩
    · rw [List.take_append_of_le_length (by rw [List.length_map]; omega), ← List.map_take]
      exact hemits
    · rw [List.drop_append_of_le_length (by rw [List.length_map]; omega), ← List.map_drop, htodo,
        List.drop_drop]
      split
      · rename_i hend
        left
        refine ⟨rfl, rfl, ?_⟩
        rw [hend, List.drop_length, hrest']
        rfl
      · rename_i hend
        right
        refine ⟨row, rest, hrow, ?_, rfl⟩
        show s.matchOffset + (standardVectorSize - chunk.length) < s.matched.length
        omega

/-- **One run of the loop is right about what is left of the input.** The induction is on the probe rows
left. -/
theorem executeLoop_spec {input : Chunk} : ∀ (rows : Chunk) (w : Work (List Value × RowId) Exception)
    (s : IndexJoinState) (chunk : Chunk), input.drop s.probeRow = rows → Remaining join input w s →
    chunk.length < standardVectorSize →
    RightCall join table input w chunk (join.executeLoop table reset input s chunk)
  | [], w, s, chunk, hrows, hw, hchunk => by
    have hend : ¬ s.probeRow < input.length := by
      have := List.drop_eq_nil_iff.mp hrows
      omega
    rcases hw with ⟨hoff, hmatched, rfl⟩ | ⟨row, rest, hrow, -⟩
    · rw [executeLoop, dif_neg hend, hrows]
      unfold RightCall Call
      have hnil : join.inputWork [] = ⟨[], none⟩ := rfl
      rw [hnil, if_pos (by simp only [List.length_nil]; omega)]
      exact ⟨[], { s with probeRow := 0 }, by rw [List.append_nil], Emits.nil, rfl, hmatched, hoff⟩
    · rw [hrows] at hrow
      simp at hrow
  | row :: rest, w, s, chunk, hrows, hw, hchunk => by
    have hnext : input.drop (s.probeRow + 1) = rest := by
      rw [← List.drop_drop, hrows, List.drop_one, List.tail_cons]
    have hrest : ∀ (s' : IndexJoinState) (chunk' : Chunk), s'.probeRow = s.probeRow + 1 →
        s'.matched = [] →
        s'.matchOffset = 0 → chunk'.length < standardVectorSize →
        RightCall join table input (join.inputWork rest) chunk'
          (join.executeLoop table reset input s' chunk') := by
      intro s' chunk' hprobe hmatched hoff hc
      have hdrop : input.drop s'.probeRow = rest := by rw [hprobe, hnext]
      exact executeLoop_spec rest _ s' chunk' hdrop (.inl ⟨hoff, hmatched, by rw [hdrop]⟩) hc
    rw [join.executeLoop_turn table reset chunk hrows]
    unfold iterate
    rcases hw with ⟨hoff, hmatched, rfl⟩ | ⟨row', rest', hrow, hoff, rfl⟩
    · rw [if_pos ⟨hoff, hmatched⟩, hrows]
      have hwork : join.inputWork (row :: rest) = (join.rowWork row).append (join.inputWork rest) := rfl
      rw [hwork, rowWork]
      cases hp : join.rowMatches row with
      | error e =>
        unfold RightCall Call
        rw [if_pos (by simp only [Work.append, List.length_nil]; omega)]
        rfl
      | ok ids =>
        show RightCall join table input _ chunk (match join.afterProbe table reset row s chunk ids with
          | .full s' chunk' => .ok (.haveMoreOutput, chunk', s')
          | .next s' chunk' => join.executeLoop table reset input s' chunk')
        unfold afterProbe
        by_cases hids : ids = []
        · rw [if_pos hids, hids]
          exact hrest _ chunk rfl hmatched hoff hchunk
        · rw [if_neg hids]
          have hpos : 0 < ids.length := List.length_pos_iff.mpr hids
          have hs : ({ s with matched := ids } : IndexJoinState) = ⟨s.probeRow, ids, 0, s.fetched⟩ := by
            rw [hoff]
          have hcall := emitMatches_call join table reset (s := ⟨s.probeRow, ids, 0, s.fetched⟩) hrows hpos
            hchunk fun f chunk' hc => hrest ⟨s.probeRow + 1, [], 0, f⟩ chunk' rfl rfl rfl hc
          rw [hs]
          exact hcall
    · rw [hrows] at hrow
      obtain ⟨rfl, rfl⟩ := List.cons.inj hrow
      have hpending : ¬ (s.matchOffset = 0 ∧ s.matched = []) := by
        rintro ⟨-, hmatched⟩
        rw [hmatched] at hoff
        exact absurd hoff (Nat.not_lt_zero _)
      rw [if_neg hpending]
      exact emitMatches_call join table reset hrows hoff hchunk
        fun f chunk' hc => hrest ⟨s.probeRow + 1, [], 0, f⟩ chunk' rfl rfl rfl hc

/-- One call is right about what is left of the input. -/
theorem execute_call (input : Chunk) (w : Work (List Value × RowId) Exception) (s : IndexJoinState)
    (h : Remaining join input w s) :
    Call (join.Emits table) (Remaining join input) Idle standardVectorSize w []
      (join.execute table reset input s) :=
  executeLoop_spec (input.drop s.probeRow) w s [] rfl h (by decide)

theorem remaining_of_idle (input : Chunk) (s : IndexJoinState) (h : Idle s) :
    Remaining join input (join.inputWork input) s := by
  obtain ⟨hprobe, hmatched, hoff⟩ := h
  refine .inl ⟨hoff, hmatched, ?_⟩
  rw [hprobe, List.drop_zero]

/-- The matches of all inputs. -/
def work (join : PhysicalIndexJoin meos) (inputs : List Chunk) : Work (List Value × RowId) Exception :=
  Work.concat (inputs.map join.inputWork)

/-- The join answers a row for each match of all inputs, or raises what a probe raises. -/
theorem joinRows_spec (join : PhysicalIndexJoin meos) (table : Snapshot)
    (reset : FetchBuffer → FetchBuffer)
    (inputs : List Chunk) (memory : FetchBuffer) : ∃ calls, ∀ fuel ≥ calls,
      (join.work inputs).Answered (join.Emits table) (join.joinRows table reset fuel inputs memory) := by
  let size : Chunk → ℕ := fun input => (join.inputWork input).items.length
  refine ⟨(inputs.map size).sum + 1, fun fuel hfuel => ?_⟩
  refine drainAll_spec (R := Remaining join) Emits.append .diverges
    (fun input w s h => (execute_call input w s h).gets_on (by decide)) remaining_of_idle Emits.nil inputs
    ⟨0, [], 0, memory⟩ ⟨rfl, rfl, rfl⟩ ?_
  · intro input hinput
    have hle : size input ≤ (inputs.map size).sum :=
      List.single_le_sum (by simp) _ (List.mem_map_of_mem hinput)
    show size input < fuel
    omega

/-- The rows of the join: a probe row behind each other with its matches that the transaction sees. -/
def joinedRows (join : PhysicalIndexJoin meos) (table : Snapshot) (inputs : List Chunk) : Chunk :=
  inputs.flatMap fun input => input.flatMap fun row =>
    match join.rowMatches row with
    | .error _ => []
    | .ok ids => ids.filterMap fun id =>
        (table id).map fun stored => row ++ join.storageIds.map (cell id stored)

/-- Every probe can be looked up, and the transaction sees every match. -/
def Seen (join : PhysicalIndexJoin meos) (table : Snapshot) (inputs : List Chunk) : Prop :=
  ∀ input ∈ inputs, ∀ row ∈ input, ∃ ids, join.rowMatches row = .ok ids ∧
    ∀ id ∈ ids, table id ≠ none

theorem work_failure_eq_none_iff {inputs : List Chunk} : (join.work inputs).failure = none ↔
    ∀ input ∈ inputs, ∀ row ∈ input, (join.rowWork row).failure = none := by
  simp only [work, inputWork, Work.concat_failure_eq_none_iff, List.forall_mem_map]

theorem work_items {inputs : List Chunk} (h : (join.work inputs).failure = none) :
    (join.work inputs).items =
      inputs.flatMap fun input => input.flatMap fun row => (join.rowWork row).items := by
  rw [work, Work.concat_items h, List.flatMap_map]
  apply List.flatMap_congr
  intro input hinput
  have hinput : (join.inputWork input).failure = none :=
    Work.concat_failure_eq_none_iff.mp h _ (List.mem_map_of_mem hinput)
  rw [inputWork, Work.concat_items hinput, List.flatMap_map]

/-- The joined rows are those of the matches. -/
theorem joinedRows_eq {inputs : List Chunk} (h : (join.work inputs).failure = none)
    (hwidth : ∀ input ∈ inputs, ∀ row ∈ input, row.length = join.probeColumnCount) :
    join.joinedRows table inputs = (join.work inputs).items.filterMap (join.joinedRow table) := by
  rw [work_items h, joinedRows, List.filterMap_flatMap]
  apply List.flatMap_congr
  intro input hinput
  rw [List.filterMap_flatMap]
  apply List.flatMap_congr
  intro row hrow
  have hrowWork := work_failure_eq_none_iff.mp h input hinput row hrow
  unfold rowWork at hrowWork ⊢
  cases hp : join.rowMatches row with
  | error e =>
    rw [hp] at hrowWork
    simp at hrowWork
  | ok ids =>
    simp only [List.filterMap_map]
    apply List.filterMap_congr
    intro id _
    show _ = (table id).map fun stored =>
      row.take join.probeColumnCount ++ join.storageIds.map (cell id stored)
    rw [← hwidth input hinput row hrow, List.take_length]

theorem seen_iff {inputs : List Chunk} : join.Seen table inputs ↔
    (join.work inputs).failure = none ∧ ∀ p ∈ (join.work inputs).items, table p.2 ≠ none := by
  constructor
  · intro h
    have hnone : (join.work inputs).failure = none := by
      apply work_failure_eq_none_iff.mpr
      intro input hinput row hrow
      obtain ⟨ids, hp, -⟩ := h input hinput row hrow
      rw [rowWork, hp]
    refine ⟨hnone, fun p hp => ?_⟩
    rw [work_items hnone] at hp
    obtain ⟨input, hinput, hp⟩ := List.mem_flatMap.mp hp
    obtain ⟨row, hrow, hp⟩ := List.mem_flatMap.mp hp
    obtain ⟨ids, hids, hseen⟩ := h input hinput row hrow
    rw [rowWork, hids] at hp
    obtain ⟨id, hid, rfl⟩ := List.mem_map.mp hp
    exact hseen id hid
  · intro h input hinput row hrow
    have hrowWork := work_failure_eq_none_iff.mp h.1 input hinput row hrow
    cases hp : join.rowMatches row with
    | error e =>
      rw [rowWork, hp] at hrowWork
      simp at hrowWork
    | ok ids =>
      refine ⟨ids, rfl, fun id hid => h.2 (row, id) ?_⟩
      rw [work_items h.1]
      refine List.mem_flatMap.mpr ⟨input, hinput, List.mem_flatMap.mpr ⟨row, hrow, ?_⟩⟩
      rw [rowWork, hp]
      exact List.mem_map_of_mem hid

/-- Where every match is seen, these are the rows the join answers. -/
theorem joinRows_of_seen (reset : FetchBuffer → FetchBuffer) {inputs : List Chunk}
    (memory : FetchBuffer)
    (hwidth : ∀ input ∈ inputs, ∀ row ∈ input, row.length = join.probeColumnCount)
    (hseen : join.Seen table inputs) :
    ∃ calls, ∀ fuel ≥ calls, join.joinRows table reset fuel inputs memory =
      .ok (join.joinedRows table inputs) := by
  obtain ⟨hfail, hall⟩ := seen_iff.mp hseen
  obtain ⟨enough, hspec⟩ := joinRows_spec join table reset inputs memory
  unfold Work.Answered at hspec
  rw [hfail] at hspec
  refine ⟨enough, fun fuel hfuel => ?_⟩
  obtain ⟨out, hout, hemits⟩ := hspec fuel hfuel
  rw [hout, hemits.rows_eq hall, joinedRows_eq hfail hwidth]

/-- The pairs of a probe row and a visible match, one row each. -/
def rowPairs (join : PhysicalIndexJoin meos) (table : Snapshot) (row : List Value) : Chunk :=
  match join.rowMatches row with
  | .error _ => []
  | .ok ids => ids.dedup.filterMap fun id =>
      (table id).map fun stored => row ++ join.storageIds.map (cell id stored)

/-- The rows a join is asked for. -/
def pairedRows (join : PhysicalIndexJoin meos) (table : Snapshot) (inputs : List Chunk) : Chunk :=
  inputs.flatten.flatMap (join.rowPairs table)

/-- No probe row has a match twice. -/
def Distinct (join : PhysicalIndexJoin meos) (inputs : List Chunk) : Prop :=
  ∀ input ∈ inputs, ∀ row ∈ input, ∀ ids, join.rowMatches row = .ok ids → ids.Nodup

/-- A probe row is in no more pairs than it has matches, and in as many where these are distinct and
visible. -/
theorem length_rowPairs_le (join : PhysicalIndexJoin meos) (table : Snapshot) (row : List Value) :
    (join.rowPairs table row).length ≤ (join.rowWork row).items.length ∧
      ((join.rowPairs table row).length = (join.rowWork row).items.length →
        ∀ ids, join.rowMatches row = .ok ids → ids.Nodup ∧ ∀ id ∈ ids, table id ≠ none) := by
  unfold rowPairs rowWork
  cases join.rowMatches row with
  | error e => exact ⟨le_rfl, fun _ ids hids => nomatch hids⟩
  | ok ids =>
    simp only [List.length_map]
    have hfilter := List.length_filterMap_le (fun id =>
      (table id).map fun stored => row ++ join.storageIds.map (cell id stored)) ids.dedup
    have hdedup := (List.dedup_sublist ids).length_le
    refine ⟨hfilter.trans hdedup, fun hlen ids' hids => ?_⟩
    obtain rfl := Except.ok.inj hids
    have heq : ids.dedup = ids := (List.dedup_sublist ids).eq_of_length (by omega)
    rw [heq] at hlen
    refine ⟨List.dedup_eq_self.mp heq, fun id hid => ?_⟩
    have hsome := List.filterMap_length_eq_length.mp hlen id hid
    rw [Option.isSome_map] at hsome
    exact Option.isSome_iff_ne_none.mp hsome

/-- Distinct matches are paired as they come. -/
theorem pairedRows_eq {inputs : List Chunk} (hdistinct : join.Distinct inputs) :
    join.pairedRows table inputs = join.joinedRows table inputs := by
  rw [pairedRows, joinedRows, List.flatten_eq_flatMap, List.flatMap_assoc]
  refine List.flatMap_congr fun input hinput => List.flatMap_congr fun row hrow => ?_
  unfold rowPairs
  cases hids : join.rowMatches row with
  | error e => rfl
  | ok ids => simp only [(hdistinct input hinput row hrow ids hids).dedup]

/-- Where nothing raises and there are as many pairs as matches, every match is visible and there once. -/
theorem seen_of_length_pairedRows {inputs : List Chunk} (hfail : (join.work inputs).failure = none)
    (hlen : (join.pairedRows table inputs).length = (join.work inputs).items.length) :
    join.Seen table inputs ∧ join.Distinct inputs := by
  have hitems : (join.work inputs).items = inputs.flatten.flatMap fun row => (join.rowWork row).items := by
    rw [work_items hfail, List.flatten_eq_flatMap, List.flatMap_assoc]
    rfl
  have hsum : (inputs.flatten.map fun row => (join.rowPairs table row).length).sum =
      (inputs.flatten.map fun row => (join.rowWork row).items.length).sum := by
    rwa [hitems, pairedRows, List.length_flatMap, List.length_flatMap] at hlen
  -- no probe row is in more pairs than it has matches, so each is in as many
  have hrows : ∀ input ∈ inputs, ∀ row ∈ input,
      (join.rowPairs table row).length = (join.rowWork row).items.length := by
    intro input hinput row hrow
    by_contra hne
    have hlt := lt_of_le_of_ne (length_rowPairs_le join table row).1 hne
    exact absurd hsum (ne_of_lt (List.sum_lt_sum _ _
      (fun row _ => (length_rowPairs_le join table row).1)
      ⟨row, List.mem_flatten_of_mem hinput hrow, hlt⟩))
  constructor
  · intro input hinput row hrow
    have hok := work_failure_eq_none_iff.mp hfail input hinput row hrow
    unfold rowWork at hok
    cases hids : join.rowMatches row with
    | error e =>
      rw [hids] at hok
      simp at hok
    | ok ids =>
      exact ⟨ids, rfl, ((length_rowPairs_le join table row).2 (hrows input hinput row hrow) ids hids).2⟩
  · intro input hinput row hrow ids hids
    exact ((length_rowPairs_le join table row).2 (hrows input hinput row hrow) ids hids).1

/-- **The join answers one row per probe row and visible match**, whatever the memory of the fetched
chunk holds, exactly when every match is visible and no probe row has a match twice. -/
theorem joinRows_perm_iff (join : PhysicalIndexJoin meos) (table : Snapshot)
    (reset : FetchBuffer → FetchBuffer) (inputs : List Chunk) (memory : FetchBuffer)
    (hwidth : ∀ input ∈ inputs, ∀ row ∈ input, row.length = join.probeColumnCount) :
    (∃ out, out.Perm (join.pairedRows table inputs) ∧
      ∃ calls, ∀ fuel ≥ calls, join.joinRows table reset fuel inputs memory = .ok out) ↔
        join.Seen table inputs ∧ join.Distinct inputs := by
  constructor
  · intro ⟨out, hperm, calls, hcalls⟩
    obtain ⟨enough, hspec⟩ := joinRows_spec join table reset inputs memory
    have hanswer := hspec _ (le_max_right calls enough)
    rw [hcalls _ (le_max_left calls enough)] at hanswer
    unfold Work.Answered at hanswer
    cases hfail : (join.work inputs).failure with
    | some e =>
      rw [hfail] at hanswer
      simp at hanswer
    | none =>
      rw [hfail] at hanswer
      obtain ⟨out', hout, hemits⟩ := hanswer
      obtain rfl := Except.ok.inj hout
      exact seen_of_length_pairedRows hfail (hperm.length_eq.symm.trans hemits.length)
  · intro ⟨hseen, hdistinct⟩
    rw [pairedRows_eq hdistinct]
    exact ⟨_, List.Perm.refl _, joinRows_of_seen reset memory hwidth hseen⟩

/-- A join with a table of boxes, of which row 7 is indexed under the box of zeros. -/
def stboxJoin : PhysicalIndexJoin (Meos.listed 80) where
  columns := [⟨.stbox, false⟩]
  index := (Index.new _ ⟨"i", .trtree, [0], .stbox, .stbox, bboxTypeOf_stbox⟩
    fun _ => ⟨.null, 0, fun _ => 0⟩).putEntry .bump (7, Box.copy 80 [])
  types := [.stbox, .stbox]
  probeColumn := 0
  probeIsTemporal := false
  indexColumns := [0]

/-- A probe row of one column, the box of zeros. -/
def zeroRow : List Value := [.blob (List.replicate 80 0)]

theorem stboxJoin_matches :
    stboxJoin.rowMatches zeroRow = .ok [7] := by
  decide

theorem zeroRow_width :
    ∀ input ∈ [[zeroRow]], ∀ row ∈ input, row.length = stboxJoin.probeColumnCount := by
  intro input hinput row hrow
  obtain rfl := List.mem_singleton.mp hinput
  obtain rfl := List.mem_singleton.mp hrow
  rfl

theorem joinRows_perm_zeroRow :
    ∃ out, out.Perm (stboxJoin.pairedRows (fun _ => some [.null]) [[zeroRow]]) ∧
    ∃ calls, ∀ fuel ≥ calls,
      stboxJoin.joinRows (fun _ => some [.null]) id fuel [[zeroRow]] (fun _ => []) = .ok out := by
  apply (joinRows_perm_iff stboxJoin (fun _ => some [.null]) id [[zeroRow]] (fun _ => [])
    zeroRow_width).mpr
  constructor
  · intro input hinput row hrow
    obtain rfl := List.mem_singleton.mp hinput
    obtain rfl := List.mem_singleton.mp hrow
    exact ⟨[7], stboxJoin_matches, fun _ _ => Option.some_ne_none _⟩
  · intro input hinput row hrow ids hids
    obtain rfl := List.mem_singleton.mp hinput
    obtain rfl := List.mem_singleton.mp hrow
    obtain rfl := Except.ok.inj (stboxJoin_matches.symm.trans hids)
    exact List.nodup_singleton 7

/-- The one match was deleted in the transaction; the join writes out whatever the chunk held. -/
theorem joinRows_stale : ¬ ∀ (table : Snapshot) (inputs : List Chunk) (memory : FetchBuffer),
    (∀ input ∈ inputs, ∀ row ∈ input, row.length = stboxJoin.probeColumnCount) →
    ∃ out, out.Perm (stboxJoin.pairedRows table inputs) ∧
      ∃ calls, ∀ fuel ≥ calls, stboxJoin.joinRows table id fuel inputs memory = .ok out := by
  intro hall
  obtain ⟨out, hperm, calls, hcalls⟩ := hall (fun _ => none) [[zeroRow]] (fun _ => []) zeroRow_width
  obtain ⟨enough, hspec⟩ := joinRows_spec stboxJoin (fun _ => none) id [[zeroRow]] (fun _ => [])
  have hwork : stboxJoin.work [[zeroRow]] = ⟨[(zeroRow, 7)], none⟩ := by
    show Work.concat [Work.concat [stboxJoin.rowWork zeroRow]] = _
    rw [rowWork, stboxJoin_matches]
    rfl
  have hanswer := hspec _ (le_max_right calls enough)
  rw [hwork] at hanswer
  obtain ⟨out', hout, hemits⟩ := hanswer
  obtain rfl : out = out' := Except.ok.inj ((hcalls _ (le_max_left calls enough)).symm.trans hout)
  have hnone : stboxJoin.pairedRows (fun _ => none) [[zeroRow]] = [] := by
    show stboxJoin.rowPairs (fun _ => none) zeroRow ++ [] = []
    rw [rowPairs, stboxJoin_matches]
    rfl
  rw [hnone] at hperm
  have hlen := hemits.length
  rw [hperm.eq_nil] at hlen
  simp at hlen

end PhysicalIndexJoin

end MobilityDuck
