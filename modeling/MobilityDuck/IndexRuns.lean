/-
# Runs of an index

What happens to an index between two queries is a list of operations:
appends, deletions, and serializing and loading again. `Log.step` says what
an operation means for the pairs indexed.

In every state a run reaches the chain holds exactly those pairs, well
formed, and loading the index again hands them to MEOS (`run_chain`); only a
TRTREE with more than `int32Max` of them refuses (`run_chain_too_many`).
A search answers from the tree, which forgets nothing, and a filter of
deleted ids, which an id leaves when it is indexed again: so a search is
exact after every run that indexes no id the tree still holds
(`run_search_exact`), and wrong after one that does (`putEntry_reissue`,
`run_search_stale`).

Key definitions: `Operation`, `Log.step`, `Log.current`, `Index.step`,
`Index.Fresh`.
-/
import MobilityDuck.Index
import MobilityDuck.Lib.Run
import Mathlib.Data.Finset.Lattice.Lemmas
import Mathlib.Data.List.Perm.Basic

namespace MobilityDuck

open Lib

variable {n : ℕ}

/-- What DuckDB asks of an index between two queries. -/
inductive Operation
  | append (rows : List IndexedRow)
  | delete (ids : List (Option RowId))
  | reload

/-- Row ids of a table are never negative. -/
def Operation.RealRowIds : Operation → Prop
  | .append rows => ∀ r ∈ rows, 0 ≤ r.1
  | _ => True

/-- The pairs `Construct` records for some rows: of those before the first one MEOS refuses, each
that has a box. -/
def entriesOf (meos : Meos n) (info : IndexInfo) : List IndexedRow → Log n
  | [] => []
  | (_, none) :: rows => entriesOf meos info rows
  | (id, some data) :: rows =>
    match deriveBox meos info data with
    | .error _ => []
    | .ok none => entriesOf meos info rows
    | .ok (some b) => (id, b) :: entriesOf meos info rows

/-- What an operation means for the pairs indexed. -/
def Log.step (meos : Meos n) (info : IndexInfo) (l : Log n) : Operation → Log n
  | .append rows => l ++ entriesOf meos info rows
  | .delete ids => l.remove (ids.filterMap id).toFinset
  | .reload => l

/-- The box most recently indexed under a row id, and not deleted since. -/
def Log.current (l : Log n) (id : RowId) : Option (Box n) := (l.reverse.find? (·.1 = id)).map (·.2)

namespace Index

variable {meos : Meos n} (alloc : Allocation n)

/-- One operation. An append that raises keeps the index, with the rows it got to; a load that
raises leaves none. -/
def step (s : Index meos) : Operation → Except Exception (Index meos)
  | .append rows => .ok (s.append alloc rows).1
  | .delete ids => s.delete ids
  | .reload => s.reload

/-- Every entry recorded for some rows has the id of one of them. -/
theorem mem_entriesOf {info : IndexInfo} {e : RowId × Box n} : ∀ (rows : List IndexedRow),
    e ∈ entriesOf meos info rows → ∃ r ∈ rows, r.1 = e.1
  | [], h => by simp [entriesOf] at h
  | (_, none) :: rows, h => by
    obtain ⟨r, hr, he⟩ := mem_entriesOf rows h
    exact ⟨r, List.mem_cons_of_mem _ hr, he⟩
  | (id, some data) :: rows, h => by
    rw [entriesOf] at h
    split at h
    · simp at h
    · obtain ⟨r, hr, he⟩ := mem_entriesOf rows h
      exact ⟨r, List.mem_cons_of_mem _ hr, he⟩
    · rcases List.mem_cons.mp h with rfl | h
      · exact ⟨_, List.mem_cons_self, rfl⟩
      · obtain ⟨r, hr, he⟩ := mem_entriesOf rows h
        exact ⟨r, List.mem_cons_of_mem _ hr, he⟩

@[simp] theorem info_putEntry (s : Index meos) (e : RowId × Box n) :
    (s.putEntry alloc e).info = s.info := rfl

@[simp] theorem bulkConstruct_putEntry (s : Index meos) (e : RowId × Box n) :
    (s.putEntry alloc e).bulkConstruct = s.bulkConstruct := rfl

/-- `Construct` puts the entries of its rows, one after the other. -/
theorem construct_eq : ∀ (rows : List IndexedRow) (s : Index meos),
    (s.construct alloc rows).1 = (entriesOf meos s.info rows).foldl (putEntry alloc) s
  | [], _ => rfl
  | (_, none) :: rows, s => by
    rw [construct, entriesOf]
    exact construct_eq rows s
  | (id, some data) :: rows, s => by
    rw [construct, entriesOf]
    cases deriveBox meos s.info data with
    | error e => rfl
    | ok b =>
      cases b with
      | none => exact construct_eq rows s
      | some b => exact construct_eq rows (s.putEntry alloc (id, b))

/-- What carries over an entry put carries over an append. -/
theorem append_induction (R : Index meos → Log n → Prop)
    (hput : ∀ s l e, R s l → e.1 ≠ tombstoneRowId → R (s.putEntry alloc e) (l.record e.1 e.2)) :
    ∀ (es : Log n) (s : Index meos) (l : Log n), R s l → (∀ e ∈ es, e.1 ≠ tombstoneRowId) →
      R (es.foldl (putEntry alloc) s) (l ++ es)
  | [], s, l, h, _ => by simpa using h
  | e :: es, s, l, h, hid => by
    have := append_induction R hput es (s.putEntry alloc e) (l.record e.1 e.2)
      (hput s l e h (hid e List.mem_cons_self)) fun e' he' => hid e' (List.mem_cons_of_mem _ he')
    simpa [Log.record] using this

/-! ### Spans of 24 equal bytes, for the examples -/

/-- A span of 24 equal bytes. -/
def span (x : UInt8) : Box 24 := ⟨List.replicate 24 x, by simp⟩

/-- A row with a span. -/
def spanRow (x : UInt8) (id : RowId) : IndexedRow := (id, some (List.replicate 24 x))

theorem entriesOf_spanRow (t : IndexType) (x : UInt8) : ∀ ids : List RowId,
    entriesOf (Meos.listed 24) (.intspan t) (ids.map (spanRow x)) = ids.map fun id => (id, span x)
  | [] => rfl
  | id :: ids => by
    have hcopy : Box.copy 24 (List.replicate 24 x) = span x := by
      refine Subtype.ext (List.ext_getElem (by simp [Box.copy, span]) fun i h _ => ?_)
      have hi : i < 24 := by simpa [Box.copy] using h
      simp [Box.copy, span, hi]
    have hderive : deriveBox (Meos.listed 24) (.intspan t) (List.replicate 24 x) = .ok (some (span x)) := by
      rw [← hcopy]
      rfl
    rw [List.map_cons, spanRow, entriesOf, hderive, List.map_cons]
    exact congrArg _ (entriesOf_spanRow t x ids)

/-! ### The chain, after any run -/

/-- Outside bulk construction the chain holds the pairs `l`. -/
structure Holds (info : IndexInfo) (s : Index meos) (l : Log n) : Prop where
  info_eq : s.info = info
  bulk : s.bulkConstruct = false
  store : s.store.Represents l

/-- **Loading again.** A new store holds the same pairs, and the tree is rebuilt from exactly these. -/
theorem reload_eq {s : Index meos} {l : Log n} (h : s.store.Represents l) :
    ∃ store : EntryStore n, store.Represents l ∧
      s.reload = (rebuild meos s.info l).map fun tree => ⟨s.info, tree, ∅, store, false, []⟩ := by
  obtain ⟨segs, hw, rfl⟩ := h
  let stored : EntryStore n := ⟨s.store.allocator, s.store.entryHead, .null, 0, 0⟩
  have hchain : stored.Chain segs := ⟨hw.linked, hw.allocated, hw.full, hw.bounded⟩
  have htracked : stored.Tracked [] := ⟨rfl, by simp, rfl⟩
  obtain ⟨store, hreplay, hstore⟩ :=
    EntryStore.replayEntries_represents s.info.indexType.typeName s.info.name hchain htracked hw.nonempty
  have hload : s.reload = (stored.replayEntries s.info.indexType.typeName s.info.name).bind fun p =>
      (rebuild meos s.info p.2).map fun tree => ⟨s.info, tree, ∅, p.1, false, []⟩ := by
    have hne : (segmentSize n ≠ segmentSize n) = False := by simp
    unfold reload load
    simp only [serialize, IndexStorageInfo.isValid, Option.isSome_some, Bool.true_or, Bool.not_true,
      Bool.false_eq_true, if_false, hne]
    rfl
  refine ⟨store, hstore, ?_⟩
  rw [hload, hreplay]
  rfl

/-- A deletion that finds an id to delete tombstones the chain, and adds the ids to the filter. -/
theorem delete_eq {s : Index meos} {l : Log n} (h : s.store.Represents l) (ids : List (Option RowId)) :
    ∃ store : EntryStore n, store.Represents (l.remove (ids.filterMap id).toFinset) ∧
      s.delete ids = .ok { s with deleted := s.deleted ∪ (ids.filterMap id).toFinset, store := store } := by
  dsimp only [delete]
  generalize (ids.filterMap id).toFinset = removed
  by_cases hr : removed = ∅
  · subst hr
    refine ⟨s.store, ?_, ?_⟩
    · simpa [Log.remove] using h
    · rw [if_pos rfl, Finset.union_empty]
  · obtain ⟨store, hstore, hrep⟩ := EntryStore.tombstoneEntries_represents removed h
    refine ⟨store, hrep, ?_⟩
    rw [if_neg hr, hstore]
    rfl

/-- One operation keeps the chain holding what the operations so far mean. -/
theorem step_holds {info : IndexInfo} {s s' : Index meos} {l : Log n} {op : Operation}
    (hop : op.RealRowIds)
    (h : s.Holds info l) (hs : s.step alloc op = .ok s') : s'.Holds info (l.step meos info op) := by
  cases op with
  | append rows =>
    obtain rfl : (s.append alloc rows).1 = s' := by simpa [step] using hs
    rw [append, construct_eq, h.info_eq]
    refine append_induction alloc (Holds info) ?_ _ s l h ?_
    · intro t m e ht he
      exact ⟨ht.info_eq, ht.bulk, EntryStore.recordEntry_represents ht.store he e.2⟩
    · intro e he
      obtain ⟨r, hr, hre⟩ := mem_entriesOf rows he
      exact hre ▸ ne_tombstoneRowId (hop r hr)
  | delete ids =>
    obtain ⟨store, hstore, hd⟩ := delete_eq h.store ids
    obtain rfl := Except.ok.inj (hd.symm.trans hs)
    exact ⟨h.info_eq, h.bulk, hstore⟩
  | reload =>
    obtain ⟨store, hstore, hr⟩ := reload_eq h.store
    have hs : s.reload = .ok s' := hs
    rw [hr] at hs
    cases hb : rebuild meos s.info l with
    | error e =>
      rw [hb] at hs
      cases hs
    | ok tree =>
      rw [hb] at hs
      obtain rfl := Except.ok.inj hs
      exact ⟨h.info_eq, rfl, hstore⟩

theorem new_holds (info : IndexInfo) (memory : ℕ → Segment n) : (new meos info memory).Holds info [] :=
  ⟨rfl, rfl, EntryStore.empty_represents memory⟩

/-- The chain of an index holds what the operations so far mean. -/
theorem run_holds {info : IndexInfo} {memory : ℕ → Segment n} {ops : List Operation}
    (hops : ∀ op ∈ ops, op.RealRowIds) {s : Index meos}
    (hrun : run (step alloc) (new meos info memory) ops = .ok s) :
    s.Holds info (ops.foldl (Log.step meos info) []) :=
  run_simulates (Holds info) (Log.step meos info) (fun _ _ _ _ hop h hs => step_holds alloc hop h hs) ops
    (new meos info memory) [] s (new_holds info memory) (Along.of_forall hops) hrun

/-- **The chain, in any state an index reaches.** From the head it leads through finitely many
distinct segments, all full but the last, which the tail points to and whose count is the tail count,
between one and what fits; the total is the sum of the counts; and its entries that are not
tombstones are the pairs indexed and not deleted since, in the order they were indexed. Loading the
index again gives MEOS exactly these pairs and leaves a chain that holds them, unless a TRTREE has
more than `int32Max` of them or MEOS does not load them: then it raises. -/
theorem run_chain (meos : Meos n) (alloc : Allocation n) (info : IndexInfo) (memory : ℕ → Segment n)
    (ops : List Operation) (hops : ∀ op ∈ ops, op.RealRowIds) (s : Index meos)
    (hrun : run (step alloc) (new meos info memory) ops = .ok s) :
    (∃ segs : List ℕ, segs.Nodup ∧ s.store.WellFormed segs ∧
      s.store.live segs = ops.foldl (Log.step meos info) []) ∧
    (∃ store : EntryStore n, store.Represents (ops.foldl (Log.step meos info) []) ∧
      s.reload = (rebuild meos info (ops.foldl (Log.step meos info) [])).map fun tree =>
        ⟨info, tree, ∅, store, false, []⟩) ∧
    (info.indexType = .tsptree ∨ (ops.foldl (Log.step meos info) []).length ≤ int32Max ∧
        meos.load meos.create (ops.foldl (Log.step meos info) []) ≠ none →
      ∃ s', s.reload = .ok s') := by
  have h := run_holds alloc hops hrun
  set l := ops.foldl (Log.step meos info) []
  obtain ⟨store, hstore, hr⟩ := reload_eq h.store
  rw [h.info_eq] at hr
  refine ⟨?_, ⟨store, hstore, hr⟩, ?_⟩
  · obtain ⟨segs, hw, hl⟩ := h.store
    exact ⟨segs, hw.nodup, hw, hl⟩
  · intro hload
    obtain ⟨tree, htree⟩ : ∃ tree, rebuild meos info l = .ok tree := by
      unfold rebuild
      rcases hload with ht | ⟨hlen, hload⟩
      · rw [ht]
        exact ⟨_, rfl⟩
      · cases info.indexType with
        | tsptree => exact ⟨_, rfl⟩
        | trtree =>
          obtain ⟨tree, htree⟩ := Option.ne_none_iff_exists'.mp hload
          simp only [htree, Nat.not_lt.mpr hlen, if_false]
          split
          · exact ⟨_, rfl⟩
          · exact ⟨_, rfl⟩
    rw [hr, htree]
    exact ⟨_, rfl⟩

/-- An index over integer spans, empty. -/
def spanIndex : Index (Meos.listed 24) := new _ (.intspan .trtree) fun _ => ⟨.null, 0, fun _ => 0⟩

/-- Two rows are indexed, one is deleted, the index is loaded again, and the id of the deleted row is given to
another. -/
def spanRun : List Operation :=
  [.append ([7, 8].map (spanRow 0)), .delete [some 7], .reload, .append ([7, 9].map (spanRow 1))]

theorem realRowIds_spanRun : ∀ op ∈ spanRun, op.RealRowIds := by
  have hfirst : ∀ r ∈ [7, 8].map (spanRow 0), (0 : RowId) ≤ r.1 := by decide
  have hlast : ∀ r ∈ [7, 9].map (spanRow 1), (0 : RowId) ≤ r.1 := by decide
  intro op hop
  simp only [spanRun, List.mem_cons, List.not_mem_nil, or_false] at hop
  rcases hop with rfl | rfl | rfl | rfl
  · exact hfirst
  · trivial
  · trivial
  · exact hlast

theorem log_spanRun : spanRun.foldl (Log.step (Meos.listed 24) (.intspan .trtree)) [] =
    [(8, span 0), (7, span 1), (9, span 1)] := by
  simp only [spanRun, List.foldl_cons, List.foldl_nil, Log.step, entriesOf_spanRow]
  rfl

theorem run_spanRun : ∃ s, run (step .bump) spanIndex spanRun = .ok s := by
  have hok : (run (step .bump) spanIndex spanRun).toOption.isSome = true := rfl
  generalize run (step .bump) spanIndex spanRun = ran at hok ⊢
  cases ran with
  | error e => cases hok
  | ok s => exact ⟨s, rfl⟩

theorem run_chain_spanRow : ∃ s, run (step .bump) spanIndex spanRun = .ok s ∧
    (∃ segs : List ℕ, segs.Nodup ∧ s.store.live segs = [(8, span 0), (7, span 1), (9, span 1)]) ∧
    ∃ s', s.reload = .ok s' := by
  obtain ⟨s, hrun⟩ := run_spanRun
  obtain ⟨⟨segs, hn, -, hl⟩, -, hreload⟩ :=
    run_chain (Meos.listed 24) .bump (.intspan .trtree) _ spanRun realRowIds_spanRun s hrun
  rw [log_spanRun] at hl hreload
  exact ⟨s, hrun, ⟨segs, hn, hl⟩, hreload (.inr ⟨by decide, by simp [Meos.listed]⟩)⟩

/-- Appends alone never lose an index. -/
theorem run_appends : ∀ (chunks : List (List IndexedRow)) (s : Index meos),
    ∃ s', run (step alloc) s (chunks.map .append) = .ok s'
  | [], s => ⟨s, rfl⟩
  | rows :: chunks, s => run_appends chunks (s.append alloc rows).1

/-- The rows of a table, in `k` chunks of `m` rows. -/
def spanChunks (k m : ℕ) : List (List IndexedRow) :=
  (List.range k).map fun c => ((List.range m).map fun i => Int64.ofNat (m * c + i)).map (spanRow 0)

/-- The pairs of appends, one chunk after the other. -/
theorem length_appends {info : IndexInfo} {k : ℕ} : ∀ (chunks : List (List IndexedRow)) (l : Log n),
    (∀ rows ∈ chunks, (entriesOf meos info rows).length = k) →
    ((chunks.map Operation.append).foldl (Log.step meos info) l).length = l.length + chunks.length * k
  | [], l, _ => by simp
  | rows :: chunks, l, h => by
    have hrows := h rows List.mem_cons_self
    rw [List.map_cons, List.foldl_cons,
      length_appends chunks _ fun r hr => h r (List.mem_cons_of_mem _ hr)]
    simp only [Log.step, List.length_append, List.length_cons, hrows]
    ring

theorem realRowIds_spanChunks {k m : ℕ} (h : m * k < 2 ^ 63) :
    ∀ op ∈ (spanChunks k m).map Operation.append, op.RealRowIds := by
  intro op hop
  obtain ⟨rows, hrows, rfl⟩ := List.mem_map.mp hop
  obtain ⟨c, hc, rfl⟩ := List.mem_map.mp hrows
  intro r hr
  obtain ⟨id, hid, rfl⟩ := List.mem_map.mp hr
  obtain ⟨i, hi, rfl⟩ := List.mem_map.mp hid
  have hc : c + 1 ≤ k := List.mem_range.mp hc
  have hi : i < m := List.mem_range.mp hi
  have hlt : m * c + i < 2 ^ 63 :=
    calc m * c + i < m * (c + 1) := by rw [mul_add]; omega
      _ ≤ m * k := Nat.mul_le_mul_left m hc
      _ < 2 ^ 63 := h
  show (0 : Int64) ≤ Int64.ofNat (m * c + i)
  rw [Int64.le_iff_toInt_le, Int64.toInt_ofNat_of_lt hlt]
  exact Int.natCast_nonneg _

theorem length_spanChunks (t : IndexType) (k m : ℕ) :
    (((spanChunks k m).map Operation.append).foldl (Log.step (Meos.listed 24) (.intspan t)) []).length =
      k * m := by
  rw [length_appends (k := m)]
  · simp [spanChunks]
  · intro rows hrows
    obtain ⟨c, -, rfl⟩ := List.mem_map.mp hrows
    rw [entriesOf_spanRow]
    simp

/-- A TRTREE does not load more than `int32Max` pairs. -/
theorem rebuild_too_many (meos : Meos n) (info : IndexInfo) (ht : info.indexType = .trtree) {l : Log n}
    (hl : int32Max < l.length) : ∃ e, rebuild meos info l = .error e := by
  have hne : l ≠ [] := by
    rintro rfl
    simp at hl
  unfold rebuild
  rw [ht]
  simp only [hne, hl, if_true, if_false]
  exact ⟨_, rfl⟩

/-- A TRTREE over a table of `2 ^ 31` rows, appended in full vectors, does not load again. -/
theorem run_chain_too_many :
    ¬ ∀ (meos : Meos 24) (alloc : Allocation 24) (info : IndexInfo) (memory : ℕ → Segment 24)
      (ops : List Operation) (s : Index meos), meos.Lawful → (∀ op ∈ ops, op.RealRowIds) →
      run (step alloc) (new meos info memory) ops = .ok s → ∃ s', s.reload = .ok s' := by
  intro hall
  obtain ⟨s, hrun⟩ := run_appends (Allocation.bump (n := 24)) (spanChunks (2 ^ 20) 2048)
    (new (Meos.listed 24) (.intspan .trtree) fun _ => ⟨.null, 0, fun _ => 0⟩)
  have hreal := realRowIds_spanChunks (k := 2 ^ 20) (m := 2048) (by decide)
  have hlen := length_spanChunks .trtree (2 ^ 20) 2048
  have hholds := run_holds .bump hreal hrun
  obtain ⟨s', hs'⟩ := hall _ _ _ _ _ s (Meos.listed_lawful 24) hreal hrun
  obtain ⟨store, -, hr⟩ := reload_eq hholds.store
  rw [hr, hholds.info_eq] at hs'
  generalize ((spanChunks (2 ^ 20) 2048).map Operation.append).foldl
    (Log.step (Meos.listed 24) (.intspan .trtree)) [] = l at hlen hs'
  have hgt : int32Max < l.length := by
    rw [hlen]
    decide
  obtain ⟨e, he⟩ := rebuild_too_many (Meos.listed 24) (.intspan .trtree) rfl hgt
  rw [he] at hs'
  cases hs'

/-! ### What a search answers -/

/-- Every id indexed by this operation is indexed once by it, and is none the tree still holds: it
was not indexed since the tree was built. -/
def Fresh (s : Index meos) : Operation → Prop
  | .append rows => ((entriesOf meos s.info rows).map (·.1)).Nodup ∧
      ∀ e ∈ entriesOf meos s.info rows, e.1 ∉ (meos.entries s.tree).map (·.1)
  | _ => True

/-- The pairs of the tree that the filter lets through are the pairs `l`, and no id is in the tree
twice. -/
structure Exact (s : Index meos) (l : Log n) : Prop where
  live : ((meos.entries s.tree).filter (·.1 ∉ s.deleted)).Perm l
  nodup : ((meos.entries s.tree).map (·.1)).Nodup

/-- The answer of a search, as long as the tree and the filter agree with `l`. -/
theorem search_perm (hmeos : meos.Lawful) {s : Index meos} {l : Log n} (h : s.Exact l) (q : Box n)
    (op : IndexSearchOp) :
    (s.search q op).Perm ((l.filter fun e => meos.satisfies op e.2 q).map (·.1)) := by
  obtain ⟨ids, hids, hperm⟩ := hmeos.search_exact s.tree op q
  have hswap : ((meos.entries s.tree).filter fun e => meos.satisfies op e.2 q).filter (·.1 ∉ s.deleted) =
      ((meos.entries s.tree).filter (·.1 ∉ s.deleted)).filter fun e => meos.satisfies op e.2 q := by
    rw [List.filter_filter, List.filter_filter]
    apply List.filter_congr
    intro e _
    exact Bool.and_comm _ _
  unfold search
  rw [hids]
  calc ids.filter (· ∉ s.deleted)
      |>.Perm ((((meos.entries s.tree).filter fun e => meos.satisfies op e.2 q).map (·.1)).filter
        (· ∉ s.deleted)) :=
        hperm.filter _
    _ = ((((meos.entries s.tree).filter fun e => meos.satisfies op e.2 q).filter
        (·.1 ∉ s.deleted)).map (·.1)) := by
        rw [List.filter_map]
        rfl
    _ = ((((meos.entries s.tree).filter (·.1 ∉ s.deleted)).filter fun e =>
        meos.satisfies op e.2 q).map (·.1)) := by
        rw [hswap]
    _ |>.Perm ((l.filter fun e => meos.satisfies op e.2 q).map (·.1)) := (h.live.filter _).map _

theorem Exact.log_nodup {s : Index meos} {l : Log n} (h : s.Exact l) : (l.map (·.1)).Nodup :=
  ((h.live.map (·.1)).nodup_iff).mp (h.nodup.sublist (List.filter_sublist.map _))

/-- A search returns no id twice. -/
theorem Exact.nodup_search (hmeos : meos.Lawful) {s : Index meos} {l : Log n} (h : s.Exact l)
    (q : Box n) (op : IndexSearchOp) : (s.search q op).Nodup := by
  rw [(search_perm hmeos h q op).nodup_iff]
  exact h.log_nodup.sublist (List.filter_sublist.map _)

end Index

/-- Where no id is there twice, the box most recently indexed under an id is the one there. -/
theorem Log.current_eq_some {l : Log n} (h : (l.map (·.1)).Nodup) {id : RowId} {b : Box n} :
    l.current id = some b ↔ (id, b) ∈ l := by
  unfold Log.current
  constructor
  · intro hc
    obtain ⟨e, he, rfl⟩ := Option.map_eq_some_iff.mp hc
    have hid : e.1 = id := by simpa using List.find?_some he
    have hmem : e ∈ l := List.mem_reverse.mp (List.mem_of_find?_eq_some he)
    exact hid ▸ hmem
  · intro hm
    have hsome : (l.reverse.find? (·.1 = id)).isSome := by
      rw [List.find?_isSome]
      exact ⟨(id, b), List.mem_reverse.mpr hm, by simp⟩
    obtain ⟨e, he⟩ := Option.isSome_iff_exists.mp hsome
    have hid : e.1 = id := by simpa using List.find?_some he
    have hmem : e ∈ l := List.mem_reverse.mp (List.mem_of_find?_eq_some he)
    have heq : e = (id, b) := List.inj_on_of_nodup_map h hmem hm hid
    rw [he, heq]
    rfl

namespace Index

variable {meos : Meos n} (alloc : Allocation n)

/-- A pair under an id the tree does not hold keeps the index exact. -/
theorem putEntry_exact (hmeos : meos.Lawful) {s : Index meos} {l : Log n} (hb : s.bulkConstruct = false)
    (h : s.Exact l) {e : RowId × Box n} (he : e.1 ∉ (meos.entries s.tree).map (·.1)) :
    (s.putEntry alloc e).Exact (l ++ [e]) := by
  have hperm : (meos.entries (s.putEntry alloc e).tree).Perm (meos.entries s.tree ++ [e]) := by
    simp only [putEntry, hb]
    exact hmeos.entries_insert s.tree e.2 e.1
  refine ⟨?_, ?_⟩
  · have hkeep : (meos.entries s.tree).filter (·.1 ∉ s.deleted.erase e.1) =
        (meos.entries s.tree).filter (·.1 ∉ s.deleted) := by
      apply List.filter_congr
      intro x hx
      have hxe : x.1 ≠ e.1 := fun hxe => he (hxe ▸ List.mem_map_of_mem hx)
      simp [hxe]
    apply (hperm.filter _).trans
    show List.Perm (List.filter (fun x : RowId × Box n => decide (x.1 ∉ s.deleted.erase e.1)) _) _
    rw [List.filter_append, hkeep]
    refine h.live.append (List.Perm.of_eq ?_)
    simp
  · rw [(hperm.map _).nodup_iff, List.map_append, List.nodup_append]
    refine ⟨h.nodup, by simp, ?_⟩
    rintro x hx y hy rfl
    have hxe : x = e.1 := by simpa using hy
    exact he (hxe ▸ hx)

/-- So does every pair of an append that re-issues no id. -/
theorem putEntries_exact (hmeos : meos.Lawful) : ∀ (es : Log n) {s : Index meos} {l : Log n},
    s.bulkConstruct = false → s.Exact l → (es.map (·.1)).Nodup →
    (∀ e ∈ es, e.1 ∉ (meos.entries s.tree).map (·.1)) → (es.foldl (putEntry alloc) s).Exact (l ++ es)
  | [], s, l, _, h, _, _ => by simpa using h
  | e :: es, s, l, hb, h, hn, hf => by
    have hput := putEntry_exact alloc hmeos hb h (hf e List.mem_cons_self)
    have hperm : (meos.entries (s.putEntry alloc e).tree).Perm (meos.entries s.tree ++ [e]) := by
      simp only [putEntry, hb]
      exact hmeos.entries_insert s.tree e.2 e.1
    obtain ⟨hne, hn⟩ := List.nodup_cons.mp hn
    have hrest : ∀ e' ∈ es, e'.1 ∉ (meos.entries (s.putEntry alloc e).tree).map (·.1) := by
      intro e' he' hmem
      have hmem := ((hperm.map (·.1)).mem_iff).mp hmem
      rw [List.map_append, List.mem_append] at hmem
      rcases hmem with hmem | hmem
      · exact hf e' (List.mem_cons_of_mem _ he') hmem
      · have hee : e'.1 = e.1 := by simpa using hmem
        exact hne (List.mem_map.mpr ⟨e', he', hee⟩)
    simpa using putEntries_exact hmeos es (s := s.putEntry alloc e) hb hput hn hrest

/-- A tree built from entries with distinct ids holds exactly them. -/
theorem rebuild_entries (hmeos : meos.Lawful) {info : IndexInfo} {l : Log n} {tree : meos.Tree}
    (h : rebuild meos info l = .ok tree) : (meos.entries tree).Perm l := by
  unfold rebuild at h
  cases hi : info.indexType with
  | trtree =>
    rw [hi] at h
    by_cases hl : l = []
    · simp only [hl, if_true] at h
      obtain rfl := Except.ok.inj h
      rw [hmeos.entries_create, hl]
    · simp only [hl, if_false] at h
      split at h
      · simp at h
      · cases hload : meos.load meos.create l with
        | none =>
          rw [hload] at h
          simp at h
        | some t =>
          rw [hload] at h
          obtain rfl := Except.ok.inj h
          simpa [hmeos.entries_create] using hmeos.entries_load meos.create l t hload
  | tsptree =>
    rw [hi] at h
    obtain rfl := Except.ok.inj h
    have hfold : ∀ (l : Log n) (t : meos.Tree),
        (meos.entries (l.foldl (fun t e => meos.insert t e.2 e.1) t)).Perm (meos.entries t ++ l) := by
      intro l
      induction l with
      | nil => simp
      | cons e l ih =>
        intro t
        apply (ih _).trans
        have := (hmeos.entries_insert t e.2 e.1).append_right l
        simpa using this
    simpa [hmeos.entries_create] using hfold l meos.create

/-- One operation that re-issues no id the tree holds keeps the index exact. -/
theorem step_exact (hmeos : meos.Lawful) {info : IndexInfo} {s s' : Index meos} {l : Log n}
    {op : Operation}
    (hop : op.RealRowIds) (hfresh : s.Fresh op) (hh : s.Holds info l) (h : s.Exact l)
    (hs : s.step alloc op = .ok s') : s'.Exact (l.step meos info op) := by
  cases op with
  | append rows =>
    obtain rfl : (s.append alloc rows).1 = s' := by simpa [step] using hs
    rw [append, construct_eq]
    have := putEntries_exact alloc hmeos _ hh.bulk h hfresh.1 hfresh.2
    rwa [hh.info_eq] at this ⊢
  | delete ids =>
    obtain ⟨store, -, hd⟩ := delete_eq hh.store ids
    obtain rfl := Except.ok.inj (hd.symm.trans hs)
    refine ⟨?_, h.nodup⟩
    have hsplit : (meos.entries s.tree).filter (·.1 ∉ s.deleted ∪ (ids.filterMap id).toFinset) =
        ((meos.entries s.tree).filter (·.1 ∉ s.deleted)).filter (·.1 ∉ (ids.filterMap id).toFinset) := by
      rw [List.filter_filter]
      apply List.filter_congr
      intro e _
      simp only [Finset.mem_union, not_or, Bool.decide_and]
      exact Bool.and_comm _ _
    show List.Perm ((meos.entries s.tree).filter (·.1 ∉ s.deleted ∪ (ids.filterMap id).toFinset)) _
    rw [hsplit]
    exact h.live.filter _
  | reload =>
    obtain ⟨store, -, hr⟩ := reload_eq hh.store
    have hs : s.reload = .ok s' := hs
    rw [hr] at hs
    cases hb : rebuild meos s.info l with
    | error e =>
      rw [hb] at hs
      cases hs
    | ok tree =>
      rw [hb] at hs
      obtain rfl := Except.ok.inj hs
      have hperm := rebuild_entries hmeos hb
      refine ⟨?_, ((hperm.map (·.1)).nodup_iff).mpr h.log_nodup⟩
      simpa [Log.step] using hperm

/-- **What a search answers.** In every run that indexes no id the tree still holds, a search returns
exactly the ids whose most recently indexed and not since deleted box satisfies the operation, each
once. -/
theorem run_search_exact (hmeos : meos.Lawful) (info : IndexInfo) (memory : ℕ → Segment n)
    (ops : List Operation) (hops : ∀ op ∈ ops, op.RealRowIds)
    (hfresh : Along (step alloc) Fresh (new meos info memory) ops) (s : Index meos)
    (hrun : run (step alloc) (new meos info memory) ops = .ok s) (q : Box n) (op : IndexSearchOp) :
    (s.search q op).Nodup ∧ ∀ id, id ∈ s.search q op ↔
      ∃ b, (ops.foldl (Log.step meos info) []).current id = some b ∧ meos.satisfies op b q = true := by
  have hnew : (new meos info memory).Exact [] := by
    refine ⟨?_, ?_⟩ <;> simp [new, hmeos.entries_create]
  obtain ⟨-, h⟩ := run_simulates (fun (t : Index meos) m => t.Holds info m ∧ t.Exact m) (Log.step meos info)
    (fun t m op t' hok hR hs =>
      ⟨step_holds alloc hok.1 hR.1 hs, step_exact alloc hmeos hok.1 hok.2 hR.1 hR.2 hs⟩)
    ops (new meos info memory) [] s ⟨new_holds info memory, hnew⟩ ((Along.of_forall hops).and hfresh) hrun
  set l := ops.foldl (Log.step meos info) []
  refine ⟨h.nodup_search hmeos q op, fun id => ?_⟩
  · rw [(search_perm hmeos h q op).mem_iff, List.mem_map]
    constructor
    · rintro ⟨⟨i, b⟩, he, rfl⟩
      obtain ⟨hm, hsat⟩ := List.mem_filter.mp he
      exact ⟨b, (Log.current_eq_some h.log_nodup).mpr hm, hsat⟩
    · rintro ⟨b, hc, hsat⟩
      exact ⟨(id, b), List.mem_filter.mpr ⟨(Log.current_eq_some h.log_nodup).mp hc, hsat⟩, rfl⟩

/-- **A re-issued id.** Indexing an id under which the tree still holds a box that satisfies a query
makes the search wrong: it answers the id for the old box, and twice if the new one satisfies the query
as well. -/
theorem putEntry_reissue (hmeos : meos.Lawful) {s : Index meos} (hb : s.bulkConstruct = false)
    {e : RowId × Box n} {b : Box n} (hold : (e.1, b) ∈ meos.entries s.tree) {q : Box n}
    {op : IndexSearchOp} (hsat : meos.satisfies op b q = true) :
    ¬ (((s.putEntry alloc e).search q op).Nodup ∧
      (e.1 ∈ (s.putEntry alloc e).search q op → meos.satisfies op e.2 q = true)) := by
  obtain ⟨ids, hids, hperm⟩ := hmeos.search_exact (s.putEntry alloc e).tree op q
  have htree : (meos.entries (s.putEntry alloc e).tree).Perm (meos.entries s.tree ++ [e]) := by
    simp only [putEntry, hb]
    exact hmeos.entries_insert s.tree e.2 e.1
  have hmem : e.1 ∈ ids := by
    rw [hperm.mem_iff]
    refine List.mem_map.mpr ⟨(e.1, b), List.mem_filter.mpr ⟨?_, hsat⟩, rfl⟩
    exact htree.mem_iff.mpr (List.mem_append_left _ hold)
  have hsearch : (s.putEntry alloc e).search q op = ids.filter (· ∉ s.deleted.erase e.1) := by
    unfold search
    rw [hids]
    rfl
  rintro ⟨hnodup, himp⟩
  have hsat' := himp (by rw [hsearch]; exact List.mem_filter.mpr ⟨hmem, by simp⟩)
  -- both boxes satisfy the query, so the search has the id twice
  have htwo : 2 ≤ ids.count e.1 := by
    rw [hperm.count_eq, ((htree.filter _).map _).count_eq, List.filter_append, List.map_append,
      List.count_append]
    have hone : 0 < ((meos.entries s.tree).filter (fun x => meos.satisfies op x.2 q)
        |>.map (·.1)).count e.1 :=
      List.count_pos_iff.mpr (List.mem_map.mpr ⟨(e.1, b), List.mem_filter.mpr ⟨hold, hsat⟩, rfl⟩)
    have hlast : (([e].filter fun x => meos.satisfies op x.2 q).map (·.1)).count e.1 = 1 := by
      simp [hsat']
    omega
  have hcount : (ids.filter (· ∉ s.deleted.erase e.1)).count e.1 = ids.count e.1 :=
    List.count_filter (by simp)
  have := List.nodup_iff_count_le_one.mp (hsearch ▸ hnodup) e.1
  omega

/-- The load left the deleted id behind, so it may be given again. -/
theorem fresh_spanRun : Along (step .bump) Fresh spanIndex spanRun := by
  have hids : ∀ (info : IndexInfo) (x : UInt8) (ids : List RowId), info = .intspan .trtree →
      (entriesOf (Meos.listed 24) info (ids.map (spanRow x))).map (·.1) = ids := by
    rintro _ x ids rfl
    rw [entriesOf_spanRow, List.map_map]
    exact List.map_id ids
  have hloaded : ∀ s₁ s₂ s₃, step .bump spanIndex (.append ([7, 8].map (spanRow 0))) = .ok s₁ →
      step .bump s₁ (.delete [some 7]) = .ok s₂ → step .bump s₂ .reload = .ok s₃ →
      s₃.info = .intspan .trtree ∧ (Meos.listed 24).entries s₃.tree = [(8, span 0)] := by
    rintro s₁ s₂ s₃ h₁ h₂ h₃
    have h : (run (step .bump) spanIndex (spanRun.take 3)).toOption.map (fun s =>
        (s.info, (Meos.listed 24).entries s.tree)) = some (.intspan .trtree, [(8, span 0)]) := rfl
    rw [spanRun, List.take_succ_cons, List.take_succ_cons, List.take_succ_cons, List.take_zero, run, h₁, Except.bind,
      run, h₂, Except.bind, run, h₃] at h
    exact Prod.mk.inj (Option.some.inj h)
  refine ⟨⟨?_, fun _ _ => List.not_mem_nil⟩, fun s₁ h₁ =>
    ⟨trivial, fun s₂ h₂ => ⟨trivial, fun s₃ h₃ => ⟨?_, fun _ _ => trivial⟩⟩⟩⟩
  · rw [hids spanIndex.info 0 [7, 8] rfl]
    decide
  · obtain ⟨hinfo, htree⟩ := hloaded s₁ s₂ s₃ h₁ h₂ h₃
    refine ⟨?_, fun e he => ?_⟩
    · rw [hids _ 1 [7, 9] hinfo]
      decide
    · have hmem : e.1 ∈ [7, 9] := hids _ 1 [7, 9] hinfo ▸ List.mem_map_of_mem he
      rw [htree]
      intro h8
      obtain h | h := List.mem_pair.mp hmem <;> simp [h] at h8

theorem run_search_exact_spanRow : ∃ s, run (step .bump) spanIndex spanRun = .ok s ∧
    (∀ id, id ∈ s.search (span 0) .same ↔ id = 8) ∧ ∀ id, id ∈ s.search (span 1) .same ↔ id = 7 ∨ id = 9 := by
  obtain ⟨s, hrun⟩ := run_spanRun
  have hexact : ∀ q id, id ∈ s.search q .same ↔ (id, q) ∈ [(8, span 0), (7, span 1), (9, span 1)] := by
    intro q id
    have h := (run_search_exact .bump (Meos.listed_lawful 24) (.intspan .trtree) _ spanRun realRowIds_spanRun
      fresh_spanRun s hrun q .same).2 id
    rw [log_spanRun] at h
    have hcurrent : ∀ b, Log.current [(8, span 0), (7, span 1), (9, span 1)] id = some b ↔
        (id, b) ∈ [(8, span 0), (7, span 1), (9, span 1)] := fun _ => Log.current_eq_some (by decide)
    rw [h]
    simp only [hcurrent]
    simp [Meos.listed]
  have hne : span 0 ≠ span 1 := by decide
  refine ⟨s, hrun, fun id => ?_, fun id => ?_⟩
  · rw [hexact]
    simp [hne]
  · rw [hexact]
    simp [hne.symm]

/-- Row 7 is indexed, deleted, and indexed again with another span: a search for the first span still
answers it. -/
theorem run_search_stale :
    ¬ ∀ (meos : Meos 24) (alloc : Allocation 24) (info : IndexInfo) (memory : ℕ → Segment 24)
      (ops : List Operation) (s : Index meos), meos.Lawful → (∀ op ∈ ops, op.RealRowIds) →
      run (step alloc) (new meos info memory) ops = .ok s → ∀ (q : Box 24) (op : IndexSearchOp),
      (s.search q op).Nodup ∧ ∀ id, id ∈ s.search q op ↔
        ∃ b, (ops.foldl (Log.step meos info) []).current id = some b ∧
        meos.satisfies op b q = true := by
  intro hall
  let s₀ : Index (Meos.listed 24) := new _ (.intspan .trtree) fun _ => ⟨.null, 0, fun _ => 0⟩
  let s₁ := (s₀.append .bump ([7].map (spanRow 0))).1
  have h₁ : s₁ = s₀.putEntry .bump (7, span 0) := by
    show (s₀.construct .bump _).1 = _
    rw [construct_eq]
    show (entriesOf (Meos.listed 24) (.intspan .trtree) ([7].map (spanRow 0))).foldl _ _ = _
    rw [entriesOf_spanRow]
    rfl
  have hstore : s₁.store.Represents [(7, span 0)] := by
    rw [h₁]
    exact EntryStore.recordEntry_represents (EntryStore.empty_represents _) (by decide) _
  obtain ⟨store, -, hd⟩ := delete_eq hstore [some 7]
  let s₂ : Index (Meos.listed 24) :=
    { s₁ with deleted := s₁.deleted ∪ ([some 7].filterMap id).toFinset, store := store }
  have h₃ : (s₂.append .bump ([7].map (spanRow 1))).1 = s₂.putEntry .bump (7, span 1) := by
    show (s₂.construct .bump _).1 = _
    rw [construct_eq]
    show (entriesOf (Meos.listed 24) s₁.info ([7].map (spanRow 1))).foldl _ _ = _
    rw [h₁]
    show (entriesOf (Meos.listed 24) (.intspan .trtree) ([7].map (spanRow 1))).foldl _ _ = _
    rw [entriesOf_spanRow]
    rfl
  have hrun : run (step .bump) s₀
      [.append ([7].map (spanRow 0)), .delete [some 7], .append ([7].map (spanRow 1))] =
      .ok (s₂.putEntry .bump (7, span 1)) := by
    rw [run]
    show run (step .bump) s₁ _ = _
    rw [run]
    show (s₁.delete [some 7]).bind _ = _
    rw [hd]
    show run (step .bump) s₂ _ = _
    rw [run]
    show Except.ok (s₂.append .bump ([7].map (spanRow 1))).1 = _
    rw [h₃]
  obtain ⟨hnodup, hexact⟩ :=
    hall _ _ _ _ _ _ (Meos.listed_lawful 24) (by simp [Operation.RealRowIds, spanRow])
    hrun (span 0) .same
  have hbulk : s₂.bulkConstruct = false := by
    show s₁.bulkConstruct = false
    rw [h₁]
    rfl
  have hold : (((7 : RowId), span 1).1, span 0) ∈ (Meos.listed 24).entries s₂.tree := by
    show (7, span 0) ∈ (Meos.listed 24).entries s₁.tree
    rw [h₁]
    exact List.mem_singleton_self _
  have hsat : (Meos.listed 24).satisfies .same (span 0) (span 0) = true := by simp [Meos.listed]
  refine putEntry_reissue .bump (Meos.listed_lawful 24) hbulk hold hsat ⟨hnodup, fun hmem => ?_⟩
  obtain ⟨b, hb, hbsat⟩ := (hexact 7).mp hmem
  have hlog : [Operation.append ([7].map (spanRow 0)), .delete [some 7], .append ([7].map (spanRow 1))].foldl
      (Log.step (Meos.listed 24) (.intspan .trtree)) [] = [(7, span 1)] := by
    simp only [List.foldl_cons, List.foldl_nil, Log.step, entriesOf_spanRow]
    rfl
  have hb : Log.current [(7, span 1)] 7 = some b := hlog ▸ hb
  obtain rfl : span 1 = b := by simpa [Log.current] using hb
  exact hbsat

end Index

end MobilityDuck
