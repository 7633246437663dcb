/-
# Creating an index over the rows of a table

`PhysicalCreateTRTreeIndex` and `PhysicalCreateTSPTreeIndex` create an index in
two phases. The threads of the pipeline put the rows they scan into collections
of their own, and each is combined into one (`Collected`). Then construction
tasks take the chunks of that collection and hand them to `Construct` under a
lock, in any order and leaving after any chunk (a `Lib.Pool` whose shared state is
the index); while the index is under bulk construction its pairs gather beside
the tree and go into the chain, and when all tasks are finished
`FinishBulkConstruct` loads what was gathered.

What comes out, whatever the threads and tasks did in between, is an index whose
tree and chain hold the same pairs, one for each row whose box can be derived, and
appends keep tree and chain equal (`createIndex_exact`).

Key definitions: `SinkCall`, `CollectState`, `derivedPair`, `Created`,
`Index.Gathered`, `Index.Balanced`. Key theorems: `collection_perm`,
`Index.construct_gathered`, `Index.finish_balanced`, `createIndex_exact`.
-/
import MobilityDuck.IndexRuns
import MobilityDuck.Lib.WorkPool
import Mathlib.Data.Fintype.Option

namespace MobilityDuck

open Lib

variable {n : ℕ} {ι : Type} [DecidableEq ι]

/-! ### Collecting the rows -/

/-- What the pipeline asks of the operator, on a thread. -/
inductive SinkCall (ι : Type)
  | sink (thread : ι) (chunk : List IndexedRow)
  | combine (thread : ι)

/-- The local collections of the threads, and the global one. -/
structure CollectState (ι : Type) where
  locals : ι → List IndexedRow
  collection : List IndexedRow

/-- `Sink`, and `Combine`. -/
def CollectState.call (s : CollectState ι) : SinkCall ι → CollectState ι
  | .sink i chunk => { s with locals := Function.update s.locals i (s.locals i ++ chunk) }
  | .combine i =>
    if s.locals i = [] then s
    else ⟨Function.update s.locals i [], s.collection ++ s.locals i⟩

def collect (calls : List (SinkCall ι)) : CollectState ι := calls.foldl CollectState.call ⟨fun _ => [], []⟩

/-- The rows a call brings. -/
def SinkCall.rows : SinkCall ι → List IndexedRow
  | .sink _ chunk => chunk
  | .combine _ => []

/-- A call as a flow of rows; the global collection is the place `none`. -/
def SinkCall.flow : SinkCall ι → Flow (Option ι) IndexedRow
  | .sink i chunk => .add (some i) chunk
  | .combine i => .move (some i) none (Option.some_ne_none i)

/-- The scan handed each row of the table to one call, and every thread was combined after its last. -/
structure Collected (calls : List (SinkCall ι)) (rows : List IndexedRow) : Prop where
  handed : (calls.flatMap SinkCall.rows).Perm rows
  combined : ∀ i, Flow.Drained (calls.map SinkCall.flow) (some i)

/-- What the places hold. -/
def CollectState.bags (s : CollectState ι) : Option ι → Multiset IndexedRow
  | none => s.collection
  | some i => s.locals i

/-- An empty collection is left where it is, which is where it would go. -/
theorem call_combine (s : CollectState ι) (i : ι) : s.call (.combine i) =
    ⟨Function.update s.locals i [], s.collection ++ s.locals i⟩ := by
  rw [CollectState.call]
  by_cases hempty : s.locals i = []
  · have hlocals : Function.update s.locals i [] = s.locals := by
      rw [← hempty, Function.update_eq_self]
    rw [if_pos hempty, hlocals, hempty, List.append_nil]
  · rw [if_neg hempty]

theorem bags_call (s : CollectState ι) (c : SinkCall ι) : (s.call c).bags = c.flow.apply s.bags := by
  funext place
  cases c with
  | sink i chunk =>
    cases place with
    | none => rfl
    | some j =>
      by_cases hji : j = i
      · rw [hji]
        simp [CollectState.call, SinkCall.flow, Flow.apply, CollectState.bags]
      · simp [CollectState.call, SinkCall.flow, Flow.apply, CollectState.bags, hji]
  | combine i =>
    rw [call_combine]
    cases place with
    | none => simp [SinkCall.flow, Flow.apply, CollectState.bags]
    | some j =>
      by_cases hji : j = i
      · rw [hji]
        simp [SinkCall.flow, Flow.apply, CollectState.bags]
      · simp [SinkCall.flow, Flow.apply, CollectState.bags, hji]

theorem bags_collect (calls : List (SinkCall ι)) :
    (collect calls).bags = Flow.run (calls.map SinkCall.flow) fun _ => 0 := by
  have hrun : ∀ (calls : List (SinkCall ι)) (s : CollectState ι),
      (calls.foldl CollectState.call s).bags = Flow.run (calls.map SinkCall.flow) s.bags := by
    intro calls
    induction calls with
    | nil => exact fun _ => rfl
    | cons c calls ih =>
      intro s
      rw [List.foldl_cons, ih, bags_call]
      rfl
  have hstart : (⟨fun _ => [], []⟩ : CollectState ι).bags = fun _ => 0 := by
    funext place
    cases place with
    | none => rfl
    | some i => rfl
  rw [collect, hrun, hstart]

/-- **The collection holds the rows of the table**, each as often as the table does. -/
theorem collection_perm [Fintype ι] {calls : List (SinkCall ι)} {rows : List IndexedRow}
    (h : Collected calls rows) : (collect calls).collection.Perm rows := by
  have hwithin : ∀ f ∈ calls.map SinkCall.flow, f.Within (Finset.univ : Finset (Option ι)) := by
    intro f hf
    obtain ⟨c, -, rfl⟩ := List.mem_map.mp hf
    cases c with
    | sink i chunk => trivial
    | combine i => exact ⟨fun _ => Finset.mem_univ _, fun _ => Finset.mem_univ _⟩
  have hdrained : ∀ place ∈ (Finset.univ : Finset (Option ι)), place ≠ none →
      Flow.Drained (calls.map SinkCall.flow) place := by
    intro place _ hplace
    obtain ⟨i, rfl⟩ := Option.ne_none_iff_exists'.mp hplace
    exact h.combined i
  have hall := Flow.run_of_all_drained (Finset.mem_univ none) hwithin hdrained
  rw [← bags_collect] at hall
  have hadded : ∀ calls : List (SinkCall ι),
      ((calls.map SinkCall.flow).map (Flow.added Finset.univ)).sum =
        ((calls.flatMap SinkCall.rows : List IndexedRow) : Multiset IndexedRow) := by
    intro calls
    induction calls with
    | nil => rfl
    | cons c calls ih =>
      rw [List.map_cons, List.map_cons, List.sum_cons, ih, List.flatMap_cons, ← Multiset.coe_add]
      cases c with
      | sink i chunk => simp [SinkCall.flow, Flow.added, SinkCall.rows]
      | combine i => simp [SinkCall.flow, Flow.added, SinkCall.rows]
  have hcollection : ((collect calls).collection : Multiset IndexedRow) =
      ((calls.flatMap SinkCall.rows : List IndexedRow) : Multiset IndexedRow) := hall.trans (hadded calls)
  exact (Multiset.coe_eq_coe.mp hcollection).trans h.handed

/-! ### Pairs of rows -/

/-- The pair of a row whose box can be derived. -/
def derivedPair (meos : Meos n) (info : IndexInfo) (r : IndexedRow) : Option (RowId × Box n) :=
  match r.2 with
  | none => none
  | some data =>
    match deriveBox meos info data with
    | .ok (some b) => some (r.1, b)
    | _ => none

namespace Index

variable {meos : Meos n} (alloc : Allocation n) {info : IndexInfo}

/-- Where `Construct` raises nothing, it records the pair of each row that has one. -/
theorem entriesOf_of_construct : ∀ (rows : List IndexedRow) (s : Index meos),
    (s.construct alloc rows).2 = none →
      entriesOf meos s.info rows = rows.filterMap (derivedPair meos s.info)
  | [], _, _ => rfl
  | (_, none) :: rows, s, h => entriesOf_of_construct rows s h
  | (id, some data) :: rows, s, h => by
    rw [construct] at h
    rw [entriesOf, List.filterMap_cons]
    cases hbox : deriveBox meos s.info data with
    | error e =>
      rw [hbox] at h
      cases h
    | ok b =>
      rw [hbox] at h
      cases b with
      | none =>
        have hpair : derivedPair meos s.info (id, some data) = none := by simp [derivedPair, hbox]
        rw [hpair]
        exact entriesOf_of_construct rows s h
      | some b =>
        have hpair : derivedPair meos s.info (id, some data) = some (id, b) := by simp [derivedPair, hbox]
        rw [hpair]
        exact congrArg ((id, b) :: ·) (entriesOf_of_construct rows (s.putEntry alloc (id, b)) h)

/-- Under bulk construction the pairs `l` are gathered and in the chain, and the tree is still empty. -/
structure Gathered (info : IndexInfo) (s : Index meos) (l : Log n) : Prop where
  info_eq : s.info = info
  bulkConstruct : s.bulkConstruct = true
  tree : s.tree = meos.create
  bulk : s.bulk = l
  store : s.store.Represents l

/-- After it, the tree and the chain hold the same pairs. -/
structure Balanced (info : IndexInfo) (s : Index meos) (l : Log n) : Prop where
  info_eq : s.info = info
  bulkConstruct : s.bulkConstruct = false
  store : s.store.Represents l
  tree : (meos.entries s.tree).Perm l

/-- A new index under bulk construction has nothing yet. -/
theorem begin_gathered (info : IndexInfo) (memory : ℕ → Segment n) :
    (new meos info memory).beginBulkConstruct.Gathered info [] :=
  ⟨rfl, rfl, rfl, rfl, EntryStore.empty_represents memory⟩

theorem putEntry_gathered {s : Index meos} {l : Log n} (h : s.Gathered info l) (e : RowId × Box n)
    (he : e.1 ≠ tombstoneRowId) : (s.putEntry alloc e).Gathered info (l.record e.1 e.2) where
  info_eq := h.info_eq
  bulkConstruct := h.bulkConstruct
  tree := by
    rw [putEntry, h.bulkConstruct]
    exact h.tree
  bulk := by
    rw [putEntry, h.bulkConstruct]
    exact congrArg (· ++ [e]) h.bulk
  store := EntryStore.recordEntry_represents h.store he e.2

theorem putEntry_balanced (hmeos : meos.Lawful) {s : Index meos} {l : Log n} (h : s.Balanced info l)
    (e : RowId × Box n) (he : e.1 ≠ tombstoneRowId) :
    (s.putEntry alloc e).Balanced info (l.record e.1 e.2) where
  info_eq := h.info_eq
  bulkConstruct := h.bulkConstruct
  store := EntryStore.recordEntry_represents h.store he e.2
  tree := by
    rw [putEntry, h.bulkConstruct]
    exact (hmeos.entries_insert s.tree e.2 e.1).trans (h.tree.append_right [e])

theorem ne_tombstone_of_mem_entriesOf {rows : List IndexedRow} (hrows : ∀ r ∈ rows, 0 ≤ r.1) :
    ∀ e ∈ entriesOf meos info rows, e.1 ≠ tombstoneRowId := by
  intro e he
  obtain ⟨r, hr, hre⟩ := mem_entriesOf rows he
  exact hre ▸ ne_tombstoneRowId (hrows r hr)

/-- A chunk that raises nothing adds the pairs of its rows. -/
theorem construct_gathered {s s' : Index meos} {l : Log n} {rows : List IndexedRow}
    (h : s.Gathered info l) (hrows : ∀ r ∈ rows, 0 ≤ r.1)
    (hs : s.construct alloc rows = (s', none)) :
    s'.Gathered info (l ++ rows.filterMap (derivedPair meos info)) := by
  have hentries : entriesOf meos info rows = rows.filterMap (derivedPair meos info) := by
    rw [← h.info_eq]
    exact entriesOf_of_construct alloc rows s (by rw [hs])
  have hs' : s' = (entriesOf meos info rows).foldl (putEntry alloc) s := by
    rw [← h.info_eq, ← construct_eq, hs]
  rw [hs', ← hentries]
  exact append_induction alloc (Gathered info) (fun t m e ht he => putEntry_gathered alloc ht e he) _ s l h
    (ne_tombstone_of_mem_entriesOf hrows)

/-- So do the chunks of a run, one after the other. -/
theorem run_gathered (chunks : List (List IndexedRow)) {s s' : Index meos} {l : Log n} (h : s.Gathered info l)
    (hids : ∀ r ∈ chunks.flatten, 0 ≤ r.1) (hs : run (itemStep (construct alloc)) s chunks = .ok s') :
    s'.Gathered info (l ++ chunks.flatten.filterMap (derivedPair meos info)) := by
  induction chunks generalizing s l with
  | nil =>
    obtain rfl := Except.ok.inj hs
    simpa using h
  | cons rows chunks ih =>
    obtain ⟨t, ht, hs⟩ := run_cons hs
    rw [List.flatten_cons] at hids ⊢
    have hrows : ∀ r ∈ rows, 0 ≤ r.1 := fun r hr => hids r (List.mem_append_left _ hr)
    have hchunks : ∀ r ∈ chunks.flatten, 0 ≤ r.1 := fun r hr => hids r (List.mem_append_right _ hr)
    have ht : s.construct alloc rows = (t, none) := by
      rw [itemStep] at ht
      split at ht
      · rename_i s' heq
        obtain rfl := Except.ok.inj ht
        exact heq
      · cases ht
    rw [List.filterMap_append, ← List.append_assoc]
    exact ih (construct_gathered alloc h hrows ht) hchunks hs

/-- **`FinishBulkConstruct`.** When it reports no error, the tree has taken what was gathered. -/
theorem finish_balanced (hmeos : meos.Lawful) {s s' : Index meos} {l : Log n} (h : s.Gathered info l)
    (hs : s.finishBulkConstruct = (s', none)) : s'.Balanced info l := by
  rw [finishBulkConstruct, h.bulkConstruct, h.bulk, h.tree] at hs
  simp only [Bool.not_true, Bool.false_eq_true, if_false] at hs
  by_cases hnil : l = []
  · rw [if_pos hnil] at hs
    obtain rfl := (Prod.mk.injEq .. ▸ hs).1
    refine ⟨h.info_eq, rfl, h.store, ?_⟩
    rw [hnil]
    exact hmeos.entries_create ▸ List.Perm.refl []
  · rw [if_neg hnil] at hs
    by_cases hmax : int32Max < l.length
    · rw [if_pos hmax] at hs
      cases (Prod.mk.injEq .. ▸ hs).2
    · rw [if_neg hmax] at hs
      cases hload : meos.load meos.create l with
      | none =>
        rw [hload] at hs
        cases (Prod.mk.injEq .. ▸ hs).2
      | some tree =>
        rw [hload] at hs
        obtain rfl := (Prod.mk.injEq .. ▸ hs).1
        refine ⟨h.info_eq, rfl, h.store, ?_⟩
        simpa [hmeos.entries_create] using hmeos.entries_load meos.create l tree hload

/-- An append keeps the tree and the chain equal, also when it raises. -/
theorem append_balanced (hmeos : meos.Lawful) {s : Index meos} {l : Log n} (h : s.Balanced info l)
    {rows : List IndexedRow} (hrows : ∀ r ∈ rows, 0 ≤ r.1) :
    (s.append alloc rows).1.Balanced info (l ++ entriesOf meos info rows) := by
  rw [append, construct_eq, h.info_eq]
  exact append_induction alloc (Balanced info) (fun t m e ht he => putEntry_balanced alloc hmeos ht e he) _ s l h
    (ne_tombstone_of_mem_entriesOf hrows)

/-- Appends keep the tree and the chain equal. -/
theorem appends_balanced (hmeos : meos.Lawful) (appended : List (List IndexedRow)) {s : Index meos} {l : Log n}
    (h : s.Balanced info l) (hids : ∀ r ∈ appended.flatten, 0 ≤ r.1) :
    (appended.foldl (fun s rows => (s.append alloc rows).1) s).Balanced info
      (l ++ appended.flatMap (entriesOf meos info)) := by
  induction appended generalizing s l with
  | nil => simpa using h
  | cons rows appended ih =>
    rw [List.flatten_cons] at hids
    have hrows : ∀ r ∈ rows, 0 ≤ r.1 := fun r hr => hids r (List.mem_append_left _ hr)
    have happended : ∀ r ∈ appended.flatten, 0 ≤ r.1 := fun r hr => hids r (List.mem_append_right _ hr)
    rw [List.foldl_cons, List.flatMap_cons, ← List.append_assoc]
    exact ih (append_balanced alloc hmeos h hrows) happended

end Index

/-! ### `CREATE INDEX` -/

/-- An index that `CREATE INDEX` makes over the rows of a table, with `m` scanning threads and `k + 1`
construction tasks: the rows were collected, the tasks took the chunks of the collection until all were
finished, and `FinishBulkConstruct` reported no error. -/
def Created {meos : Meos n} (alloc : Allocation n) (info : IndexInfo) (memory : ℕ → Segment n) (m k : ℕ)
    (rows : List IndexedRow) (index : Index meos) : Prop :=
  ∃ (calls : List (SinkCall (Fin m))) (chunks : List (List IndexedRow))
    (p : Pool (Fin (k + 1)) (List IndexedRow) (Index meos)),
    Collected calls rows ∧
    chunks.flatten = (collect calls).collection ∧
    Pool.Reaches (Index.construct alloc)
      (Pool.start chunks (Index.new meos info memory).beginBulkConstruct) p ∧
    (∀ task, p.workers task = .finished) ∧
    p.shared.finishBulkConstruct = (index, none)

/-- **`CREATE INDEX` indexes every row once.** For every table, any number of threads and tasks and every
order of their steps, the tree and the chain of the index it makes hold the same pairs: one for each row
that is not `NULL` and whose box can be derived. Rows appended to it afterwards keep the two equal. -/
theorem createIndex_exact {meos : Meos n} (hmeos : meos.Lawful) (alloc : Allocation n) (info : IndexInfo)
    (memory : ℕ → Segment n) (m k : ℕ) (rows : List IndexedRow) (hids : ∀ r ∈ rows, 0 ≤ r.1)
    (index : Index meos) (h : Created alloc info memory m k rows index) :
    (∃ l : Log n, index.store.Represents l ∧ (meos.entries index.tree).Perm l ∧
      l.Perm (rows.filterMap (derivedPair meos info))) ∧
    ∀ appended : List (List IndexedRow), (∀ r ∈ appended.flatten, 0 ≤ r.1) →
      ∃ l : Log n,
        (appended.foldl (fun s rows => (s.append alloc rows).1) index).store.Represents l ∧
        (meos.entries (appended.foldl (fun s rows => (s.append alloc rows).1) index).tree).Perm l := by
  obtain ⟨calls, chunks, p, hcollected, hchunks, hreaches, hfinished, hfinish⟩ := h
  -- The tasks applied the chunks once each, in the order they came to hold the lock.
  obtain ⟨done, hdone, hrun⟩ := Pool.run_of_finished hreaches hfinished
  have hrows : done.flatten.Perm rows :=
    hdone.flatten.trans (hchunks ▸ collection_perm hcollected)
  have hgathered : p.shared.Gathered info (done.flatten.filterMap (derivedPair meos info)) :=
    Index.run_gathered alloc done (Index.begin_gathered info memory)
      (fun r hr => hids r (hrows.mem_iff.mp hr)) hrun
  have hbalanced := Index.finish_balanced hmeos hgathered hfinish
  refine ⟨⟨_, hbalanced.store, hbalanced.tree, hrows.filterMap _⟩, fun appended happended => ?_⟩
  have happends := Index.appends_balanced alloc hmeos appended hbalanced happended
  exact ⟨_, happends.store, happends.tree⟩

/-- Three rows, one of them without a value, are collected by two threads; of the two tasks the second is first at
the lock. -/
theorem created_spanRow : ∃ index : Index (Meos.listed 24),
    Created .bump (.intspan .trtree) (fun _ => ⟨.null, 0, fun _ => 0⟩) 2 1
      [Index.spanRow 0 7, (8, none), Index.spanRow 1 9] index := by
  let rows₀ : List IndexedRow := [Index.spanRow 0 7, (8, none)]
  let rows₁ : List IndexedRow := [Index.spanRow 1 9]
  let start : Index (Meos.listed 24) := Index.spanIndex.beginBulkConstruct
  let built : Index (Meos.listed 24) := ((start.construct .bump rows₀).1.construct .bump rows₁).1
  have hreaches : Pool.Reaches (Index.construct .bump) (Pool.start [rows₁, rows₀] start)
      ⟨[], none, ![.finished, .finished], built⟩ := Pool.reaches_pair rfl rfl
  refine ⟨built.finishBulkConstruct.1, [.sink 0 rows₀, .sink 1 rows₁, .combine 1, .combine 0], [rows₁, rows₀], _,
    ⟨List.Perm.refl _, ?_⟩, rfl, hreaches, Fin.forall_fin_two.mpr ⟨rfl, rfl⟩, rfl⟩
  have hne : ∀ i : Fin 2, some i ≠ none := Option.some_ne_none
  refine Fin.forall_fin_two.mpr ⟨.inr ?_, .inr ?_⟩
  · exact ⟨[.add (some 0) ↑rows₀, .add (some 1) ↑rows₁, .move (some 1) none (hne 1)], none, hne 0, [], rfl, nofun⟩
  · refine ⟨[.add (some 0) ↑rows₀, .add (some 1) ↑rows₁], none, hne 1, [.move (some 0) none (hne 0)], rfl, ?_⟩
    intro f hf
    obtain rfl := List.mem_singleton.mp hf
    simp [Flow.Names]

theorem createIndex_exact_spanRow : ∃ index : Index (Meos.listed 24),
    List.Perm index.tree [(7, Index.span 0), (9, Index.span 1)] ∧
    ∃ l : Log 24, (index.append .bump [Index.spanRow 2 10]).1.store.Represents l ∧
      List.Perm (index.append .bump [Index.spanRow 2 10]).1.tree l := by
  obtain ⟨index, hcreated⟩ := created_spanRow
  obtain ⟨⟨l, -, htree, hl⟩, happends⟩ := createIndex_exact (Meos.listed_lawful 24) .bump (.intspan .trtree)
    (fun _ => ⟨.null, 0, fun _ => 0⟩) 2 1 [Index.spanRow 0 7, (8, none), Index.spanRow 1 9] (by decide) index hcreated
  exact ⟨index, htree.trans hl, happends [[Index.spanRow 2 10]] (by decide)⟩

end MobilityDuck
