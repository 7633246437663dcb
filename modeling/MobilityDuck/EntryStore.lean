/-
# The chain of segments

Behind the tree the index keeps every (row id, box) pair it fed to it, in a
chain of segments taken from a `FixedSizeAllocator`: `recordEntry` appends
one pair, `tombstoneEntries` marks the pairs of deleted rows, and
`replayEntries` reads the chain back and recovers the tail and the counts,
which are not persisted.

What the chain is for is a list of pairs: record puts one at the end, remove
drops all of some ids (`Log`). `EntryStore.Represents` says that the chain is
well formed and that its entries without the tombstones are that list.
`recordEntry_represents`, `tombstoneEntries_represents` and
`replayEntries_represents` say that the three routines carry the relation.

Key definitions: `FixedSizeAllocator`, `EntryStore`, `EntryStore.Chain`,
`EntryStore.WellFormed`, `EntryStore.Represents`.
-/
import MobilityDuck.EntrySegment
import MobilityDuck.Lib.Chain
import MobilityDuck.Types
import Mathlib.Algebra.Order.BigOperators.Group.List

namespace MobilityDuck

open Lib

/-! ### What the chain is for -/

/-- The pairs recorded and not removed, in recording order. -/
abbrev Log (n : ℕ) := List (RowId × Box n)

namespace Log

variable {n : ℕ}

def record (l : Log n) (id : RowId) (b : Box n) : Log n := l ++ [(id, b)]

def remove (l : Log n) (removed : Finset RowId) : Log n := l.filter (·.1 ∉ removed)

end Log

/-! ### The allocator -/

/-- How `FixedSizeAllocator::New` picks a segment: never one in use, and with whatever content the
memory there has. -/
structure Allocation (n : ℕ) where
  address : List ℕ → ℕ
  content : List ℕ → Segment n
  fresh : ∀ used, address used ∉ used

/-- Each segment behind all those before it. -/
def Allocation.bump {n : ℕ} : Allocation n where
  address used := used.sum + 1
  content _ := ⟨.null, 0, fun _ => 0⟩
  fresh used h := by
    have := List.le_sum_of_mem h
    omega

/-- The segments in use, and what stands behind each address. -/
structure FixedSizeAllocator (n : ℕ) where
  used : List ℕ
  memory : ℕ → Segment n

namespace FixedSizeAllocator

variable {n : ℕ}

/-- `Get(ptr)` and the copies made through it. -/
def modify (f : Segment n → Segment n) (a : ℕ) (s : FixedSizeAllocator n) : FixedSizeAllocator n :=
  { s with memory := fun b => if b = a then f (s.memory a) else s.memory b }

/-- The state after `New()`; the address it returned is the head of `used`. -/
def new (alloc : Allocation n) (s : FixedSizeAllocator n) : FixedSizeAllocator n where
  used := alloc.address s.used :: s.used
  memory := fun b => if b = alloc.address s.used then alloc.content s.used else s.memory b

@[simp] theorem used_modify (f : Segment n → Segment n) (a : ℕ) (s : FixedSizeAllocator n) :
    (s.modify f a).used = s.used := rfl

@[simp] theorem memory_modify_same (f : Segment n → Segment n) (a : ℕ) (s : FixedSizeAllocator n) :
    (s.modify f a).memory a = f (s.memory a) := by simp [modify]

theorem memory_modify_ne (f : Segment n → Segment n) {a b : ℕ} (s : FixedSizeAllocator n) (h : b ≠ a) :
    (s.modify f a).memory b = s.memory b := by simp [modify, h]

@[simp] theorem used_new (alloc : Allocation n) (s : FixedSizeAllocator n) :
    (s.new alloc).used = alloc.address s.used :: s.used := rfl

/-- A new segment is none of those in use, so these are as they were. -/
theorem memory_new_of_mem (alloc : Allocation n) {s : FixedSizeAllocator n} {b : ℕ} (h : b ∈ s.used) :
    (s.new alloc).memory b = s.memory b := by
  have hb : b ≠ alloc.address s.used := by
    rintro rfl
    exact alloc.fresh _ h
  simp [new, hb]

end FixedSizeAllocator

/-! ### The store -/

/-- `entry_allocator_`, `entry_head_`, `entry_tail_`, `tail_count_`, `entry_count_`. -/
structure EntryStore (n : ℕ) where
  allocator : FixedSizeAllocator n
  entryHead : IndexPointer
  entryTail : IndexPointer
  tailCount : ℕ
  entryCount : ℕ

namespace EntryStore

variable {n : ℕ}

/-- The store of a new index. -/
def empty (memory : ℕ → Segment n) : EntryStore n := ⟨⟨[], memory⟩, .null, .null, 0, 0⟩

/-- The link of the segment at an address. -/
def next (s : EntryStore n) (a : ℕ) : IndexPointer := (s.allocator.memory a).next

/-- The first block of `RecordEntry`: a new segment behind the tail. -/
def newSegment (alloc : Allocation n) (s : EntryStore n) : EntryStore n :=
  let ptr := IndexPointer.setMetadata ⟨0, alloc.address s.allocator.used⟩ 1
  let allocator := s.allocator.new alloc
  let allocator :=
    if s.entryTail.hasMetadata then allocator.modify (fun seg => { seg with next := ptr }) s.entryTail.address
    else allocator
  { s with
    allocator := allocator.modify (fun seg => { seg with next := .null, count := 0 }) ptr.address
    entryHead := if s.entryTail.hasMetadata then s.entryHead else ptr
    entryTail := ptr
    tailCount := 0 }

/-- The second block of `RecordEntry`: the pair into the next slot of the tail. -/
def putEntry (s : EntryStore n) (id : RowId) (b : Box n) : EntryStore n :=
  { s with
    allocator := s.allocator.modify
      (fun seg => { seg.writeEntry s.tailCount id b with count := s.tailCount + 1 }) s.entryTail.address
    tailCount := s.tailCount + 1
    entryCount := s.entryCount + 1 }

/-- `RecordEntry`, but for the row id leaving `deleted_`. -/
def recordEntry (alloc : Allocation n) (s : EntryStore n) (id : RowId) (b : Box n) : EntryStore n :=
  if !s.entryTail.hasMetadata || s.tailCount = entriesPerSegment n then (s.newSegment alloc).putEntry id b
  else s.putEntry id b

/-- `TombstoneEntries`. -/
def tombstoneEntries (removed : Finset RowId) (s : EntryStore n) : Except Exception (EntryStore n) :=
  walk IndexPointer.target next
    (fun _ a s => .ok { s with allocator := s.allocator.modify (Segment.tombstoneSegment removed) a })
    .diverges s.allocator.used.length s.entryHead s

/-- The text of the exception on a segment that claims too many entries. -/
def tooManyEntries (kind name : String) (count n : ℕ) : String :=
  kind ++ " index \"" ++ name ++ "\" holds a segment with " ++ toString count ++ " entries, at most " ++
    toString (entriesPerSegment n) ++ " fit"

/-- One turn of the loop of `ReplayEntries`: the segment's entries join those gathered, its count
the total, and it is the tail so far. -/
def replaySegment (kind name : String) (p : IndexPointer) (a : ℕ) (s : EntryStore n × Log n) :
    Except Exception (EntryStore n × Log n) :=
  let seg := s.1.allocator.memory a
  if entriesPerSegment n < seg.count then .error (.serialization (tooManyEntries kind name seg.count n))
  else .ok ({ s.1 with entryCount := s.1.entryCount + seg.count, entryTail := p, tailCount := seg.count },
    s.2 ++ seg.live)

/-- The loop of `ReplayEntries`: the store with its tail and counts recovered, and the entries that
go to the tree. -/
def replayEntries (kind name : String) (s : EntryStore n) : Except Exception (EntryStore n × Log n) :=
  walk IndexPointer.target (fun t a => t.1.next a) (replaySegment kind name) .diverges
    s.allocator.used.length s.entryHead (s, [])

/-! ### Well-formed chains -/

/-- What the segments `segs` say among themselves: they are the chain from `entry_head_`, in use,
and all full but the last. This much survives a restart. -/
structure Chain (s : EntryStore n) (segs : List ℕ) : Prop where
  linked : Linked IndexPointer.target s.next s.entryHead segs
  allocated : ∀ a ∈ segs, a ∈ s.allocator.used
  full : ∀ a ∈ segs.dropLast, (s.allocator.memory a).count = entriesPerSegment n
  bounded : ∀ a ∈ segs.getLast?, (s.allocator.memory a).count ≤ entriesPerSegment n

/-- What is kept of them in memory only: the tail, its count, the total. -/
structure Tracked (s : EntryStore n) (segs : List ℕ) : Prop where
  tail : s.entryTail.target = segs.getLast?
  tailCount : ∀ a ∈ segs.getLast?, (s.allocator.memory a).count = s.tailCount
  entryCount : s.entryCount = (segs.map fun a => (s.allocator.memory a).count).sum

/-- The chain as every operation leaves it: the last segment is not empty either. -/
structure WellFormed (s : EntryStore n)
    (segs : List ℕ) : Prop extends Chain s segs, Tracked s segs where
  nonempty : ∀ a ∈ segs.getLast?, 0 < (s.allocator.memory a).count

/-- The entries of the segments that are not tombstones, in chain order. -/
def live (s : EntryStore n) (segs : List ℕ) : Log n := segs.flatMap fun a => (s.allocator.memory a).live

/-- The store is well formed and holds the pairs of `l`. -/
def Represents (s : EntryStore n) (l : Log n) : Prop := ∃ segs, s.WellFormed segs ∧ s.live segs = l

theorem Chain.nodup {s : EntryStore n} {segs : List ℕ} (h : s.Chain segs) : segs.Nodup := h.linked.nodup

/-- Enough fuel to walk the chain: its segments are distinct, and all in use. -/
theorem Chain.length_le {s : EntryStore n} {segs : List ℕ} (h : s.Chain segs) :
    segs.length ≤ s.allocator.used.length :=
  (List.subperm_of_subset h.nodup h.allocated).length_le

/-- A segment of a chain has no more entries than fit. -/
theorem Chain.count_le {s : EntryStore n} {segs : List ℕ} (h : s.Chain segs) {a : ℕ} (ha : a ∈ segs) :
    (s.allocator.memory a).count ≤ entriesPerSegment n := by
  rcases List.eq_nil_or_concat' segs with rfl | ⟨init, b, rfl⟩
  · simp at ha
  · rcases List.mem_append.mp ha with ha | ha
    · exact (h.full a (by simpa using ha)).le
    · exact h.bounded a (by simpa using List.mem_singleton.mp ha ▸ rfl)

/-- The store of a new index is well formed and holds nothing. -/
theorem empty_represents (memory : ℕ → Segment n) : (empty memory).Represents [] := by
  refine ⟨[], ⟨⟨rfl, ?_, ?_, ?_⟩, ⟨rfl, ?_, rfl⟩, ?_⟩, rfl⟩ <;> simp

/-! ### Recording an entry -/

section Record

variable {alloc : Allocation n} {s : EntryStore n} {segs : List ℕ}

/-- A segment in use keeps its count and entries when one is added behind the tail; only the link
of the tail changes. -/
theorem memory_newSegment {a : ℕ} (ha : a ∈ s.allocator.used) :
    (s.newSegment alloc).allocator.memory a =
      if s.entryTail.target = some a then
        { s.allocator.memory a with next := ⟨1, alloc.address s.allocator.used⟩ }
      else s.allocator.memory a := by
  have hne : a ≠ alloc.address s.allocator.used := by
    rintro rfl
    exact alloc.fresh _ ha
  dsimp only [newSegment, IndexPointer.setMetadata]
  rw [FixedSizeAllocator.memory_modify_ne _ _ hne]
  by_cases ht : s.entryTail.hasMetadata = true
  · rw [if_pos ht]
    have htarget : s.entryTail.target = some s.entryTail.address := by simp [IndexPointer.target, ht]
    rw [htarget]
    by_cases hat : a = s.entryTail.address
    · subst hat
      rw [if_pos rfl, FixedSizeAllocator.memory_modify_same, FixedSizeAllocator.memory_new_of_mem _ ha]
    · rw [FixedSizeAllocator.memory_modify_ne _ _ hat, FixedSizeAllocator.memory_new_of_mem _ ha]
      simp [Ne.symm hat]
  · rw [if_neg ht, FixedSizeAllocator.memory_new_of_mem _ ha]
    simp [IndexPointer.target, ht]

theorem count_newSegment {a : ℕ} (ha : a ∈ s.allocator.used) :
    ((s.newSegment alloc).allocator.memory a).count = (s.allocator.memory a).count := by
  rw [memory_newSegment ha]
  split <;> rfl

theorem live_newSegment {a : ℕ} (ha : a ∈ s.allocator.used) :
    ((s.newSegment alloc).allocator.memory a).live = (s.allocator.memory a).live := by
  rw [memory_newSegment ha]
  split
  · exact Segment.live_congr rfl fun _ _ => rfl
  · rfl

theorem newSegment_header (alloc : Allocation n) (s : EntryStore n) :
    ((s.newSegment alloc).allocator.memory (alloc.address s.allocator.used)).next = .null ∧
      ((s.newSegment alloc).allocator.memory (alloc.address s.allocator.used)).count = 0 := by
  dsimp only [newSegment, IndexPointer.setMetadata]
  exact ⟨congrArg Segment.next (FixedSizeAllocator.memory_modify_same ..),
    congrArg Segment.count (FixedSizeAllocator.memory_modify_same ..)⟩

theorem Tracked.tail_used (hc : s.Chain segs) (ht : s.Tracked segs) (a : ℕ)
    (ha : s.entryTail.target = some a) :
    a ∈ s.allocator.used := by
  rw [ht.tail] at ha
  exact hc.allocated a (List.mem_of_getLast? ha)

/-- A segment behind a full tail, or the first one, extends the chain and changes no entry. -/
theorem newSegment_chain (alloc : Allocation n) (hc : s.Chain segs) (ht : s.Tracked segs)
    (hfull : segs ≠ [] → s.tailCount = entriesPerSegment n) :
    (s.newSegment alloc).Chain (segs ++ [alloc.address s.allocator.used]) ∧
      (s.newSegment alloc).Tracked (segs ++ [alloc.address s.allocator.used]) ∧
      (s.newSegment alloc).live (segs ++ [alloc.address s.allocator.used]) = s.live segs := by
  obtain ⟨hnext, hcount⟩ := newSegment_header alloc s
  set b := alloc.address s.allocator.used with hb
  have hcnt : ∀ a ∈ segs, ((s.newSegment alloc).allocator.memory a).count = (s.allocator.memory a).count :=
    fun a ha => count_newSegment (hc.allocated a ha)
  refine ⟨⟨?_, ?_, ?_, ?_⟩, ⟨?_, ?_, ?_⟩, ?_⟩
  · -- the links: the old tail, if any, now points to the new segment
    rcases List.eq_nil_or_concat' segs with rfl | ⟨init, a, rfl⟩
    · have hm : s.entryTail.hasMetadata = false := IndexPointer.target_eq_none.mp ht.tail
      refine ⟨?_, ?_⟩
      · show IndexPointer.target (if s.entryTail.hasMetadata = true then _ else _) = _
        simp [hm, hb]
      · show IndexPointer.target (Segment.next _) = none
        rw [hnext]
        rfl
    · have hta : s.entryTail.target = some a := by rw [ht.tail]; simp
      have hmeta : s.entryTail.hasMetadata = true := (IndexPointer.target_eq_some hta).1
      have hhead : (s.newSegment alloc).entryHead = s.entryHead := by simp [newSegment, hmeta]
      have hl := hc.linked
      rw [← hhead] at hl
      refine hl.snoc (fun c hcm => ?_) ?_ ?_
      · have hca : c ≠ a := by
          rintro rfl
          exact (List.nodup_append.mp hc.nodup).2.2 c hcm c (List.mem_singleton_self c) rfl
        have hcu := hc.allocated c (List.mem_append_left _ hcm)
        show Segment.next _ = Segment.next _
        rw [memory_newSegment hcu, hta, if_neg (by simpa using Ne.symm hca)]
      · show IndexPointer.target (Segment.next _) = _
        rw [memory_newSegment (ht.tail_used hc a hta), if_pos hta]
        rfl
      · show IndexPointer.target (Segment.next _) = none
        rw [hnext]
        rfl
  · intro a ha
    dsimp only [newSegment, FixedSizeAllocator.used_modify]
    rcases List.mem_append.mp ha with ha | ha
    · have := hc.allocated a ha
      by_cases hm : s.entryTail.hasMetadata = true <;> simp [hm, this]
    · rw [List.mem_singleton] at ha
      by_cases hm : s.entryTail.hasMetadata = true <;> simp [hm, ha, hb]
  · intro a ha
    rw [List.dropLast_concat] at ha
    rw [hcnt a ha]
    rcases List.eq_nil_or_concat' segs with rfl | ⟨init, c, rfl⟩
    · simp at ha
    · rcases List.mem_append.mp ha with ha | ha
      · exact hc.full a (by simpa using ha)
      · rw [List.mem_singleton] at ha
        rw [ht.tailCount a (by simp [ha]), hfull (by simp)]
  · intro a ha
    rw [List.getLast?_concat, Option.mem_def, Option.some.injEq] at ha
    rw [← ha, hcount]
    exact Nat.zero_le _
  · rw [List.getLast?_concat]
    rfl
  · intro a ha
    rw [List.getLast?_concat, Option.mem_def, Option.some.injEq] at ha
    rw [← ha, hcount]
    rfl
  · show s.entryCount = _
    rw [List.map_append, List.sum_append, List.map_congr_left hcnt, ht.entryCount]
    simp [hcount]
  · unfold live
    rw [List.flatMap_append, List.flatMap_congr fun a ha => live_newSegment (hc.allocated a ha)]
    simp [Segment.live_eq_nil hcount]

/-- A pair put into the last segment, where one fits, ends the entries of a well-formed chain. -/
theorem putEntry_wellFormed {init : List ℕ} {a : ℕ} (hc : s.Chain (init ++ [a]))
    (ht : s.Tracked (init ++ [a]))
    (hlt : s.tailCount < entriesPerSegment n) {id : RowId} (hid : id ≠ tombstoneRowId) (b : Box n) :
    (s.putEntry id b).WellFormed (init ++ [a]) ∧
      (s.putEntry id b).live (init ++ [a]) = (s.live (init ++ [a])).record id b := by
  have hta : s.entryTail.target = some a := by rw [ht.tail]; simp
  have haddr : s.entryTail.address = a := (IndexPointer.target_eq_some hta).2
  have hcount : (s.allocator.memory a).count = s.tailCount := ht.tailCount a (by simp)
  have hne : ∀ c ∈ init, c ≠ a := by
    rintro c hc' rfl
    exact (List.nodup_append.mp hc.nodup).2.2 c hc' c (List.mem_singleton_self c) rfl
  have hother : ∀ c ∈ init, (s.putEntry id b).allocator.memory c = s.allocator.memory c := by
    intro c hci
    dsimp only [putEntry]
    rw [haddr, FixedSizeAllocator.memory_modify_ne _ _ (hne c hci)]
  have hlast : (s.putEntry id b).allocator.memory a =
      { (s.allocator.memory a).writeEntry s.tailCount id b with count := s.tailCount + 1 } := by
    dsimp only [putEntry]
    rw [haddr, FixedSizeAllocator.memory_modify_same]
  have hlive : ((s.putEntry id b).allocator.memory a).live = (s.allocator.memory a).live ++ [(id, b)] := by
    rw [hlast, Segment.live_snoc (s := s.allocator.memory a) (by rw [hcount])]
    · rw [hcount]
      show _ ++ [((s.allocator.memory a).writeEntry s.tailCount id b).entry s.tailCount].filter _ = _
      rw [Segment.entry_writeEntry_same _ _ _ hlt, List.filter_singleton]
      simp [hid]
    · intro i hi
      show ((s.allocator.memory a).writeEntry s.tailCount id b).entry i = _
      exact Segment.entry_writeEntry_ne _ _ _ (by omega)
  refine ⟨⟨⟨?_, ?_, ?_, ?_⟩, ⟨?_, ?_, ?_⟩, ?_⟩, ?_⟩
  · apply hc.linked.congr
    intro c hcm
    rcases List.mem_append.mp hcm with hcm | hcm
    · exact congrArg Segment.next (hother c hcm)
    · show Segment.next _ = Segment.next _
      rw [List.mem_singleton.mp hcm, hlast]
      rfl
  · exact hc.allocated
  · intro c hcm
    rw [List.dropLast_concat] at hcm
    rw [hother c hcm]
    exact hc.full c (by simpa using hcm)
  · intro c hcm
    rw [List.getLast?_concat, Option.mem_def, Option.some.injEq] at hcm
    rw [← hcm, hlast]
    exact hlt
  · exact ht.tail
  · intro c hcm
    rw [List.getLast?_concat, Option.mem_def, Option.some.injEq] at hcm
    rw [← hcm, hlast]
    rfl
  · show s.entryCount + 1 = _
    rw [ht.entryCount, List.map_append, List.map_append, List.sum_append, List.sum_append,
      List.map_congr_left fun c hci => congrArg Segment.count (hother c hci)]
    simp only [List.map_cons, List.map_nil, List.sum_cons, List.sum_nil, hlast, hcount]
    omega
  · intro c hcm
    rw [List.getLast?_concat, Option.mem_def, Option.some.injEq] at hcm
    rw [← hcm, hlast]
    exact Nat.succ_pos _
  · unfold live Log.record
    rw [List.flatMap_append, List.flatMap_append, List.flatMap_congr fun c hci =>
      congrArg Segment.live (hother c hci)]
    simp [hlive]

/-- **Recording appends.** Whether the pair goes into the tail or into a new segment, the chain is
well formed after it and holds the pair behind the others. -/
theorem recordEntry_represents {l : Log n} (h : s.Represents l) {id : RowId} (hid : id ≠ tombstoneRowId)
    (b : Box n) : (s.recordEntry alloc id b).Represents (l.record id b) := by
  obtain ⟨segs, hw, rfl⟩ := h
  unfold recordEntry
  by_cases hnew : (!s.entryTail.hasMetadata || s.tailCount = entriesPerSegment n) = true
  · rw [if_pos hnew]
    have hfull : segs ≠ [] → s.tailCount = entriesPerSegment n := by
      intro hne
      have ha := List.getLast?_eq_some_getLast hne
      have hm : s.entryTail.hasMetadata = true := (IndexPointer.target_eq_some (hw.tail.trans ha)).1
      simpa [hm] using hnew
    obtain ⟨hc, ht, hl⟩ := newSegment_chain alloc hw.toChain hw.toTracked hfull
    rw [← hl]
    obtain ⟨hw', hl'⟩ := putEntry_wellFormed hc ht (entriesPerSegment_pos n) hid b
    exact ⟨_, hw', hl'⟩
  · rw [if_neg hnew]
    simp only [Bool.or_eq_true, Bool.not_eq_true', decide_eq_true_eq, not_or, Bool.not_eq_false] at hnew
    rcases List.eq_nil_or_concat' segs with rfl | ⟨init, a, rfl⟩
    · have := IndexPointer.target_eq_none.mp hw.tail
      simp [hnew.1] at this
    · have hle : s.tailCount ≤ entriesPerSegment n := by
        rw [← hw.tailCount a (by simp)]
        exact hw.bounded a (by simp)
      obtain ⟨hw', hl'⟩ := putEntry_wellFormed hw.toChain hw.toTracked (by omega) hid b
      exact ⟨_, hw', hl'⟩

end Record

/-! ### Tombstones -/

section Tombstones

variable {s : EntryStore n} {segs : List ℕ} (removed : Finset RowId)

/-- The store after the loop has treated the segments `done`. -/
def tombstoned (s : EntryStore n) (done : List ℕ) : EntryStore n :=
  { s with allocator := { s.allocator with
      memory := fun a =>
        if a ∈ done then (s.allocator.memory a).tombstoneSegment removed else s.allocator.memory a } }

/-- The loop ends, and has treated every segment of the chain once. -/
theorem tombstoneEntries_eq (h : s.Chain segs) :
    s.tombstoneEntries removed = .ok (s.tombstoned removed segs) := by
  suffices hrun : ∃ t, s.tombstoneEntries removed = .ok t ∧ t = s.tombstoned removed ([] ++ segs) by
    obtain ⟨t, ht, rfl⟩ := hrun
    exact ht
  unfold tombstoneEntries
  refine walk_spec Exception.diverges (fun done t => t = s.tombstoned removed done) segs []
    s.allocator.used.length s.entryHead s h.linked h.length_le ?_ ?_
  · simp [tombstoned]
  · rintro d - a r - heq - rfl
    rw [List.nil_append] at heq
    have hnd := h.nodup
    have hda : a ∉ d := by
      rw [heq, List.nodup_append] at hnd
      exact fun had => hnd.2.2 a had a List.mem_cons_self rfl
    have has : a ∈ segs := heq ▸ List.mem_append_right _ List.mem_cons_self
    refine ⟨_, rfl, ?_, ?_⟩
    · funext c
      show Segment.next (if c = a then _ else _) = Segment.next _
      by_cases hca : c = a
      · subst hca
        rw [if_pos rfl, Segment.next_tombstoneSegment]
        simp only [tombstoned, hda, if_false]
        exact h.count_le has
      · rw [if_neg hca]
    · unfold tombstoned FixedSizeAllocator.modify
      congr 2
      funext c
      by_cases hca : c = a
      · subst hca
        simp [hda]
      · simp [hca]

/-- **Deleting removes.** The chain keeps its segments and counts, and its entries are those whose
row id was not removed. -/
theorem tombstoneEntries_represents {l : Log n} (h : s.Represents l) :
    ∃ s', s.tombstoneEntries removed = .ok s' ∧ s'.Represents (l.remove removed) := by
  obtain ⟨segs, hw, rfl⟩ := h
  refine ⟨_, tombstoneEntries_eq removed hw.toChain, segs, ?_, ?_⟩
  · have hcount : ∀ a ∈ segs,
        ((s.tombstoned removed segs).allocator.memory a).count = (s.allocator.memory a).count := by
      intro a ha
      simp only [tombstoned, ha, if_true]
      exact Segment.count_tombstoneSegment removed (hw.count_le ha)
    have hlast : ∀ a ∈ segs.getLast?, a ∈ segs := fun a ha => List.mem_of_getLast? ha
    refine ⟨⟨?_, hw.allocated, ?_, ?_⟩, ⟨hw.tail, ?_, ?_⟩, ?_⟩
    · apply hw.linked.congr
      intro a ha
      show Segment.next _ = Segment.next _
      simp only [tombstoned, ha, if_true]
      exact Segment.next_tombstoneSegment removed (hw.count_le ha)
    · intro a ha
      rw [hcount a (List.mem_of_mem_dropLast ha)]
      exact hw.full a ha
    · intro a ha
      rw [hcount a (hlast a ha)]
      exact hw.bounded a ha
    · intro a ha
      rw [hcount a (hlast a ha)]
      exact hw.tailCount a ha
    · rw [List.map_congr_left hcount]
      exact hw.entryCount
    · intro a ha
      rw [hcount a (hlast a ha)]
      exact hw.nonempty a ha
  · unfold live Log.remove
    rw [List.filter_flatMap]
    apply List.flatMap_congr
    intro a ha
    simp only [tombstoned, ha, if_true]
    exact Segment.live_tombstoneSegment removed (hw.count_le ha)

end Tombstones

/-! ### Replay -/

section Replay

variable {s : EntryStore n} {segs : List ℕ} (kind name : String)

/-- One turn of the loop passes the check and carries the cursor on to the segment it reads. -/
theorem replaySegment_step (hc : s.Chain segs) {t : EntryStore n} {d : List ℕ} {p : IndexPointer}
    {a : ℕ}
    (ha : a ∈ segs) (hp : p.target = some a) (hm : t.allocator = s.allocator) (ht : t.Tracked d) :
    ∃ t', replaySegment kind name p a (t, s.live d) = .ok (t', s.live (d ++ [a])) ∧
      t'.allocator = s.allocator ∧ t'.entryHead = t.entryHead ∧ t'.Tracked (d ++ [a]) := by
  have hle : ¬ entriesPerSegment n < (t.allocator.memory a).count := by
    rw [hm]
    exact Nat.not_lt.mpr (hc.count_le ha)
  have hlive : s.live d ++ (t.allocator.memory a).live = s.live (d ++ [a]) := by
    simp [live, hm]
  refine ⟨{ t with
    entryTail := p
    tailCount := (t.allocator.memory a).count
    entryCount := t.entryCount + (t.allocator.memory a).count }, ?_, hm, rfl, ⟨?_, ?_, ?_⟩⟩
  · rw [replaySegment, if_neg hle, hlive]
  · rw [List.getLast?_concat]
    exact hp
  · intro c hcm
    rw [List.getLast?_concat, Option.mem_def, Option.some.injEq] at hcm
    rw [← hcm]
  · show t.entryCount + _ = _
    rw [ht.entryCount, List.map_append, List.sum_append]
    simp

/-- **Reading back.** From what a restart leaves (the segments, and a head that leads through
them) the loop recovers the tail and the counts, and hands out the entries in recording order. -/
theorem replayEntries_represents (hc : s.Chain segs) (ht : s.Tracked [])
    (hn : ∀ a ∈ segs.getLast?, 0 < (s.allocator.memory a).count) :
    ∃ s', s.replayEntries kind name = .ok (s', s.live segs) ∧ s'.Represents (s.live segs) := by
  have hrun : ∃ t, s.replayEntries kind name = .ok t ∧ t.1.allocator = s.allocator ∧
      t.1.entryHead = s.entryHead ∧ t.1.Tracked ([] ++ segs) ∧ t.2 = s.live ([] ++ segs) := by
    unfold replayEntries
    refine walk_spec Exception.diverges (fun done (t : EntryStore n × Log n) =>
      t.1.allocator = s.allocator ∧ t.1.entryHead = s.entryHead ∧ t.1.Tracked done ∧ t.2 = s.live done)
      segs [] s.allocator.used.length s.entryHead (s, []) hc.linked hc.length_le ⟨rfl, rfl, ht, rfl⟩ ?_
    rintro d q a r ⟨t, got⟩ heq hq ⟨hm, hh, ht', hg⟩
    rw [List.nil_append] at heq
    simp only at hm hh ht' hg
    subst hg
    have ha : a ∈ segs := heq ▸ List.mem_append_right _ List.mem_cons_self
    obtain ⟨t', hv, hm', hh', htr⟩ := replaySegment_step kind name hc ha hq hm ht'
    refine ⟨_, hv, ?_, hm', hh'.trans hh, htr, rfl⟩
    funext c
    show Segment.next _ = Segment.next _
    rw [hm', hm]
  obtain ⟨⟨s', got⟩, hs', hm, hh, ht', hg⟩ := hrun
  rw [List.nil_append] at ht' hg
  simp only at hm hh ht' hg
  subst hg
  have hnext : s'.next = s.next := by
    funext a
    show Segment.next _ = Segment.next _
    rw [hm]
  refine ⟨s', hs', segs, ⟨⟨?_, ?_, ?_, ?_⟩, ht', ?_⟩, ?_⟩
  · rw [hnext, hh]
    exact hc.linked
  · rw [hm]
    exact hc.allocated
  · rw [hm]
    exact hc.full
  · rw [hm]
    exact hc.bounded
  · rw [hm]
    exact hn
  · unfold live
    rw [hm]

end Replay

end EntryStore

end MobilityDuck
