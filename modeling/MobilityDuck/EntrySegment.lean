/-
# One segment of the entry chain

The index persists what it fed to the tree, one entry per box: a row id and
then the raw bytes of the box. A segment starts with the pointer to the next
one and the number of its entries, and holds `entriesPerSegment n` slots for
boxes of `n` bytes. The two header words are typed here; the slots behind
them are bytes, read and written at the offsets of the source.

`entry_writeEntry_same`, `entry_writeEntry_ne` and `entry_tombstone` say what the two writes leave in
every slot, and `live_tombstoneSegment` what a segment still holds after
deletions.

Key definitions: `entriesPerSegment`, `Segment`, `Segment.writeEntry`,
`Segment.tombstoneSegment`, `Segment.live`.
-/
import MobilityDuck.Lib.Buffer
import Mathlib.Data.Finset.Basic

namespace MobilityDuck

open Lib

/-- `row_t`. -/
abbrev RowId := Int64

/-- Marks a persisted entry as deleted. Real row ids are never negative. -/
def tombstoneRowId : RowId := -1

theorem ne_tombstoneRowId {id : RowId} (h : 0 ≤ id) : id ≠ tombstoneRowId := by
  rintro rfl
  exact absurd h (by decide)

/-- The bytes of a bounding box of `n` bytes. -/
def Box (n : ℕ) := {bytes : List UInt8 // bytes.length = n}
  deriving DecidableEq

/-- `memcpy` of `n` bytes out of a longer buffer. -/
def Box.copy (n : ℕ) (src : List UInt8) : Box n := ⟨(List.range n).map fun i => src.getD i 0, by simp⟩

/-- A box is the copy of its bytes. -/
theorem Box.copy_val {n : ℕ} (b : Box n) : Box.copy n b.val = b := by
  refine Subtype.ext (List.ext_getElem (by simp [Box.copy, b.property]) fun i hi hi' => ?_)
  simp [Box.copy, List.getElem?_eq_getElem hi']

/-! ### Sizes -/

def entrySegmentHeaderSize : ℕ := 16

/-- The size aimed for when packing entries into a segment. -/
def entrySegmentTargetSize : ℕ := 4096

def entrySize (n : ℕ) : ℕ := 8 + n

def entriesPerSegment (n : ℕ) : ℕ :=
  max 1 ((entrySegmentTargetSize - entrySegmentHeaderSize) / entrySize n)

def segmentSize (n : ℕ) : ℕ := entrySegmentHeaderSize + entriesPerSegment n * entrySize n

theorem entriesPerSegment_pos (n : ℕ) : 0 < entriesPerSegment n :=
  Nat.lt_of_lt_of_le one_pos (le_max_left _ _)

/-- A segment keeps to the target size, unless a single entry is larger than it. -/
theorem segmentSize_le (n : ℕ) :
    segmentSize n ≤ max entrySegmentTargetSize (entrySegmentHeaderSize + entrySize n) := by
  unfold segmentSize entriesPerSegment
  rcases Nat.le_total ((entrySegmentTargetSize - entrySegmentHeaderSize) / entrySize n) 1 with h | h
  · rw [max_eq_left h, one_mul]
    exact le_max_right _ _
  · rw [max_eq_right h]
    have := Nat.div_mul_le_self (entrySegmentTargetSize - entrySegmentHeaderSize) (entrySize n)
    refine le_trans ?_ (le_max_left _ _)
    unfold entrySegmentTargetSize entrySegmentHeaderSize at *
    omega

/-! ### Pointers -/

/-- `IndexPointer`: the metadata byte tells a segment pointer from the zeroed one that ends the
chain. -/
structure IndexPointer where
  metadata : ℕ
  address : ℕ
  deriving DecidableEq, Repr

namespace IndexPointer

def null : IndexPointer := ⟨0, 0⟩

def hasMetadata (p : IndexPointer) : Bool := p.metadata != 0

def setMetadata (p : IndexPointer) (metadata : ℕ) : IndexPointer := { p with metadata := metadata }

/-- The segment a pointer leads to, if any. -/
def target (p : IndexPointer) : Option ℕ := if p.hasMetadata then some p.address else none

@[simp] theorem target_null : null.target = none := rfl

@[simp] theorem target_setMetadata_one (p : IndexPointer) :
    (p.setMetadata 1).target = some p.address := rfl

theorem target_eq_some {p : IndexPointer} {a : ℕ} (h : p.target = some a) :
    p.hasMetadata = true ∧ p.address = a := by
  unfold target at h
  split at h
  · exact ⟨‹_›, Option.some.inj h⟩
  · simp at h

theorem target_eq_none {p : IndexPointer} : p.target = none ↔ p.hasMetadata = false := by
  unfold target
  split <;> simp_all

end IndexPointer

/-! ### Segments -/

/-- A segment for boxes of `n` bytes. -/
structure Segment (n : ℕ) where
  next : IndexPointer
  count : ℕ
  slots : Buffer (entriesPerSegment n * entrySize n)

namespace Segment

variable {n : ℕ}

/-- The row id in slot `i`. -/
def rowId (s : Segment n) (i : ℕ) : RowId := decodeInt64 (s.slots.read (i * entrySize n) 8)

/-- The box in slot `i`. -/
def box (s : Segment n) (i : ℕ) : Box n := ⟨s.slots.read (i * entrySize n + 8) n, Buffer.length_read ..⟩

/-- Slot `i`. -/
def entry (s : Segment n) (i : ℕ) : RowId × Box n := (s.rowId i, s.box i)

/-- The two copies that fill slot `i`. -/
def writeEntry (s : Segment n) (i : ℕ) (id : RowId) (b : Box n) : Segment n :=
  { s with slots := (s.slots.write (i * entrySize n) (encodeInt64 id)).write (i * entrySize n + 8) b.1 }

/-- The row id in slot `i` overwritten by the tombstone. -/
def tombstone (s : Segment n) (i : ℕ) : Segment n :=
  { s with slots := s.slots.write (i * entrySize n) (encodeInt64 tombstoneRowId) }

/-- Distinct slots do not overlap, and a slot lies inside the segment. -/
theorem slot_disjoint {i j : ℕ} (h : i ≠ j) :
    i * entrySize n + entrySize n ≤ j * entrySize n ∨ j * entrySize n + entrySize n ≤ i * entrySize n := by
  rcases Nat.lt_or_gt_of_ne h with h | h
  · left
    calc i * entrySize n + entrySize n = (i + 1) * entrySize n := by ring
      _ ≤ j * entrySize n := Nat.mul_le_mul_right _ h
  · right
    calc j * entrySize n + entrySize n = (j + 1) * entrySize n := by ring
      _ ≤ i * entrySize n := Nat.mul_le_mul_right _ h

theorem slot_le {i : ℕ} (h : i < entriesPerSegment n) :
    i * entrySize n + entrySize n ≤ entriesPerSegment n * entrySize n := by
  calc i * entrySize n + entrySize n = (i + 1) * entrySize n := by ring
    _ ≤ entriesPerSegment n * entrySize n := Nat.mul_le_mul_right _ h

theorem rowId_of_slots {s s' : Segment n} {i : ℕ}
    (h : s.slots.read (i * entrySize n) 8 = s'.slots.read (i * entrySize n) 8) :
    s.rowId i = s'.rowId i := by
  unfold rowId
  rw [h]

theorem entry_writeEntry_same (s : Segment n) {i : ℕ} (id : RowId) (b : Box n)
    (h : i < entriesPerSegment n) :
    (s.writeEntry i id b).entry i = (id, b) := by
  have hl := slot_le h
  have he : entrySize n = 8 + n := rfl
  have hb : b.1.length = n := b.2
  refine Prod.ext ?_ (Subtype.ext ?_)
  · show decodeInt64 (Buffer.read _ _ _) = id
    rw [writeEntry, Buffer.read_write_disjoint _ (Or.inl (by omega)), ← length_encodeInt64 id,
      Buffer.read_write_same _ (by rw [length_encodeInt64]; omega), decode_encodeInt64]
  · show Buffer.read _ _ _ = b.1
    conv_lhs => arg 3; rw [← hb]
    exact Buffer.read_write_same _ (by omega)

theorem entry_writeEntry_ne (s : Segment n) {i j : ℕ} (id : RowId) (b : Box n) (h : i ≠ j) :
    (s.writeEntry i id b).entry j = s.entry j := by
  have hd := slot_disjoint (n := n) h
  have he : entrySize n = 8 + n := rfl
  have hb : b.1.length = n := b.2
  have hi : (encodeInt64 id).length = 8 := length_encodeInt64 id
  refine Prod.ext ?_ (Subtype.ext ?_)
  · apply rowId_of_slots
    rw [writeEntry, Buffer.read_write_disjoint _ (by omega), Buffer.read_write_disjoint _ (by omega)]
  · show Buffer.read _ _ _ = Buffer.read _ _ _
    rw [writeEntry, Buffer.read_write_disjoint _ (by omega), Buffer.read_write_disjoint _ (by omega)]

/-- Tombstoning a slot changes its row id, and nothing else in the segment. -/
theorem entry_tombstone (s : Segment n) {i : ℕ} (j : ℕ) (h : i < entriesPerSegment n) :
    (s.tombstone i).entry j = (if i = j then tombstoneRowId else s.rowId j, s.box j) := by
  have hl := slot_le h
  have he : entrySize n = 8 + n := rfl
  have hi : (encodeInt64 tombstoneRowId).length = 8 := length_encodeInt64 _
  refine Prod.ext ?_ (Subtype.ext ?_)
  · show decodeInt64 (Buffer.read _ _ _) = _
    split
    · rename_i hij
      subst hij
      rw [tombstone, ← hi, Buffer.read_write_same _ (by omega), decode_encodeInt64]
    · rename_i hij
      have hd := slot_disjoint (n := n) hij
      rw [tombstone, Buffer.read_write_disjoint _ (by omega)]
      rfl
  · show Buffer.read _ _ _ = Buffer.read _ _ _
    rcases eq_or_ne i j with rfl | hij
    · rw [tombstone, Buffer.read_write_disjoint _ (by omega)]
    · have hd := slot_disjoint (n := n) hij
      rw [tombstone, Buffer.read_write_disjoint _ (by omega)]

/-- The entries of a segment that are not tombstones, in slot order. -/
def live (s : Segment n) : List (RowId × Box n) :=
  ((List.range s.count).map s.entry).filter (·.1 ≠ tombstoneRowId)

/-- Slots beyond the count are not read. -/
theorem live_congr {s s' : Segment n} (hc : s.count = s'.count)
    (h : ∀ i < s.count, s.entry i = s'.entry i) :
    s.live = s'.live := by
  unfold live
  rw [← hc, List.map_congr_left fun i hi => h i (List.mem_range.mp hi)]

theorem live_eq_nil {s : Segment n} (h : s.count = 0) : s.live = [] := by
  simp [live, h]

/-- The slot behind the last counted one, filled and counted, adds its entry at the end. -/
theorem live_snoc {s s' : Segment n} (hc : s'.count = s.count + 1)
    (h : ∀ i < s.count, s'.entry i = s.entry i) :
    s'.live = s.live ++ [s'.entry s.count].filter (·.1 ≠ tombstoneRowId) := by
  unfold live
  rw [hc, List.range_succ, List.map_append, List.filter_append,
    List.map_congr_left fun i hi => h i (List.mem_range.mp hi)]
  rfl

/-- The inner loop of `TombstoneEntries` over one segment. -/
def tombstoneSegment (removed : Finset RowId) (s : Segment n) : Segment n :=
  (List.range s.count).foldl (fun t i => if t.rowId i ∈ removed then t.tombstone i else t) s

/-- After `k` turns of that loop the slots before `k` are treated and the others are as before. -/
theorem tombstone_loop (removed : Finset RowId) (s : Segment n) : ∀ k ≤ entriesPerSegment n,
    let t := (List.range k).foldl (fun t i => if t.rowId i ∈ removed then t.tombstone i else t) s
    t.next = s.next ∧ t.count = s.count ∧ ∀ j, t.entry j =
      (if j < k ∧ s.rowId j ∈ removed then tombstoneRowId else s.rowId j, s.box j)
  | 0, _ => by simp [entry]
  | k + 1, hk => by
    obtain ⟨hn, hc, he⟩ := tombstone_loop removed s k (by omega)
    simp only [List.range_succ, List.foldl_append, List.foldl_cons, List.foldl_nil]
    set t := (List.range k).foldl (fun t i => if t.rowId i ∈ removed then t.tombstone i else t) s
    have hkk : t.rowId k = s.rowId k := by
      have := congrArg Prod.fst (he k)
      simpa [entry] using this
    split
    · rename_i hr
      refine ⟨hn, hc, fun j => ?_⟩
      have hj := he j
      rw [entry_tombstone t j (by omega)]
      rw [entry, Prod.mk.injEq] at hj
      rw [hj.1, hj.2]
      rcases eq_or_ne k j with rfl | hkj
      · simp [← hkk, hr]
      · simp [hkj, show j < k + 1 ↔ j < k by omega]
    · rename_i hr
      refine ⟨hn, hc, fun j => ?_⟩
      rw [he j]
      rcases eq_or_ne k j with rfl | hkj
      · simp [← hkk, hr]
      · simp [show j < k + 1 ↔ j < k by omega]

theorem next_tombstoneSegment (removed : Finset RowId) {s : Segment n}
    (h : s.count ≤ entriesPerSegment n) :
    (s.tombstoneSegment removed).next = s.next := (tombstone_loop removed s s.count h).1

theorem count_tombstoneSegment (removed : Finset RowId) {s : Segment n}
    (h : s.count ≤ entriesPerSegment n) :
    (s.tombstoneSegment removed).count = s.count := (tombstone_loop removed s s.count h).2.1

/-- A segment keeps exactly the entries whose row id was not removed. -/
theorem live_tombstoneSegment (removed : Finset RowId) {s : Segment n}
    (h : s.count ≤ entriesPerSegment n) :
    (s.tombstoneSegment removed).live = s.live.filter (·.1 ∉ removed) := by
  obtain ⟨-, hc, he⟩ := tombstone_loop removed s s.count h
  unfold live tombstoneSegment
  rw [hc, List.filter_filter, List.filter_map, List.filter_map,
    List.filter_congr (q := fun i => decide (s.rowId i ∉ removed) && decide (s.rowId i ≠ tombstoneRowId))]
  · apply List.map_congr_left
    intro i hi
    obtain ⟨hi, hp⟩ := List.mem_filter.mp hi
    rw [he i]
    simp only [Bool.and_eq_true, decide_eq_true_eq] at hp
    simp [hp.1, entry]
  · intro i hi
    have hi := List.mem_range.mp hi
    simp only [Function.comp_apply, he i, hi, true_and]
    by_cases hr : s.rowId i ∈ removed <;> simp [hr]

end Segment

end MobilityDuck
