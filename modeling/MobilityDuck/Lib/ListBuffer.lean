/-
# The buffer of a column of lists

The child of a column of lists stands in a buffer. Room for more elements than the
buffer holds is made in a buffer of its own, to which the elements move, and the one
before is released (`reserve`). A pointer into a buffer is as good as the buffer: a
write through one that was taken before the child moved is lost (`writeAt_stale`).

Key definitions: `ListBuffer`, `ListBuffer.reserve`, `ListBuffer.writeAt`. Key theorems: `writeAt_of_lt`,
`writeAt_stale`.
-/
import MobilityDuck.Lib.ListVector
import Mathlib.Data.Nat.Init

namespace Lib

/-- A write to a buffer that was released, or outside of it. -/
inductive BadWrite
  | released
  | outside
  deriving DecidableEq, Repr

/-- The buffers are numbered as they are made. -/
structure ListBuffer (W : Type*) where
  column : ListVector W
  buffer : ℕ
  capacity : ℕ

namespace ListBuffer

variable {W : Type*}

def reserve (b : ListBuffer W) (n : ℕ) : ListBuffer W :=
  if n ≤ b.capacity then b else { b with buffer := b.buffer + 1, capacity := n.nextPowerOfTwo }

def writeAt (b : ListBuffer W) (pointer k : ℕ) (x : W) : Except BadWrite (ListBuffer W) :=
  if pointer ≠ b.buffer then .error .released
  else if b.capacity ≤ k then .error .outside
  else .ok { b with column := b.column.write k (some x) }

variable {b : ListBuffer W}

theorem reserve_of_le {n : ℕ} (h : n ≤ b.capacity) : b.reserve n = b := if_pos h

theorem buffer_reserve_of_lt {n : ℕ} (h : b.capacity < n) : (b.reserve n).buffer = b.buffer + 1 := by
  rw [reserve, if_neg (Nat.not_le.mpr h)]

@[simp] theorem column_reserve (n : ℕ) : (b.reserve n).column = b.column := by
  unfold reserve
  by_cases h : n ≤ b.capacity
  · rw [if_pos h]
  · rw [if_neg h]

theorem writeAt_of_lt {k : ℕ} (h : k < b.capacity) (x : W) :
    b.writeAt b.buffer k x = .ok { b with column := b.column.write k (some x) } := by
  rw [writeAt, if_neg (not_not.mpr rfl), if_neg (Nat.not_le.mpr h)]

theorem writeAt_stale {pointer : ℕ} (h : pointer ≠ b.buffer) (k : ℕ) (x : W) :
    b.writeAt pointer k x = .error .released := if_pos h

end ListBuffer
end Lib
