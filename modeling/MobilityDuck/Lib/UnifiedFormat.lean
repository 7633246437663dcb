/-
# Columns under any encoding

A column is read through a selection that says where each row stands: rows of a flat
column stand in their own places, those of a constant column all in the first, those
of a dictionary column wherever its entries point. What a row holds is what the
column says there, or NULL (`UnifiedFormat.get`). A column that is written is flat, or
constant for a single row (`FlatVector`).

Key definitions: `UnifiedFormat`, `FlatVector`, `FlatVector.Holds`. Key theorems: `Holds.setInvalid`, `Holds.set`,
`Holds.rows_eq`.
-/
import Mathlib.Logic.Function.Basic
import Mathlib.Data.List.Basic

namespace Lib

structure UnifiedFormat (α : Type*) where
  sel : ℕ → ℕ
  validity : ℕ → Bool
  data : ℕ → α

namespace UnifiedFormat

variable {α : Type*}

def rowIsValid (v : UnifiedFormat α) (row : ℕ) : Bool := v.validity (v.sel row)

def value (v : UnifiedFormat α) (row : ℕ) : α := v.data (v.sel row)

/-- What a row holds. -/
def get (v : UnifiedFormat α) (row : ℕ) : Option α := if v.rowIsValid row then some (v.value row) else none

theorem get_eq_none {v : UnifiedFormat α} {row : ℕ} (h : v.rowIsValid row = false) : v.get row = none := by
  rw [get, h]
  rfl

theorem get_eq_some {v : UnifiedFormat α} {row : ℕ} (h : v.rowIsValid row = true) : v.get row = some (v.value row) :=
  if_pos h

/-- A column that says of every row where it stands itself. -/
def flat (x : α) (rows : List (Option α)) : UnifiedFormat α where
  sel := id
  validity i := (rows.getD i none).isSome
  data i := (rows.getD i none).getD x

/-- A column of one value. -/
def constant (x : α) : UnifiedFormat α := ⟨fun _ => 0, fun _ => true, fun _ => x⟩

end UnifiedFormat

/-! ### Columns that are written -/

structure FlatVector (α : Type*) where
  constant : Bool
  validity : ℕ → Bool
  data : ℕ → α

namespace FlatVector

variable {α : Type*}

/-- What a row reads. -/
def get (v : FlatVector α) (row : ℕ) : Option α :=
  let i := if v.constant then 0 else row
  if v.validity i then some (v.data i) else none

def rows (v : FlatVector α) (count : ℕ) : List (Option α) := (List.range count).map v.get

def setInvalid (v : FlatVector α) (row : ℕ) : FlatVector α :=
  { v with validity := Function.update v.validity row false }

def set (v : FlatVector α) (row : ℕ) (x : α) : FlatVector α := { v with data := Function.update v.data row x }

/-- A column in which no row is NULL yet. -/
def Fresh (v : FlatVector α) : Prop := ∀ row, v.validity row = true

/-- The first rows are written, and no row behind them is NULL. -/
structure Holds (v : FlatVector α) (done : List (Option α)) : Prop where
  flat : v.constant = false
  rows : ∀ row, ∀ h : row < done.length, v.get row = done[row]
  behind : ∀ row, done.length ≤ row → v.validity row = true

variable {v : FlatVector α} {done : List (Option α)}

theorem Fresh.holds (h : v.Fresh) : ({ v with constant := false } : FlatVector α).Holds [] where
  flat := rfl
  rows _ hrow := absurd hrow (Nat.not_lt_zero _)
  behind row _ := h row

theorem get_of_flat (h : v.constant = false) (row : ℕ) :
    v.get row = if v.validity row then some (v.data row) else none := by
  rw [get, h]
  rfl

theorem Holds.setInvalid (h : v.Holds done) : (v.setInvalid done.length).Holds (done ++ [none]) where
  flat := h.flat
  rows row hrow := by
    rw [List.length_append, List.length_singleton] at hrow
    rw [get_of_flat (v := v.setInvalid done.length) h.flat]
    rcases Nat.lt_succ_iff_lt_or_eq.mp hrow with hlt | rfl
    · have hsame : (v.setInvalid done.length).validity row = v.validity row :=
        Function.update_of_ne (Nat.ne_of_lt hlt) _ _
      rw [hsame, List.getElem_append_left hlt, ← h.rows row hlt, get_of_flat h.flat]
      rfl
    · have hself : (v.setInvalid done.length).validity done.length = false := Function.update_self ..
      rw [hself, List.getElem_append_right (Nat.le_refl _)]
      simp
  behind row hrow := by
    rw [List.length_append, List.length_singleton] at hrow
    have hsame : (v.setInvalid done.length).validity row = v.validity row :=
      Function.update_of_ne (by omega) _ _
    rw [hsame]
    exact h.behind row (by omega)

theorem Holds.set (h : v.Holds done) (x : α) : (v.set done.length x).Holds (done ++ [some x]) where
  flat := h.flat
  rows row hrow := by
    rw [List.length_append, List.length_singleton] at hrow
    rw [get_of_flat (v := v.set done.length x) h.flat]
    rcases Nat.lt_succ_iff_lt_or_eq.mp hrow with hlt | rfl
    · have hsame : (v.set done.length x).data row = v.data row :=
        Function.update_of_ne (Nat.ne_of_lt hlt) _ _
      rw [hsame, List.getElem_append_left hlt, ← h.rows row hlt, get_of_flat h.flat]
      rfl
    · have hself : (v.set done.length x).data done.length = x := Function.update_self ..
      have hvalid : (v.set done.length x).validity done.length = true := h.behind _ (Nat.le_refl _)
      rw [hself, hvalid, List.getElem_append_right (Nat.le_refl _)]
      simp
  behind row hrow := by
    rw [List.length_append, List.length_singleton] at hrow
    exact h.behind row (by omega)

/-- The rows that are written are read. -/
theorem Holds.rows_eq (h : v.Holds done) : v.rows done.length = done := by
  have hrows : v.rows done.length = (List.range done.length).map v.get := rfl
  rw [hrows]
  refine List.ext_getElem (by simp) fun row hrow hrow' => ?_
  rw [List.getElem_map, List.getElem_range]
  exact h.rows row hrow'

/-- A single row may be read as a constant. -/
theorem rows_constant (h : v.constant = false) : ({ v with constant := true } : FlatVector α).rows 1 = v.rows 1 := by
  have hfirst : ({ v with constant := true } : FlatVector α).get 0 = v.get 0 := by
    rw [get_of_flat h]
    rfl
  show [({ v with constant := true } : FlatVector α).get 0] = [v.get 0]
  rw [hfirst]

end FlatVector
end Lib
