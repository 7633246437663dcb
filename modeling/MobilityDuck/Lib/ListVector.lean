/-
# Columns of lists

A column of lists keeps the elements of all its rows in one child column, one row
behind the other, and says of every row where its elements stand. A row that is
NULL says nothing, and so does an element that is NULL. A column is filled row by
row, each row's elements behind what the child holds, and the rows before stay as
they are (`Holds.append`, `Holds.null`).

Key definitions: `ListVector`, `ListVector.row`, `ListVector.fill`, `ListVector.Holds`. Key theorems:
`Holds.append`, `Holds.null`.
-/
import Mathlib.Logic.Function.Basic
import Mathlib.Data.List.Basic

namespace Lib

/-- Where the elements of a row stand in the child. -/
structure Slice where
  offset : ℕ
  length : ℕ
  deriving DecidableEq, Repr

/-- The entries and the NULLs of the rows, and the elements with their NULLs, as far as `size`. -/
structure ListVector (W : Type*) where
  entry : ℕ → Slice
  valid : ℕ → Bool
  child : ℕ → W
  childValid : ℕ → Bool
  size : ℕ

namespace ListVector

variable {W : Type*}

def slot (v : ListVector W) (k : ℕ) : Option W := if v.childValid k then some (v.child k) else none

def elements (v : ListVector W) (s : Slice) : List (Option W) :=
  (List.range s.length).map fun j => v.slot (s.offset + j)

def row (v : ListVector W) (i : ℕ) : Option (List (Option W)) :=
  if v.valid i then some (v.elements (v.entry i)) else none

/-! ### Writing -/

def setSize (v : ListVector W) (n : ℕ) : ListVector W := { v with size := n }

def setEntry (v : ListVector W) (i : ℕ) (s : Slice) : ListVector W :=
  { v with entry := Function.update v.entry i s }

def setValid (v : ListVector W) (i : ℕ) (b : Bool) : ListVector W :=
  { v with valid := Function.update v.valid i b }

/-- An element; NULL is marked, and what the place holds stays. -/
def write (v : ListVector W) (k : ℕ) : Option W → ListVector W
  | some x => { v with child := Function.update v.child k x }
  | none => { v with childValid := Function.update v.childValid k false }

def fill (v : ListVector W) : ℕ → List (Option W) → ListVector W
  | _, [] => v
  | k, x :: xs => (v.write k x).fill (k + 1) xs

/-- A column as it is handed out to be filled. -/
structure Fresh (v : ListVector W) : Prop where
  size : v.size = 0
  valid : ∀ i, v.valid i = true
  childValid : ∀ k, v.childValid k = true

/-- A column with nothing in it but one value everywhere. -/
def blank (x : W) : ListVector W := ⟨fun _ => ⟨0, 0⟩, fun _ => true, fun _ => x, fun _ => true, 0⟩

theorem fresh_blank (x : W) : (blank x).Fresh := ⟨rfl, fun _ => rfl, fun _ => rfl⟩

/-! ### What is written is read -/

section Fill

variable {v : ListVector W}

@[simp] theorem write_entry (k : ℕ) (x : Option W) : (v.write k x).entry = v.entry := by cases x <;> rfl

@[simp] theorem write_valid (k : ℕ) (x : Option W) : (v.write k x).valid = v.valid := by cases x <;> rfl

@[simp] theorem write_size (k : ℕ) (x : Option W) : (v.write k x).size = v.size := by cases x <;> rfl

theorem slot_write_of_ne {j k : ℕ} (h : j ≠ k) (x : Option W) : (v.write k x).slot j = v.slot j := by
  cases x <;> simp [slot, write, h]

theorem slot_write_self {k : ℕ} (h : v.childValid k = true) (x : Option W) : (v.write k x).slot k = x := by
  cases x <;> simp [slot, write, h]

theorem childValid_write_of_ne {j k : ℕ} (h : j ≠ k) (x : Option W) :
    (v.write k x).childValid j = v.childValid j := by
  cases x <;> simp [write, h]

@[simp] theorem fill_entry (xs : List (Option W)) : ∀ (v : ListVector W) (k : ℕ), (v.fill k xs).entry = v.entry := by
  induction xs with
  | nil => exact fun _ _ => rfl
  | cons x xs ih => exact fun v k => (ih _ _).trans (write_entry k x)

@[simp] theorem fill_valid (xs : List (Option W)) : ∀ (v : ListVector W) (k : ℕ), (v.fill k xs).valid = v.valid := by
  induction xs with
  | nil => exact fun _ _ => rfl
  | cons x xs ih => exact fun v k => (ih _ _).trans (write_valid k x)

@[simp] theorem fill_size (xs : List (Option W)) : ∀ (v : ListVector W) (k : ℕ), (v.fill k xs).size = v.size := by
  induction xs with
  | nil => exact fun _ _ => rfl
  | cons x xs ih => exact fun v k => (ih _ _).trans (write_size k x)

/-- An entry and the size may be written before the elements or behind them. -/
theorem setEntry_fill (xs : List (Option W)) (n i : ℕ) (s : Slice) : ∀ (v : ListVector W) (k : ℕ),
    ((v.fill k xs).setSize n).setEntry i s = ((v.setSize n).setEntry i s).fill k xs := by
  induction xs with
  | nil => exact fun _ _ => rfl
  | cons x xs ih =>
    intro v k
    rw [fill, ih, fill]
    cases x <;> rfl

/-- What stands elsewhere stays. -/
theorem slot_fill_of_lt (xs : List (Option W)) :
    ∀ (v : ListVector W) {j k : ℕ}, j < k → (v.fill k xs).slot j = v.slot j := by
  induction xs with
  | nil => exact fun _ _ _ _ => rfl
  | cons x xs ih =>
    intro v j k h
    rw [fill, ih _ (Nat.lt_succ_of_lt h), slot_write_of_ne (by omega)]

theorem childValid_fill_of_le (xs : List (Option W)) :
    ∀ (v : ListVector W) {j k : ℕ}, k + xs.length ≤ j → (v.fill k xs).childValid j = v.childValid j := by
  induction xs with
  | nil => exact fun _ _ _ _ => rfl
  | cons x xs ih =>
    intro v j k h
    rw [List.length_cons] at h
    rw [fill, ih _ (by omega), childValid_write_of_ne (by omega)]

/-- The elements are read where they were written, if no place was marked NULL before. -/
theorem elements_fill (xs : List (Option W)) : ∀ (v : ListVector W) (k : ℕ), (∀ j, k ≤ j → v.childValid j = true) →
    (v.fill k xs).elements ⟨k, xs.length⟩ = xs := by
  induction xs with
  | nil => exact fun _ _ _ => rfl
  | cons x xs ih =>
    intro v k hclear
    have hnext : ∀ j, k + 1 ≤ j → (v.write k x).childValid j = true := fun j hj => by
      rw [childValid_write_of_ne (by omega), hclear j (by omega)]
    have hrest := ih (v.write k x) (k + 1) hnext
    unfold elements at hrest ⊢
    rw [List.length_cons, List.range_succ_eq_map, List.map_cons, List.map_map]
    have hhead : (v.fill k (x :: xs)).slot (k + 0) = x := by
      rw [Nat.add_zero, fill, slot_fill_of_lt xs _ (Nat.lt_succ_self k), slot_write_self (hclear k (Nat.le_refl _))]
    have htail : (List.range xs.length).map ((fun j => (v.fill k (x :: xs)).slot (k + j)) ∘ Nat.succ) = xs := by
      refine Eq.trans (List.map_congr_left fun j _ => ?_) hrest
      show ((v.write k x).fill (k + 1) xs).slot (k + (j + 1)) = ((v.write k x).fill (k + 1) xs).slot (k + 1 + j)
      congr 1
      omega
    exact congrArg₂ List.cons hhead htail

theorem elements_congr {v v' : ListVector W} {s : Slice} (h : ∀ j, j < s.offset + s.length → v'.slot j = v.slot j) :
    v'.elements s = v.elements s := by
  refine List.map_congr_left fun j hj => h _ ?_
  have := List.mem_range.mp hj
  omega

end Fill

/-! ### Filling row by row -/

/-- The first rows of the column, with nothing written behind them. -/
structure Holds (v : ListVector W) (rows : List (Option (List (Option W)))) : Prop where
  row : ∀ i, ∀ h : i < rows.length, v.row i = rows[i]
  within : ∀ i < rows.length, v.valid i = true → (v.entry i).offset + (v.entry i).length ≤ v.size
  valid : ∀ i, rows.length ≤ i → v.valid i = true
  childValid : ∀ k, v.size ≤ k → v.childValid k = true

variable {v : ListVector W} {rows : List (Option (List (Option W)))}

theorem Fresh.holds (h : v.Fresh) : v.Holds [] where
  row _ hi := absurd hi (Nat.not_lt_zero _)
  within _ hi := absurd hi (Nat.not_lt_zero _)
  valid i _ := h.valid i
  childValid k _ := h.childValid k

/-- A row that is NULL may say anything of its elements. -/
theorem Holds.null (h : v.Holds rows) {v' : ListVector W}
    (hrow : v' = v.setValid rows.length false ∨ ∃ s, v' = (v.setValid rows.length false).setEntry rows.length s) :
    v'.Holds (rows ++ [none]) ∧ v'.size = v.size := by
  have hvalid : v'.valid = Function.update v.valid rows.length false := by
    rcases hrow with rfl | ⟨s, rfl⟩ <;> rfl
  have hentry : ∀ i, i ≠ rows.length → v'.entry i = v.entry i := by
    rcases hrow with rfl | ⟨s, rfl⟩
    · exact fun _ _ => rfl
    · exact fun i hi => Function.update_of_ne hi ..
  have hchild : v'.child = v.child ∧ v'.childValid = v.childValid ∧ v'.size = v.size := by
    rcases hrow with rfl | ⟨s, rfl⟩ <;> exact ⟨rfl, rfl, rfl⟩
  obtain ⟨hchild, hchildValid, hsize⟩ := hchild
  have hslot : v'.slot = v.slot := by
    funext k
    rw [slot, slot, hchild, hchildValid]
  refine ⟨⟨fun i hi => ?_, fun i hi hv => ?_, fun i hi => ?_, fun k hk => ?_⟩, hsize⟩
  · rw [ListVector.row, hvalid]
    rcases Nat.lt_or_ge i rows.length with hlt | hge
    · rw [Function.update_of_ne (by omega), hentry i (by omega), elements, hslot, List.getElem_append_left hlt]
      exact h.row i hlt
    · rw [List.length_append, List.length_singleton] at hi
      obtain rfl : i = rows.length := by omega
      simp
  · rw [List.length_append, List.length_singleton] at hi
    rcases Nat.lt_or_ge i rows.length with hlt | hge
    · rw [hvalid, Function.update_of_ne (by omega)] at hv
      rw [hentry i (by omega), hsize]
      exact h.within i hlt hv
    · obtain rfl : i = rows.length := by omega
      rw [hvalid, Function.update_self] at hv
      cases hv
  · rw [List.length_append, List.length_singleton] at hi
    rw [hvalid, Function.update_of_ne (by omega)]
    exact h.valid i (by omega)
  · rw [hchildValid]
    exact h.childValid k (hsize ▸ hk)

/-- A row behind the others: its elements behind what the child holds. -/
def push (v : ListVector W) (i : ℕ) (xs : List (Option W)) : ListVector W :=
  ((v.setSize (v.size + xs.length)).setEntry i ⟨v.size, xs.length⟩).fill v.size xs

theorem Holds.append (h : v.Holds rows) (xs : List (Option W)) :
    (v.push rows.length xs).Holds (rows ++ [some xs]) ∧ (v.push rows.length xs).size = v.size + xs.length := by
  have hentry : ∀ i, (v.push rows.length xs).entry i = Function.update v.entry rows.length ⟨v.size, xs.length⟩ i :=
    fun i => congrFun (fill_entry xs _ _) i
  have hvalid : (v.push rows.length xs).valid = v.valid := fill_valid xs _ _
  have hsize : (v.push rows.length xs).size = v.size + xs.length := fill_size xs _ _
  have hbefore : ∀ j, j < v.size → (v.push rows.length xs).slot j = v.slot j :=
    fun j hj => slot_fill_of_lt xs _ hj
  refine ⟨⟨fun i hi => ?_, fun i hi hv => ?_, fun i hi => ?_, fun k hk => ?_⟩, hsize⟩
  · rw [ListVector.row, hvalid, hentry]
    rcases Nat.lt_or_ge i rows.length with hlt | hge
    · rw [Function.update_of_ne (by omega), List.getElem_append_left hlt, ← h.row i hlt, ListVector.row]
      by_cases hv : v.valid i = true
      · have hin := h.within i hlt hv
        rw [if_pos hv, if_pos hv, elements_congr fun j hj => hbefore j (by omega)]
      · rw [if_neg hv, if_neg hv]
    · rw [List.length_append, List.length_singleton] at hi
      obtain rfl : i = rows.length := by omega
      rw [if_pos (h.valid _ (Nat.le_refl _)), Function.update_self, push, elements_fill]
      · simp
      · exact h.childValid
  · rw [List.length_append, List.length_singleton] at hi
    rw [hentry, hsize]
    rcases Nat.lt_or_ge i rows.length with hlt | hge
    · rw [hvalid] at hv
      have hin := h.within i hlt hv
      rw [Function.update_of_ne (by omega)]
      omega
    · obtain rfl : i = rows.length := by omega
      simp
  · rw [List.length_append, List.length_singleton] at hi
    rw [hvalid]
    exact h.valid i (by omega)
  · rw [hsize] at hk
    exact (childValid_fill_of_le xs _ hk).trans (h.childValid k (by omega))

/-- Marking a row that is not NULL changes nothing. -/
theorem setValid_of_valid {i : ℕ} (h : v.valid i = true) : v.setValid i true = v := by
  rw [setValid, ← h, Function.update_eq_self]

/-- A row that was written is read as it was written. -/
theorem Holds.elements_entry (h : v.Holds rows) {i : ℕ} (hi : i < rows.length) {xs : List (Option W)}
    (hrow : rows[i] = some xs) : v.valid i = true ∧ v.elements (v.entry i) = xs := by
  have hread := h.row i hi
  rw [hrow, ListVector.row] at hread
  by_cases hv : v.valid i = true
  · rw [if_pos hv] at hread
    exact ⟨hv, Option.some.inj hread⟩
  · rw [if_neg hv] at hread
    cases hread

end ListVector
end Lib
