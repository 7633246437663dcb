/-
# Columns taken by position, and read by name

The operators of a plan pass rows of entries, and name the entries of a row by
a list beside it. A projection takes entries by position (`select`); a
reference to a name reads the entry at the first position of the name
(`readName`).

Where a row holds the values of its names, a reference reads the value of the
name (`readName_map`), whatever the order of the names; and what a projection
appends, a projection to the first positions drops again
(`select_range_append`).

Key definitions: `select`, `readName`. Key theorems: `readName_map`,
`select_range_append`.
-/
import Mathlib.Data.List.Basic
import Mathlib.Data.List.Range

namespace Lib

variable {α β : Type*}

/-- The entries at these positions; where there is none, nothing is taken. -/
def select (row : List α) (ps : List ℕ) : List α := ps.filterMap (row[·]?)

/-- The entry under a name. -/
def readName [DecidableEq β] (names : List β) (row : List α) (name : β) : Option α :=
  row[names.idxOf name]?

section Select

variable {row : List α} {ps qs : List ℕ}

@[simp] theorem select_nil (row : List α) : select row [] = [] := rfl

theorem select_append (row : List α) (ps qs : List ℕ) :
    select row (ps ++ qs) = select row ps ++ select row qs :=
  List.filterMap_append

theorem select_cons {p : ℕ} (hp : p < row.length) : select row (p :: ps) = row[p] :: select row ps := by
  rw [select, List.filterMap_cons, List.getElem?_eq_getElem hp]
  rfl

/-- Taken where they are, the entries are as many as the positions. -/
theorem select_eq_map (d : α) : ∀ {ps : List ℕ}, (∀ p ∈ ps, p < row.length) →
    select row ps = ps.map (row.getD · d)
  | [], _ => rfl
  | p :: ps, h => by
    have hp := h p List.mem_cons_self
    rw [select_cons hp, select_eq_map d fun q hq => h q (List.mem_cons_of_mem _ hq), List.map_cons,
      List.getD_eq_getElem?_getD, List.getElem?_eq_getElem hp, Option.getD_some]

theorem length_select : ∀ {ps : List ℕ}, (∀ p ∈ ps, p < row.length) → (select row ps).length = ps.length
  | [], _ => rfl
  | p :: ps, h => by
    rw [select_cons (h p List.mem_cons_self), List.length_cons, List.length_cons,
      length_select fun q hq => h q (List.mem_cons_of_mem _ hq)]

theorem map_select (f : α → β) (row : List α) (ps : List ℕ) :
    (select row ps).map f = select (row.map f) ps := by
  rw [select, select, List.map_filterMap]
  apply List.filterMap_congr
  intro p _
  rw [List.getElem?_map]

theorem mem_of_mem_select {a : α} (h : a ∈ select row ps) : a ∈ row := by
  obtain ⟨p, -, hp⟩ := List.mem_filterMap.mp h
  exact List.mem_of_getElem? hp

/-- The first entries. -/
theorem select_range {k : ℕ} (hk : k ≤ row.length) : select row (List.range k) = row.take k := by
  induction k with
  | zero => rfl
  | succ k ih =>
    rw [List.range_succ, select_append, ih (by omega), select_cons (by omega), List.take_add_one,
      List.getElem?_eq_getElem (by omega)]
    rfl

/-- All of them. -/
theorem select_range_length (row : List α) : select row (List.range row.length) = row := by
  rw [select_range le_rfl, List.take_length]

/-- Positions are their own entries. -/
theorem select_range_eq_self {k : ℕ} (hps : ∀ p ∈ ps, p < k) : select (List.range k) ps = ps := by
  have hself : ∀ p ∈ ps, (List.range k)[p]? = some p := fun p hp => List.getElem?_range (hps p hp)
  rw [select, List.filterMap_congr hself, List.filterMap_some]

/-- A projection drops what was taken behind. -/
theorem select_range_append (hps : ∀ p ∈ ps, p < row.length) :
    select (select row (ps ++ qs)) (List.range ps.length) = select row ps := by
  have hlen : (select row ps).length = ps.length := length_select hps
  rw [select_append, select_range (by rw [List.length_append, hlen]; omega), ← hlen, List.take_left]

end Select

section ReadName

variable [DecidableEq β]

/-- **A reference reads the value of its name**, where a row holds the values of its names. -/
theorem readName_map (f : β → α) : ∀ {names : List β} {name : β}, name ∈ names →
    readName names (names.map f) name = some (f name)
  | name' :: names, name, h => by
    rw [readName, List.map_cons]
    by_cases heq : name' = name
    · rw [heq, List.idxOf_cons_self]
      rfl
    · have ih := readName_map f ((List.mem_cons.mp h).resolve_left (Ne.symm heq))
      rw [readName] at ih
      rw [List.idxOf_cons_ne _ heq, Nat.succ_eq_add_one, List.getElem?_cons_succ, ih]

end ReadName

end Lib
