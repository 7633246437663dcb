/-
# Dictionaries built from pairs

A dictionary that is filled pair by pair keeps each key where it came first,
with the value that came last. Pairs whose keys are all different are their
own dictionary (`dict_of_nodup`), and changing the values as they are read
changes them in the dictionary (`dict_map`). A dictionary over another says what
it says, and elsewhere what the other said (`lookup_update_of_mem`,
`lookup_update_of_notMem`).

Key definitions: `insertKey`, `dict`, `update`. Key theorems: `dict_map`,
`dict_of_nodup`, `lookup_update_of_mem`, `lookup_update_of_notMem`.
-/
import Mathlib.Data.List.Nodup

namespace Lib

variable {κ α β : Type*} [DecidableEq κ]

/-- `d[k] = a`. -/
def insertKey (d : List (κ × α)) (p : κ × α) : List (κ × α) :=
  if p.1 ∈ d.map Prod.fst then d.map fun q => if q.1 = p.1 then p else q else d ++ [p]

/-- The dictionary that the pairs make. -/
def dict (ps : List (κ × α)) : List (κ × α) := ps.foldl insertKey []

/-- The values of pairs, changed. -/
def mapValues (f : κ → α → β) (ps : List (κ × α)) : List (κ × β) := ps.map fun p => (p.1, f p.1 p.2)

omit [DecidableEq κ] in
theorem fst_mapValues (f : κ → α → β) (ps : List (κ × α)) :
    (mapValues f ps).map Prod.fst = ps.map Prod.fst := by
  simp [mapValues]

theorem insertKey_mapValues (f : κ → α → β) (d : List (κ × α)) (p : κ × α) :
    insertKey (mapValues f d) (p.1, f p.1 p.2) = mapValues f (insertKey d p) := by
  unfold insertKey
  rw [fst_mapValues]
  by_cases hmem : p.1 ∈ d.map Prod.fst
  · rw [if_pos hmem, if_pos hmem, mapValues, mapValues, List.map_map, List.map_map]
    refine List.map_congr_left fun q _ => ?_
    by_cases hq : q.1 = p.1
    · simp [hq]
    · simp [hq]
  · rw [if_neg hmem, if_neg hmem]
    simp [mapValues]

theorem foldl_insertKey_mapValues (f : κ → α → β) (ps d : List (κ × α)) :
    (mapValues f ps).foldl insertKey (mapValues f d) = mapValues f (ps.foldl insertKey d) := by
  induction ps generalizing d with
  | nil => rfl
  | cons p ps ih =>
    show (mapValues f ps).foldl insertKey (insertKey (mapValues f d) (p.1, f p.1 p.2)) = _
    rw [insertKey_mapValues, ih, List.foldl_cons]

theorem dict_map (f : κ → α → β) (ps : List (κ × α)) : dict (mapValues f ps) = mapValues f (dict ps) :=
  foldl_insertKey_mapValues f ps []

/-- The keys of a dictionary are all different. -/
theorem nodup_insertKey {d : List (κ × α)} (h : (d.map Prod.fst).Nodup) (p : κ × α) :
    ((insertKey d p).map Prod.fst).Nodup := by
  unfold insertKey
  by_cases hmem : p.1 ∈ d.map Prod.fst
  · have hkeys : (d.map fun q => if q.1 = p.1 then p else q).map Prod.fst = d.map Prod.fst := by
      rw [List.map_map]
      refine List.map_congr_left fun q _ => ?_
      by_cases hq : q.1 = p.1
      · simp [hq]
      · simp [hq]
    rw [if_pos hmem, hkeys]
    exact h
  · rw [if_neg hmem, List.map_append]
    exact List.nodup_append.mpr ⟨h, List.nodup_singleton _, fun k hk k' hk' heq =>
      hmem (by rw [← List.mem_singleton.mp hk', ← heq]; exact hk)⟩

theorem nodup_foldl_insertKey (ps : List (κ × α)) {d : List (κ × α)} (h : (d.map Prod.fst).Nodup) :
    ((ps.foldl insertKey d).map Prod.fst).Nodup := by
  induction ps generalizing d with
  | nil => exact h
  | cons p ps ih => exact ih (nodup_insertKey h p)

theorem foldl_insertKey_of_nodup (ps d : List (κ × α)) (h : ((d ++ ps).map Prod.fst).Nodup) :
    ps.foldl insertKey d = d ++ ps := by
  induction ps generalizing d with
  | nil => exact (List.append_nil d).symm
  | cons p ps ih =>
    have hmem : p.1 ∉ d.map Prod.fst := by
      rw [List.map_append, List.map_cons] at h
      exact fun hmem => (List.nodup_append.mp h).2.2 _ hmem _ List.mem_cons_self rfl
    rw [List.foldl_cons, insertKey, if_neg hmem, ih _ (by simpa using h)]
    simp

/-- Pairs whose keys are all different are their own dictionary. -/
theorem dict_of_nodup {ps : List (κ × α)} (h : (ps.map Prod.fst).Nodup) : dict ps = ps :=
  foldl_insertKey_of_nodup ps [] h

/-! ### One dictionary over another -/

/-- `d.update(e)`: what `e` says goes over what `d` says. -/
def update (d e : List (κ × α)) : List (κ × α) := e.foldl insertKey d

theorem foldl_update {β : Type*} (f : β → κ × α) (xs : List β) (d : List (κ × α)) :
    xs.foldl (fun d x => update d [f x]) d = update d (xs.map f) := by
  induction xs generalizing d with
  | nil => rfl
  | cons x xs ih => exact ih _

theorem mem_keys_insertKey {d : List (κ × α)} {p : κ × α} {k : κ} :
    k ∈ (insertKey d p).map Prod.fst ↔ k ∈ d.map Prod.fst ∨ k = p.1 := by
  unfold insertKey
  by_cases hmem : p.1 ∈ d.map Prod.fst
  · have hkeys : (d.map fun q => if q.1 = p.1 then p else q).map Prod.fst = d.map Prod.fst := by
      rw [List.map_map]
      refine List.map_congr_left fun q _ => ?_
      by_cases hq : q.1 = p.1
      · simp [hq]
      · simp [hq]
    rw [if_pos hmem, hkeys]
    exact ⟨.inl, fun h => h.elim id fun h => h ▸ hmem⟩
  · rw [if_neg hmem, List.map_append, List.mem_append, List.map_singleton, List.mem_singleton]

theorem mem_keys_update {e : List (κ × α)} : ∀ {d : List (κ × α)} {k : κ},
    k ∈ (update d e).map Prod.fst ↔ k ∈ d.map Prod.fst ∨ k ∈ e.map Prod.fst := by
  induction e with
  | nil => simp [update]
  | cons p e ih =>
    intro d k
    show k ∈ (update (insertKey d p) e).map Prod.fst ↔ _
    rw [ih, mem_keys_insertKey, List.map_cons, List.mem_cons, or_assoc]

theorem lookup_cons_ite (p : κ × α) (d : List (κ × α)) (k : κ) :
    (p :: d).lookup k = if k = p.1 then some p.2 else d.lookup k := by
  by_cases h : k = p.1
  · rw [List.lookup_cons, beq_iff_eq.mpr h, if_pos h]
  · rw [List.lookup_cons, beq_eq_false_iff_ne.mpr h, if_neg h]

theorem lookup_eq_none {d : List (κ × α)} {k : κ} : d.lookup k = none ↔ k ∉ d.map Prod.fst := by
  rw [List.lookup_eq_none_iff, List.mem_map]
  constructor
  · rintro h ⟨p, hp, rfl⟩
    simpa using h p hp
  · intro h p hp
    exact bne_iff_ne.mpr fun hk => h ⟨p, hp, hk.symm⟩

/-- A key that is not `p`'s keeps its value where `p` takes the place of its key. -/
theorem lookup_replace {p : κ × α} {k : κ} (hk : k ≠ p.1) (d : List (κ × α)) :
    (d.map fun q => if q.1 = p.1 then p else q).lookup k = d.lookup k := by
  induction d with
  | nil => rfl
  | cons q d ih =>
    rw [List.map_cons, lookup_cons_ite, lookup_cons_ite, ih]
    by_cases hq : q.1 = p.1
    · rw [if_pos hq, if_neg hk, if_neg (hq ▸ hk)]
    · rw [if_neg hq]

theorem lookup_insertKey (d : List (κ × α)) (p : κ × α) (k : κ) :
    (insertKey d p).lookup k = if k = p.1 then some p.2 else d.lookup k := by
  unfold insertKey
  by_cases hk : k = p.1
  · rw [if_pos hk]
    by_cases hmem : p.1 ∈ d.map Prod.fst
    · rw [if_pos hmem]
      induction d with
      | nil => cases hmem
      | cons q d ih =>
        rw [List.map_cons, lookup_cons_ite]
        by_cases hq : q.1 = p.1
        · rw [if_pos hq, if_pos hk]
        · rw [List.map_cons, List.mem_cons] at hmem
          rw [if_neg hq, if_neg (hk ▸ Ne.symm hq), ih (hmem.resolve_left (Ne.symm hq))]
    · rw [if_neg hmem, List.lookup_append, hk, lookup_eq_none.mpr hmem, lookup_cons_ite, if_pos rfl]
      rfl
  · rw [if_neg hk]
    by_cases hmem : p.1 ∈ d.map Prod.fst
    · rw [if_pos hmem, lookup_replace hk]
    · rw [if_neg hmem, List.lookup_append, lookup_cons_ite, if_neg hk, List.lookup_nil, Option.or_none]

theorem lookup_update_of_notMem {e : List (κ × α)} : ∀ {d : List (κ × α)} {k : κ}, k ∉ e.map Prod.fst →
    (update d e).lookup k = d.lookup k := by
  induction e with
  | nil => exact fun _ => rfl
  | cons p e ih =>
    intro d k h
    rw [List.map_cons, List.mem_cons, not_or] at h
    show (update (insertKey d p) e).lookup k = _
    rw [ih h.2, lookup_insertKey, if_neg h.1]

theorem lookup_update_of_mem {e : List (κ × α)} : ∀ {d : List (κ × α)} {k : κ} {a : α}, (e.map Prod.fst).Nodup →
    (k, a) ∈ e → (update d e).lookup k = some a := by
  induction e with
  | nil => exact fun _ h => absurd h List.not_mem_nil
  | cons p e ih =>
    intro d k a hnodup h
    rw [List.map_cons, List.nodup_cons] at hnodup
    show (update (insertKey d p) e).lookup k = _
    rcases List.mem_cons.mp h with rfl | h
    · rw [lookup_update_of_notMem hnodup.1, lookup_insertKey, if_pos rfl]
    · exact ih hnodup.2 h

/-- The order of a dictionary does not matter. -/
theorem lookup_of_perm {d e : List (κ × α)} (h : d.Perm e) : (d.map Prod.fst).Nodup →
    ∀ k, e.lookup k = d.lookup k := by
  induction h with
  | nil => exact fun _ _ => rfl
  | cons p _ ih =>
    intro hnodup k
    rw [List.map_cons, List.nodup_cons] at hnodup
    rw [lookup_cons_ite, lookup_cons_ite, ih hnodup.2]
  | swap p q l =>
    intro hnodup k
    rw [List.map_cons, List.nodup_cons, List.map_cons, List.mem_cons, not_or] at hnodup
    rw [lookup_cons_ite, lookup_cons_ite, lookup_cons_ite, lookup_cons_ite]
    by_cases hp : k = p.1
    · rw [if_pos hp, if_neg (hp ▸ Ne.symm hnodup.1.1), if_pos hp]
    · rw [if_neg hp, if_neg hp]
  | trans h₁ _ ih₁ ih₂ =>
    intro hnodup k
    rw [ih₂ ((h₁.map Prod.fst).nodup_iff.mp hnodup), ih₁ hnodup]

theorem nodup_update {d : List (κ × α)} (h : (d.map Prod.fst).Nodup) (e : List (κ × α)) :
    ((update d e).map Prod.fst).Nodup := nodup_foldl_insertKey e h

end Lib
