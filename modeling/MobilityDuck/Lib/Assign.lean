/-
# Matchers that each need an entry of their own

`Assigned ms es` says that the entries can be dealt out to the matchers, one
each and none left over, so that every matcher accepts its entry. `assign`
looks for such a deal by backtracking, and finds one exactly when there is
one (`assign_isSome`).

Key definitions: `Assigned`, `assign`. Key theorems: `assign_perm`,
`assign_isSome`, `assigned_pair_iff`.
-/
import Mathlib.Data.List.Perm.Basic

namespace Lib

variable {α : Type*}

/-- The entries can be dealt out to the matchers. -/
def Assigned (ms : List (α → Bool)) (es : List α) : Prop :=
  ∃ es', es'.Perm es ∧ List.Forall₂ (fun m e => m e = true) ms es'

/-- Each element, with the others. -/
def picks : List α → List (α × List α)
  | [] => []
  | a :: l => (a, l) :: (picks l).map fun p => (p.1, a :: p.2)

theorem perm_of_mem_picks : ∀ {l : List α} {p : α × List α}, p ∈ picks l → (p.1 :: p.2).Perm l
  | a :: l, p, h => by
    rcases List.mem_cons.mp h with rfl | h
    · exact List.Perm.refl _
    · obtain ⟨q, hq, rfl⟩ := List.mem_map.mp h
      calc (q.1 :: a :: q.2).Perm (a :: q.1 :: q.2) := List.Perm.swap ..
        _ |>.Perm (a :: l) := (perm_of_mem_picks hq).cons a

theorem exists_mem_picks : ∀ {l : List α} {b : α}, b ∈ l → ∃ rest, (b, rest) ∈ picks l
  | a :: l, b, h => by
    rcases List.mem_cons.mp h with rfl | h
    · exact ⟨l, List.mem_cons_self⟩
    · obtain ⟨rest, hr⟩ := exists_mem_picks h
      exact ⟨a :: rest, List.mem_cons_of_mem _ (List.mem_map_of_mem hr)⟩

/-- Deal the entries out, one matcher after the other. -/
def assign : List (α → Bool) → List α → Option (List α)
  | [], [] => some []
  | [], _ :: _ => none
  | m :: ms, es => (picks es).findSome? fun p => if m p.1 then (assign ms p.2).map (p.1 :: ·) else none

theorem assign_perm : ∀ {ms : List (α → Bool)} {es es' : List α}, assign ms es = some es' → es'.Perm es
  | [], [], es', h => by
    obtain rfl := Option.some.inj h
    exact List.Perm.refl _
  | m :: ms, es, es', h => by
    obtain ⟨p, hp, h⟩ := List.exists_of_findSome?_eq_some h
    split at h
    · obtain ⟨rest, hrest, rfl⟩ := Option.map_eq_some_iff.mp h
      exact ((assign_perm hrest).cons p.1).trans (perm_of_mem_picks hp)
    · simp at h

theorem forall_of_assign : ∀ {ms : List (α → Bool)} {es es' : List α}, assign ms es = some es' →
    List.Forall₂ (fun m e => m e = true) ms es'
  | [], [], es', h => by
    obtain rfl := Option.some.inj h
    exact .nil
  | m :: ms, es, es', h => by
    obtain ⟨p, -, h⟩ := List.exists_of_findSome?_eq_some h
    split at h
    · rename_i hm
      obtain ⟨rest, hrest, rfl⟩ := Option.map_eq_some_iff.mp h
      exact .cons hm (forall_of_assign hrest)
    · cases h

/-- No deal is overlooked. -/
theorem assign_isSome : ∀ {ms : List (α → Bool)} {es : List α}, Assigned ms es → (assign ms es).isSome
  | [], es, ⟨es', hp, hf⟩ => by
    cases hf
    rw [List.nil_perm.mp hp]
    rfl
  | m :: ms, es, ⟨es', hp, hf⟩ => by
    cases hf with
    | @cons _ b _ rest hm hf =>
      obtain ⟨others, hothers⟩ := exists_mem_picks (hp.mem_iff.mp List.mem_cons_self)
      have hrest : rest.Perm others := (hp.trans (perm_of_mem_picks hothers).symm).cons_inv
      obtain ⟨tail, htail⟩ := Option.isSome_iff_exists.mp (assign_isSome ⟨rest, hrest, hf⟩)
      refine List.findSome?_isSome_iff.mpr ⟨(b, others), hothers, ?_⟩
      rw [if_pos hm, htail]
      rfl

theorem eq_of_perm_pair {a b : α} {l : List α} (h : l.Perm [a, b]) : l = [a, b] ∨ l = [b, a] := by
  obtain ⟨x, y, rfl⟩ := List.length_eq_two.mp h.length_eq
  rcases List.mem_cons.mp (h.mem_iff.mp List.mem_cons_self) with rfl | hx
  · have hy : [y] = [b] := List.perm_singleton.mp h.cons_inv
    exact .inl (by rw [hy])
  · obtain rfl := List.mem_singleton.mp hx
    have hy : [y] = [a] := List.perm_singleton.mp ((h.trans (List.Perm.swap ..)).cons_inv)
    exact .inr (by rw [hy])

/-- Two matchers: there are two entries, one for each. -/
theorem assigned_pair_iff {m m' : α → Bool} {es : List α} : Assigned [m, m'] es ↔
    ∃ x y, es = [x, y] ∧ ((m x = true ∧ m' y = true) ∨ (m y = true ∧ m' x = true)) := by
  constructor
  · intro ⟨es', hp, hf⟩
    cases hf with
    | @cons _ a _ _ hm hf =>
      cases hf with
      | @cons _ b _ _ hm' hf =>
        cases hf
        rcases eq_of_perm_pair hp.symm with rfl | rfl
        · exact ⟨a, b, rfl, .inl ⟨hm, hm'⟩⟩
        · exact ⟨b, a, rfl, .inr ⟨hm, hm'⟩⟩
  · intro ⟨x, y, hes, h⟩
    subst hes
    rcases h with ⟨hm, hm'⟩ | ⟨hm, hm'⟩
    · exact ⟨[x, y], List.Perm.refl _, .cons hm (.cons hm' .nil)⟩
    · exact ⟨[y, x], List.Perm.swap .., .cons hm (.cons hm' .nil)⟩

end Lib
