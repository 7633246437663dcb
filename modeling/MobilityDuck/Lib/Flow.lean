/-
# Bags moved between places

Places hold bags of things. Things are added to a place, and all a place
holds is moved to another one. Moving keeps what is held together
(`sum_run`), over any set of places whose border no move crosses. So
when every place of such a set but one was emptied into another, once, and not
used again, that one holds everything that was added to the set
(`run_of_drained`), in whatever order and along whatever tree it went.

Key definitions: `Flow`, `Flow.run`, `Flow.Drained`. Key theorems: `sum_run`,
`run_of_all_drained`.
-/
import Mathlib.Algebra.BigOperators.Group.Finset.Piecewise
import Mathlib.Algebra.Order.Group.Multiset
import Mathlib.Tactic.Abel

namespace Lib

/-- Things are added to a place, or moved from one place to another one. -/
inductive Flow (ι α : Type)
  | add (place : ι) (things : Multiset α)
  | move (source target : ι) (ne : source ≠ target)

namespace Flow

variable {ι α : Type} [DecidableEq ι]

def apply (b : ι → Multiset α) : Flow ι α → ι → Multiset α
  | .add i x => Function.update b i (b i + x)
  | .move s t _ => Function.update (Function.update b t (b t + b s)) s 0

def run (fs : List (Flow ι α)) (b : ι → Multiset α) : ι → Multiset α := fs.foldl apply b

/-- What is added to the places of a set. -/
def added (S : Finset ι) : Flow ι α → Multiset α
  | .add i x => if i ∈ S then x else 0
  | .move _ _ _ => 0

/-- No move crosses the border of the set. -/
def Within (S : Finset ι) : Flow ι α → Prop
  | .add _ _ => True
  | .move s t _ => s ∈ S ↔ t ∈ S

def Names (i : ι) : Flow ι α → Prop
  | .add j _ => j = i
  | .move s t _ => s = i ∨ t = i

/-- The place was not used, or was emptied into another one and not used again. -/
def Drained (fs : List (Flow ι α)) (i : ι) : Prop :=
  (∀ f ∈ fs, ¬ f.Names i) ∨
    ∃ before t ne after, fs = before ++ .move i t ne :: after ∧ ∀ f ∈ after, ¬ f.Names i

variable {S : Finset ι} {b : ι → Multiset α}

/-- When one place changes, what a set of places holds changes by what that one holds. -/
theorem sum_update {i : ι} (hi : i ∈ S) (x : Multiset α) :
    ∑ j ∈ S, Function.update b i x j + b i = ∑ j ∈ S, b j + x := by
  rw [Finset.sum_update_of_mem hi, ← Finset.add_sum_erase S b hi, Finset.sdiff_singleton_eq_erase]
  abel

/-- One step keeps what the places of a set hold together, but for what is added. -/
theorem sum_apply {f : Flow ι α} (hf : f.Within S) :
    ∑ j ∈ S, f.apply b j = ∑ j ∈ S, b j + f.added S := by
  cases f with
  | add i x =>
    by_cases hi : i ∈ S
    · have h := sum_update (b := b) hi (b i + x)
      rw [apply, added, if_pos hi]
      refine add_right_cancel (b := b i) (h.trans ?_)
      abel
    · rw [apply, added, if_neg hi, add_zero, Finset.sum_update_of_notMem hi]
  | move s t ne =>
    have hf : s ∈ S ↔ t ∈ S := hf
    rw [apply, added, add_zero]
    by_cases hs : s ∈ S
    · have h₁ := sum_update (b := b) (hf.mp hs) (b t + b s)
      have h₂ := sum_update (b := Function.update b t (b t + b s)) hs 0
      rw [Function.update_of_ne ne, add_zero] at h₂
      refine add_right_cancel (b := b s + b t) ?_
      rw [← add_assoc, h₂, h₁]
      abel
    · rw [Finset.sum_update_of_notMem hs, Finset.sum_update_of_notMem fun ht => hs (hf.mpr ht)]

/-- A run keeps what the places of a set hold together, but for what is added. -/
theorem sum_run : ∀ (fs : List (Flow ι α)) (b : ι → Multiset α), (∀ f ∈ fs, f.Within S) →
    ∑ j ∈ S, run fs b j = ∑ j ∈ S, b j + (fs.map (added S)).sum
  | [], b, _ => by simp [run]
  | f :: fs, b, h => by
    have ih := sum_run fs (f.apply b) fun f' hf' => h f' (List.mem_cons_of_mem _ hf')
    rw [run, List.foldl_cons, ← run, ih, sum_apply (h f List.mem_cons_self), List.map_cons,
      List.sum_cons, add_assoc]

theorem apply_of_not_names {f : Flow ι α} {i : ι} (h : ¬ f.Names i) : f.apply b i = b i := by
  cases f with
  | add j x => exact Function.update_of_ne (fun hi => h hi.symm) _ _
  | move s t ne =>
    have h : ¬ (s = i ∨ t = i) := h
    rw [not_or] at h
    rw [apply, Function.update_of_ne (Ne.symm h.1), Function.update_of_ne (Ne.symm h.2)]

theorem run_of_not_names {i : ι} : ∀ (fs : List (Flow ι α)) (b : ι → Multiset α),
    (∀ f ∈ fs, ¬ f.Names i) → run fs b i = b i
  | [], _, _ => rfl
  | f :: fs, b, h => by
    have ih := run_of_not_names fs (f.apply b) fun f' hf' => h f' (List.mem_cons_of_mem _ hf')
    rw [run, List.foldl_cons, ← run, ih, apply_of_not_names (h f List.mem_cons_self)]

/-- A drained place is left empty. -/
theorem run_of_drained {fs : List (Flow ι α)} {i : ι} (h : Drained fs i) :
    run fs (fun _ => 0) i = 0 := by
  rcases h with h | ⟨before, t, ne, after, rfl, h⟩
  · exact run_of_not_names fs _ h
  · rw [run, List.foldl_append, List.foldl_cons, ← run, ← run, run_of_not_names after _ h, apply,
      Function.update_self]

/-- When all places of a set but one are drained, that one holds all that was added to the set. -/
theorem run_of_all_drained {fs : List (Flow ι α)} {t : ι} (ht : t ∈ S)
    (hwithin : ∀ f ∈ fs, f.Within S) (h : ∀ i ∈ S, i ≠ t → Drained fs i) :
    run fs (fun _ => 0) t = (fs.map (added S)).sum := by
  have hsum := sum_run fs (fun _ => (0 : Multiset α)) hwithin
  rw [Finset.sum_const_zero, zero_add] at hsum
  rw [← hsum]
  exact (Finset.sum_eq_single_of_mem t ht fun i hi hne => run_of_drained (h i hi hne)).symm

end Flow

end Lib
