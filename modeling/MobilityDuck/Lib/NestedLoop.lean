/-
# Nested loops, and lookups in their place

`nestedLoop p xs ys` pairs each `x` with the `y` for which `p x y` holds. Which
of the two is walked outside makes no difference but to the order
(`nestedLoop_swap`), and where the partners of each `x` can be looked up, the
lookups answer the same pairs (`lookups_perm`).

Key definition: `nestedLoop`. Key theorems: `nestedLoop_swap`, `lookups_perm`.
-/
import Mathlib.Data.List.Perm.Basic

namespace Lib

variable {α β : Type*}

/-- The pairs of a nested loop. -/
def nestedLoop (p : α → β → Bool) (xs : List α) (ys : List β) : List (α × β) :=
  xs.flatMap fun x => (ys.filter (p x)).map (x, ·)

@[simp] theorem nestedLoop_nil (p : α → β → Bool) (ys : List β) : nestedLoop p [] ys = [] := rfl

theorem nestedLoop_cons (p : α → β → Bool) (x : α) (xs : List α) (ys : List β) :
    nestedLoop p (x :: xs) ys = (ys.filter (p x)).map (x, ·) ++ nestedLoop p xs ys := rfl

/-- The pairs of images are images of pairs. -/
theorem nestedLoop_map {α' β' : Type*} (p : α' → β' → Bool) (f : α → α') (g : β → β') (xs : List α) (ys : List β) :
    nestedLoop p (xs.map f) (ys.map g) =
      (nestedLoop (fun x y => p (f x) (g y)) xs ys).map fun q => (f q.1, g q.2) := by
  rw [nestedLoop, nestedLoop, List.flatMap_map, List.map_flatMap]
  refine List.flatMap_congr fun x _ => ?_
  rw [List.filter_map, List.map_map, List.map_map]
  rfl

/-- One more `x` adds its pairs, also where it is walked inside. -/
theorem nestedLoop_cons_right (p : α → β → Bool) (x : α) (xs : List α) (ys : List β) :
    ((ys.filter (p x)).map (·, x) ++ nestedLoop (fun y x => p x y) ys xs).Perm
      (nestedLoop (fun y x => p x y) ys (x :: xs)) := by
  have hfirst : (ys.filter (p x)).map (·, x) = ys.flatMap fun y => if p x y then [(y, x)] else [] := by
    induction ys with
    | nil => rfl
    | cons y ys ih =>
      rw [List.flatMap_cons, ← ih]
      by_cases hp : p x y = true
      · rw [List.filter_cons_of_pos hp, if_pos hp]
        rfl
      · rw [List.filter_cons_of_neg hp, if_neg hp]
        rfl
  rw [hfirst]
  refine (List.flatMap_append_perm ys _ _).trans (List.Perm.of_eq (List.flatMap_congr fun y _ => ?_))
  simp only [List.filter_cons]
  split <;> rfl

/-- Which list is walked outside makes no difference. -/
theorem nestedLoop_swap (p : α → β → Bool) (xs : List α) (ys : List β) :
    (nestedLoop p xs ys).Perm ((nestedLoop (fun y x => p x y) ys xs).map Prod.swap) := by
  induction xs with
  | nil =>
    have hnil : nestedLoop (fun y x => p x y) ys [] = [] := by simp [nestedLoop]
    rw [hnil]
    rfl
  | cons x xs ih =>
    have hpairs : ((ys.filter (p x)).map (·, x)).map Prod.swap = (ys.filter (p x)).map (x, ·) := by
      rw [List.map_map]
      rfl
    rw [nestedLoop_cons]
    calc ((ys.filter (p x)).map (x, ·) ++ nestedLoop p xs ys).Perm
          (((ys.filter (p x)).map (·, x) ++ nestedLoop (fun y x => p x y) ys xs).map Prod.swap) := by
          rw [List.map_append, hpairs]
          exact ih.append_left _
      _ |>.Perm _ := (nestedLoop_cons_right p x xs ys).map _

/-- Looked up, the partners of each `x` make the same pairs. -/
theorem lookups_perm {p : α → β → Bool} {xs : List α} {ys : List β} {look : α → List β}
    (h : ∀ x ∈ xs, (look x).Perm (ys.filter (p x))) :
    (xs.flatMap fun x => (look x).map (x, ·)).Perm (nestedLoop p xs ys) :=
  List.Perm.flatMap_left xs fun x hx => (h x hx).map _

end Lib
