/-
# Trees rewritten from the root

A step looks at a tree and may put another in its place; a pass takes the step
at the root, and then in each of the subtrees that stand below it
(`RoseTree.topDown`). A tree means something by what its nodes make of the
meanings below them, and a node may ask for more or less of what refines a
meaning there: that is the mode it puts the trees below it in.

A step that keeps what is known of the nodes, and refines the meaning of
every tree it is taken at, refines the meaning of the whole under a pass, and
under any number of passes (`Invariant.improves_passes`). A pass ends where the
tree does: fuel for its height is enough (`topDown_of_height`).

Key definitions: `RoseTree.topDown`, `Refinement`, `Invariant`, `Invariant.Rule`.
Key theorems: `Invariant.improves_topDown`, `Invariant.improves_passes`,
`RoseTree.topDown_of_height`.
-/
import Mathlib.Data.List.Forall2

namespace Lib

inductive RoseTree (α : Type*)
  | node (a : α) (children : List (RoseTree α))

namespace RoseTree

variable {α ρ : Type*}

/-! ### What a tree means -/

mutual

/-- A node makes its meaning of those of its children. -/
def eval (sem : α → List ρ → ρ) : RoseTree α → ρ
  | .node a ts => sem a (evalAll sem ts)

def evalAll (sem : α → List ρ → ρ) : List (RoseTree α) → List ρ
  | [] => []
  | t :: ts => eval sem t :: evalAll sem ts

end

theorem evalAll_eq_map (sem : α → List ρ → ρ) : ∀ ts : List (RoseTree α), evalAll sem ts = ts.map (eval sem)
  | [] => rfl
  | t :: ts => by rw [evalAll, evalAll_eq_map sem ts, List.map_cons]

@[simp] theorem eval_node (sem : α → List ρ → ρ) (a : α) (ts : List (RoseTree α)) :
    eval sem (node a ts) = sem a (ts.map (eval sem)) := by
  rw [eval, evalAll_eq_map]

/-! ### Passes -/

/-- A step at the root, and then in the trees below. -/
def topDown (step : RoseTree α → RoseTree α) : ℕ → RoseTree α → RoseTree α
  | 0, t => t
  | fuel + 1, t =>
    match step t with
    | .node a ts => .node a (ts.map (topDown step fuel))

/-- The nodes on the longest way down. -/
def height : RoseTree α → ℕ := eval fun _ hs => hs.foldr max 0 + 1

theorem height_pos (t : RoseTree α) : 0 < t.height := by
  cases t
  rw [height, eval_node]
  omega

theorem le_foldr_max {hs : List ℕ} {h : ℕ} (hh : h ∈ hs) : h ≤ hs.foldr max 0 := by
  induction hs with
  | nil => simp at hh
  | cons x xs ih =>
    rcases List.mem_cons.mp hh with rfl | hh
    · exact Nat.le_max_left _ _
    · exact Nat.le_trans (ih hh) (Nat.le_max_right _ _)

theorem height_lt {a : α} {ts : List (RoseTree α)} {t : RoseTree α} (h : t ∈ ts) : t.height < (node a ts).height := by
  have hle : t.height ≤ (ts.map height).foldr max 0 := le_foldr_max (List.mem_map_of_mem h)
  rw [height, eval_node]
  exact Nat.lt_succ_of_le hle

/-- A pass leaves a tree as it is. -/
def Fixed (step : RoseTree α → RoseTree α) (t : RoseTree α) : Prop := ∀ fuel, topDown step fuel t = t

/-- Below what a step leaves, the trees are lower than the one it was taken at, or a pass leaves them as
they are. -/
def Descends (step : RoseTree α → RoseTree α) : Prop :=
  ∀ t a ts, step t = node a ts → ∀ s ∈ ts, s.height < t.height ∨ Fixed step s

/-- Then fuel for the height of the tree is enough. The induction is on the fuel. -/
theorem topDown_of_height {step : RoseTree α → RoseTree α} (hstep : Descends step) :
    ∀ (fuel : ℕ) (t : RoseTree α), t.height ≤ fuel → topDown step fuel t = topDown step t.height t
  | 0, t, h => by
    have hpos := t.height_pos
    omega
  | fuel + 1, t, h => by
    obtain ⟨k, hk⟩ : ∃ k, t.height = k + 1 := Nat.exists_eq_succ_of_ne_zero (Nat.ne_of_gt t.height_pos)
    rw [hk, topDown, topDown]
    cases hs : step t with
    | node a ts =>
      simp only [node.injEq, true_and]
      refine List.map_congr_left fun s hmem => ?_
      rcases hstep t a ts hs s hmem with hlt | hfixed
      · rw [topDown_of_height hstep fuel s (by omega), topDown_of_height hstep k s (by omega)]
      · rw [hfixed, hfixed]
termination_by fuel _ _ => fuel

end RoseTree

open RoseTree

/-! ### Steps that refine -/

/-- What nodes mean, and when a meaning refines another: `le m r r'`, in the mode `m`, says it of `r'`. -/
structure Refinement (α ρ μ : Type*) where
  sem : α → List ρ → ρ
  inside : α → μ → μ
  le : μ → ρ → ρ → Prop
  refl : ∀ m r, le m r r
  trans : ∀ {m r s t}, le m r s → le m s t → le m r t
  mono : ∀ {m} a {rs rs' : List ρ}, List.Forall₂ (le (inside a m)) rs rs' → le m (sem a rs) (sem a rs')

/-- What is known of a node over its children, and what may come in the place of a tree without that
being lost. -/
structure Invariant {α ρ μ : Type*} (R : Refinement α ρ μ) where
  ok : μ → α → List (RoseTree α) → Prop
  turns : RoseTree α → RoseTree α → Prop
  turns_refl : ∀ t, turns t t
  turns_trans : ∀ {t u v}, turns t u → turns u v → turns t v
  turns_node : ∀ a {ts us}, List.Forall₂ turns ts us → turns (.node a ts) (.node a us)
  ok_node : ∀ {m a ts us}, ok m a ts → List.Forall₂ turns ts us → ok m a us

namespace Invariant

variable {α ρ μ : Type*} {R : Refinement α ρ μ} (I : Invariant R)

/-- Every node of a tree, in the mode it stands in. -/
inductive Holds : μ → RoseTree α → Prop
  | node {m : μ} {a : α} {ts : List (RoseTree α)} (ok : I.ok m a ts) (below : ∀ t ∈ ts, Holds (R.inside a m) t) :
    Holds m (.node a ts)

/-- One tree comes in the place of another. -/
structure Improves (m : μ) (t u : RoseTree α) : Prop where
  holds : I.Holds m u
  le : R.le m (t.eval R.sem) (u.eval R.sem)
  turns : I.turns t u

/-- A step that improves every tree it is taken at. -/
structure Rule where
  step : RoseTree α → RoseTree α
  improves : ∀ {m t}, I.Holds m t → I.Improves m t (step t)

variable {I} {m : μ} {t u v : RoseTree α}

theorem Improves.refl (h : I.Holds m t) : I.Improves m t t := ⟨h, R.refl _ _, I.turns_refl _⟩

theorem Improves.trans (h : I.Improves m t u) (h' : I.Improves m u v) : I.Improves m t v :=
  ⟨h'.holds, R.trans h.le h'.le, I.turns_trans h.turns h'.turns⟩

/-- What improves the trees below a node improves its tree. -/
theorem Improves.node {a : α} {ts us : List (RoseTree α)} (hok : I.ok m a ts)
    (h : List.Forall₂ (I.Improves (R.inside a m)) ts us) : I.Improves m (.node a ts) (.node a us) := by
  have hturns : List.Forall₂ I.turns ts us := h.imp fun _ _ h => h.turns
  have hholds : List.Forall₂ (fun u t => I.Holds (R.inside a m) u ∧ I.turns t u) us ts :=
    h.flip.imp fun _ _ h => ⟨h.holds, h.turns⟩
  refine ⟨.node (I.ok_node hok hturns) ((List.forall₂_and_left _ _).mp hholds).1, ?_, I.turns_node a hturns⟩
  · rw [eval_node, eval_node]
    refine R.mono a ?_
    rw [List.forall₂_map_left_iff, List.forall₂_map_right_iff]
    exact h.imp fun _ _ h => h.le

/-- A pass improves what each of its steps does. The induction is on the fuel. -/
theorem improves_topDown (rule : I.Rule) : ∀ (fuel : ℕ) {m : μ} {t : RoseTree α}, I.Holds m t →
    I.Improves m t (topDown rule.step fuel t)
  | 0, _, _, h => .refl h
  | fuel + 1, m, t, h => by
    have hstep := rule.improves h
    rw [topDown]
    cases hs : rule.step t with
    | node a ts =>
      rw [hs] at hstep
      refine hstep.trans ?_
      cases hstep.holds with
      | node hok hbelow =>
        refine .node hok ?_
        rw [List.forall₂_map_right_iff, List.forall₂_same]
        exact fun s hs => improves_topDown rule fuel (hbelow s hs)

/-- So do passes one after the other, each with the fuel its tree needs. -/
theorem improves_passes (rules : List I.Rule) (h : I.Holds m t) :
    I.Improves m t (rules.foldl (fun t rule => topDown rule.step t.height t) t) := by
  induction rules generalizing t with
  | nil => exact .refl h
  | cons rule rules ih =>
    have hfirst := improves_topDown rule t.height h
    exact hfirst.trans (ih hfirst.holds)

end Invariant

end Lib
