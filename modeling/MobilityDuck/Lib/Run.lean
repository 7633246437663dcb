/-
# Runs of a machine that may refuse a step

`run step s is` takes the steps `is` from state `s` and stops at the first
one that raises. `Along step ok s is` says that every step of the run is one
that `ok` allows in the state it is taken from. The rule (`run_simulates`):
what relates the machine to an abstract one and is carried by each allowed
step relates them after the whole run.

Key definitions: `run`, `Along`. Key theorem: `run_simulates`.
-/
import Mathlib.Data.List.Basic

namespace Lib

variable {σ τ ι ε : Type*} (step : σ → ι → Except ε σ) (ok : σ → ι → Prop)

/-- The state after the steps `is`, or the first exception. -/
def run : σ → List ι → Except ε σ
  | s, [] => .ok s
  | s, i :: is => (step s i).bind fun s' => run s' is

/-- Every step of the run from `s` is allowed in the state it is taken from. -/
def Along : σ → List ι → Prop
  | _, [] => True
  | s, i :: is => ok s i ∧ ∀ s', step s i = .ok s' → Along s' is

variable {step ok}

theorem run_cons {s : σ} {i : ι} {is : List ι} {s' : σ} (h : run step s (i :: is) = .ok s') :
    ∃ t, step s i = .ok t ∧ run step t is = .ok s' := by
  rw [run] at h
  cases hs : step s i with
  | error e =>
    rw [hs] at h
    cases h
  | ok t =>
    rw [hs] at h
    exact ⟨t, rfl, h⟩

theorem run_append : ∀ (is js : List ι) (s : σ),
    run step s (is ++ js) = (run step s is).bind fun s' => run step s' js
  | [], _, _ => rfl
  | i :: is, js, s => by
    rw [List.cons_append, run, run]
    cases step s i with
    | error e => rfl
    | ok t => exact run_append is js t

/-- A condition on steps that asks nothing of the state holds along every run whose steps meet it. -/
theorem Along.of_forall {p : ι → Prop} : ∀ {s : σ} {is : List ι}, (∀ i ∈ is, p i) →
    Along step (fun _ i => p i) s is
  | _, [], _ => trivial
  | _, _ :: _, h =>
    ⟨h _ List.mem_cons_self, fun _ _ => Along.of_forall fun i hi => h i (List.mem_cons_of_mem _ hi)⟩

theorem Along.and {ok' : σ → ι → Prop} : ∀ {s : σ} {is : List ι}, Along step ok s is →
    Along step ok' s is →
    Along step (fun s i => ok s i ∧ ok' s i) s is
  | _, [], _, _ => trivial
  | _, _ :: _, h, h' => ⟨⟨h.1, h'.1⟩, fun s hs => Along.and (h.2 s hs) (h'.2 s hs)⟩

/-- The rule of runs. The induction is on the steps; `R` is the relation between the two machines
that each allowed step carries. -/
theorem run_simulates (R : σ → τ → Prop) (astep : τ → ι → τ)
    (hstep : ∀ s t i s', ok s i → R s t → step s i = .ok s' → R s' (astep t i)) :
    ∀ (is : List ι) (s : σ) (t : τ) (s' : σ), R s t → Along step ok s is → run step s is = .ok s' →
      R s' (is.foldl astep t)
  | [], s, t, s', hR, _, hr => by
    cases hr
    exact hR
  | i :: is, s, t, s', hR, ha, hr => by
    obtain ⟨u, hu, hr⟩ := run_cons hr
    exact run_simulates R astep hstep is u (astep t i) s' (hstep s t i u ha.1 hR hu) (ha.2 u hu) hr

end Lib
