/-
# What the functions in FROM release

Whatever a call obtains is released when it has been written, when the answer
of its row ends, or when the state is destroyed. So however far a query reads,
and whatever raises, nothing is released twice, and everything is released
exactly when no call of MEOS raised: the copies made for a row are lost when
the call made for it raises (`released_iff`).

That rests on the order of the columns. A value is freed as it is written, and
its row is still the next one when a later column raises, so the state would
free it again; in every member the columns that may raise stand before those
that hold pointers (`orderly_of_mem`).

Key theorem: `Member.released_iff`.
-/
import MobilityDuck.TableFunctionRows

namespace MobilityDuck

open Lib

namespace TableFunction

variable {X A V W : Type} (f : TableFunction X A V W)

/-- The books of a run that ended with `raised`: what the state does not hold is released, or lost
with the call that raised. -/
def Settled (raised : Option Exception) (w : TableWorld V) : Prop :=
  ∃ lost : Multiset ℕ, w.ledger.Balanced (ids w.state + lost) ∧
    (lost = 0 ↔ ¬ (raised.isSome = true ∧ w.state.loaded = false))

/-- The induction is on the calls. -/
theorem settled_runCalls (hfirst : f.CopiesFirst) (hor : Orderly f.columns) :
    ∀ (inputs : List (List (InputRow X))) (w : TableWorld V), f.WellFormed w.state →
      w.ledger.Balanced (ids w.state) → Settled (f.runCalls inputs w).1 (f.runCalls inputs w).2
  | [], w, _, hbal => ⟨0, by rwa [add_zero], by simp [runCalls]⟩
  | input :: inputs, w, hwf, hbal => by
    have hcall := f.wp_inOut input hwf
    have hheld : w.ledger.Balanced (ids w.state + 0) := by rwa [add_zero]
    rw [runCalls]
    cases hr : (f.inOut input).run w with
    | ok answer w' =>
      obtain ⟨hwf', hm, -⟩ := hcall.of_run_ok hr
      have hbal' := hheld.moves hm
      rw [add_zero] at hbal'
      exact settled_runCalls hfirst hor inputs w' hwf' hbal'
    | error e w' =>
      obtain ⟨-, -, hlost⟩ := hcall.of_run_error hr
      obtain ⟨lost, hm, hiff⟩ := hlost hfirst hor
      have hbal' := hheld.moves hm
      rw [add_zero] at hbal'
      refine ⟨lost, hbal', ?_⟩
      rw [hiff]
      simp

/-- The destructor releases what the state holds. -/
theorem balanced_destroy {w : TableWorld V} {lost : Multiset ℕ} (h : w.ledger.Balanced (ids w.state + lost)) :
    (destroy w).ledger.Balanced lost := by
  obtain ⟨_, w', hr, -, hm⟩ := exists_run_eq_ok_of_wp (wp_release (w := w))
  rw [destroy, stateAfter_of_ok hr]
  have hbal := h.moves hm
  rwa [zero_add] at hbal

end TableFunction

namespace Member

open TableFunction

variable {X A V W : Type} (m : Member) (meos : TableMeos X A V W)

theorem copiesFirst : (m.function meos).CopiesFirst :=
  ⟨copyBlob meos, m.geometryAt.toList.map (m.copyGeometry meos), rfl, fun xs => ⟨meos.blob xs.1, rfl⟩⟩

theorem total_column {writer : Writer} (h : writer ≠ .geometry) : (column meos writer).Total := by
  intro v
  cases writer with
  | geometry => exact absurd rfl h
  | byValue | blob | text => exact ⟨_, rfl⟩

theorem pointer_column (writer : Writer) : (column meos writer).pointer = writer.pointer := by
  cases writer <;> rfl

/-- A geometry, whose writing may raise, never stands behind a column of pointers. -/
theorem orderly_of_mem {m : Member} (hm : m ∈ all) : Orderly (m.function meos).columns := by
  have hall : ∀ m ∈ all, m.writers.Pairwise fun writer later => writer.pointer = true → later ≠ .geometry := by
    decide
  rw [Orderly, function, List.pairwise_map]
  refine (hall m hm).imp fun h hp => ?_
  rw [pointer_column] at hp
  exact total_column meos (h hp)

/-- However many calls are made, on whatever inputs, and however they end: once the state is destroyed
nothing was released twice, and everything was released exactly if no exception left a row unloaded. -/
theorem released_iff {m : Member} (hm : m ∈ all) (inputs : List (List (InputRow X))) :
    let run := (m.function meos).runCalls inputs start
    (destroy run.2).ledger.released.Nodup ∧
      ((destroy run.2).ledger.released.Perm (List.range (destroy run.2).ledger.next) ↔
        ¬ (run.1.isSome = true ∧ run.2.state.loaded = false)) := by
  intro run
  have hstart : (start : TableWorld V).ledger.Balanced (ids (start : TableWorld V).state) := Ledger.balanced_empty
  obtain ⟨lost, hbal, hiff⟩ := (m.function meos).settled_runCalls (m.copiesFirst meos) (orderly_of_mem meos hm)
    inputs start ((m.function meos).wellFormed_released 0) hstart
  have hdone := balanced_destroy hbal
  exact ⟨hdone.nodup, hdone.perm_iff.trans hiff⟩

/-- A set of three integers read, and one behind it that MEOS refuses. -/
theorem released_iff_intset :
    let meos : TableMeos (List ℕ) (List ℕ) ℕ ℕ :=
      { blob := id, geometry := fun _ _ => .error .diverges,
        accessor := fun _ _ copies =>
          if copies = [[]] then .error (.meos "empty set") else .ok (some (copies.flatten.map fun x => [x])),
        write := fun _ x => x, writeGeometry := fun x => .ok x }
    let run := ((setUnnest "intset_values" .byValue).function meos).runCalls
      [[(some [1, 2, 3], [])], [(some [1, 2, 3], [])], [(some [], [])]] start
    (destroy run.2).ledger.released.Nodup ∧
      ((destroy run.2).ledger.released.Perm (List.range (destroy run.2).ledger.next) ↔
        ¬ (run.1.isSome = true ∧ run.2.state.loaded = false)) :=
  released_iff _ (by decide) _

end Member

end MobilityDuck
