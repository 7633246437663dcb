/-
# What an aggregate releases

Every number the ledger gave out belongs to a decoded row or to a MEOS state
or result. In every world it was released once, is held by one of the states,
or is lost (`Accounted`): nothing is ever released twice. Something is lost
exactly when a combine or a final raised: `Combine` and `Finish` take the
states out of their places before they call MEOS, and nothing puts them back or
releases them.

So once the states are destroyed, everything was released exactly if no
combine and no final raised (`released_once_iff`); a transition that raises
loses nothing, halfway through a gathered group included.

Key definitions: `AggWorld.held`, `Quiet`, `Accounted`. Key theorem: `released_once_iff`.
-/
import MobilityDuck.Lib.Flow
import MobilityDuck.MeosAggregate
import Mathlib.Data.Multiset.OrderedMonoid
import Mathlib.Tactic.Abel

namespace MobilityDuck

open Lib

variable {E I R V : Type} {n : ℕ}

/-! ### What is held -/

def stateIds : Option (MeosState V) → Multiset ℕ
  | none => 0
  | some s => {s.id}

def rowIds (rows : List (DecodedRow R)) : Multiset ℕ := (rows.map DecodedRow.id : List ℕ)

def AggState.ids (s : AggState R V) : Multiset ℕ := stateIds s.state + rowIds (s.rows.getD [])

/-- The numbers the partial states hold. -/
def AggWorld.held (w : AggWorld E R V n) : Multiset ℕ := ∑ i, (w.states i).ids

/-- The numbers of the rows answered by a call that may keep its state: that of the answer, and
those of the states that are still there. -/
def Joined.ids (x y : MeosState V) : Joined (MeosState V) → Multiset ℕ
  | .null => {y.id}
  | .first r => {r.id} + {y.id}
  | .second r => {r.id} + {x.id}
  | .fresh r => {r.id} + {y.id}

def Joined.toOption {α : Type} : Joined α → Option α
  | .null => none
  | .first a => some a
  | .second a => some a
  | .fresh a => some a

/-- The state a combine leaves over. -/
def Joined.leftover {α : Type} (x y : α) : Joined α → α
  | .null => y
  | .first _ => y
  | .second _ => x
  | .fresh _ => y

theorem Joined.ids_eq (x y : MeosState V) (joined : Joined (MeosState V)) :
    joined.ids x y = stateIds joined.toOption + {(joined.leftover x y).id} := by
  cases joined with
  | null => exact (zero_add _).symm
  | first | second | fresh => rfl

def Answered.ids (keeps : Bool) (state : MeosState V) : Answered (MeosState V) → Multiset ℕ
  | .null => if keeps then {state.id} else 0
  | .same r => {r.id}
  | .fresh r => {r.id} + if keeps then {state.id} else 0

/-- No call of MEOS raised but transitions. -/
def Quiet (raised : List Role) : Prop := ∀ role ∈ raised, role = .transition

/-- The books of a world in which `own` is held besides by the running call: what was given out was
released, is held, or is lost, and something is lost exactly if a combine or a final raised. -/
def Accounted (w : AggWorld E R V n) (own : Multiset ℕ) : Prop :=
  ∃ lost : Multiset ℕ, w.ledger.Balanced (w.held + own + lost) ∧ (lost = 0 ↔ Quiet w.raised)

@[simp] theorem rowIds_nil : rowIds ([] : List (DecodedRow R)) = 0 := rfl

@[simp] theorem rowIds_cons (row : DecodedRow R) (rows : List (DecodedRow R)) :
    rowIds (row :: rows) = {row.id} + rowIds rows := rfl

@[simp] theorem rowIds_append (xs ys : List (DecodedRow R)) :
    rowIds (xs ++ ys) = rowIds xs + rowIds ys := by
  simp [rowIds]

theorem rowIds_perm {xs ys : List (DecodedRow R)} (h : xs.Perm ys) : rowIds xs = rowIds ys :=
  Multiset.coe_eq_coe.mpr (h.map _)

section Accounts

variable {w w' : AggWorld E R V n} {own own' ins outs gone : Multiset ℕ}

/-- When one state changes, what is held changes by what that one holds. -/
theorem held_update {i : Fin n} {s : AggState R V}
    (hs : w'.states = Function.update w.states i s) {a b : Multiset ℕ}
    (h : s.ids + a = (w.states i).ids + b) : w'.held + a = w.held + b := by
  have hsum : w'.held + (w.states i).ids = w.held + s.ids := by
    have hids : ∀ j, (w'.states j).ids = Function.update (fun j => (w.states j).ids) i s.ids j := by
      intro j
      rw [hs]
      exact Function.apply_update (fun _ => AggState.ids) w.states i s j
    rw [AggWorld.held, AggWorld.held, Finset.sum_congr rfl fun j _ => hids j]
    exact Flow.sum_update (Finset.mem_univ i) s.ids
  refine add_right_cancel (b := (w.states i).ids) ?_
  calc w'.held + a + (w.states i).ids = w.held + (s.ids + a) := by
        rw [add_right_comm, hsum, add_assoc]
    _ = w.held + b + (w.states i).ids := by
        rw [h]
        abel

theorem held_eq_of_states (hs : w'.states = w.states) : w'.held = w.held := by
  rw [AggWorld.held, hs, AggWorld.held]

/-- A call that raises nothing moves what it takes to what it leaves. -/
theorem Accounted.moves (h : Accounted w own) (hm : w.ledger.Moves w'.ledger ins outs)
    (hheld : w'.held + (own' + ins) = w.held + (own + outs)) (hr : w'.raised = w.raised) :
    Accounted w' own' := by
  obtain ⟨lost, hb, hlost⟩ := h
  refine ⟨lost, ?_, by rw [hr]; exact hlost⟩
  rw [Ledger.moves_iff_count] at hm
  simp only [Ledger.Balanced, Multiset.ext, Multiset.count_add, Multiset.coe_count] at hb hheld ⊢
  intro p
  have := hb p
  have := hm p
  have := hheld p
  omega

/-- What a call took is what it leaves, and the states are untouched. -/
theorem Accounted.call (h : Accounted w (own + ins)) (hs : w'.states = w.states)
    (hm : w.ledger.Moves w'.ledger ins outs) (hr : w'.raised = w.raised) :
    Accounted w' (own + outs) := by
  refine h.moves hm ?_ hr
  rw [held_eq_of_states hs]
  abel

/-- A state is given what the call holds, or hands over what it holds. -/
theorem Accounted.set (h : Accounted w own) {i : Fin n} {s : AggState R V}
    (hs : s.ids + own' = (w.states i).ids + own) :
    Accounted { w with states := Function.update w.states i s } own' := by
  obtain ⟨lost, hb, hlost⟩ := h
  refine ⟨lost, ?_, hlost⟩
  rw [held_update (w := w) rfl hs]
  exact hb

/-- A call that raises loses what it took out of the states, and nothing if it is a transition. -/
theorem Accounted.raises (h : Accounted w own) (hm : w.ledger.Moves w'.ledger ins outs)
    (hheld : w'.held + (own' + gone + ins) = w.held + (own + outs)) {role : Role}
    (hr : w'.raised = role :: w.raised) (hgone : gone = 0 ↔ role = .transition) :
    Accounted w' own' := by
  obtain ⟨lost, hb, hlost⟩ := h
  refine ⟨lost + gone, ?_, ?_⟩
  · rw [Ledger.moves_iff_count] at hm
    simp only [Ledger.Balanced, Multiset.ext, Multiset.count_add, Multiset.coe_count] at hb hheld ⊢
    intro p
    have := hb p
    have := hm p
    have := hheld p
    omega
  · rw [hr, Quiet, List.forall_mem_cons, ← Quiet, add_eq_zero, hlost, hgone, and_comm]

/-- What a call holds when a combine or a final raises is lost. -/
theorem Accounted.lost (h : Accounted w (own + ins)) (hs : w'.states = w.states)
    (hm : w.ledger.Moves w'.ledger ins ins) {role : Role} (hr : w'.raised = role :: w.raised)
    (hrole : role ≠ .transition) (hne : own + ins ≠ 0) : Accounted w' 0 := by
  have hheld : w'.held + (0 + (own + ins) + ins) = w.held + (own + ins + ins) := by
    rw [held_eq_of_states hs]
    abel
  exact h.raises hm hheld hr (iff_of_false hne hrole)

end Accounts

/-! ### The calls of MEOS -/

/-- A call that touches no partial state: it moves `ins` to `outs`, or raises in `role` and leaves
what it was given. -/
def Local {α : Type} (x : Agg E R V n α) (ins : Multiset ℕ) (outs : α → Multiset ℕ) (role : Role) :
    Prop :=
  ∀ w, wp x
    (fun a w' => w'.states = w.states ∧ w'.raised = w.raised ∧ w.ledger.Moves w'.ledger ins (outs a))
    (fun _ w' => w'.states = w.states ∧ w'.raised = role :: w.raised ∧
      w.ledger.Moves w'.ledger ins ins) w

/-- What a call leaves is taken by the next one, which raises nothing. -/
theorem Local.bind_quiet {α β : Type} {x : Agg E R V n α} {f : α → Agg E R V n β}
    {ins : Multiset ℕ} {mid : α → Multiset ℕ} {outs : β → Multiset ℕ} {role : Role}
    (hx : Local x ins mid role)
    (hf : ∀ a w, wp (f a) (fun b w' => w'.states = w.states ∧ w'.raised = w.raised ∧
      w.ledger.Moves w'.ledger (mid a) (outs b)) (fun _ _ => False) w) :
    Local (x >>= f) ins outs role := by
  intro w
  rw [wp_bind]
  refine (hx w).mono ?_ fun _ _ h => h
  rintro a w' ⟨hs, hr, hm⟩
  refine (hf a w').mono ?_ fun _ _ h => h.elim
  rintro b w'' ⟨hs', hr', hm'⟩
  exact ⟨hs'.trans hs, hr'.trans hr, hm.trans hm'⟩

theorem wp_newState {val : V} {w : AggWorld E R V n} :
    wp (newState val : Agg E R V n (MeosState V))
      (fun s w' => w'.states = w.states ∧ w'.raised = w.raised ∧
        w.ledger.Moves w'.ledger 0 {s.id}) (fun _ _ => False) w :=
  ⟨rfl, rfl, Ledger.moves_alloc _⟩

theorem wp_freeState {state : Option (MeosState V)} {w : AggWorld E R V n} :
    wp (freeState state : Agg E R V n Unit)
      (fun _ w' => w'.states = w.states ∧ w'.raised = w.raised ∧
        w.ledger.Moves w'.ledger (stateIds state) 0) (fun _ _ => False) w := by
  cases state with
  | none => exact ⟨rfl, rfl, Ledger.Moves.refl _ _⟩
  | some s => exact ⟨rfl, rfl, Ledger.moves_free _ _⟩

section Ops

variable (ops : AggregateOps E I R V)

theorem local_callTransition (state : Option (MeosState V)) (row : R) :
    Local (callTransition ops state row : Agg E R V n _) (stateIds state) stateIds .transition := by
  intro w
  unfold callTransition
  rw [wp_bind, wp_get, wp_bind, wp_set]
  rcases (ops.transition w.env (state.map MeosState.val) row).1 with e | _ | val
  · exact ⟨rfl, rfl, Ledger.Moves.refl _ _⟩
  · rw [wp_bind]
    refine wp_freeState.mono ?_ fun _ _ h => h.elim
    exact fun _ w' h => h
  · rw [wp_bind]
    refine wp_freeState.mono ?_ fun _ _ h => h.elim
    rintro _ w' ⟨hs, hr, hm⟩
    rw [wp_bind]
    refine wp_newState.mono ?_ fun _ _ h => h.elim
    rintro s w'' ⟨hs', hr', hm'⟩
    exact ⟨hs'.trans hs, hr'.trans hr, hm.trans hm'⟩

theorem local_callCombine (x y : MeosState V) :
    Local (callCombine ops x y : Agg E R V n _) ({x.id} + {y.id}) (Joined.ids x y) .combine := by
  have hfree : ∀ l : Ledger, l.Moves (l.free x.id) ({x.id} + {y.id}) {y.id} := fun l => by
    have h := (Ledger.moves_free l x.id).frame {y.id}
    rwa [zero_add] at h
  intro w
  unfold callCombine
  rw [wp_bind, wp_get, wp_bind, wp_set]
  rcases (ops.combine w.env x.val y.val).1 with e | _ | val | val | val
  · exact ⟨rfl, rfl, Ledger.Moves.refl _ _⟩
  · exact ⟨rfl, rfl, hfree _⟩
  · exact ⟨rfl, rfl, Ledger.Moves.refl _ _⟩
  · refine ⟨rfl, rfl, ?_⟩
    rw [add_comm]
    exact Ledger.Moves.refl _ _
  · refine ⟨rfl, rfl, (hfree _).trans ?_⟩
    have h := (Ledger.moves_alloc (w.ledger.free x.id)).frame {y.id}
    rwa [zero_add] at h

theorem local_callFinal (state : MeosState V) :
    Local (callFinal ops state : Agg E R V n _) {state.id} (Answered.ids ops.KEEPS state)
      .final := by
  intro w
  unfold callFinal
  rw [wp_bind, wp_get, wp_bind, wp_set]
  rcases (ops.final w.env state.val).1 with e | _ | val | val
  · exact ⟨rfl, rfl, Ledger.Moves.refl _ _⟩
  · by_cases hk : ops.KEEPS = true
    · simp only [hk]
      exact ⟨rfl, rfl, Ledger.Moves.refl _ _⟩
    · simp only [hk]
      exact ⟨rfl, rfl, Ledger.moves_free _ _⟩
  · exact ⟨rfl, rfl, Ledger.Moves.refl _ _⟩
  · by_cases hk : ops.KEEPS = true
    · simp only [hk]
      have h := (Ledger.moves_alloc w.ledger).frame {state.id}
      rw [zero_add] at h
      exact ⟨rfl, rfl, h⟩
    · simp only [hk]
      have h := (Ledger.moves_free w.ledger state.id).trans
        (Ledger.moves_alloc (w.ledger.free state.id))
      exact ⟨rfl, rfl, h⟩

theorem local_release (state : Option (MeosState V)) :
    Local (release ops state : Agg E R V n _) (stateIds state) (fun _ => 0) .final := by
  cases state with
  | none => exact fun _ => ⟨rfl, rfl, Ledger.Moves.refl _ _⟩
  | some s =>
    simp only [release]
    by_cases hc : (!ops.HAS_FINAL || ops.KEEPS) = true
    · rw [if_pos hc]
      exact fun w => ⟨rfl, rfl, Ledger.moves_free _ _⟩
    · have hk : ops.KEEPS = false := by
        simp only [Bool.or_eq_true, not_or, Bool.not_eq_true] at hc
        exact hc.2
      rw [if_neg hc]
      refine (local_callFinal ops s).bind_quiet fun answer w => ?_
      cases answer with
      | null =>
        simp only [hk, Answered.ids]
        exact ⟨rfl, rfl, Ledger.Moves.refl _ _⟩
      | same r => exact ⟨rfl, rfl, Ledger.moves_free _ _⟩
      | fresh r =>
        simp only [hk, Answered.ids]
        exact ⟨rfl, rfl, Ledger.moves_free _ _⟩

theorem local_resultOf (state : MeosState V) :
    Local (resultOf ops state : Agg E R V n _) {state.id} stateIds .final := by
  unfold resultOf
  by_cases hf : ops.HAS_FINAL = true
  swap
  · rw [if_neg hf]
    exact fun _ => ⟨rfl, rfl, Ledger.Moves.refl _ _⟩
  rw [if_pos hf]
  refine (local_callFinal ops state).bind_quiet fun answer w => ?_
  cases hk : ops.KEEPS with
  | false =>
    cases answer <;> exact ⟨rfl, rfl, Ledger.Moves.refl _ _⟩
  | true =>
    cases answer with
    | null => exact ⟨rfl, rfl, Ledger.moves_free _ _⟩
    | same r => exact ⟨rfl, rfl, Ledger.Moves.refl _ _⟩
    | fresh r =>
      have h := (Ledger.moves_free w.ledger state.id).frame {r.id}
      rw [zero_add, add_comm] at h
      exact ⟨rfl, rfl, h⟩

/-! ### Folding rows -/

/-- What was folded into state `i` took `ins` and left a state in its place. -/
def FoldsAt (i : Fin n) (w w' : AggWorld E R V n) (ins : Multiset ℕ) : Prop :=
  ∃ state, w'.states = Function.update w.states i { w.states i with state := state } ∧
    w.ledger.Moves w'.ledger (stateIds (w.states i).state + ins) (stateIds state)

theorem wp_freeRows : ∀ (rows : List (DecodedRow R)) (w : AggWorld E R V n),
    wp (freeRows rows) (fun _ w' => w'.states = w.states ∧ w'.raised = w.raised ∧
      w.ledger.Moves w'.ledger (rowIds rows) 0) (fun _ _ => False) w
  | [], w => ⟨rfl, rfl, Ledger.Moves.refl _ _⟩
  | row :: rows, w => by
    unfold freeRows each
    rw [wp_bind]
    refine (wp_freeRows rows _).mono ?_ fun _ _ h => h.elim
    rintro _ w' ⟨hs, hr, hm⟩
    refine ⟨hs, hr, ?_⟩
    have h := (Ledger.moves_free w.ledger row.id).frame (rowIds rows)
    rw [zero_add] at h
    exact h.trans hm

/-- A row is folded in and released, or the transition raises and the row is released. -/
theorem wp_fold (i : Fin n) (row : DecodedRow R) (w : AggWorld E R V n) :
    wp (fold ops i row) (fun _ w' => w'.raised = w.raised ∧ FoldsAt i w w' {row.id})
      (fun _ w' => w'.raised = .transition :: w.raised ∧ FoldsAt i w w' {row.id}) w := by
  unfold fold
  rw [wp_bind, wp_stateAt, wp_bind, wp_tryCatch]
  refine (local_callTransition ops (w.states i).state row.row w).mono ?_ ?_
  · rintro state w' ⟨hs, hr, hm⟩
    rw [wp_bind, wp_setState, wp_freeId]
    refine ⟨hr, state, by rw [hs], (hm.frame {row.id}).trans ?_⟩
    have h := (Ledger.moves_free w'.ledger row.id).frame (stateIds state)
    rw [zero_add, add_comm] at h
    exact h
  · rintro e w' ⟨hs, hr, hm⟩
    rw [wp_bind, wp_freeId, wp_throw]
    refine ⟨hr, (w.states i).state, by rw [hs, Function.update_eq_self], (hm.frame {row.id}).trans ?_⟩
    have h := (Ledger.moves_free w'.ledger row.id).frame (stateIds (w.states i).state)
    rw [zero_add, add_comm] at h
    exact h

theorem FoldsAt.trans {i : Fin n} {w w' w'' : AggWorld E R V n} {a b : Multiset ℕ}
    (h : FoldsAt i w w' a) (h' : FoldsAt i w' w'' b) : FoldsAt i w w'' (a + b) := by
  obtain ⟨state, hs, hm⟩ := h
  obtain ⟨state', hs', hm'⟩ := h'
  rw [hs, Function.update_self] at hm' hs'
  refine ⟨state', ?_, ?_⟩
  · rw [hs', Function.update_idem]
  · have h := hm.frame b
    rw [add_assoc] at h
    exact h.trans hm'

/-- The rows of a group are folded in and released, those behind one that raises included. The
induction is on the rows. -/
theorem wp_foldRows (i : Fin n) : ∀ (rows : List (DecodedRow R)) (w : AggWorld E R V n),
    wp (foldRows ops i rows) (fun _ w' => w'.raised = w.raised ∧ FoldsAt i w w' (rowIds rows))
      (fun _ w' => w'.raised = .transition :: w.raised ∧ FoldsAt i w w' (rowIds rows)) w
  | [], w => by
    refine ⟨rfl, (w.states i).state, (Function.update_eq_self _ _).symm, ?_⟩
    rw [rowIds_nil, add_zero]
    exact Ledger.Moves.refl _ _
  | row :: rows, w => by
    rw [foldRows, wp_bind, wp_tryCatch]
    refine (wp_fold ops i row w).mono ?_ ?_
    · rintro _ w' ⟨hr, hf⟩
      refine (wp_foldRows i rows w').mono ?_ ?_
      · rintro _ w'' ⟨hr', hf'⟩
        exact ⟨hr'.trans hr, hf.trans hf'⟩
      · rintro _ w'' ⟨hr', hf'⟩
        exact ⟨hr'.trans (by rw [hr]), hf.trans hf'⟩
    · rintro e w' ⟨hr, state, hs, hm⟩
      rw [wp_bind]
      refine (wp_freeRows rows w').mono ?_ fun _ _ h => h.elim
      rintro _ w'' ⟨hs', hr', hm'⟩
      refine ⟨hr'.trans hr, state, hs'.trans hs, ?_⟩
      have h := hm.frame (rowIds rows)
      rw [add_assoc] at h
      have h' := hm'.frame (stateIds state)
      rw [zero_add, add_comm] at h'
      exact h.trans h'

/-! ### The calls of DuckDB -/

/-- What was folded in was held by the running call, and the state it left is held by its place. -/
theorem Accounted.folds {w w' : AggWorld E R V n} {i : Fin n} {own ins : Multiset ℕ}
    (h : Accounted w (own + ins)) (hf : FoldsAt i w w' ins)
    (hr : w'.raised = w.raised ∨ w'.raised = .transition :: w.raised) : Accounted w' own := by
  obtain ⟨state, hs, hm⟩ := hf
  have hheld : w'.held + (own + (stateIds (w.states i).state + ins)) =
      w.held + (own + ins + stateIds state) := by
    refine held_update hs ?_
    simp only [AggState.ids]
    abel
  rcases hr with hr | hr
  · exact h.moves hm hheld hr
  · have hlost : w'.held + (own + 0 + (stateIds (w.states i).state + ins)) =
        w.held + (own + ins + stateIds state) := by rw [add_zero, hheld]
    exact h.raises hm hlost hr (by simp)

/-- One row of a call keeps the books. -/
def KeepsBooks (x : Agg E R V n Unit) : Prop :=
  ∀ w, Accounted w 0 → wp x (fun _ w' => Accounted w' 0) (fun _ w' => Accounted w' 0) w

theorem keepsBooks_each {α : Type} {body : α → Agg E R V n Unit} (h : ∀ a, KeepsBooks (body a))
    (as : List α) : KeepsBooks (each body as) := fun w hw => wp_each as w (fun a _ w hw => h a w hw) hw

theorem keepsBooks_updateRow (p : Fin n × I) : KeepsBooks (updateRow ops p) := by
  intro w hw
  unfold updateRow
  cases ops.read p.2 with
  | none => exact hw
  | some row =>
    simp only
    rw [wp_bind, wp_newId]
    have halloc : Accounted { w with ledger := w.ledger.alloc } {w.ledger.next} := by
      refine hw.moves (Ledger.moves_alloc _) ?_ rfl
      change w.held + ({w.ledger.next} + 0) = w.held + (0 + {w.ledger.next})
      abel
    by_cases hg : ops.GATHERS = true
    · rw [if_pos hg, wp_bind, wp_stateAt, wp_setState]
      refine halloc.set ?_
      simp only [AggState.ids, Option.getD_some, rowIds_append, rowIds_cons, rowIds_nil]
      abel
    · rw [if_neg hg]
      rw [← zero_add ({w.ledger.next} : Multiset ℕ)] at halloc
      refine (wp_fold ops p.1 _ _).mono ?_ ?_
      · exact fun _ w' h => halloc.folds h.2 (.inl h.1)
      · exact fun _ w' h => halloc.folds h.2 (.inr h.1)

theorem keepsBooks_foldGathered (i : Fin n) : KeepsBooks (foldGathered ops i) := by
  intro w hw
  unfold foldGathered
  rw [wp_bind, wp_stateAt]
  cases hrows : (w.states i).rows with
  | none => exact hw
  | some rows =>
    have hids : rowIds (sortRows ops rows) = rowIds rows := rowIds_perm (List.mergeSort_perm _ _)
    -- the rows were all released, whether one of them raised or not
    have hclear : ∀ w' : AggWorld E R V n, FoldsAt i w w' (rowIds (sortRows ops rows)) →
        w'.raised = w.raised ∨ w'.raised = .transition :: w.raised →
        Accounted { w' with states := Function.update w'.states i ⟨(w'.states i).state, none⟩ } 0 := by
      rintro w' ⟨state, hs, hm⟩ hr
      have hheld : AggWorld.held
          { w' with states := Function.update w'.states i ⟨(w'.states i).state, none⟩ } +
            (0 + (stateIds (w.states i).state + rowIds (sortRows ops rows))) =
          w.held + (0 + stateIds state) := by
        refine held_update (i := i) (s := ⟨state, none⟩) ?_ ?_
        · simp only [hs, Function.update_self, Function.update_idem]
        · simp only [AggState.ids, hrows, hids, Option.getD_none, Option.getD_some, rowIds_nil]
          abel
      rcases hr with hr | hr
      · exact hw.moves hm hheld hr
      · exact hw.raises hm (by rw [add_zero]; exact hheld) hr (by simp)
    simp only
    rw [wp_bind, wp_tryCatch]
    refine (wp_foldRows ops i (sortRows ops rows) w).mono ?_ ?_
    · exact fun _ w' h => hclear w' h.2 (.inl h.1)
    · exact fun _ w' h => hclear w' h.2 (.inr h.1)

theorem keepsBooks_combineRows (p : Pair n) :
    KeepsBooks (combineRows p : Agg E R V n Unit) := by
  intro w hw
  unfold combineRows
  rw [wp_bind, wp_stateAt]
  cases hrows : (w.states p.source).rows with
  | none => exact hw
  | some rows =>
    simp only
    rw [wp_bind, wp_stateAt, wp_bind, wp_setState, wp_setState]
    set w₁ : AggWorld E R V n := { w with
      states := Function.update w.states p.target
        ⟨(w.states p.target).state, some ((w.states p.target).rows.getD [] ++ rows)⟩ } with hw₁
    have hsource : w₁.states p.source = w.states p.source := Function.update_of_ne p.ne _ _
    have h₁ : w₁.held + 0 = w.held + rowIds rows := by
      refine held_update (i := p.target) rfl ?_
      simp only [AggState.ids, Option.getD_some, rowIds_append]
      abel
    have h₂ : AggWorld.held { w₁ with
        states := Function.update w₁.states p.source ⟨(w.states p.source).state, none⟩ } +
          rowIds rows = w₁.held + 0 := by
      refine held_update (i := p.source) rfl ?_
      simp only [AggState.ids, hsource, hrows, Option.getD_none, Option.getD_some, rowIds_nil]
      abel
    refine hw.moves (Ledger.Moves.refl w.ledger (rowIds rows)) ?_ rfl
    rw [zero_add]
    exact h₂.trans h₁

/-- The state a release raises over, and what the call holds besides, are lost. -/
theorem wp_release_then {w : AggWorld E R V n} {own : Multiset ℕ} (state : MeosState V)
    (h : Accounted w (own + {state.id})) {next : Agg E R V n Unit}
    (hnext : ∀ w', w'.states = w.states → Accounted w' own →
      wp next (fun _ w'' => Accounted w'' 0) (fun _ w'' => Accounted w'' 0) w') :
    wp (do release ops (some state); next)
      (fun _ w' => Accounted w' 0) (fun _ w' => Accounted w' 0) w := by
  rw [wp_bind]
  refine (local_release ops (some state) w).mono ?_ ?_
  · rintro _ w' ⟨hs, hr, hm⟩
    refine hnext w' hs ?_
    have h' := h.call hs hm hr
    rwa [add_zero] at h'
  · rintro _ w' ⟨hs, hr, hm⟩
    exact h.lost hs hm hr (by decide) (by simp)

/-- What a join does: the target takes the state of the source over, or keeps its own, or both go to the
combine, and the one left over is released. -/
theorem wp_joinStates {p : Pair n} {w : AggWorld E R V n} {Q : Unit → AggWorld E R V n → Prop}
    {F : Exception → AggWorld E R V n → Prop}
    (hmove : (w.states p.target).state = none → Q () { w with
      states := Function.update (Function.update w.states p.source ⟨none, (w.states p.source).rows⟩)
        p.target ⟨(w.states p.source).state, (w.states p.target).rows⟩ })
    (hkeep : (w.states p.source).state = none → Q () { w with
      states := Function.update w.states p.source ⟨none, (w.states p.source).rows⟩ })
    (hjoin : ∀ x y, (w.states p.target).state = some x → (w.states p.source).state = some y →
      wp (callCombine ops x y)
        (fun joined => wp (do
          release ops (some (joined.leftover x y))
          setState p.target ⟨joined.toOption, (w.states p.target).rows⟩) Q F)
        F { w with
          states := Function.update (Function.update w.states p.source ⟨none, (w.states p.source).rows⟩)
            p.target ⟨none, (w.states p.target).rows⟩ }) :
    wp (joinStates ops p) Q F w := by
  unfold joinStates
  rw [wp_bind, wp_stateAt, wp_bind, wp_stateAt, wp_bind, wp_setState]
  cases hx : (w.states p.target).state with
  | none => exact hmove hx
  | some x =>
    cases hy : (w.states p.source).state with
    | none => exact hkeep hy
    | some y =>
      simp only
      rw [wp_bind, wp_setState, wp_bind]
      refine (hjoin x y hx hy).mono ?_ fun _ _ h => h
      rintro joined w' h
      cases joined <;> exact h

theorem keepsBooks_joinStates (p : Pair n) : KeepsBooks (joinStates ops p) := by
  intro w hw
  -- the state of the source is the call's own once it is taken out
  have h₁ : Accounted { w with
      states := Function.update w.states p.source ⟨none, (w.states p.source).rows⟩ }
      (stateIds (w.states p.source).state) := by
    refine hw.set ?_
    simp only [AggState.ids, stateIds]
    abel
  have htarget : Function.update w.states p.source ⟨none, (w.states p.source).rows⟩ p.target =
      w.states p.target := Function.update_of_ne p.ne.symm _ _
  refine wp_joinStates ops ?_ ?_ ?_
  · intro hx
    refine h₁.set ?_
    simp only [AggState.ids, htarget, hx, stateIds]
    abel
  · intro hy
    rw [hy] at h₁
    exact h₁
  · intro x y hx hy
    have h₂ : Accounted { w with
        states := Function.update (Function.update w.states p.source ⟨none, (w.states p.source).rows⟩)
          p.target ⟨none, (w.states p.target).rows⟩ } (0 + ({x.id} + {y.id})) := by
      refine h₁.set ?_
      simp only [AggState.ids, htarget, hx, hy, stateIds]
      abel
    refine (local_callCombine ops x y _).mono ?_ ?_
    · rintro joined w₃ ⟨hs, hr, hm⟩
      have h₃ := h₂.call hs hm hr
      rw [zero_add, Joined.ids_eq] at h₃
      refine wp_release_then ops _ h₃ fun w' hs' h' => h'.set ?_
      rw [hs', hs]
      simp only [Function.update_self, AggState.ids, stateIds]
      abel
    · rintro _ w₃ ⟨hs, hr, hm⟩
      exact h₂.lost hs hm hr (by decide) (by simp)

theorem keepsBooks_combineState (p : Pair n) : KeepsBooks (combineState ops p) := by
  unfold combineState
  split
  · exact keepsBooks_combineRows p
  · exact keepsBooks_joinStates ops p

theorem keepsBooks_finish (i : Fin n) (ridx : ℕ) : KeepsBooks (finish ops i ridx) := by
  intro w hw
  unfold finish
  rw [wp_bind]
  have hfold : wp (doIf ops.GATHERS (foldGathered ops i))
      (fun _ w' => Accounted w' 0) (fun _ w' => Accounted w' 0) w := by
    unfold doIf
    split
    · exact keepsBooks_foldGathered ops i w hw
    · exact hw
  refine hfold.mono (fun _ w₁ h₁ => ?_) fun _ _ h => h
  rw [wp_bind, wp_stateAt, wp_bind, wp_setState]
  -- the state is the call's own from here on
  have h₂ : Accounted { w₁ with
      states := Function.update w₁.states i ⟨none, (w₁.states i).rows⟩ }
      (0 + stateIds (w₁.states i).state) := by
    refine h₁.set ?_
    simp only [AggState.ids, stateIds]
    abel
  cases hstate : (w₁.states i).state with
  | none =>
    rw [hstate] at h₂
    exact h₂
  | some state =>
    rw [hstate] at h₂
    simp only
    rw [wp_bind]
    refine (local_resultOf ops state _).mono ?_ ?_
    · rintro result w₃ ⟨hs, hr, hm⟩
      have h₃ := h₂.call hs hm hr
      cases result with
      | none => exact h₃
      | some r =>
        rw [wp_bind, wp_freeId, wp_writeAt]
        have h₄ : Accounted { w₃ with ledger := w₃.ledger.free r.id } (0 + 0) :=
          h₃.call rfl (Ledger.moves_free _ _) rfl
        exact h₄
    · rintro _ w₃ ⟨hs, hr, hm⟩
      exact h₂.lost hs hm hr (by decide) (by simp [stateIds])

/-- Taking the state out of a place takes what that state holds. -/
theorem held_taken (i : Fin n) {w w' : AggWorld E R V n} (hs : w'.states = w.states) :
    AggWorld.held { w' with states := Function.update w'.states i ⟨none, (w.states i).rows⟩ } +
      stateIds (w.states i).state = w.held + 0 := by
  refine held_update (i := i) (by rw [hs]) ?_
  simp only [AggState.ids, stateIds]
  abel

/-- Once its state is taken out, a place is left as it was initialised. -/
theorem wp_take_releaseRows (i : Fin n) {w w' : AggWorld E R V n} (hs : w'.states = w.states)
    (hw : Accounted { w' with states := Function.update w'.states i ⟨none, (w.states i).rows⟩ } 0) :
    wp (do setState i ⟨none, (w.states i).rows⟩; releaseRows i)
      (fun _ w'' => Accounted w'' 0 ∧ w''.states = Function.update w.states i .initialized)
      (fun _ _ => False) w' := by
  rw [wp_bind, wp_setState]
  unfold releaseRows
  rw [wp_bind, wp_stateAt, wp_bind]
  refine (wp_freeRows _ _).mono ?_ fun _ _ h => h
  rintro _ w'' ⟨hs'', hr'', hm''⟩
  rw [wp_setState]
  simp only [Function.update_self] at hm'' ⊢
  have hstates : Function.update w''.states i ⟨none, none⟩ =
      Function.update w.states i (AggState.initialized : AggState R V) := by
    rw [hs'', hs, Function.update_idem]
    rfl
  refine ⟨hw.moves hm'' ?_ hr'', hstates⟩
  refine held_update (i := i) (s := ⟨none, none⟩) (by rw [hs'']) ?_
  simp only [Function.update_self, AggState.ids, stateIds, Option.getD_none, rowIds_nil]
  abel

/-- A row of `Destroy` raises nothing and leaves its state as it was initialised. -/
theorem wp_destroyState (i : Fin n) (w : AggWorld E R V n) (hw : Accounted w 0) :
    wp (destroyState ops i)
      (fun _ w' => Accounted w' 0 ∧ w'.states = Function.update w.states i .initialized)
      (fun _ _ => False) w := by
  unfold destroyState
  rw [wp_bind, wp_stateAt, wp_bind, wp_tryCatch]
  cases hstate : (w.states i).state with
  | none =>
    refine wp_take_releaseRows i rfl (hw.set ?_)
    simp only [AggState.ids, stateIds, hstate]
  | some state =>
    -- the place is emptied whether the release raised or not
    refine (local_release ops (some state) w).mono ?_ ?_
    · rintro _ w' ⟨hs, hr, hm⟩
      refine wp_take_releaseRows i hs (hw.moves hm ?_ hr)
      have h := held_taken i hs
      rw [hstate] at h
      rw [zero_add, add_zero]
      exact h
    · rintro _ w' ⟨hs, hr, hm⟩
      have hheld : AggWorld.held
          { w' with states := Function.update w'.states i ⟨none, (w.states i).rows⟩ } +
            (0 + {state.id} + stateIds (some state)) = w.held + (0 + stateIds (some state)) := by
        have h := held_taken i hs
        rw [hstate, add_zero] at h
        rw [zero_add, zero_add, ← add_assoc, ← h]
        rfl
      exact wp_take_releaseRows i hs (hw.raises hm hheld hr (iff_of_false (by simp) (by decide)))

/-- `Destroy` leaves the states it names, and those that were, as they were initialised. The
induction is on the states that are left. -/
theorem wp_destroy : ∀ (is : List (Fin n)) (w : AggWorld E R V n), Accounted w 0 →
    wp (each (destroyState ops) is)
      (fun _ w' => Accounted w' 0 ∧
        ∀ i, i ∈ is ∨ w.states i = .initialized → w'.states i = .initialized)
      (fun _ _ => False) w
  | [], w, hw => ⟨hw, fun i hi => hi.resolve_left (List.not_mem_nil)⟩
  | i :: is, w, hw => by
    rw [each, wp_bind]
    refine (wp_destroyState ops i w hw).mono ?_ fun _ _ h => h
    rintro _ w' ⟨hw', hs⟩
    refine (wp_destroy is w' hw').mono ?_ fun _ _ h => h
    rintro _ w'' ⟨hw'', hall⟩
    refine ⟨hw'', fun j hj => hall j ?_⟩
    by_cases hji : j = i
    · right
      rw [hs, hji, Function.update_self]
    · rw [hs, Function.update_of_ne hji]
      exact hj.imp_left fun h => (List.mem_cons.mp h).resolve_left hji

/-! ### Runs -/

theorem keepsBooks_perform (c : AggCall n I) : KeepsBooks (c.perform ops) := by
  cases c with
  | update rows => exact keepsBooks_each (keepsBooks_updateRow ops) rows
  | combine pairs => exact keepsBooks_each (keepsBooks_combineState ops) pairs
  | finalize states offset =>
    exact keepsBooks_each (fun p => keepsBooks_finish ops p.1 (p.2 + offset)) states.zipIdx
  | finalizeConstant state => exact keepsBooks_finish ops state 0
  | destroy states =>
    exact fun w hw => (wp_destroy ops states w hw).mono (fun _ _ h => h.1) fun _ _ h => h.elim

theorem accounted_start (env : E) : Accounted (AggWorld.start env : AggWorld E R V n) 0 := by
  have hheld : (AggWorld.start env : AggWorld E R V n).held = 0 := Finset.sum_eq_zero fun _ _ => rfl
  refine ⟨0, ?_, by simp [Quiet, AggWorld.start]⟩
  rw [hheld]
  exact Ledger.balanced_empty

/-- The books are kept over a run: one call keeps them, and the induction is on the calls. -/
theorem accounted_runCalls : ∀ (calls : List (AggCall n I)) (w : AggWorld E R V n), Accounted w 0 →
    Accounted (runCalls ops calls w) 0
  | [], _, hw => hw
  | c :: calls, w, hw => by
    have hafter : Accounted (stateAfter (c.perform ops) w) 0 :=
      (keepsBooks_perform ops c w hw).stateAfter
    exact accounted_runCalls calls _ hafter

/-- The states of a run in which all of them were destroyed at the end. -/
def runAndDestroy (calls : List (AggCall n I)) (env : E) : AggWorld E R V n :=
  runCalls ops (calls ++ [.destroy (List.finRange n)]) (.start env)

/-- **What is released.** In a run of any calls, whatever MEOS answers and whichever of its calls
raise, no row and no MEOS state is ever released twice; and when all states have been destroyed,
each of them was released once exactly if no combine and no final raised. -/
theorem released_once_iff (calls : List (AggCall n I)) (env : E) :
    (runCalls ops calls (.start env)).ledger.released.Nodup ∧
      ((runAndDestroy ops calls env).ledger.released.Perm
          (List.range (runAndDestroy ops calls env).ledger.next) ↔
        ∀ role ∈ (runAndDestroy ops calls env).raised, role = .transition) := by
  have hrun := accounted_runCalls ops calls _ (accounted_start env)
  refine ⟨?_, ?_⟩
  · obtain ⟨lost, hb, -⟩ := hrun
    exact hb.nodup
  · have hdestroy : runAndDestroy ops calls env =
        stateAfter (each (destroyState ops) (List.finRange n)) (runCalls ops calls (.start env)) := by
      unfold runAndDestroy runCalls
      rw [List.foldl_append]
      rfl
    obtain ⟨_, w', hr, ⟨lost, hb, hlost⟩, hall⟩ :=
      exists_run_eq_ok_of_wp (wp_destroy ops (List.finRange n) _ hrun)
    rw [hdestroy, stateAfter_of_ok hr]
    have hheld : w'.held = 0 := Finset.sum_eq_zero fun i _ => by
      rw [hall i (.inl (List.mem_finRange i))]
      rfl
    rw [hheld, add_zero, zero_add] at hb
    exact hb.perm_iff.trans hlost

end Ops

/-- The extent of spatial values, over their SRIDs alone: two that differ raise. -/
def extentOps : AggregateOps Unit ℕ ℕ ℕ where
  GATHERS := false
  HAS_FINAL := false
  KEEPS := false
  read := some
  transition env state row :=
    if state.all (· == row) then (.ok (some row), env)
    else (.error (.meos "Operation on mixed SRID"), env)
  combine env x y :=
    if x == y then (.ok (.first x), env) else (.error (.meos "Operation on mixed SRID"), env)
  final env state := (.ok (.same state), env)
  order _ := 0

/-- Two partial states of different SRIDs are combined: neither is ever released. -/
theorem not_released_once :
    ¬ ∀ calls : List (AggCall 2 ℕ), (runAndDestroy extentOps calls ()).ledger.released.Perm
      (List.range (runAndDestroy extentOps calls ()).ledger.next) :=
  fun h => absurd
    (h [.update [(0, 4326)], .update [(1, 3857)], .combine [⟨0, 1, by decide⟩]]) (by decide)

end MobilityDuck
