/-
# An aggregate that gathers its rows

An aggregate that states no combine gathers the rows of a group and folds them
when it finishes. Updates add rows to a state and combines move all rows of a
state to another one, in the terms of bags moved between places (`Gathered`,
`gathered_runCalls`), so whichever way the rows of a group went, the state they
all ended in holds them. It folds them in increasing order of their start
timestamps (`wp_finish`): the result is that of folding the rows of the group
in time, whatever partition, order and tree DuckDB chose.

Key definitions: `foldResult`, `aggregateOf`, `AggCall.flows`, `Gathered`.
Key theorems: `wp_finish`, `finish_gathered`.
-/
import MobilityDuck.Lib.Flow
import MobilityDuck.AggregateRelease

namespace MobilityDuck

open Lib

def Answered.toOption {α : Type} : Answered α → Option α
  | .null => none
  | .same a => some a
  | .fresh a => some a

section Ops

variable {E I R V : Type} (ops : AggregateOps E I R V) {n : ℕ}

/-! ### The aggregate of rows in order -/

/-- The rows folded one after the other with the transition, from a state on. -/
def foldResult : E → Option V → List R → Except Exception (Option V) × E
  | env, state, [] => (.ok state, env)
  | env, state, row :: rows =>
    match ops.transition env state row with
    | (.error e, env') => (.error e, env')
    | (.ok state', env') => foldResult env' state' rows

/-- What the final answers over a state, which is the state itself when there is no final. -/
def finalResult (env : E) : Option V → Except Exception (Option V)
  | none => .ok none
  | some v => if ops.HAS_FINAL then (ops.final env v).1.map Answered.toOption else .ok (some v)

/-- The aggregate of rows, in this order. -/
def aggregateOf (env : E) (rows : List R) : Except Exception (Option V) :=
  match foldResult ops env none rows with
  | (.error e, _) => .error e
  | (.ok state, env') => finalResult ops env' state

/-! ### Folding and finishing -/

theorem wp_callTransition_val (state : Option (MeosState V)) (row : R) (w : AggWorld E R V n) :
    wp (callTransition ops state row)
      (fun r w' => ops.transition w.env (state.map MeosState.val) row =
          (.ok (r.map MeosState.val), w'.env) ∧
        w'.states = w.states ∧ w'.written = w.written)
      (fun e w' => (ops.transition w.env (state.map MeosState.val) row).1 = .error e ∧
        w'.states = w.states) w := by
  unfold callTransition
  rw [wp_bind, wp_get, wp_bind, wp_set]
  rcases h : ops.transition w.env (state.map MeosState.val) row with ⟨e | _ | val, env'⟩
  · exact ⟨rfl, rfl⟩
  · cases state <;> exact ⟨rfl, rfl, rfl⟩
  · cases state <;> exact ⟨rfl, rfl, rfl⟩

theorem wp_freeRows_frame : ∀ (rows : List (DecodedRow R)) (w : AggWorld E R V n),
    wp (freeRows rows : Agg E R V n Unit) (fun _ _ => True) (fun _ _ => False) w
  | [], _ => trivial
  | row :: rows, w => by
    unfold freeRows each
    rw [wp_bind]
    exact wp_freeRows_frame rows _

theorem wp_fold_val (i : Fin n) (row : DecodedRow R) (w : AggWorld E R V n) :
    wp (fold ops i row)
      (fun _ w' => ops.transition w.env ((w.states i).state.map MeosState.val) row.row =
          (.ok ((w'.states i).state.map MeosState.val), w'.env) ∧ w'.written = w.written)
      (fun e _ => (ops.transition w.env ((w.states i).state.map MeosState.val) row.row).1 =
        .error e) w := by
  unfold fold
  rw [wp_bind, wp_stateAt, wp_bind, wp_tryCatch]
  refine (wp_callTransition_val ops (w.states i).state row.row w).mono ?_ ?_
  · rintro state w' ⟨hr, -, hw⟩
    rw [wp_bind, wp_setState, wp_freeId]
    simp only [Function.update_self]
    exact ⟨hr, hw⟩
  · rintro e w' ⟨hr, -⟩
    exact hr

/-- Folding gathered rows folds their contents. The induction is on the rows. -/
theorem wp_foldRows_val (i : Fin n) : ∀ (rows : List (DecodedRow R)) (w : AggWorld E R V n),
    wp (foldRows ops i rows)
      (fun _ w' => foldResult ops w.env ((w.states i).state.map MeosState.val)
          (rows.map DecodedRow.row) = (.ok ((w'.states i).state.map MeosState.val), w'.env) ∧
        w'.written = w.written)
      (fun e _ => (foldResult ops w.env ((w.states i).state.map MeosState.val)
        (rows.map DecodedRow.row)).1 = .error e) w
  | [], w => ⟨rfl, rfl⟩
  | row :: rows, w => by
    rw [foldRows, wp_bind, wp_tryCatch]
    refine (wp_fold_val ops i row w).mono ?_ ?_
    · rintro _ w' ⟨hr, hw⟩
      refine (wp_foldRows_val i rows w').mono ?_ ?_
      · rintro _ w'' ⟨hr', hw'⟩
        refine ⟨?_, hw'.trans hw⟩
        rw [List.map_cons, foldResult, hr]
        exact hr'
      · rintro e w'' hr'
        rw [List.map_cons, foldResult, hr]
        exact hr'
    · rintro e w' hr
      rw [wp_bind]
      refine (wp_freeRows_frame rows w').mono ?_ fun _ _ h => h.elim
      rintro _ w'' -
      rw [wp_throw, List.map_cons, foldResult]
      rcases h : ops.transition w.env ((w.states i).state.map MeosState.val) row.row with
        ⟨e' | state, env'⟩
      · rw [h] at hr
        exact hr
      · rw [h] at hr
        cases hr

theorem wp_foldGathered_val (i : Fin n) (w : AggWorld E R V n) :
    wp (foldGathered ops i)
      (fun _ w' => foldResult ops w.env ((w.states i).state.map MeosState.val)
          ((sortRows ops ((w.states i).rows.getD [])).map DecodedRow.row) =
            (.ok ((w'.states i).state.map MeosState.val), w'.env) ∧ w'.written = w.written)
      (fun e _ => (foldResult ops w.env ((w.states i).state.map MeosState.val)
        ((sortRows ops ((w.states i).rows.getD [])).map DecodedRow.row)).1 = .error e) w := by
  unfold foldGathered
  rw [wp_bind, wp_stateAt]
  cases hrows : (w.states i).rows with
  | none => exact ⟨by simp [sortRows, foldResult], rfl⟩
  | some rows =>
    simp only
    rw [wp_bind, wp_tryCatch]
    refine (wp_foldRows_val ops i (sortRows ops rows) w).mono ?_ fun _ _ h => h
    rintro _ w' ⟨hr, hw⟩
    unfold clearRows
    rw [wp_bind, wp_stateAt, wp_setState]
    simp only [Function.update_self]
    exact ⟨hr, hw⟩

theorem wp_callFinal_val (state : MeosState V) (w : AggWorld E R V n) :
    wp (callFinal ops state)
      (fun r w' => (ops.final w.env state.val).1.map Answered.toOption =
        .ok (r.toOption.map MeosState.val) ∧ w'.written = w.written)
      (fun e _ => (ops.final w.env state.val).1.map Answered.toOption = .error e) w := by
  unfold callFinal
  rw [wp_bind, wp_get, wp_bind, wp_set]
  rcases (ops.final w.env state.val).1 with e | _ | val | val
  · exact rfl
  · cases ops.KEEPS <;> exact ⟨rfl, rfl⟩
  · exact ⟨rfl, rfl⟩
  · cases ops.KEEPS <;> exact ⟨rfl, rfl⟩

theorem wp_resultOf_val (state : MeosState V) (w : AggWorld E R V n) :
    wp (resultOf ops state)
      (fun r w' => finalResult ops w.env (some state.val) = .ok (r.map MeosState.val) ∧
        w'.written = w.written)
      (fun e _ => finalResult ops w.env (some state.val) = .error e) w := by
  unfold resultOf finalResult
  by_cases hf : ops.HAS_FINAL = true
  swap
  · rw [if_neg hf]
    simp only [if_neg hf]
    exact ⟨rfl, rfl⟩
  rw [if_pos hf, wp_bind]
  simp only [if_pos hf]
  refine (wp_callFinal_val ops state w).mono ?_ fun _ _ h => h
  rintro answer w' ⟨hr, hw⟩
  cases answer with
  | null => cases ops.KEEPS <;> exact ⟨hr, hw⟩
  | same r => exact ⟨hr, hw⟩
  | fresh r => cases ops.KEEPS <;> exact ⟨hr, hw⟩

/-- An aggregate that gathers writes the aggregate of its rows in the order they are sorted in, or
raises what that raises. -/
theorem wp_finish (hops : ops.GATHERS = true) (i : Fin n) (ridx : ℕ) (w : AggWorld E R V n)
    (hstate : (w.states i).state = none) :
    wp (finish ops i ridx)
      (fun _ w' => ∃ v, aggregateOf ops w.env
          ((sortRows ops ((w.states i).rows.getD [])).map DecodedRow.row) = .ok v ∧
        w'.written = (ridx, v) :: w.written)
      (fun e _ => aggregateOf ops w.env
        ((sortRows ops ((w.states i).rows.getD [])).map DecodedRow.row) = .error e) w := by
  unfold finish aggregateOf
  rw [hops, doIf, if_pos rfl, wp_bind]
  have hfold := wp_foldGathered_val ops i w
  rw [hstate] at hfold
  refine hfold.mono ?_ ?_
  · rintro _ w₁ ⟨hr, hw⟩
    rw [Option.map_none] at hr
    rw [wp_bind, wp_stateAt, wp_bind, wp_setState, hr]
    cases hs : (w₁.states i).state with
    | none => exact ⟨none, rfl, by rw [← hw]⟩
    | some state =>
      simp only [Option.map_some]
      rw [wp_bind]
      refine (wp_resultOf_val ops state _).mono ?_ fun _ _ h => h
      rintro result w₃ ⟨hresult, hw₃⟩
      cases result with
      | none => exact ⟨none, hresult, by rw [← hw, ← hw₃]⟩
      | some r => exact ⟨some r.val, hresult, by rw [← hw, ← hw₃]⟩
  · intro e w₁ hr
    rw [Option.map_none] at hr
    rcases h : foldResult ops w.env none
      ((sortRows ops ((w.states i).rows.getD [])).map DecodedRow.row) with ⟨e' | v, env'⟩
    · rw [h] at hr
      cases hr
      rfl
    · rw [h] at hr
      cases hr

/-! ### Rows that go from state to state -/

/-- What a row of `Update` adds to its state: its row, unless its first argument is NULL. -/
def updateFlow (p : Fin n × I) : Flow (Fin n) R :=
  .add p.1 ((ops.read p.2).elim 0 fun row => {row})

omit ops in
def combineFlow (p : Pair n) : Flow (Fin n) R := .move p.source p.target p.ne

/-- What a call does with the rows that are gathered. -/
def AggCall.flows : AggCall n I → List (Flow (Fin n) R)
  | .update rows => rows.map (updateFlow ops)
  | .combine pairs => pairs.map combineFlow
  | .finalize _ _ => []
  | .finalizeConstant _ => []
  | .destroy _ => []

omit ops in
/-- The states of `S` are neither finalized nor destroyed. -/
def AggCall.Spares (S : Finset (Fin n)) : AggCall n I → Prop
  | .update _ => True
  | .combine _ => True
  | .finalize states _ => ∀ i ∈ states, i ∉ S
  | .finalizeConstant i => i ∉ S
  | .destroy states => ∀ i ∈ states, i ∉ S

/-- The rows a call adds to the states of `S`, as they are read. -/
def AggCall.rowsTo (S : Finset (Fin n)) : AggCall n I → List R
  | .update rows => rows.filterMap fun p => if p.1 ∈ S then ops.read p.2 else none
  | .combine _ => []
  | .finalize _ _ => []
  | .finalizeConstant _ => []
  | .destroy _ => []

/-- The rows of the group whose partial states are `S`. -/
def groupRows (S : Finset (Fin n)) (calls : List (AggCall n I)) : List R :=
  calls.flatMap (AggCall.rowsTo ops S)

omit ops in
/-- Each state of `S` holds the rows of its bag, and no MEOS state yet. -/
def Gathered (S : Finset (Fin n)) (w : AggWorld E R V n) (b : Fin n → Multiset R) : Prop :=
  ∀ i ∈ S, (w.states i).state = none ∧
    (((w.states i).rows.getD []).map DecodedRow.row : Multiset R) = b i

section Flows

variable {S : Finset (Fin n)} {b : Fin n → Multiset R} {w : AggWorld E R V n}

omit ops in
theorem Gathered.of_states {w' : AggWorld E R V n} (h : Gathered S w b)
    (hs : ∀ i ∈ S, w'.states i = w.states i) : Gathered S w' b := by
  intro i hi
  rw [hs i hi]
  exact h i hi

theorem wp_updateRow_gathered (hops : ops.GATHERS = true) (p : Fin n × I) (h : Gathered S w b) :
    wp (updateRow ops p) (fun _ w' => Gathered S w' ((updateFlow ops p).apply b))
      (fun _ _ => False) w := by
  unfold updateRow updateFlow
  cases ops.read p.2 with
  | none =>
    simp only [wp_pure, Option.elim_none, Flow.apply, add_zero, Function.update_eq_self]
    exact h
  | some row =>
    simp only
    rw [wp_bind, wp_newId, hops, if_pos rfl, wp_bind, wp_stateAt, wp_setState]
    intro i hi
    simp only [Flow.apply, Option.elim_some]
    by_cases hip : i = p.1
    · subst hip
      obtain ⟨hstate, hrows⟩ := h _ hi
      simp only [Function.update_self, Option.getD_some, List.map_append, ← Multiset.coe_add, hrows]
      exact ⟨hstate, rfl⟩
    · simp only [Function.update_of_ne hip]
      exact h i hi

omit ops in
theorem wp_combineRows_gathered (p : Pair n) (hp : p.source ∈ S ↔ p.target ∈ S)
    (h : Gathered S w b) :
    wp (combineRows p) (fun _ w' => Gathered S w' ((combineFlow p).apply b))
      (fun _ _ => False) w := by
  unfold combineRows combineFlow
  rw [wp_bind, wp_stateAt]
  cases hrows : (w.states p.source).rows with
  | none =>
    intro i hi
    obtain ⟨hstate, hb⟩ := h i hi
    simp only [Flow.apply]
    by_cases his : i = p.source
    · subst his
      rw [Function.update_self, hrows]
      exact ⟨hstate, rfl⟩
    rw [Function.update_of_ne his]
    by_cases hit : i = p.target
    · subst hit
      have hsource : b p.source = 0 := by
        rw [← (h _ (hp.mpr hi)).2, hrows]
        rfl
      rw [Function.update_self, hsource, add_zero]
      exact ⟨hstate, hb⟩
    · rw [Function.update_of_ne hit]
      exact ⟨hstate, hb⟩
  | some rows =>
    simp only
    rw [wp_bind, wp_stateAt, wp_bind, wp_setState, wp_setState]
    intro i hi
    obtain ⟨hstate, hb⟩ := h i hi
    simp only [Flow.apply]
    by_cases his : i = p.source
    · subst his
      simp only [Function.update_self]
      exact ⟨hstate, rfl⟩
    simp only [Function.update_of_ne his]
    by_cases hit : i = p.target
    · subst hit
      have hsource := (h _ (hp.mpr hi)).2
      rw [hrows, Option.getD_some] at hsource
      simp only [Function.update_self, Option.getD_some, List.map_append, ← Multiset.coe_add, hb,
        hsource]
      exact ⟨hstate, trivial⟩
    · simp only [Function.update_of_ne hit]
      exact ⟨hstate, hb⟩

omit ops in
/-- What a row of a call does with the bags, its loop does one after the other. The induction is on
the rows that are left. -/
theorem wp_each_gathered {α : Type} {body : α → Agg E R V n Unit} {f : α → Flow (Fin n) R} :
    ∀ (as : List α) (w : AggWorld E R V n) (b : Fin n → Multiset R),
      (∀ a ∈ as, ∀ w b, Gathered S w b →
        wp (body a) (fun _ w' => Gathered S w' ((f a).apply b)) (fun _ _ => False) w) →
      Gathered S w b →
      wp (each body as) (fun _ w' => Gathered S w' (Flow.run (as.map f) b)) (fun _ _ => False) w
  | [], _, _, _, h => h
  | a :: as, w, b, hbody, h => by
    rw [each, wp_bind]
    refine (hbody a List.mem_cons_self w b h).mono ?_ fun _ _ h => h
    exact fun _ w' h' => wp_each_gathered as w' _
      (fun a' ha' => hbody a' (List.mem_cons_of_mem _ ha')) h'

end Flows

/-! ### The other states -/

omit ops in
/-- No partial state but this one was touched. -/
def TouchesOnly (i : Fin n) (w w' : AggWorld E R V n) : Prop :=
  ∀ j, j ≠ i → w'.states j = w.states j

omit ops in
theorem touchesOnly_update {i : Fin n} {s : AggState R V} {w w' : AggWorld E R V n}
    (hs : w'.states = Function.update w.states i s) : TouchesOnly i w w' := by
  intro j hj
  rw [hs, Function.update_of_ne hj]

omit ops in
theorem TouchesOnly.trans {i : Fin n} {w w' w'' : AggWorld E R V n} (h : TouchesOnly i w w')
    (h' : TouchesOnly i w' w'') : TouchesOnly i w w'' := fun j hj => (h' j hj).trans (h j hj)

theorem wp_foldGathered_touches (i : Fin n) (w : AggWorld E R V n) :
    wp (foldGathered ops i) (fun _ w' => TouchesOnly i w w') (fun _ w' => TouchesOnly i w w') w := by
  unfold foldGathered
  rw [wp_bind, wp_stateAt]
  cases (w.states i).rows with
  | none => exact fun _ _ => rfl
  | some rows =>
    simp only
    have hclear : ∀ w' : AggWorld E R V n, FoldsAt i w w' (rowIds (sortRows ops rows)) →
        TouchesOnly i w
          { w' with states := Function.update w'.states i ⟨(w'.states i).state, none⟩ } := by
      rintro w' ⟨state, hs, -⟩
      exact (touchesOnly_update hs).trans (touchesOnly_update rfl)
    rw [wp_bind, wp_tryCatch]
    exact (wp_foldRows ops i (sortRows ops rows) w).mono (fun _ w' h => hclear w' h.2)
      fun _ w' h => hclear w' h.2

theorem wp_finish_touches (i : Fin n) (ridx : ℕ) (w : AggWorld E R V n) :
    wp (finish ops i ridx) (fun _ w' => TouchesOnly i w w') (fun _ w' => TouchesOnly i w w') w := by
  unfold finish
  rw [wp_bind]
  have hfold : wp (doIf ops.GATHERS (foldGathered ops i)) (fun _ w' => TouchesOnly i w w')
      (fun _ w' => TouchesOnly i w w') w := by
    unfold doIf
    split
    · exact wp_foldGathered_touches ops i w
    · exact fun _ _ => rfl
  refine hfold.mono (fun _ w₁ h₁ => ?_) fun _ _ h => h
  rw [wp_bind, wp_stateAt, wp_bind, wp_setState]
  have h₂ : TouchesOnly i w { w₁ with
      states := Function.update w₁.states i ⟨none, (w₁.states i).rows⟩ } :=
    h₁.trans (touchesOnly_update rfl)
  cases (w₁.states i).state with
  | none => exact h₂
  | some state =>
    simp only
    rw [wp_bind]
    refine (local_resultOf ops state _).mono ?_ ?_
    · rintro result w₃ ⟨hs, -, -⟩
      have h₃ : TouchesOnly i w w₃ := h₂.trans fun j _ => by rw [hs]
      cases result with
      | none => exact h₃
      | some r => exact h₃
    · rintro _ w₃ ⟨hs, -, -⟩
      exact h₂.trans fun j _ => by rw [hs]

theorem wp_destroyState_touches (i : Fin n) (w : AggWorld E R V n) :
    wp (destroyState ops i) (fun _ w' => TouchesOnly i w w') (fun _ w' => TouchesOnly i w w') w := by
  have hrows : ∀ w' : AggWorld E R V n, w'.states = w.states →
      wp (do setState i ⟨none, (w.states i).rows⟩; releaseRows i)
        (fun _ w'' => TouchesOnly i w w'') (fun _ w'' => TouchesOnly i w w'') w' := by
    intro w' hs
    rw [wp_bind, wp_setState]
    unfold releaseRows
    rw [wp_bind, wp_stateAt, wp_bind]
    refine (wp_freeRows _ _).mono ?_ fun _ _ h => h.elim
    rintro _ w'' ⟨hs'', -, -⟩
    rw [wp_setState]
    refine touchesOnly_update (i := i) (s := ⟨none, none⟩) ?_
    simp only [hs'', hs, Function.update_self, Function.update_idem]
  unfold destroyState
  rw [wp_bind, wp_stateAt, wp_bind, wp_tryCatch]
  exact (local_release ops (w.states i).state w).mono (fun _ w' h => hrows w' h.1)
    fun _ w' h => hrows w' h.1

/-! ### Runs -/

section Runs

variable {S : Finset (Fin n)} {b : Fin n → Multiset R} {w : AggWorld E R V n}

omit ops in
/-- What touches only states outside `S` leaves what those of `S` gathered. -/
theorem wp_each_spares {α : Type} {body : α → Agg E R V n Unit} (place : α → Fin n)
    (hbody : ∀ a w, wp (body a) (fun _ w' => TouchesOnly (place a) w w')
      (fun _ w' => TouchesOnly (place a) w w') w)
    (as : List α) (hplace : ∀ a ∈ as, place a ∉ S) (h : Gathered S w b) :
    wp (each body as) (fun _ w' => Gathered S w' b) (fun _ w' => Gathered S w' b) w := by
  refine wp_each as w (fun a ha w hw => ?_) h
  have hspares : ∀ w', TouchesOnly (place a) w w' → Gathered S w' b := fun w' h =>
    hw.of_states fun i hi => h i fun heq => hplace a ha (heq ▸ hi)
  exact (hbody a w).mono (fun _ w' h => hspares w' h) fun _ w' h => hspares w' h

/-- A call does with the gathered rows what its flows say, whether it raises or not. -/
theorem gathered_perform (hops : ops.GATHERS = true) (c : AggCall n I) (hc : c.Spares S)
    (hwithin : ∀ f ∈ c.flows ops, f.Within S) (h : Gathered S w b) :
    wp (c.perform ops) (fun _ w' => Gathered S w' (Flow.run (c.flows ops) b))
      (fun _ w' => Gathered S w' (Flow.run (c.flows ops) b)) w := by
  cases c with
  | update rows =>
    refine (wp_each_gathered rows w b (fun p _ w b h => ?_) h).mono (fun _ _ h => h)
      fun _ _ h => h.elim
    exact wp_updateRow_gathered ops hops p h
  | combine pairs =>
    refine (wp_each_gathered pairs w b (fun p hp w b h => ?_) h).mono (fun _ _ h => h)
      fun _ _ h => h.elim
    unfold combineState
    rw [hops, if_pos rfl]
    exact wp_combineRows_gathered p (hwithin _ (List.mem_map_of_mem hp)) h
  | finalize states offset =>
    refine wp_each_spares Prod.fst (fun p => wp_finish_touches ops p.1 (p.2 + offset)) _
      (fun p hp => ?_) h
    exact hc p.1 (List.fst_mem_of_mem_zipIdx hp)
  | finalizeConstant i =>
    have hspares : ∀ w', TouchesOnly i w w' → Gathered S w' b := fun w' ht =>
      h.of_states fun j hj => ht j fun heq => hc (heq ▸ hj)
    exact (wp_finish_touches ops i 0 w).mono (fun _ w' h => hspares w' h) fun _ w' h => hspares w' h
  | destroy states =>
    exact wp_each_spares id (wp_destroyState_touches ops) states hc h

/-- What a run does with the rows it gathers: one call at a time, by induction on the calls. -/
theorem gathered_runCalls (hops : ops.GATHERS = true) : ∀ (calls : List (AggCall n I))
    (w : AggWorld E R V n) (b : Fin n → Multiset R), (∀ c ∈ calls, c.Spares S) →
    (∀ f ∈ calls.flatMap (AggCall.flows ops), f.Within S) → Gathered S w b →
    Gathered S (runCalls ops calls w) (Flow.run (calls.flatMap (AggCall.flows ops)) b)
  | [], _, _, _, _, h => h
  | c :: calls, w, b, hspares, hwithin, h => by
    simp only [List.flatMap_cons, List.mem_append] at hwithin ⊢
    have hc := gathered_perform ops hops c (hspares c List.mem_cons_self)
      (fun f hf => hwithin f (.inl hf)) h
    have hafter : Gathered S (stateAfter (c.perform ops) w) (Flow.run (c.flows ops) b) :=
      hc.stateAfter
    rw [Flow.run, List.foldl_append]
    exact gathered_runCalls hops calls _ _ (fun c' hc' => hspares c' (List.mem_cons_of_mem _ hc'))
      (fun f hf => hwithin f (.inr hf)) hafter

/-- What is added to the states of a group is its rows. -/
theorem sum_added_update (S : Finset (Fin n)) : ∀ rows : List (Fin n × I),
    ((rows.map (updateFlow ops)).map (Flow.added S)).sum =
      (rows.filterMap fun p => if p.1 ∈ S then ops.read p.2 else none : List R)
  | [] => rfl
  | p :: rows => by
    rw [List.map_cons, List.map_cons, List.sum_cons, sum_added_update S rows, List.filterMap_cons,
      updateFlow, Flow.added]
    by_cases hp : p.1 ∈ S
    · rw [if_pos hp, if_pos hp]
      cases ops.read p.2 <;> simp
    · rw [if_neg hp, if_neg hp, zero_add]

theorem sum_added_flows (S : Finset (Fin n)) : ∀ calls : List (AggCall n I),
    ((calls.flatMap (AggCall.flows ops)).map (Flow.added S)).sum = groupRows ops S calls
  | [] => rfl
  | c :: calls => by
    have ih := sum_added_flows S calls
    rw [List.flatMap_cons, List.map_append, List.sum_append, ih, groupRows, groupRows,
      List.flatMap_cons, ← Multiset.coe_add]
    congr 1
    cases c with
    | update rows => exact sum_added_update ops S rows
    | combine pairs =>
      refine List.sum_eq_zero fun x hx => ?_
      obtain ⟨f, hf, rfl⟩ := List.mem_map.mp hx
      obtain ⟨p, -, rfl⟩ := List.mem_map.mp hf
      rfl
    | finalize states offset => rfl
    | finalizeConstant i => rfl
    | destroy states => rfl

theorem sortRows_sorted (rows : List (DecodedRow R)) :
    ((sortRows ops rows).map DecodedRow.row).Pairwise fun x y => ops.order x ≤ ops.order y := by
  refine List.pairwise_map.mpr ?_
  refine (List.pairwise_mergeSort (fun a b c => ?_) (fun a b => ?_) rows).imp fun h => ?_
  · simp only [Bool.not_eq_true', decide_eq_false_iff_not]
    omega
  · simp only [Bool.or_eq_true, Bool.not_eq_true', decide_eq_false_iff_not]
    omega
  · simpa using h

/-- Rows with distinct start timestamps are sorted by increasing ones. -/
theorem sortRows_increasing {rows : List (DecodedRow R)}
    (hdistinct : (rows.map fun row => ops.order row.row).Nodup) :
    ((sortRows ops rows).map DecodedRow.row).Pairwise fun x y => ops.order x < ops.order y := by
  have hperm : (sortRows ops rows).Perm rows := List.mergeSort_perm _ _
  have hne : (sortRows ops rows).Pairwise fun x y => ops.order x.row ≠ ops.order y.row :=
    List.pairwise_map.mp ((hperm.map _).nodup_iff.mpr hdistinct)
  exact ((sortRows_sorted ops rows).and (List.pairwise_map.mpr hne)).imp
    fun h => lt_of_le_of_ne h.1 h.2

/-- **An aggregate that gathers.** The rows of a group go to partial states in any way and any
order, the states are combined along any tree that leaves `t`, and other groups are updated,
combined, finalized and destroyed in between. When the start timestamps of the rows that are not
NULL are distinct, `t` is finalized with the aggregate of these rows in increasing order of their
start timestamps, over whatever MEOS answers; without such rows it is finalized with NULL. -/
theorem finish_gathered (hops : ops.GATHERS = true) (calls : List (AggCall n I)) (env : E)
    {S : Finset (Fin n)} {t : Fin n} (ht : t ∈ S) (hspares : ∀ c ∈ calls, c.Spares S)
    (hwithin : ∀ f ∈ calls.flatMap (AggCall.flows ops), f.Within S)
    (honce : ∀ i ∈ S, i ≠ t → Flow.Drained (calls.flatMap (AggCall.flows ops)) i)
    (hdistinct : ((groupRows ops S calls).map ops.order).Nodup) :
    let w := runCalls ops calls (.start env)
    ∃ ordered : List R, ordered.Perm (groupRows ops S calls) ∧
      ordered.Pairwise (fun x y => ops.order x < ops.order y) ∧
      (groupRows ops S calls = [] → aggregateOf ops w.env ordered = .ok none) ∧
      ∀ ridx, wp (finish ops t ridx)
        (fun _ w' => ∃ v, aggregateOf ops w.env ordered = .ok v ∧ w'.written = (ridx, v) :: w.written)
        (fun e _ => aggregateOf ops w.env ordered = .error e) w := by
  intro w
  have hstart : Gathered S (AggWorld.start env : AggWorld E R V n) (fun _ => 0) :=
    fun _ _ => ⟨rfl, rfl⟩
  obtain ⟨hstate, hrows⟩ := gathered_runCalls ops hops calls _ _ hspares hwithin hstart t ht
  rw [Flow.run_of_all_drained ht hwithin honce, sum_added_flows] at hrows
  have hgroup : (((w.states t).rows.getD []).map DecodedRow.row).Perm (groupRows ops S calls) :=
    Multiset.coe_eq_coe.mp hrows
  have hordered : ((sortRows ops ((w.states t).rows.getD [])).map DecodedRow.row).Perm
      (groupRows ops S calls) := ((List.mergeSort_perm _ _).map _).trans hgroup
  refine ⟨_, hordered, sortRows_increasing ops ?_, fun hempty => ?_, fun ridx =>
    wp_finish ops hops t ridx w hstate⟩
  · have h := (hgroup.map ops.order).nodup_iff.mpr hdistinct
    rwa [List.map_map] at h
  · rw [hempty] at hordered
    rw [hordered.eq_nil]
    rfl

end Runs

end Ops

/-- `appendInstantAgg`, over the start timestamps alone: a value is accepted after those folded. -/
def appendOps : AggregateOps Unit (Option ℤ) ℤ (List ℤ) where
  GATHERS := true
  HAS_FINAL := true
  KEEPS := false
  read := id
  transition env state row :=
    if (state.getD []).all (· < row) then (.ok (some (state.getD [] ++ [row])), env)
    else (.error (.meos "Timestamps for temporal value must be increasing"), env)
  combine env _ _ := (.ok .null, env)
  final env state := (.ok (.fresh state), env)
  order := id

/-- A group over two partial states beside another one: a NULL, rows out of order, and a combine. -/
def appendCalls : List (AggCall 3 (Option ℤ)) :=
  [.update [(0, some 4), (2, some 7), (1, none)], .update [(1, some 2), (0, some 9)],
    .combine [⟨1, 0, by decide⟩], .finalize [2] 0]

theorem finish_gathered_append :
    let w := runCalls appendOps appendCalls (.start ())
    ∃ ordered : List ℤ, ordered.Perm (groupRows appendOps {0, 1} appendCalls) ∧
      ordered.Pairwise (fun x y => appendOps.order x < appendOps.order y) ∧
      (groupRows appendOps {0, 1} appendCalls = [] → aggregateOf appendOps w.env ordered = .ok none) ∧
      ∀ ridx, wp (finish appendOps 0 ridx)
        (fun _ w' => ∃ v, aggregateOf appendOps w.env ordered = .ok v ∧
          w'.written = (ridx, v) :: w.written)
        (fun e _ => aggregateOf appendOps w.env ordered = .error e) w := by
  refine finish_gathered appendOps rfl appendCalls () (S := {0, 1}) (by decide) ?_ ?_ ?_ (by decide)
  · simp [appendCalls, AggCall.Spares]
  · simp [appendCalls, AggCall.flows, updateFlow, combineFlow, Flow.Within]
  · intro i hi hne
    have hi : i = 1 := by simpa [hne] using hi
    subst hi
    exact .inr ⟨[.add 0 {4}, .add 2 {7}, .add 1 0, .add 1 {2}, .add 0 {9}], 0, by decide, [], rfl,
      by simp⟩

end MobilityDuck
