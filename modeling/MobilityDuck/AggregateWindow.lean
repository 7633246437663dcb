/-
# Aggregates over windows

A window's segment tree combines one partial state into several: into its
parent, and into the frames of many rows. DuckDB asks for it with
`PRESERVE_INPUT`, which `Combine` does not look at: it empties its source
whatever is asked. A state denotes the rows it gathered, or those the
MEOS state sums up, given what the transition, the combine and the final of
the aggregate do with them (`Summarises`).

Every step does with the rows what a combine that empties its source does
(`wp_perform_denotes`), so every state denotes the rows it should, and is
finalized with their aggregate, exactly as long as no source that had to be
preserved held any row (`denotes_iff`).

Key definitions: `Summarises`, `AggState.Denotes`, `AggStep`, `intended`.
Key theorems: `wp_perform_denotes`, `denotes_iff`.
-/
import MobilityDuck.AggregateGather

namespace MobilityDuck

open Lib

/-- `AggregateCombineType`: whether `Combine` may take the source states apart. -/
inductive CombineType
  | PRESERVE_INPUT
  | ALLOW_DESTRUCTIVE
  deriving DecidableEq, Repr

/-- A row of a call of `Update` or `Combine`; `Combine` is handed its type in its
`AggregateInputData`. -/
inductive AggStep (n : ℕ) (I : Type)
  | update (row : Fin n × I)
  | combine (pair : Pair n) (combine_type : CombineType)

section Ops

variable {E I R V : Type} (ops : AggregateOps E I R V) {n : ℕ}

/-- `Combine` does not read its type. -/
def AggStep.perform : AggStep n I → Agg E R V n Unit
  | .update row => updateRow ops row
  | .combine pair _ => combineState ops pair

def runSteps (steps : List (AggStep n I)) (w : AggWorld E R V n) : AggWorld E R V n :=
  steps.foldl (fun w step => stateAfter (step.perform ops) w) w

/-! ### What the states should denote -/

/-- What a step should do with the rows: a source that is preserved keeps its own. -/
def AggStep.intend (b : Fin n → Multiset R) : AggStep n I → Fin n → Multiset R
  | .update row => (updateFlow ops row).apply b
  | .combine pair .PRESERVE_INPUT =>
    Function.update b pair.target (b pair.target + b pair.source)
  | .combine pair .ALLOW_DESTRUCTIVE => (combineFlow pair).apply b

/-- The rows the states should denote. -/
def intended (steps : List (AggStep n I)) : Fin n → Multiset R :=
  steps.foldl (AggStep.intend ops) fun _ => 0

/-- `Summary v M` says that the MEOS state `v` sums up the rows `M`: the transition adds one to
them, the combine joins two of them, and the final answers their aggregate. -/
structure Summarises (Summary : V → Multiset R → Prop) (answer : Multiset R → Option V) :
    Prop where
  transition_none : ∀ env row, ∃ v, (ops.transition env none row).1 = .ok (some v) ∧ Summary v {row}
  transition_some : ∀ env v M row, Summary v M →
    ∃ v', (ops.transition env (some v) row).1 = .ok (some v') ∧ Summary v' (M + {row})
  combine : ∀ env x y M N, Summary x M → Summary y N →
    ∃ joined v, (ops.combine env x y).1 = .ok joined ∧ joined.toOption = some v ∧ Summary v (M + N)
  final : ∀ env v M, Summary v M → finalResult ops env (some v) = .ok (answer M)
  answer_zero : answer 0 = none

/-- The rows a partial state denotes: those it gathered, or those its MEOS state sums up. -/
def AggState.Denotes (Summary : V → Multiset R → Prop) (s : AggState R V) (M : Multiset R) : Prop :=
  if ops.GATHERS then s.state = none ∧ ((s.rows.getD []).map DecodedRow.row : Multiset R) = M
  else match s.state with
    | none => M = 0
    | some state => M ≠ 0 ∧ Summary state.val M

/-- Finalized, a state is the aggregate of the rows: that of the rows in the order of their start
timestamps when they are gathered. -/
def FinishesWith (answer : Multiset R → Option V) (w : AggWorld E R V n) (i : Fin n)
    (M : Multiset R) : Prop :=
  ∀ ridx, if ops.GATHERS then
      ∃ ordered : List R, ↑ordered = M ∧
        ordered.Pairwise (fun x y => ops.order x ≤ ops.order y) ∧
        wp (finish ops i ridx)
          (fun _ w' => ∃ v, aggregateOf ops w.env ordered = .ok v ∧
            w'.written = (ridx, v) :: w.written)
          (fun e _ => aggregateOf ops w.env ordered = .error e) w
    else wp (finish ops i ridx) (fun _ w' => w'.written = (ridx, answer M) :: w.written)
      (fun _ _ => False) w

/-- Every state denotes its rows. -/
def Denoted (Summary : V → Multiset R → Prop) (w : AggWorld E R V n) (b : Fin n → Multiset R) :
    Prop :=
  ∀ i, (w.states i).Denotes ops Summary (b i)

section Steps

variable {Summary : V → Multiset R → Prop} {answer : Multiset R → Option V}
  {b : Fin n → Multiset R} {w : AggWorld E R V n}

/-- A state that denotes no rows denotes no others. -/
theorem AggState.Denotes.eq_zero {s : AggState R V} {M : Multiset R}
    (h : s.Denotes ops Summary 0) (h' : s.Denotes ops Summary M) : M = 0 := by
  unfold AggState.Denotes at h h'
  by_cases hg : ops.GATHERS = true
  · rw [if_pos hg] at h h'
    exact h'.2.symm.trans h.2
  · rw [if_neg hg] at h h'
    cases hs : s.state with
    | none => simpa [hs] using h'
    | some state => simp [hs] at h

theorem denoted_of_gathers (hg : ops.GATHERS = true) :
    Denoted ops Summary w b ↔ Gathered Finset.univ w b := by
  simp [Denoted, Gathered, AggState.Denotes, hg]

/-! ### An aggregate with a combine of its own -/

theorem Denoted.none (hg : ops.GATHERS = false) (h : Denoted ops Summary w b) {i : Fin n}
    (hs : (w.states i).state = none) : b i = 0 := by
  have hi := h i
  unfold AggState.Denotes at hi
  simpa [hg, hs] using hi

theorem Denoted.some (hg : ops.GATHERS = false) (h : Denoted ops Summary w b) {i : Fin n}
    {state : MeosState V} (hs : (w.states i).state = some state) :
    b i ≠ 0 ∧ Summary state.val (b i) := by
  have hi := h i
  unfold AggState.Denotes at hi
  simpa [hg, hs] using hi

theorem denotes_none (hg : ops.GATHERS = false) (rows : Option (List (DecodedRow R))) :
    AggState.Denotes ops Summary ⟨none, rows⟩ 0 := by
  simp [AggState.Denotes, hg]

theorem denotes_some (hg : ops.GATHERS = false) (rows : Option (List (DecodedRow R)))
    {state : MeosState V} {M : Multiset R} (hne : M ≠ 0) (hsum : Summary state.val M) :
    AggState.Denotes ops Summary ⟨some state, rows⟩ M := by
  simp [AggState.Denotes, hg, hne, hsum]

/-- A state is put where it denotes its rows, and the others keep theirs. -/
theorem Denoted.update (h : Denoted ops Summary w b) {i : Fin n} {s : AggState R V}
    {M : Multiset R} (hs : s.Denotes ops Summary M) :
    Denoted ops Summary { w with states := Function.update w.states i s } (Function.update b i M) := by
  intro j
  by_cases hj : j = i
  · subst hj
    simpa only [Function.update_self] using hs
  · simpa only [Function.update_of_ne hj] using h j

theorem wp_updateRow_summary (hg : ops.GATHERS = false) (hlaws : Summarises ops Summary answer)
    (p : Fin n × I) (h : Denoted ops Summary w b) :
    wp (updateRow ops p) (fun _ w' => Denoted ops Summary w' ((updateFlow ops p).apply b))
      (fun _ _ => False) w := by
  unfold updateRow updateFlow
  cases ops.read p.2 with
  | none =>
    simp only [wp_pure, Option.elim_none, Flow.apply, add_zero, Function.update_eq_self]
    exact h
  | some row =>
    simp only
    rw [wp_bind, wp_newId, hg]
    simp only [Bool.false_eq_true, if_false, Option.elim_some, Flow.apply]
    set w₀ : AggWorld E R V n := { w with ledger := w.ledger.alloc } with hw₀
    -- what the transition answers over the state that is there
    have htrans : ∃ v, (ops.transition w.env ((w.states p.1).state.map MeosState.val) row).1 =
        .ok (some v) ∧ Summary v (b p.1 + {row}) := by
      cases hs : (w.states p.1).state with
      | none =>
        rw [Denoted.none ops hg h hs, zero_add]
        exact hlaws.transition_none w.env row
      | some state => exact hlaws.transition_some w.env _ _ row (Denoted.some ops hg h hs).2
    obtain ⟨v, hv, hsum⟩ := htrans
    refine ((wp_fold ops p.1 ⟨w.ledger.next, row⟩ w₀).and
      (wp_fold_val ops p.1 ⟨w.ledger.next, row⟩ w₀)).mono ?_ ?_
    · rintro _ w' ⟨⟨-, state, hs, -⟩, hr, -⟩
      rw [hr] at hv
      rw [hs, Function.update_self] at hv
      cases state with
      | none => cases hv
      | some state =>
        injection hv with hv
        injection hv with hv
        subst hv
        have hdenotes := h.update ops (i := p.1) (denotes_some ops hg (w.states p.1).rows
          (by simp) hsum)
        intro i
        rw [hs]
        exact hdenotes i
    · rintro e w' ⟨-, hr⟩
      rw [hv] at hr
      cases hr

theorem wp_callCombine_val (x y : MeosState V) :
    wp (callCombine ops x y)
      (fun r w' => ∃ joined, (ops.combine w.env x.val y.val).1 = .ok joined ∧
        r.toOption.map MeosState.val = joined.toOption ∧ w'.states = w.states)
      (fun e _ => (ops.combine w.env x.val y.val).1 = .error e) w := by
  unfold callCombine
  rw [wp_bind, wp_get, wp_bind, wp_set]
  rcases (ops.combine w.env x.val y.val).1 with e | _ | val | val | val
  · exact rfl
  all_goals exact ⟨_, rfl, rfl, rfl⟩

/-- The release of a state that sums up rows raises nothing: neither does its final. -/
theorem wp_release_summary (hlaws : Summarises ops Summary answer) {state : MeosState V}
    {M : Multiset R} (hsum : Summary state.val M) :
    wp (release ops (some state)) (fun _ w' => w'.states = w.states) (fun _ _ => False) w := by
  unfold release
  by_cases hc : (!ops.HAS_FINAL || ops.KEEPS) = true
  · simp only [if_pos hc]
    exact rfl
  · have hf : ops.HAS_FINAL = true := by
      simp only [Bool.or_eq_true, not_or, Bool.not_eq_true', Bool.not_eq_false] at hc
      exact hc.1
    have hfinal := hlaws.final w.env _ _ hsum
    rw [finalResult, if_pos hf] at hfinal
    simp only [if_neg hc]
    unfold releaseFinal
    rw [wp_bind]
    refine ((local_callFinal ops state w).and (wp_callFinal_val ops state w)).mono ?_ ?_
    · rintro r w' ⟨⟨hs, -, -⟩, -⟩
      cases r with
      | null => exact hs
      | same r => exact hs
      | fresh r => exact hs
    · rintro e w' ⟨-, hr⟩
      rw [hfinal] at hr
      cases hr

/-- The states of a pair are joined: the target sums up the rows of both, and the source is empty. -/
theorem wp_joinStates_summary (hg : ops.GATHERS = false) (hlaws : Summarises ops Summary answer)
    (p : Pair n) (h : Denoted ops Summary w b) :
    wp (joinStates ops p) (fun _ w' => Denoted ops Summary w' ((combineFlow p).apply b))
      (fun _ _ => False) w := by
  unfold combineFlow
  rw [Flow.apply, Function.update_comm p.ne.symm]
  -- the source is emptied in every case
  have h₁ : Denoted ops Summary
      { w with states := Function.update w.states p.source ⟨none, (w.states p.source).rows⟩ }
      (Function.update b p.source 0) := h.update ops (denotes_none ops hg _)
  refine wp_joinStates ops ?_ ?_ ?_
  · intro hx
    rw [h.none ops hg hx, zero_add]
    refine h₁.update ops ?_
    cases hy : (w.states p.source).state with
    | none =>
      rw [h.none ops hg hy]
      exact denotes_none ops hg _
    | some y =>
      obtain ⟨hne, hsum⟩ := h.some ops hg hy
      exact denotes_some ops hg _ hne hsum
  · intro hy
    have hkeep : Function.update (Function.update b p.source 0) p.target (b p.target) =
        Function.update b p.source 0 := by
      rw [Function.update_comm p.ne, Function.update_eq_self]
    rw [h.none ops hg hy, add_zero, hkeep]
    exact h₁
  · intro x y hx hy
    obtain ⟨hxne, hxsum⟩ := h.some ops hg hx
    obtain ⟨-, hysum⟩ := h.some ops hg hy
    obtain ⟨joined, v, hjoined, hv, hsum⟩ := hlaws.combine w.env _ _ _ _ hxsum hysum
    refine (wp_callCombine_val ops x y).mono ?_ ?_
    · rintro answered w₃ ⟨joined', hj, hval, hs⟩
      rw [hjoined] at hj
      cases hj
      rw [hv] at hval
      obtain ⟨r, hr, hrv⟩ := Option.map_eq_some_iff.mp hval
      -- the state left over is one of the two, so its release raises nothing
      obtain ⟨M, hleft⟩ : ∃ M, Summary (answered.leftover x y).val M := by
        cases answered with
        | second => exact ⟨_, hxsum⟩
        | null | first | fresh => exact ⟨_, hysum⟩
      rw [wp_bind]
      refine (wp_release_summary ops hlaws hleft).mono ?_ fun _ _ h => h
      rintro _ w₄ hs'
      rw [wp_setState, hs', hs, hr]
      simp only [Function.update_idem]
      refine h₁.update ops (denotes_some ops hg _ ?_ ?_)
      · simp [hxne]
      · rw [hrv]
        exact hsum
    · rintro e w₃ hr
      rw [hjoined] at hr
      cases hr

/-! ### Steps and runs -/

/-- What a step does with the rows: the source of a combine is emptied, whatever was asked. -/
def AggStep.moved (b : Fin n → Multiset R) : AggStep n I → Fin n → Multiset R
  | .update row => (updateFlow ops row).apply b
  | .combine pair _ => (combineFlow pair).apply b

theorem wp_perform_denotes (hlaws : ops.GATHERS = false → Summarises ops Summary answer)
    (step : AggStep n I) (h : Denoted ops Summary w b) :
    wp (step.perform ops) (fun _ w' => Denoted ops Summary w' (step.moved ops b))
      (fun _ _ => False) w := by
  by_cases hg : ops.GATHERS = true
  · simp only [denoted_of_gathers ops hg] at h ⊢
    cases step with
    | update row => exact wp_updateRow_gathered ops hg row h
    | combine pair combine_type =>
      simp only [AggStep.perform, combineState, if_pos hg]
      exact wp_combineRows_gathered pair (by simp) h
  · have hg : ops.GATHERS = false := by simpa using hg
    cases step with
    | update row => exact wp_updateRow_summary ops hg (hlaws hg) row h
    | combine pair combine_type =>
      simp only [AggStep.perform, combineState, hg, Bool.false_eq_true, if_false]
      exact wp_joinStates_summary ops hg (hlaws hg) pair h

/-- A state that denotes rows is finalized with their aggregate. -/
theorem Denoted.finishesWith (hlaws : ops.GATHERS = false → Summarises ops Summary answer)
    (h : Denoted ops Summary w b) (i : Fin n) : FinishesWith ops answer w i (b i) := by
  intro ridx
  by_cases hg : ops.GATHERS = true
  · rw [if_pos hg]
    obtain ⟨hstate, hrows⟩ := (denoted_of_gathers ops hg).mp h i (Finset.mem_univ i)
    refine ⟨_, ?_, sortRows_sorted ops _, wp_finish ops hg i ridx w hstate⟩
    rw [← hrows]
    exact Multiset.coe_eq_coe.mpr ((List.mergeSort_perm _ _).map _)
  · have hg : ops.GATHERS = false := by simpa using hg
    rw [hg]
    simp only [Bool.false_eq_true, if_false]
    unfold finish
    rw [hg, doIf]
    simp only [Bool.false_eq_true, if_false]
    rw [wp_bind, wp_pure, wp_bind, wp_stateAt, wp_bind, wp_setState]
    cases hs : (w.states i).state with
    | none =>
      rw [h.none ops hg hs, (hlaws hg).answer_zero]
      exact rfl
    | some state =>
      have hfinal := (hlaws hg).final w.env _ _ (h.some ops hg hs).2
      simp only
      rw [wp_bind]
      refine (wp_resultOf_val ops state _).mono ?_ ?_
      · rintro result w' ⟨hresult, hw⟩
        rw [hfinal] at hresult
        injection hresult with hresult
        rw [hresult]
        cases result with
        | none => exact congrArg _ hw
        | some r => exact congrArg _ hw
      · rintro e w' hr
        rw [hfinal] at hr
        cases hr

/-- A step does what it should with the rows unless it empties a source it had to preserve. -/
theorem AggStep.moved_eq_intend {step : AggStep n I}
    (h : ∀ pair, step = .combine pair .PRESERVE_INPUT → b pair.source = 0) :
    step.moved ops b = step.intend ops b := by
  cases step with
  | update row => rfl
  | combine pair combine_type =>
    cases combine_type with
    | ALLOW_DESTRUCTIVE => rfl
    | PRESERVE_INPUT =>
      have hzero := h pair rfl
      have hsource : Function.update b pair.target (b pair.target + b pair.source) pair.source = 0 := by
        rw [Function.update_of_ne pair.ne, hzero]
      simp only [AggStep.moved, AggStep.intend, combineFlow, Flow.apply]
      rw [← hsource, Function.update_eq_self]

theorem intended_append (steps : List (AggStep n I)) (step : AggStep n I) :
    intended ops (steps ++ [step]) = step.intend ops (intended ops steps) := by
  rw [intended, List.foldl_append]
  rfl

theorem runSteps_append (steps : List (AggStep n I)) (step : AggStep n I) (w : AggWorld E R V n) :
    runSteps ops (steps ++ [step]) w = stateAfter (step.perform ops) (runSteps ops steps w) := by
  rw [runSteps, List.foldl_append]
  rfl

theorem denoted_start (env : E) :
    Denoted ops Summary (AggWorld.start env : AggWorld E R V n) fun _ => 0 := by
  intro i
  by_cases hg : ops.GATHERS = true <;> simp [AggState.Denotes, hg, AggWorld.start, AggState.initialized]

theorem denoted_step (hlaws : ops.GATHERS = false → Summarises ops Summary answer)
    {steps : List (AggStep n I)} {env : E} (step : AggStep n I)
    (h : Denoted ops Summary (runSteps ops steps (.start env)) b) :
    Denoted ops Summary (runSteps ops (steps ++ [step]) (.start env)) (step.moved ops b) := by
  rw [runSteps_append]
  exact ((wp_perform_denotes ops hlaws step h).mono (fun _ _ h => h) fun _ _ h => h.elim).stateAfter

/-- As long as no preserved source held a row, the states denote what they should. The induction is
on the run, from its end. -/
theorem denoted_runSteps (hlaws : ops.GATHERS = false → Summarises ops Summary answer) (env : E)
    (steps : List (AggStep n I))
    (hempty : ∀ before pair, before ++ [.combine pair .PRESERVE_INPUT] <+: steps →
      intended ops before pair.source = 0) :
    Denoted ops Summary (runSteps ops steps (.start env)) (intended ops steps) := by
  induction steps using List.reverseRecOn with
  | nil => exact denoted_start ops env
  | append_singleton steps step ih =>
    have h := ih fun before pair hp => hempty before pair (hp.trans (List.prefix_append _ _))
    have hstep := denoted_step ops hlaws step h
    rw [intended_append]
    rwa [AggStep.moved_eq_intend] at hstep
    rintro pair rfl
    exact hempty steps pair (List.prefix_refl _)

/-- A call over vectors takes its rows as steps, none of which raises. -/
theorem stateAfter_each (hlaws : ops.GATHERS = false → Summarises ops Summary answer) {α : Type}
    (f : α → AggStep n I) : ∀ (as : List α) (w : AggWorld E R V n) (b : Fin n → Multiset R),
    Denoted ops Summary w b →
    stateAfter (each (fun a => (f a).perform ops) as) w = runSteps ops (as.map f) w
  | [], _, _, _ => rfl
  | a :: as, w, b, h => by
    obtain ⟨_, w', hr, hw'⟩ := exists_run_eq_ok_of_wp (wp_perform_denotes ops hlaws (f a) h)
    have hfirst : stateAfter (each (fun a => (f a).perform ops) (a :: as)) w =
        stateAfter (each (fun a => (f a).perform ops) as) w' := by
      unfold stateAfter
      rw [each, EStateM.run_bind, hr]
    rw [hfirst, stateAfter_each hlaws f as w' _ hw', List.map_cons, runSteps, runSteps,
      List.foldl_cons, stateAfter_of_ok hr]

/-- `Update` and `Combine` over their vectors are runs of steps. -/
theorem stateAfter_update (hlaws : ops.GATHERS = false → Summarises ops Summary answer)
    (rows : List (Fin n × I)) (h : Denoted ops Summary w b) :
    stateAfter ((AggCall.update rows).perform ops) w = runSteps ops (rows.map .update) w :=
  stateAfter_each ops hlaws .update rows w b h

theorem stateAfter_combine (hlaws : ops.GATHERS = false → Summarises ops Summary answer)
    (pairs : List (Pair n)) (combine_type : CombineType) (h : Denoted ops Summary w b) :
    stateAfter ((AggCall.combine pairs : AggCall n I).perform ops) w =
      runSteps ops (pairs.map (.combine · combine_type)) w :=
  stateAfter_each ops hlaws (.combine · combine_type) pairs w b h

/-- **What a preserved source keeps.** Over an aggregate that gathers its rows, or one whose MEOS
functions sum them up: in a run of any updates and combines, reusing any state, every state denotes
the rows it should at every point of the run, and is finalized with their aggregate, exactly if no
source a combine had to preserve holds a row. -/
theorem denotes_iff (hlaws : ops.GATHERS = false → Summarises ops Summary answer) (env : E)
    (steps : List (AggStep n I)) :
    (∀ before, before <+: steps → ∀ i,
      ((runSteps ops before (.start env)).states i).Denotes ops Summary (intended ops before i) ∧
        FinishesWith ops answer (runSteps ops before (.start env)) i (intended ops before i)) ↔
      ∀ before pair, before ++ [.combine pair .PRESERVE_INPUT] <+: steps →
        intended ops before pair.source = 0 := by
  constructor
  · intro h before pair hp
    have hbefore := (List.prefix_append before [.combine pair .PRESERVE_INPUT]).trans hp
    have hmoved := denoted_step ops hlaws (.combine pair .PRESERVE_INPUT)
      (fun i => (h before hbefore i).1) pair.source
    have hkept := (h _ hp pair.source).1
    rw [intended_append] at hkept
    simp only [AggStep.moved, combineFlow, Flow.apply, Function.update_self] at hmoved
    simp only [AggStep.intend, Function.update_of_ne pair.ne] at hkept
    exact AggState.Denotes.eq_zero ops hmoved hkept
  · intro h before hp i
    have hdenoted := denoted_runSteps ops hlaws env before fun before' pair hp' =>
      h before' pair (hp'.trans hp)
    exact ⟨hdenoted i, hdenoted.finishesWith ops hlaws i⟩

end Steps

end Ops

/-- A sum, which its combine answers in the place of its first state. -/
def sumOps : AggregateOps Unit (Option ℕ) ℕ ℕ where
  GATHERS := false
  HAS_FINAL := true
  KEEPS := false
  read := id
  transition env state row := (.ok (some (state.getD 0 + row)), env)
  combine env x y := (.ok (.first (x + y)), env)
  final env state := (.ok (.fresh state), env)
  order _ := 0

def sumAnswer (M : Multiset ℕ) : Option ℕ := if M = 0 then none else some M.sum

theorem summarises_sumOps :
    Summarises sumOps (fun v M => M ≠ 0 ∧ v = M.sum) sumAnswer where
  transition_none env row := ⟨row, by simp [sumOps]⟩
  transition_some env v M row h := ⟨v + row, by simp [sumOps, h.2]⟩
  combine env x y M N hx hy := ⟨.first (x + y), x + y, by simp [sumOps, Joined.toOption, hx, hy.2]⟩
  final env v M h := by
    simp [finalResult, sumOps, sumAnswer, h, Except.map, Answered.toOption]
  answer_zero := rfl

/-- A leaf of a segment tree that the frames of three rows, 1 to 3, read. -/
def leafSteps : List (AggStep 4 (Option ℕ)) :=
  [.update (0, some 5), .combine ⟨0, 1, by decide⟩ .PRESERVE_INPUT,
    .combine ⟨0, 2, by decide⟩ .PRESERVE_INPUT, .combine ⟨0, 3, by decide⟩ .PRESERVE_INPUT]

theorem denotes_iff_leaf :
    (∀ before, before <+: leafSteps → ∀ i,
      ((runSteps sumOps before (.start ())).states i).Denotes sumOps
          (fun v M => M ≠ 0 ∧ v = M.sum) (intended sumOps before i) ∧
        FinishesWith sumOps sumAnswer (runSteps sumOps before (.start ())) i
          (intended sumOps before i)) ↔
      ∀ before pair, before ++ [.combine pair .PRESERVE_INPUT] <+: leafSteps →
        intended sumOps before pair.source = 0 :=
  denotes_iff sumOps (fun _ => summarises_sumOps) () leafSteps

/-- The frame of the second row is finalized with NULL, and should be the leaf's 5. -/
theorem not_finishesWith_leaf :
    ¬ ∀ (steps : List (AggStep 4 (Option ℕ))) (i : Fin 4),
      FinishesWith sumOps sumAnswer (runSteps sumOps steps (.start ())) i
        (intended sumOps steps i) := by
  intro h
  have h : [(0, none)] = [(0, sumAnswer (intended sumOps leafSteps 2))] := h leafSteps 2 0
  exact absurd h (by decide)

end MobilityDuck
