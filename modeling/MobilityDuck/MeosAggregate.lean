/-
# An aggregate over its MEOS state

One template runs every aggregate of MEOS from an operations struct. A partial
state is a MEOS state, or the rows gathered for it when the aggregate states
no combine: those are folded when it finishes, in the order of their start
timestamps. DuckDB initialises, updates, combines, finalizes and destroys
states, in any order; an exception ends the call it is raised in, and nothing
else.

MEOS is a parameter with an environment of its own, so that any call may
raise, or answer differently, at any time. A MEOS state and a decoded row are
numbered as they are obtained, and the ledger of the world records what was
released. MEOS takes over the state it folds a row into and answers its
replacement; a combine that answers neither of its states has released the
first; a final consumes its state unless the aggregate states that it keeps
it; writing a result releases it.

Key definitions: `AggregateOps`, `AggState`, `AggWorld`, `combineState`, `finish`, `AggCall.perform`,
`runCalls`.
-/
import MobilityDuck.Lib.Ledger
import MobilityDuck.Lib.Raise
import MobilityDuck.Types
import Mathlib.Algebra.BigOperators.Fin

namespace MobilityDuck

open Lib

/-- What a combine answers: nothing, its first state or its second one, or a state of its own. -/
inductive Joined (α : Type)
  | null
  | first (state : α)
  | second (state : α)
  | fresh (state : α)

/-- What a final answers: nothing, the state it was given, or a value of its own. -/
inductive Answered (α : Type)
  | null
  | same (value : α)
  | fresh (value : α)

/-- The operations struct of an aggregate, over the inputs `I` of a row, the rows `R` they decode to
and the contents `V` of a MEOS state. `E` is whatever MEOS's answers depend on besides. -/
structure AggregateOps (E I R V : Type) where
  GATHERS : Bool
  HAS_FINAL : Bool
  KEEPS : Bool
  read : I → Option R
  transition : E → Option V → R → Except Exception (Option V) × E
  combine : E → V → V → Except Exception (Joined V) × E
  final : E → V → Except Exception (Answered V) × E
  order : R → ℤ

/-- A MEOS state or result: its number and what it holds. -/
structure MeosState (V : Type) where
  id : ℕ
  val : V

/-- A row that was decoded. -/
structure DecodedRow (R : Type) where
  id : ℕ
  row : R

/-- `State`. -/
structure AggState (R V : Type) where
  state : Option (MeosState V)
  rows : Option (List (DecodedRow R))

/-- `Initialize`. -/
def AggState.initialized {R V : Type} : AggState R V := ⟨none, none⟩

/-- The calls of MEOS that may raise. -/
inductive Role
  | transition
  | combine
  | final
  deriving DecidableEq, Repr

/-- The partial states of an aggregate, and what was done with them: what was released, which calls
of MEOS raised, the last one first, and what was written at which row, the last one first. -/
structure AggWorld (E R V : Type) (n : ℕ) where
  env : E
  ledger : Ledger
  raised : List Role
  states : Fin n → AggState R V
  written : List (ℕ × Option V)

/-- What works on the states may raise. -/
abbrev Agg (E R V : Type) (n : ℕ) := EStateM Exception (AggWorld E R V n)

section World

variable {E R V : Type} {n : ℕ}

def newId : Agg E R V n ℕ := do
  let w ← get
  set { w with ledger := w.ledger.alloc }
  return w.ledger.next

/-- `free`, and `OPS::Free`. -/
def freeId (id : ℕ) : Agg E R V n Unit := modify fun w => { w with ledger := w.ledger.free id }

def stateAt (i : Fin n) : Agg E R V n (AggState R V) := do return (← get).states i

def setState (i : Fin n) (s : AggState R V) : Agg E R V n Unit :=
  modify fun w => { w with states := Function.update w.states i s }

def writeAt (ridx : ℕ) (value : Option V) : Agg E R V n Unit :=
  modify fun w => { w with written := (ridx, value) :: w.written }

/-- A call of MEOS that raised. -/
def raiseMeos {α : Type} (role : Role) (e : Exception) : Agg E R V n α := do
  modify fun w => { w with raised := role :: w.raised }
  throw e

/-- A state or a value MEOS built. -/
def newState (val : V) : Agg E R V n (MeosState V) := do return ⟨← newId, val⟩

def freeState : Option (MeosState V) → Agg E R V n Unit
  | none => pure ()
  | some state => freeId state.id

/-- `if (c) x;` -/
def doIf (c : Bool) (x : Agg E R V n Unit) : Agg E R V n Unit := if c then x else pure ()

/-- The loop of a call over its rows. -/
def each {α : Type} (body : α → Agg E R V n Unit) : List α → Agg E R V n Unit
  | [] => pure ()
  | a :: as => do
    body a
    each body as

section Rules

variable {F : Exception → AggWorld E R V n → Prop} {w : AggWorld E R V n}

@[simp] theorem wp_stateAt {i : Fin n} {Q : AggState R V → AggWorld E R V n → Prop} :
    wp (stateAt i) Q F w ↔ Q (w.states i) w := Iff.rfl

@[simp] theorem wp_setState {i : Fin n} {s : AggState R V} {Q : Unit → AggWorld E R V n → Prop} :
    wp (setState i s) Q F w ↔ Q () { w with states := Function.update w.states i s } := Iff.rfl

@[simp] theorem wp_freeId {id : ℕ} {Q : Unit → AggWorld E R V n → Prop} :
    wp (freeId id) Q F w ↔ Q () { w with ledger := w.ledger.free id } := Iff.rfl

@[simp] theorem wp_writeAt {ridx : ℕ} {value : Option V} {Q : Unit → AggWorld E R V n → Prop} :
    wp (writeAt ridx value) Q F w ↔ Q () { w with written := (ridx, value) :: w.written } :=
  Iff.rfl

@[simp] theorem wp_newId {Q : ℕ → AggWorld E R V n → Prop} :
    wp newId Q F w ↔ Q w.ledger.next { w with ledger := w.ledger.alloc } := Iff.rfl

@[simp] theorem wp_raiseMeos {α : Type} {role : Role} {e : Exception}
    {Q : α → AggWorld E R V n → Prop} :
    wp (raiseMeos role e) Q F w ↔ F e { w with raised := role :: w.raised } := Iff.rfl

/-- An invariant of the turns of a loop, whether they raise or not, is one of the loop. The induction
is on the rows that are left. -/
theorem wp_each {α : Type} {body : α → Agg E R V n Unit} {P : AggWorld E R V n → Prop} :
    ∀ (as : List α) (w : AggWorld E R V n),
      (∀ a ∈ as, ∀ w, P w → wp (body a) (fun _ w' => P w') (fun _ w' => P w') w) → P w →
      wp (each body as) (fun _ w' => P w') (fun _ w' => P w') w
  | [], _, _, h => h
  | a :: as, w, hbody, h => by
    rw [each, wp_bind]
    refine (hbody a List.mem_cons_self w h).mono (fun _ w' h' => ?_) fun _ _ h' => h'
    exact wp_each as w' (fun a' ha' => hbody a' (List.mem_cons_of_mem _ ha')) h'

end Rules

end World

section Ops

variable {E I R V : Type} (ops : AggregateOps E I R V) {n : ℕ}

/-! ### The calls of MEOS -/

/-- `OPS::Transition`, which takes over the state it is given and answers its replacement. -/
def callTransition (state : Option (MeosState V)) (row : R) :
    Agg E R V n (Option (MeosState V)) := do
  let w ← get
  let answer := ops.transition w.env (state.map MeosState.val) row
  set { w with env := answer.2 }
  match answer.1 with
  | .error e => raiseMeos .transition e
  | .ok none => do
    freeState state
    return none
  | .ok (some val) => do
    freeState state
    return some (← newState val)

/-- `OPS::Combine`, which has released its first state when it answers neither. -/
def callCombine (x y : MeosState V) : Agg E R V n (Joined (MeosState V)) := do
  let w ← get
  let answer := ops.combine w.env x.val y.val
  set { w with env := answer.2 }
  match answer.1 with
  | .error e => raiseMeos .combine e
  | .ok .null => do
    freeId x.id
    return .null
  | .ok (.first val) => return .first ⟨x.id, val⟩
  | .ok (.second val) => return .second ⟨y.id, val⟩
  | .ok (.fresh val) => do
    freeId x.id
    return .fresh (← newState val)

/-- `OPS::Final`, which consumes its state unless it keeps it. -/
def callFinal (state : MeosState V) : Agg E R V n (Answered (MeosState V)) := do
  let w ← get
  let answer := ops.final w.env state.val
  set { w with env := answer.2 }
  match answer.1 with
  | .error e => raiseMeos .final e
  | .ok .null => do
    doIf (!ops.KEEPS) (freeId state.id)
    return .null
  | .ok (.same val) => return .same ⟨state.id, val⟩
  | .ok (.fresh val) => do
    doIf (!ops.KEEPS) (freeId state.id)
    return .fresh (← newState val)

/-! ### The template -/

/-- `Fold`: the row is released either way. -/
def fold (i : Fin n) (row : DecodedRow R) : Agg E R V n Unit := do
  let s ← stateAt i
  let state ← tryCatch (callTransition ops s.state row.row) fun e => do
    freeId row.id
    throw e
  setState i { s with state := state }
  freeId row.id

/-- `free(OPS::Final(state))`. -/
def releaseFinal (state : MeosState V) : Agg E R V n Unit := do
  match ← callFinal ops state with
  | .null => pure ()
  | .same value => freeId value.id
  | .fresh value => freeId value.id

/-- `Release`. -/
def release : Option (MeosState V) → Agg E R V n Unit
  | none => pure ()
  | some state => if !ops.HAS_FINAL || ops.KEEPS then freeId state.id else releaseFinal ops state

omit ops in
def freeRows (rows : List (DecodedRow R)) : Agg E R V n Unit := each (fun row => freeId row.id) rows

omit ops in
/-- `ReleaseRows`. -/
def releaseRows (i : Fin n) : Agg E R V n Unit := do
  let s ← stateAt i
  freeRows (s.rows.getD [])
  setState i { s with rows := none }

/-- `std::stable_sort` by the start timestamps. -/
def sortRows (rows : List (DecodedRow R)) : List (DecodedRow R) :=
  rows.mergeSort fun a b => !decide (ops.order b.row < ops.order a.row)

/-- The loop of `FoldGathered`; the rows behind one that raises are released. -/
def foldRows (i : Fin n) : List (DecodedRow R) → Agg E R V n Unit
  | [] => pure ()
  | row :: rows => do
    tryCatch (fold ops i row) fun e => do
      freeRows rows
      throw e
    foldRows i rows

omit ops in
/-- `delete s.rows; s.rows = nullptr`. -/
def clearRows (i : Fin n) : Agg E R V n Unit := do
  let s ← stateAt i
  setState i { s with rows := none }

/-- `FoldGathered`. -/
def foldGathered (i : Fin n) : Agg E R V n Unit := do
  match (← stateAt i).rows with
  | none => pure ()
  | some rows => do
    tryCatch (foldRows ops i (sortRows ops rows)) fun e => do
      clearRows i
      throw e
    clearRows i

/-- A row of `Update`: the state it goes to and its inputs. -/
def updateRow (p : Fin n × I) : Agg E R V n Unit := do
  match ops.read p.2 with
  | none => pure ()
  | some row => do
    let row : DecodedRow R := ⟨← newId, row⟩
    if ops.GATHERS then do
      let s ← stateAt p.1
      setState p.1 { s with rows := some (s.rows.getD [] ++ [row]) }
    else fold ops p.1 row

/-- A pair of states DuckDB combines, which are two. -/
structure Pair (n : ℕ) where
  source : Fin n
  target : Fin n
  ne : source ≠ target

/-- The rows of the source go behind those of the target. -/
def combineRows (p : Pair n) : Agg E R V n Unit := do
  let b ← stateAt p.source
  match b.rows with
  | none => pure ()
  | some rows => do
    let a ← stateAt p.target
    setState p.target { a with rows := some (a.rows.getD [] ++ rows) }
    setState p.source { b with rows := none }

/-- The two states of a pair joined, into the target. -/
def joinStates (p : Pair n) : Agg E R V n Unit := do
  let a ← stateAt p.target
  let b ← stateAt p.source
  setState p.source { b with state := none }
  match a.state, b.state with
  | none, y => setState p.target { a with state := y }
  | some _, none => pure ()
  | some x, some y => do
    setState p.target { a with state := none }
    match ← callCombine ops x y with
    | .null => do
      release ops (some y)
      setState p.target { a with state := none }
    | .first r => do
      release ops (some y)
      setState p.target { a with state := some r }
    | .second r => do
      release ops (some x)
      setState p.target { a with state := some r }
    | .fresh r => do
      release ops (some y)
      setState p.target { a with state := some r }

/-- A row of `Combine`. -/
def combineState (p : Pair n) : Agg E R V n Unit :=
  if ops.GATHERS then combineRows p else joinStates ops p

/-- The result over a state that is there, and the state released if it was kept. -/
def resultOf (state : MeosState V) : Agg E R V n (Option (MeosState V)) :=
  if ops.HAS_FINAL then do
    match ← callFinal ops state with
    | .null => do
      doIf ops.KEEPS (freeId state.id)
      return none
    | .same r => return some r
    | .fresh r => do
      doIf ops.KEEPS (freeId state.id)
      return some r
  else return some state

/-- `Finish`, at row `ridx` of the result. -/
def finish (i : Fin n) (ridx : ℕ) : Agg E R V n Unit := do
  doIf ops.GATHERS (foldGathered ops i)
  let s ← stateAt i
  setState i { s with state := none }
  match s.state with
  | none => writeAt ridx none
  | some state => do
    match ← resultOf ops state with
    | none => writeAt ridx none
    | some r => do
      freeId r.id
      writeAt ridx (some r.val)

/-- A row of `Destroy`, which raises nothing. -/
def destroyState (i : Fin n) : Agg E R V n Unit := do
  let s ← stateAt i
  tryCatch (release ops s.state) fun _ => pure ()
  setState i { s with state := none }
  releaseRows i

/-- A call of DuckDB, over the rows of its vectors. A constant vector of states is finalized at row
0 of a constant result. -/
inductive AggCall (n : ℕ) (I : Type)
  | update (rows : List (Fin n × I))
  | combine (pairs : List (Pair n))
  | finalize (states : List (Fin n)) (offset : ℕ)
  | finalizeConstant (state : Fin n)
  | destroy (states : List (Fin n))

def AggCall.perform : AggCall n I → Agg E R V n Unit
  | .update rows => each (updateRow ops) rows
  | .combine pairs => each (combineState ops) pairs
  | .finalize states offset => each (fun p => finish ops p.1 (p.2 + offset)) states.zipIdx
  | .finalizeConstant state => finish ops state 0
  | .destroy states => each (destroyState ops) states

/-- The states as they are initialised. -/
def AggWorld.start (env : E) : AggWorld E R V n := ⟨env, .empty, [], fun _ => .initialized, []⟩

/-- The calls, one after the other; one that raises leaves what it did. -/
def runCalls (calls : List (AggCall n I)) (w : AggWorld E R V n) : AggWorld E R V n :=
  calls.foldl (fun w c => stateAfter (c.perform ops) w) w

end Ops

end MobilityDuck
