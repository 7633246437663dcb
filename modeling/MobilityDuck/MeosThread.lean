/-
# The time zone of MEOS on a thread

MEOS keeps its time zone per thread, and DuckDB runs the sessions of a
database on threads they share. A thread starts MEOS in
`MEOS_DEFAULT_TIMEZONE` on its first call, and each call moves it to the zone
of the session that makes it (`followSessionTimezone`), which the thread
records so as not to load a zone twice. A switch releases the zone MEOS holds
before it loads the next, so a switch to an unknown zone raises and leaves
MEOS without one.

A thread holds the zone the last session that states one asked for, or none
when MEOS does not know it (`AskedFor`, `askedFor_threadAfter`). So a session
that states a zone gets it or an error (`enter_of_stated`), and a session that
states none is left with what another left behind (`enter_of_not_stated`): it
is in `MEOS_DEFAULT_TIMEZONE` exactly when that session asked for it.

Key definitions: `MeosThread`, `followSessionTimezone`, `MeosCall.Right`, `threadAfter`, `AskedFor`.
Key theorems: `enter_of_stated`, `enter_of_not_stated`, `every_call_right_iff`.
-/
import MobilityDuck.Lib.Raise
import MobilityDuck.Types
import Mathlib.Data.List.Induction

namespace MobilityDuck

/-- The zone a thread's MEOS starts in. -/
def MEOS_DEFAULT_TIMEZONE : String := "Europe/Brussels"

/-- What one thread keeps of MEOS: whether its caches are initialised (`meos_thread_ready`), the
zone recorded for it (`MeosThreadTimezone`, empty for none), and the zone MEOS holds. -/
structure MeosThread where
  ready : Bool
  timezone : String
  held : Option String
  deriving DecidableEq, Repr

/-- A thread before its first call. The thread that loaded the extension holds a zone already. -/
def MeosThread.start (held : Option String) : MeosThread := ⟨false, MEOS_DEFAULT_TIMEZONE, held⟩

/-- What runs on a thread may raise, and what it wrote before stays written. -/
abbrev OnThread := EStateM Exception MeosThread

/-- A session, as far as its `TimeZone` goes: the setting is absent when ICU is not loaded, and it
may be NULL. -/
structure ClientContext where
  timeZone : Option (Option String)
  deriving DecidableEq, Repr

/-- `SessionTimezone`: the session's setting, or an empty string when it states none. -/
def sessionTimezone (context : ClientContext) : String :=
  match context.timeZone with
  | none => ""
  | some none => ""
  | some (some zone) => zone

section Thread

-- the time zone database of MEOS: a zone it knows loads, for another it raises its error
variable (load : String → Except String Unit)

/-- `meos_initialize_timezone` releases the zone it holds, then loads the one named. -/
def meosInitializeTimezone (name : String) : OnThread Unit := do
  modify fun t => { t with held := none }
  match load name with
  | .error message => throw (.meos message)
  | .ok _ => modify fun t => { t with held := some name }

/-- `EnsureMeosThreadInitialized()`: the initialiser of a thread-local static, which runs again on
the next call when it raises. -/
def ensureMeosThreadInitialized : OnThread Unit := do
  if !(← get).ready then
    meosInitializeTimezone load MEOS_DEFAULT_TIMEZONE
    modify fun t => { t with ready := true }

/-- `FollowSessionTimezone`. -/
def followSessionTimezone (zone : String) : OnThread Unit := do
  ensureMeosThreadInitialized load
  let current := (← get).timezone
  if zone = "" ∨ zone = current then
    return
  -- a failed switch leaves MEOS without a zone, and none is recorded
  modify fun t => { t with timezone := "" }
  try
    meosInitializeTimezone load zone
  catch _ =>
    throw (.invalidInput
      ("MEOS does not know the time zone \"" ++ zone ++ "\" that the session sets"))
  modify fun t => { t with timezone := zone }

/-- `EnsureMeosThreadInitialized(context)`. -/
def ensureMeosThreadInitializedIn (context : ClientContext) : OnThread Unit :=
  followSessionTimezone load (sessionTimezone context)

/-- `FollowingSessionTimezone`: a scalar runs after the thread moved to its session's zone. -/
def followingSessionTimezone {α : Type} (context : ClientContext) (orig : OnThread α) :
    OnThread α := do
  ensureMeosThreadInitializedIn load context
  orig

/-- `MeosCastInitLocal`: the zone a cast carries to the thread that runs it. -/
def meosCastInitLocal (context : Option ClientContext) : String :=
  match context with
  | some context => sessionTimezone context
  | none => ""

/-- `MeosCastTrampoline`. -/
def meosCastTrampoline {α : Type} (localState : Option String) (orig : OnThread α) :
    OnThread α := do
  match localState with
  | some zone => followSessionTimezone load zone
  | none => ensureMeosThreadInitialized load
  orig

/-! ### Calls -/

/-- A call a session makes on the thread: of a scalar, which sees the session's context, or of a
cast, whose local state carries the session's zone. -/
inductive MeosCall
  | scalar (context : ClientContext)
  | cast (zone : String)
  deriving DecidableEq, Repr

/-- The zone the calling session states, empty for none. -/
def MeosCall.stated : MeosCall → String
  | .scalar context => sessionTimezone context
  | .cast zone => zone

/-- The zone the calling session is in. -/
def MeosCall.sessionZone (call : MeosCall) : String :=
  if call.stated = "" then MEOS_DEFAULT_TIMEZONE else call.stated

/-- What the call does before it calls MEOS. -/
def MeosCall.enter : MeosCall → OnThread Unit
  | .scalar context => ensureMeosThreadInitializedIn load context
  | .cast zone => followSessionTimezone load zone

/-- A scalar enters through its session's context. -/
theorem followingSessionTimezone_eq {α : Type} (context : ClientContext) (orig : OnThread α) :
    followingSessionTimezone load context orig = (do (MeosCall.scalar context).enter load; orig) := rfl

/-- A cast enters through the zone of its local state, and without one as a session that states no
zone. -/
theorem meosCastTrampoline_eq {α : Type} (localState : Option String) (orig : OnThread α) :
    meosCastTrampoline load localState orig =
      (do (MeosCall.cast (localState.getD "")).enter load; orig) := by
  cases localState with
  | some zone => rfl
  | none =>
    have hf : followSessionTimezone load "" = ensureMeosThreadInitialized load := by
      funext t
      change (followSessionTimezone load "").run t = (ensureMeosThreadInitialized load).run t
      unfold followSessionTimezone
      simp only [EStateM.run_bind, EStateM.run_get, true_or, if_true]
      cases (ensureMeosThreadInitialized load).run t <;> rfl
    simp only [Option.getD_none, MeosCall.enter, hf]
    rfl

/-- What a call owes its session: if it returns, MEOS holds the session's zone, and it raises when
MEOS does not know the zone the session states. -/
def MeosCall.Right (call : MeosCall) (t : MeosThread) : Prop :=
  match (call.enter load).run t with
  | .ok _ t' => t'.held = some call.sessionZone ∧ (call.stated ≠ "" → load call.stated = .ok ())
  | .error _ _ => True

/-- The thread after `calls`, one after the other; a call that raises ends its own query only. -/
def threadAfter (t : MeosThread) (calls : List MeosCall) : MeosThread :=
  calls.foldl (fun t call => Lib.stateAfter (call.enter load) t) t

/-- The zone stated by the last call of a session that states one. -/
def lastStated (calls : List MeosCall) : Option String :=
  ((calls.map MeosCall.stated).filter (· ≠ "")).getLast?

/-! ### What a call leaves -/

/-- The thread was last asked for `zone`: it holds it, or it has none because MEOS does not know
it. A thread before its first call was asked for the default. -/
def AskedFor (t : MeosThread) (zone : String) : Prop :=
  (t.ready = false → zone = MEOS_DEFAULT_TIMEZONE) ∧
    match load zone with
    | .ok _ => t.timezone = zone ∧ (t.ready = true → t.held = some zone)
    | .error _ => t.timezone = "" ∧ t.ready = true ∧ t.held = none

variable {load}

theorem enter_eq (call : MeosCall) : call.enter load = followSessionTimezone load call.stated := by
  cases call <;> rfl

theorem askedFor_start (hd : load MEOS_DEFAULT_TIMEZONE = .ok ()) (held : Option String) :
    AskedFor load (MeosThread.start held) MEOS_DEFAULT_TIMEZONE := by
  simp [AskedFor, MeosThread.start, hd]

theorem run_meosInitializeTimezone (name : String) (t : MeosThread) :
    (meosInitializeTimezone load name).run t =
      match load name with
      | .ok _ => .ok () { t with held := some name }
      | .error message => .error (.meos message) { t with held := none } := by
  unfold meosInitializeTimezone
  cases load name <;> rfl

/-- The thread after the default zone was loaded, which the first call on it does. -/
def MeosThread.initialised (t : MeosThread) : MeosThread :=
  if t.ready then t else { t with ready := true, held := some MEOS_DEFAULT_TIMEZONE }

@[simp] theorem ready_initialised (t : MeosThread) : t.initialised.ready = true := by
  unfold MeosThread.initialised
  split <;> simp [*]

theorem AskedFor.initialised {t : MeosThread} {zone : String} (h : AskedFor load t zone) :
    AskedFor load t.initialised zone := by
  unfold MeosThread.initialised
  cases hr : t.ready with
  | true => simpa [hr] using h
  | false =>
    have hz : zone = MEOS_DEFAULT_TIMEZONE := h.1 hr
    refine ⟨by simp, ?_⟩
    have h2 := h.2
    cases hl : load zone with
    | ok _ =>
      rw [hl] at h2
      exact ⟨h2.1, fun _ => by simp [hz]⟩
    | error _ =>
      rw [hl] at h2
      simp [hr] at h2

/-- On an initialised thread the zone asked for last is the one recorded and held, if MEOS knows
it. -/
theorem AskedFor.of_ready {t : MeosThread} {zone : String} (h : AskedFor load t zone)
    (ht : t.ready = true) :
    (load zone = .ok () ∧ t.timezone = zone ∧ t.held = some zone) ∨
      (load zone ≠ .ok () ∧ t.timezone = "" ∧ t.held = none) := by
  have h2 := h.2
  cases hl : load zone with
  | ok _ =>
    rw [hl] at h2
    exact .inl ⟨rfl, h2.1, h2.2 ht⟩
  | error _ =>
    rw [hl] at h2
    exact .inr ⟨by simp, h2.1, h2.2.2⟩

theorem run_ensure (hd : load MEOS_DEFAULT_TIMEZONE = .ok ()) (t : MeosThread) :
    (ensureMeosThreadInitialized load).run t = .ok () t.initialised := by
  unfold ensureMeosThreadInitialized MeosThread.initialised
  cases hr : t.ready <;> simp [run_meosInitializeTimezone, hr, hd]

/-- A thread that cannot load the default zone never gets past its first call. -/
theorem run_ensure_of_error {message : String} (hd : load MEOS_DEFAULT_TIMEZONE = .error message)
    {t : MeosThread} (ht : t.ready = false) :
    (ensureMeosThreadInitialized load).run t = .error (.meos message) { t with held := none } := by
  unfold ensureMeosThreadInitialized
  simp [run_meosInitializeTimezone, ht, hd]

theorem run_follow (hd : load MEOS_DEFAULT_TIMEZONE = .ok ()) (t : MeosThread) (zone : String) :
    (followSessionTimezone load zone).run t =
      if zone = "" ∨ zone = t.initialised.timezone then .ok () t.initialised
      else match load zone with
        | .ok _ => .ok () { t.initialised with timezone := zone, held := some zone }
        | .error _ => .error (.invalidInput
            ("MEOS does not know the time zone \"" ++ zone ++ "\" that the session sets"))
            { t.initialised with timezone := "", held := none } := by
  unfold followSessionTimezone
  simp only [EStateM.run_bind, run_ensure hd, EStateM.run_get]
  by_cases hz : zone = "" ∨ zone = t.initialised.timezone
  · simp [hz]
  · simp only [if_neg hz, EStateM.run_bind, EStateM.run_modify, Lib.run_tryCatch,
      run_meosInitializeTimezone]
    cases load zone <;> rfl

/-- A call of a session that states a zone moves the thread to it, or raises when MEOS does not
know it. -/
theorem enter_of_stated (hd : load MEOS_DEFAULT_TIMEZONE = .ok ()) {t : MeosThread} {zone : String}
    (ht : AskedFor load t zone) {call : MeosCall} (hs : call.stated ≠ "") :
    AskedFor load (Lib.stateAfter (call.enter load) t) call.stated ∧ call.Right load t := by
  have hrun := run_follow hd t call.stated
  rw [← enter_eq] at hrun
  by_cases hz : call.stated = t.initialised.timezone
  · -- the zone is recorded, and what is recorded is held
    rw [if_pos (.inr hz)] at hrun
    rw [Lib.stateAfter_of_ok hrun, MeosCall.Right, hrun]
    rcases ht.initialised.of_ready (ready_initialised t) with ⟨hl, htz, hh⟩ | ⟨-, htz, -⟩
    · have hc : call.stated = zone := hz.trans htz
      rw [hc]
      exact ⟨ht.initialised, by rw [hh, MeosCall.sessionZone, if_neg hs, hc], fun _ => hl⟩
    · exact absurd (hz.trans htz) hs
  · rw [if_neg (by simp [hs, hz])] at hrun
    cases hl : load call.stated with
    | ok _ =>
      rw [hl] at hrun
      rw [Lib.stateAfter_of_ok hrun, MeosCall.Right, hrun]
      refine ⟨⟨by simp, by simp [hl]⟩, by simp [MeosCall.sessionZone, hs], fun _ => hl⟩
    | error _ =>
      rw [hl] at hrun
      rw [Lib.stateAfter_of_error hrun, MeosCall.Right, hrun]
      exact ⟨⟨by simp, by simp [hl]⟩, trivial⟩

/-- A call of a session that states none leaves the thread where it was. -/
theorem enter_of_not_stated (hd : load MEOS_DEFAULT_TIMEZONE = .ok ()) {t : MeosThread}
    {zone : String} (ht : AskedFor load t zone) {call : MeosCall} (hs : call.stated = "") :
    AskedFor load (Lib.stateAfter (call.enter load) t) zone ∧
      (call.Right load t ↔ zone = MEOS_DEFAULT_TIMEZONE) := by
  have hrun := run_follow hd t call.stated
  rw [← enter_eq, if_pos (.inl hs)] at hrun
  rw [Lib.stateAfter_of_ok hrun]
  refine ⟨ht.initialised, ?_⟩
  rw [MeosCall.Right, hrun]
  simp only [MeosCall.sessionZone, hs, if_true, ne_eq, not_true_eq_false, false_implies, and_true]
  rcases ht.initialised.of_ready (ready_initialised t) with ⟨-, -, hh⟩ | ⟨hl, -, hh⟩
  · simp [hh]
  · simp only [hh, reduceCtorEq, false_iff]
    rintro rfl
    exact hl hd

/-! ### Runs -/

theorem lastStated_append (calls : List MeosCall) (call : MeosCall) :
    lastStated (calls ++ [call]) = if call.stated = "" then lastStated calls else some call.stated := by
  unfold lastStated
  by_cases hs : call.stated = "" <;> simp [hs]

theorem threadAfter_append (t : MeosThread) (calls : List MeosCall) (call : MeosCall) :
    threadAfter load t (calls ++ [call]) =
      Lib.stateAfter (call.enter load) (threadAfter load t calls) := by
  simp [threadAfter]

/-- After any calls the thread was last asked for the zone the last session that states one
stated. The induction is on the calls from the last one back. -/
theorem askedFor_threadAfter (hd : load MEOS_DEFAULT_TIMEZONE = .ok ()) (held : Option String)
    (calls : List MeosCall) :
    AskedFor load (threadAfter load (MeosThread.start held) calls)
      ((lastStated calls).getD MEOS_DEFAULT_TIMEZONE) := by
  induction calls using List.reverseRecOn with
  | nil => exact askedFor_start hd held
  | append_singleton calls call ih =>
    rw [threadAfter_append, lastStated_append]
    by_cases hs : call.stated = ""
    · rw [if_pos hs]
      exact (enter_of_not_stated hd ih hs).1
    · rw [if_neg hs]
      exact (enter_of_stated hd ih hs).1

/-- A thread that cannot load the default zone raises on every call. -/
theorem enter_of_default_unknown {message : String}
    (hd : load MEOS_DEFAULT_TIMEZONE = .error message) {t : MeosThread} (ht : t.ready = false)
    (call : MeosCall) :
    (call.enter load).run t = .error (.meos message) { t with held := none } := by
  rw [enter_eq]
  unfold followSessionTimezone
  simp only [EStateM.run_bind, run_ensure_of_error hd ht]

theorem ready_threadAfter_of_default_unknown {message : String}
    (hd : load MEOS_DEFAULT_TIMEZONE = .error message) (held : Option String) (calls : List MeosCall) :
    (threadAfter load (MeosThread.start held) calls).ready = false := by
  induction calls using List.reverseRecOn with
  | nil => rfl
  | append_singleton calls call ih =>
    rw [threadAfter_append, Lib.stateAfter_of_error (enter_of_default_unknown hd ih call)]
    exact ih

/-- **Sessions that state a zone get it; the others get what was left.** Every call of a sequence
does right by its session exactly when, before each call of a session that states no zone, no
session had stated one other than the default, or the last that did stated the default. -/
theorem every_call_right_iff (load : String → Except String Unit) (held : Option String)
    (calls : List MeosCall) :
    (∀ before call after, calls = before ++ call :: after →
        call.Right load (threadAfter load (MeosThread.start held) before)) ↔
      (load MEOS_DEFAULT_TIMEZONE = .ok () → ∀ before call after,
        calls = before ++ call :: after → call.stated = "" →
          lastStated before = none ∨ lastStated before = some MEOS_DEFAULT_TIMEZONE) := by
  cases hd : load MEOS_DEFAULT_TIMEZONE with
  | error message =>
    refine ⟨fun _ h => absurd h (by simp), fun _ before call after _ => ?_⟩
    rw [MeosCall.Right,
      enter_of_default_unknown hd (ready_threadAfter_of_default_unknown hd held before) call]
    trivial
  | ok _ =>
    refine ⟨fun h _ before call after hc hs => ?_, fun h before call after hc => ?_⟩
    · have hasked := askedFor_threadAfter hd held before
      have hz := (enter_of_not_stated hd hasked hs).2.mp (h before call after hc)
      cases hl : lastStated before with
      | none => exact .inl rfl
      | some zone => simpa [hl] using hz
    · have hasked := askedFor_threadAfter hd held before
      by_cases hs : call.stated = ""
      · refine (enter_of_not_stated hd hasked hs).2.mpr ?_
        rcases h rfl before call after hc hs with hl | hl <;> rw [hl] <;> rfl
      · exact (enter_of_stated hd hasked hs).2

/-- A session asks for Paris, and then a cast runs there without a context: MEOS stays in Paris. -/
theorem not_every_call_right :
    ¬ ∀ (load : String → Except String Unit) (held : Option String) (calls : List MeosCall),
      ∀ before call after, calls = before ++ call :: after →
        call.Right load (threadAfter load (MeosThread.start held) before) := by
  intro h
  have := h (fun _ => .ok ()) none
    [.scalar ⟨some (some "Europe/Paris")⟩, .cast (meosCastInitLocal none)]
    [.scalar ⟨some (some "Europe/Paris")⟩] (.cast (meosCastInitLocal none)) [] rfl
  exact absurd this.1 (by decide)

end Thread

end MobilityDuck
