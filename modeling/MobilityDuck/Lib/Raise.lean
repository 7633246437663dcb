/-
# Programs that may raise

An `EStateM ε σ` program reads and writes a state and may raise; what it wrote
before it raised stays written (`stateAfter`). `wp x Q E s` says that `x`, run
from `s`, returns with `Q` or raises with `E`. The rules take a program apart
step by step (`wp_bind` and the simp set), weaken what is known of a call
(`wp.mono`), and carry an invariant through a loop whose measure decreases
(`wp_loop`).

Key definitions: `stateAfter`, `wp`, `loop`. Key theorems: `wp_bind`, `wp.mono`, `wp_loop`.
-/
import Mathlib.Data.List.Basic

namespace Lib

variable {ε σ α β : Type}

/-- The state a program leaves, whether it returns or raises. -/
def stateAfter (x : EStateM ε σ α) (s : σ) : σ :=
  match x.run s with
  | .ok _ s' => s'
  | .error _ s' => s'

/-- The handler runs in the state the body raised in. -/
theorem run_tryCatch (x : EStateM ε σ α) (handler : ε → EStateM ε σ α) (s : σ) :
    (tryCatch x handler).run s =
      match x.run s with
      | .ok a s' => .ok a s'
      | .error e s' => (handler e).run s' := by
  simp only [tryCatch, tryCatchThe, MonadExceptOf.tryCatch, EStateM.tryCatch, EStateM.run]
  cases x s <;> rfl

theorem stateAfter_of_ok {x : EStateM ε σ α} {s s' : σ} {a : α} (h : x.run s = .ok a s') :
    stateAfter x s = s' := by
  rw [stateAfter, h]

theorem stateAfter_of_error {x : EStateM ε σ α} {s s' : σ} {e : ε} (h : x.run s = .error e s') :
    stateAfter x s = s' := by
  rw [stateAfter, h]

/-- A program without a state returns if each of its steps does. -/
theorem except_bind_eq_ok {x : Except ε α} {f : α → Except ε β} {b : β} :
    (x >>= f) = .ok b ↔ ∃ a, x = .ok a ∧ f a = .ok b := by
  cases x with
  | error e => simp [bind, Except.bind]
  | ok a => simp [bind, Except.bind]

/-- A check of the state or the input that may raise. -/
def raiseIf (c : Prop) [Decidable c] (x : EStateM ε σ Unit) : EStateM ε σ Unit :=
  if c then x else pure ()

/-! ### What a program ends in -/

/-- Run from `s`, the program returns a value and a state that `Q` allows, or raises one that `E`
allows. -/
def wp (x : EStateM ε σ α) (Q : α → σ → Prop) (E : ε → σ → Prop) (s : σ) : Prop :=
  match x.run s with
  | .ok a s' => Q a s'
  | .error e s' => E e s'

section Rules

variable {Q Q' : α → σ → Prop} {E E' : ε → σ → Prop} {s s' : σ}

theorem wp_of_ok {x : EStateM ε σ α} {a : α} (h : x.run s = .ok a s') :
    wp x Q E s ↔ Q a s' := by
  rw [wp, h]

theorem wp_of_error {x : EStateM ε σ α} {e : ε} (h : x.run s = .error e s') :
    wp x Q E s ↔ E e s' := by
  rw [wp, h]

theorem wp.of_run_ok {x : EStateM ε σ α} (h : wp x Q E s) {a : α} (hr : x.run s = .ok a s') :
    Q a s' := (wp_of_ok hr).mp h

theorem wp.of_run_error {x : EStateM ε σ α} (h : wp x Q E s) {e : ε}
    (hr : x.run s = .error e s') : E e s' := (wp_of_error hr).mp h

@[simp] theorem wp_pure (a : α) : wp (pure a) Q E s ↔ Q a s := Iff.rfl

@[simp] theorem wp_throw (e : ε) : wp (throw e : EStateM ε σ α) Q E s ↔ E e s := Iff.rfl

theorem wp_ofExcept {x : Except ε α} :
    wp (MonadExcept.ofExcept x) Q E s ↔ (∀ a, x = .ok a → Q a s) ∧ ∀ e, x = .error e → E e s := by
  cases x <;> simp [MonadExcept.ofExcept]

@[simp] theorem wp_get {Q : σ → σ → Prop} : wp (get : EStateM ε σ σ) Q E s ↔ Q s s := Iff.rfl

@[simp] theorem wp_set {Q : PUnit → σ → Prop} :
    wp (set s' : EStateM ε σ PUnit) Q E s ↔ Q ⟨⟩ s' := Iff.rfl

@[simp] theorem wp_modify {Q : PUnit → σ → Prop} (f : σ → σ) :
    wp (modify f : EStateM ε σ PUnit) Q E s ↔ Q ⟨⟩ (f s) := Iff.rfl

@[simp] theorem wp_bind {x : EStateM ε σ β} {f : β → EStateM ε σ α} :
    wp (x >>= f) Q E s ↔ wp x (fun b => wp (f b) Q E) E s := by
  unfold wp
  rw [EStateM.run_bind]
  cases x.run s <;> rfl

@[simp] theorem wp_map {x : EStateM ε σ β} {f : β → α} :
    wp (f <$> x) Q E s ↔ wp x (fun b => Q (f b)) E s := by
  rw [map_eq_pure_bind, wp_bind]
  rfl

@[simp] theorem wp_tryCatch {x : EStateM ε σ α} {handler : ε → EStateM ε σ α} :
    wp (tryCatch x handler) Q E s ↔ wp x Q (fun e => wp (handler e) Q E) s := by
  unfold wp
  rw [run_tryCatch]
  cases x.run s <;> rfl

theorem wp_ite {c : Prop} [Decidable c] {x y : EStateM ε σ α} :
    wp (if c then x else y) Q E s ↔ (c → wp x Q E s) ∧ (¬ c → wp y Q E s) := by
  by_cases hc : c <;> simp [hc]

theorem wp_raiseIf {Q : Unit → σ → Prop} {c : Prop} [Decidable c] {x : EStateM ε σ Unit} :
    wp (raiseIf c x) Q E s ↔ (c → wp x Q E s) ∧ (¬ c → Q () s) := wp_ite

theorem run_eq_ok_of_wp {x : EStateM ε σ α} {a : α}
    (h : wp x (fun b t => b = a ∧ t = s') (fun _ _ => False) s) : x.run s = .ok a s' := by
  unfold wp at h
  cases hr : x.run s with
  | ok b t =>
    rw [hr] at h
    rw [h.1, h.2]
  | error e t =>
    rw [hr] at h
    exact h.elim

/-- A program that never raises returns. -/
theorem exists_run_eq_ok_of_wp {x : EStateM ε σ α} (h : wp x Q (fun _ _ => False) s) :
    ∃ a t, x.run s = .ok a t ∧ Q a t := by
  unfold wp at h
  cases hr : x.run s with
  | ok a t =>
    rw [hr] at h
    exact ⟨a, t, rfl, h⟩
  | error e t =>
    rw [hr] at h
    exact h.elim

/-- What holds whether a program returns or raises holds of the state it leaves. -/
theorem wp.stateAfter {P : σ → Prop} {x : EStateM ε σ α}
    (h : wp x (fun _ s' => P s') (fun _ s' => P s') s) : P (Lib.stateAfter x s) := by
  cases hr : x.run s with
  | ok a s' =>
    rw [stateAfter_of_ok hr]
    exact h.of_run_ok hr
  | error e s' =>
    rw [stateAfter_of_error hr]
    exact h.of_run_error hr

/-- Two things known of a program hold of the same run. -/
theorem wp.and {x : EStateM ε σ α} (h : wp x Q E s) (h' : wp x Q' E' s) :
    wp x (fun a s' => Q a s' ∧ Q' a s') (fun e s' => E e s' ∧ E' e s') s := by
  unfold wp at h h' ⊢
  cases hr : x.run s with
  | ok a s' =>
    rw [hr] at h h'
    exact ⟨h, h'⟩
  | error e s' =>
    rw [hr] at h h'
    exact ⟨h, h'⟩

/-- What is known of a program may be weakened. -/
theorem wp.mono {x : EStateM ε σ α} (h : wp x Q E s) (hQ : ∀ a s', Q a s' → Q' a s')
    (hE : ∀ e s', E e s' → E' e s') : wp x Q' E' s := by
  unfold wp at h ⊢
  cases hr : x.run s with
  | ok a s' =>
    rw [hr] at h
    exact hQ a s' h
  | error e s' =>
    rw [hr] at h
    exact hE e s' h

end Rules

/-! ### Loops -/

/-- A loop: the body goes on with a value or ends with a result, and `none` says that the bound on
the iterations was too small. -/
def loop (body : α → EStateM ε σ (α ⊕ β)) : ℕ → α → EStateM ε σ (Option β)
  | 0, _ => pure none
  | n + 1, a => do
    match ← body a with
    | .inl a' => loop body n a'
    | .inr b => pure (some b)

/-- The rule of loops, by induction on the bound. The body keeps the invariant `I` and decreases
the measure, so the loop ends under every bound above it. -/
theorem wp_loop_of_state {body : α → EStateM ε σ (α ⊕ β)} {I : α → σ → Prop} {Q : β → σ → Prop}
    {E : ε → σ → Prop} (measure : α → σ → ℕ)
    (hbody : ∀ a s, I a s →
      wp (body a) (fun r s' => r.elim (fun a' => I a' s' ∧ measure a' s' < measure a s) (Q · s')) E s) :
    ∀ n a s, I a s →
      wp (loop body n a) (fun r s' => r.elim (n ≤ measure a s) (Q · s')) E s
  | 0, a, s, _ => by simp [loop]
  | n + 1, a, s, hI => by
    rw [loop, wp_bind]
    refine (hbody a s hI).mono (fun r s' hr => ?_) fun _ _ he => he
    cases r with
    | inl a' =>
      refine (wp_loop_of_state measure hbody n a' s' hr.1).mono (fun r s'' hr' => ?_) fun _ _ he => he
      cases r with
      | none =>
        have hle : n ≤ measure a' s' := hr'
        have hlt := hr.2
        change n + 1 ≤ measure a s
        omega
      | some b => exact hr'
    | inr b => exact hr

/-- The rule where the measure does not depend on the state. -/
theorem wp_loop {body : α → EStateM ε σ (α ⊕ β)} {I : α → σ → Prop} {Q : β → σ → Prop}
    {E : ε → σ → Prop} (measure : α → ℕ)
    (hbody : ∀ a s, I a s →
      wp (body a) (fun r s' => r.elim (fun a' => I a' s' ∧ measure a' < measure a) (Q · s')) E s)
    (n : ℕ) (a : α) (s : σ) (hI : I a s) :
    wp (loop body n a) (fun r s' => r.elim (n ≤ measure a) (Q · s')) E s :=
  wp_loop_of_state (fun a _ => measure a) hbody n a s hI

/-- A loop that ends under a bound does the same under every larger one. -/
theorem loop_of_le {body : α → EStateM ε σ (α ⊕ β)} :
    ∀ {n m : ℕ} {a : α} {s : σ}, n ≤ m →
      wp (loop body n a) (fun r _ => r ≠ none) (fun _ _ => True) s →
      (loop body m a).run s = (loop body n a).run s
  | 0, _, a, s, _, h => absurd rfl h
  | n + 1, m + 1, a, s, hnm, h => by
    rw [loop, wp_bind] at h
    rw [loop, loop, EStateM.run_bind, EStateM.run_bind]
    cases hr : (body a).run s with
    | error e s' => rfl
    | ok r s' =>
      have h := h.of_run_ok hr
      cases r with
      | inl a' => exact loop_of_le (Nat.le_of_succ_le_succ hnm) h
      | inr b => rfl

end Lib
