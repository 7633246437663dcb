/-
# Workers that take items from one place and feed them to one state

Several workers take items, each item handed out once, and apply each to a state
they share, under a lock. A worker may leave after an item and be called again,
and it is finished when it finds nothing to take; where applying an item raises,
the worker fails and never finishes.

Whatever the order of the steps is, when all workers are finished every item was
applied exactly once, none raised, and the state is what a run over the items, in
some order, makes of the one at the start (`Pool.run_of_finished`).

Key definitions: `Worker`, `Pool`, `Pool.Step`, `Pool.Reaches`. Key theorem:
`Pool.run_of_finished`.
-/
import MobilityDuck.Lib.Flow
import MobilityDuck.Lib.Run
import Mathlib.Data.Fin.VecNotation
import Mathlib.Logic.Relation

namespace Lib

variable {ι α σ ε : Type}

/-- Where a worker stands. `outside` it was not called yet, or it left after an item; called, it works in a
mode that says whether it leaves after one item. -/
inductive Worker (α : Type)
  | outside
  | running (leaves : Bool)
  | holding (leaves : Bool) (item : α)
  | locked (leaves : Bool) (item : α)
  | finished
  | failed

/-- What the worker took and has not applied. -/
def Worker.held : Worker α → Multiset α
  | .holding _ item => {item}
  | .locked _ item => {item}
  | _ => 0

/-- The items not handed out, the lock, the workers and the state they share. -/
structure Pool (ι α σ : Type) where
  pending : List α
  lock : Option ι
  workers : ι → Worker α
  shared : σ

/-- A step of a run: what an item makes of the state, unless it raises. -/
def itemStep (apply : σ → α → σ × Option ε) (s : σ) (item : α) : Except ε σ :=
  match apply s item with
  | (s', none) => .ok s'
  | (_, some e) => .error e

namespace Pool

def start (items : List α) (s : σ) : Pool ι α σ := ⟨items, none, fun _ => .outside, s⟩

section Accounts

variable [Fintype ι]

/-- What the workers hold together. -/
def held (w : ι → Worker α) : Multiset α := ∑ i, (w i).held

/-- Every item was applied, is held or is pending; once a worker is finished nothing is pending. A pool with
a failed worker owes no account of its items. -/
structure Accounted (apply : σ → α → σ × Option ε) (items : List α) (s : σ) (p : Pool ι α σ) : Prop where
  drained : (∃ i, p.workers i = .finished) → p.pending = []
  applied : (∃ i, p.workers i = .failed) ∨ ∃ done, run (itemStep apply) s done = .ok p.shared ∧
    (done : Multiset α) + held p.workers + (p.pending : Multiset α) = items

theorem accounted_start (apply : σ → α → σ × Option ε) (items : List α) (s : σ) :
    Accounted apply items s (start (ι := ι) items s) where
  drained := by
    rintro ⟨i, hi⟩
    cases hi
  applied := by
    refine .inr ⟨[], rfl, ?_⟩
    have hheld : held (fun _ : ι => (.outside : Worker α)) = 0 := Finset.sum_const_zero
    simp [start, hheld]

end Accounts

section Steps

variable [DecidableEq ι]

def setWorker (p : Pool ι α σ) (i : ι) (w : Worker α) : Pool ι α σ :=
  { p with workers := Function.update p.workers i w }

/-- One step of one worker. -/
inductive Step (apply : σ → α → σ × Option ε) : Pool ι α σ → Pool ι α σ → Prop
  | call (p : Pool ι α σ) (i : ι) (leaves : Bool) (hw : p.workers i = .outside) :
      Step apply p (p.setWorker i (.running leaves))
  | take (p : Pool ι α σ) (i : ι) (leaves : Bool) (before : List α) (item : α) (after : List α)
      (hw : p.workers i = .running leaves) (hpending : p.pending = before ++ item :: after) :
      Step apply p { p.setWorker i (.holding leaves item) with pending := before ++ after }
  | acquire (p : Pool ι α σ) (i : ι) (leaves : Bool) (item : α)
      (hw : p.workers i = .holding leaves item) (hlock : p.lock = none) :
      Step apply p { p.setWorker i (.locked leaves item) with lock := some i }
  | apply (p : Pool ι α σ) (i : ι) (leaves : Bool) (item : α) (s : σ)
      (hw : p.workers i = .locked leaves item) (happly : apply p.shared item = (s, none)) :
      Step apply p
        { p.setWorker i (if leaves then .outside else .running leaves) with lock := none, shared := s }
  | raise (p : Pool ι α σ) (i : ι) (leaves : Bool) (item : α) (s : σ) (e : ε)
      (hw : p.workers i = .locked leaves item) (happly : apply p.shared item = (s, some e)) :
      Step apply p { p.setWorker i .failed with lock := none, shared := s }
  | finish (p : Pool ι α σ) (i : ι) (leaves : Bool) (hw : p.workers i = .running leaves)
      (hpending : p.pending = []) : Step apply p (p.setWorker i .finished)

/-- Some steps lead from one pool to the other. -/
def Reaches (apply : σ → α → σ × Option ε) : Pool ι α σ → Pool ι α σ → Prop :=
  Relation.ReflTransGen (Step apply)

variable {apply : σ → α → σ × Option ε}

theorem exists_update {w : ι → Worker α} {i : ι} {x state : Worker α} (hi : w i ≠ state)
    (h : ∃ j, w j = state) : ∃ j, Function.update w i x j = state := by
  obtain ⟨j, hj⟩ := h
  have hne : j ≠ i := by
    rintro rfl
    exact hi hj
  exact ⟨j, by rwa [Function.update_of_ne hne]⟩

theorem exists_of_update {w : ι → Worker α} {i : ι} {x state : Worker α} (hx : x ≠ state)
    (h : ∃ j, Function.update w i x j = state) : ∃ j, w j = state := by
  obtain ⟨j, hj⟩ := h
  by_cases hji : j = i
  · rw [hji, Function.update_self] at hj
    exact absurd hj hx
  · exact ⟨j, by rwa [Function.update_of_ne hji] at hj⟩

theorem pair_ext {items : List α} {lock : Option (Fin 2)} {w : Fin 2 → Worker α} {t : σ} {x y : Worker α}
    (hx : w 0 = x) (hy : w 1 = y) : (⟨items, lock, w, t⟩ : Pool (Fin 2) α σ) = ⟨items, lock, ![x, y], t⟩ := by
  have hw : w = ![x, y] := funext (Fin.forall_fin_two.mpr ⟨hx, hy⟩)
  rw [hw]

/-- Two workers take one item each. The second applies its own before the first and finds nothing more; the first
leaves after its own and is called again. -/
theorem reaches_pair {s s' s'' : σ} {a b : α} (hb : apply s b = (s', none)) (ha : apply s' a = (s'', none)) :
    Reaches apply (start (ι := Fin 2) [a, b] s) ⟨[], none, ![.finished, .finished], s''⟩ := by
  have hstart : start (ι := Fin 2) [a, b] s = ⟨[a, b], none, ![.outside, .outside], s⟩ := pair_ext rfl rfl
  have hfirst : ∀ (items : List α) (lock : Option (Fin 2)) (w x y : Worker α) (t : σ),
      setWorker ⟨items, lock, ![x, y], t⟩ 0 w = ⟨items, lock, ![w, y], t⟩ := fun _ _ _ _ _ _ => pair_ext rfl rfl
  have hsecond : ∀ (items : List α) (lock : Option (Fin 2)) (w x y : Worker α) (t : σ),
      setWorker ⟨items, lock, ![x, y], t⟩ 1 w = ⟨items, lock, ![x, w], t⟩ := fun _ _ _ _ _ _ => pair_ext rfl rfl
  have hcall₀ : Step apply ⟨[a, b], none, ![.outside, .outside], s⟩ _ := .call _ 0 true rfl
  rw [hfirst] at hcall₀
  have hcall₁ : Step apply ⟨[a, b], none, ![.running true, .outside], s⟩ _ := .call _ 1 false rfl
  rw [hsecond] at hcall₁
  have htake₀ : Step apply ⟨[a, b], none, ![.running true, .running false], s⟩ _ := .take _ 0 true [] a [b] rfl rfl
  rw [hfirst] at htake₀
  have htake₁ : Step apply ⟨[b], none, ![.holding true a, .running false], s⟩ _ := .take _ 1 false [] b [] rfl rfl
  rw [hsecond] at htake₁
  have hacquire₁ : Step apply ⟨[], none, ![.holding true a, .holding false b], s⟩ _ := .acquire _ 1 false b rfl rfl
  rw [hsecond] at hacquire₁
  have happly₁ := Step.apply ⟨[], some 1, ![.holding true a, .locked false b], s⟩ 1 false b s' rfl hb
  rw [hsecond] at happly₁
  have hacquire₀ : Step apply ⟨[], none, ![.holding true a, .running false], s'⟩ _ := .acquire _ 0 true a rfl rfl
  rw [hfirst] at hacquire₀
  have happly₀ := Step.apply ⟨[], some 0, ![.locked true a, .running false], s'⟩ 0 true a s'' rfl ha
  rw [hfirst] at happly₀
  have hfinish₁ : Step apply ⟨[], none, ![.outside, .running false], s''⟩ _ := .finish _ 1 false rfl rfl
  rw [hsecond] at hfinish₁
  have hagain : Step apply ⟨[], none, ![.outside, .finished], s''⟩ _ := .call _ 0 true rfl
  rw [hfirst] at hagain
  have hfinish₀ : Step apply ⟨[], none, ![.running true, .finished], s''⟩ _ := .finish _ 0 true rfl rfl
  rw [hfirst] at hfinish₀
  rw [hstart]
  exact .head hcall₀ (.head hcall₁ (.head htake₀ (.head htake₁ (.head hacquire₁ (.head happly₁ (.head hacquire₀
    (.head happly₀ (.head hfinish₁ (.head hagain (.single hfinish₀))))))))))

variable [Fintype ι] {items : List α} {s : σ}

/-- A worker's step changes what is held by what that worker holds. -/
theorem held_update (w : ι → Worker α) (i : ι) (x : Worker α) :
    held (Function.update w i x) + (w i).held = held w + x.held := by
  have hcomp : (fun j => (Function.update w i x j).held) =
      Function.update (fun j => (w j).held) i x.held := by
    funext j
    by_cases hji : j = i
    · rw [hji, Function.update_self, Function.update_self]
    · rw [Function.update_of_ne hji, Function.update_of_ne hji]
  rw [held, held, hcomp]
  exact Flow.sum_update (Finset.mem_univ i) x.held

theorem held_update_eq {w : ι → Worker α} {i : ι} {x : Worker α} (h : x.held = (w i).held) :
    held (Function.update w i x) = held w := by
  have hsum := held_update w i x
  rw [h] at hsum
  exact add_right_cancel hsum

/-- A worker that goes on with what it holds changes no account. -/
theorem Accounted.set {p : Pool ι α σ} (h : Accounted apply items s p) {i : ι} {w : Worker α}
    (hheld : w.held = (p.workers i).held) (hfailed : p.workers i ≠ .failed)
    (hfinished : w = .finished → p.pending = []) (lock : Option ι) :
    Accounted apply items s { p.setWorker i w with lock := lock } where
  drained := by
    intro hfin
    by_cases hw : w = .finished
    · exact hfinished hw
    · exact h.drained (exists_of_update hw hfin)
  applied := by
    rcases h.applied with hfail | ⟨done, hrun, hsum⟩
    · exact .inl (exists_update hfailed hfail)
    · refine .inr ⟨done, hrun, ?_⟩
      exact (congrArg (fun b => (done : Multiset α) + b + p.pending) (held_update_eq hheld)).trans hsum

/-- A worker that is handed an item holds it instead of the pending ones. -/
theorem Accounted.take {p : Pool ι α σ} (h : Accounted apply items s p) {i : ι} {leaves : Bool} {item : α}
    {before after : List α} (hw : p.workers i = .running leaves) (hpending : p.pending = before ++ item :: after) :
    Accounted apply items s { p.setWorker i (.holding leaves item) with pending := before ++ after } where
  drained := by
    intro hfin
    have hnil := h.drained (exists_of_update (by simp) hfin)
    rw [hpending] at hnil
    simp at hnil
  applied := by
    rcases h.applied with hfail | ⟨done, hrun, hsum⟩
    · exact .inl (exists_update (by simp [hw]) hfail)
    · refine .inr ⟨done, hrun, ?_⟩
      have hheld : held (Function.update p.workers i (.holding leaves item)) = held p.workers + {item} := by
        have htaken := held_update p.workers i (.holding leaves item)
        rw [hw] at htaken
        exact (add_zero _).symm.trans htaken
      rw [← hsum, hpending]
      change (done : Multiset α) + held (Function.update p.workers i (.holding leaves item)) +
        ((before ++ after : List α) : Multiset α) = _
      rw [hheld, ← Multiset.coe_add, ← Multiset.coe_add, ← Multiset.cons_coe, ← Multiset.singleton_add]
      abel

/-- An item that was applied is held no longer. -/
theorem Accounted.done {p : Pool ι α σ} (h : Accounted apply items s p) {i : ι} {leaves : Bool} {item : α}
    {s' : σ} {w : Worker α} (hw : p.workers i = .locked leaves item) (happly : apply p.shared item = (s', none))
    (hnone : w.held = 0) (hne : w ≠ .finished) :
    Accounted apply items s { p.setWorker i w with lock := none, shared := s' } where
  drained hfin := h.drained (exists_of_update hne hfin)
  applied := by
    rcases h.applied with hfail | ⟨done, hrun, hsum⟩
    · exact .inl (exists_update (by simp [hw]) hfail)
    · refine .inr ⟨done ++ [item], ?_, ?_⟩
      · rw [run_append, hrun]
        change run (itemStep apply) p.shared [item] = _
        rw [run, itemStep, happly]
        rfl
      · have hheld : held (Function.update p.workers i w) + {item} = held p.workers := by
          have hput := held_update p.workers i w
          rw [hw, hnone, add_zero] at hput
          exact hput
        rw [← hsum, ← hheld]
        change ((done ++ [item] : List α) : Multiset α) + held (Function.update p.workers i w) + p.pending = _
        rw [← Multiset.coe_add, Multiset.coe_singleton]
        abel

/-- **A step keeps the account.** An item moves from the pending ones to its worker, and from there to the
applied ones. -/
theorem Accounted.step {p q : Pool ι α σ} (h : Accounted apply items s p) (hstep : Step apply p q) :
    Accounted apply items s q := by
  cases hstep with
  | call i leaves hw => exact h.set (w := .running leaves) (by rw [hw]; rfl) (by simp [hw]) nofun p.lock
  | take i leaves before item after hw hpending => exact h.take hw hpending
  | acquire i leaves item hw hlock => exact h.set (w := .locked leaves item) (by rw [hw]; rfl) (by simp [hw]) nofun (some i)
  | apply i leaves item s' hw happly =>
    cases leaves with
    | true => exact h.done hw happly rfl nofun
    | false => exact h.done hw happly rfl nofun
  | raise i leaves item s' e hw happly =>
    refine ⟨fun hfin => h.drained (exists_of_update (by simp) hfin), .inl ⟨i, ?_⟩⟩
    exact Function.update_self ..
  | finish i leaves hw hpending =>
    exact h.set (w := .finished) (by rw [hw]; rfl) (by simp [hw]) (fun _ => hpending) p.lock

theorem Accounted.reaches {p q : Pool ι α σ} (h : Accounted apply items s p) (hpq : Reaches apply p q) :
    Accounted apply items s q := by
  induction hpq with
  | refl => exact h
  | tail _ hstep ih => exact ih.step hstep

/-- **When all workers are finished, every item was applied once, and none raised.** -/
theorem run_of_finished [Nonempty ι] {p : Pool ι α σ} (h : Reaches apply (start items s) p)
    (hdone : ∀ i, p.workers i = .finished) :
    ∃ done : List α, done.Perm items ∧ run (itemStep apply) s done = .ok p.shared := by
  obtain ⟨hdrained, happlied⟩ := (accounted_start apply items s).reaches h
  rcases happlied with ⟨i, hi⟩ | ⟨done, hrun, hsum⟩
  · rw [hdone i] at hi
    cases hi
  · refine ⟨done, ?_, hrun⟩
    have hheld : held p.workers = 0 := Finset.sum_eq_zero fun i _ => by rw [hdone i]; rfl
    have hpending := hdrained ⟨Classical.arbitrary ι, hdone _⟩
    rw [hheld, hpending, add_zero, Multiset.coe_nil, add_zero] at hsum
    exact Multiset.coe_eq_coe.mp hsum

end Steps

end Pool

end Lib
