/-
# Operators that answer part by part

An operator with more to say than one answer holds says so, and is called
again on the same input until it asks for more (`drain`), input after input
(`drainAll`). Its work on an input is a list of items, cut off where an
exception is raised (`Work`); `Call` says that one call answers the next
items of the work, up to the room it has, and leaves the others.

A call may be put together from parts (`Call.prepend`). Calls that are right
one by one are right together: `drain_spec` for one input, `drainAll_spec`
for all of them.

Key definitions: `Work`, `drain`, `drainAll`, `GetsOn`, `Call`. Key theorem:
`drainAll_spec`.
-/
import Mathlib.Data.List.Basic

namespace Lib

variable {α β σ ι ε : Type*}

/-- How a call of an operator ends. -/
inductive OperatorResult
  | needMoreInput
  | haveMoreOutput
  deriving DecidableEq, Repr

/-- Items to work off, and the exception behind them, if one ends the work. -/
structure Work (α ε : Type*) where
  items : List α
  failure : Option ε

namespace Work

def nil : Work α ε := ⟨[], none⟩

/-- One work after the other; the second is not reached behind an exception. -/
def append (w w' : Work α ε) : Work α ε :=
  match w.failure with
  | some _ => w
  | none => ⟨w.items ++ w'.items, w'.failure⟩

/-- One work after the other. -/
def concat : List (Work α ε) → Work α ε
  | [] => nil
  | w :: ws => w.append (concat ws)

/-- The work of one item, or its exception. -/
def ofExcept : Except ε α → Work α ε
  | .ok a => ⟨[a], none⟩
  | .error e => ⟨[], some e⟩

/-- The work behind items that come first. -/
def behind (l : List α) (w : Work α ε) : Work α ε := ⟨l ++ w.items, w.failure⟩

theorem behind_append (l l' : List α) (w : Work α ε) : behind (l ++ l') w = behind l (behind l' w) := by
  rw [behind, behind, behind, List.append_assoc]

/-- Items that come first stay first. -/
theorem append_behind (l : List α) (w w' : Work α ε) : (behind l w).append w' = behind l (w.append w') := by
  cases hw : w.failure <;> simp [behind, append, hw]

theorem nil_append (w : Work α ε) : nil.append w = w := rfl

theorem append_assoc (w w' w'' : Work α ε) : (w.append w').append w'' = w.append (w'.append w'') := by
  cases hw : w.failure with
  | some e => simp [append, hw]
  | none => cases hw' : w'.failure <;> simp [append, hw, hw']

theorem concat_append : ∀ ws ws' : List (Work α ε), concat (ws ++ ws') = (concat ws).append (concat ws')
  | [], ws' => (nil_append _).symm
  | w :: ws, ws' => by rw [List.cons_append, concat, concat, concat_append ws ws', append_assoc]

/-- Work cut into parts is the work. -/
theorem concat_flatten : ∀ wss : List (List (Work α ε)), concat (wss.map concat) = concat wss.flatten
  | [] => rfl
  | ws :: wss => by rw [List.map_cons, concat, concat_flatten wss, List.flatten_cons, concat_append]

/-- The work of all ends without an exception exactly when each does. -/
theorem concat_failure_eq_none_iff : ∀ {ws : List (Work α ε)}, (concat ws).failure = none ↔
    ∀ w ∈ ws, w.failure = none
  | [] => by simp [concat, nil]
  | w :: ws => by
    rw [concat, append, List.forall_mem_cons]
    cases hw : w.failure with
    | some e => simp [hw]
    | none => simpa using concat_failure_eq_none_iff

/-- Then its items are all of theirs. -/
theorem concat_items : ∀ {ws : List (Work α ε)}, (concat ws).failure = none →
    (concat ws).items = ws.flatMap (·.items)
  | [], _ => rfl
  | w :: ws, h => by
    have hall := concat_failure_eq_none_iff.mp h
    have hw : w.failure = none := hall w List.mem_cons_self
    have hws : (concat ws).failure = none :=
      concat_failure_eq_none_iff.mpr fun w' hw' => hall w' (List.mem_cons_of_mem _ hw')
    rw [concat, append, hw, List.flatMap_cons, ← concat_items hws]

/-- What comes of the work: its exception, or an answer that `P` relates to its items. -/
def Answered {γ : Type*} (P : List α → γ → Prop) (w : Work α ε) (r : Except ε γ) : Prop :=
  match w.failure with
  | some e => r = .error e
  | none => ∃ out, r = .ok out ∧ P w.items out

end Work

/-- Call the operator until it asks for more input; `stuck` is the answer where `fuel` calls did not
bring it there. -/
def drain (execute : σ → Except ε (OperatorResult × List β × σ)) (stuck : ε) :
    ℕ → σ → Except ε (List β × σ)
  | 0, _ => .error stuck
  | fuel + 1, s =>
    match execute s with
    | .error e => .error e
    | .ok (.needMoreInput, out, s') => .ok (out, s')
    | .ok (.haveMoreOutput, out, s') => (drain execute stuck fuel s').map fun (rest, t) => (out ++ rest, t)

/-- The answers to a sequence of inputs. -/
def drainAll (execute : ι → σ → Except ε (OperatorResult × List β × σ)) (stuck : ε) (fuel : ℕ) :
    List ι → σ → Except ε (List β)
  | [], _ => .ok []
  | i :: is, s =>
    match drain (execute i) stuck fuel s with
    | .error e => .error e
    | .ok (out, s') => (drainAll execute stuck fuel is s').map (out ++ ·)

section Call

variable (E : List α → List β → Prop) (R : Work α ε → σ → Prop) (idle : σ → Prop)

/-- A call with room for `room` items behind `chunk` is right about the work `w`: it ends the work if
that leaves room, and otherwise answers as much as there is room for; `E l out` says that `out`
answers the items `l`. -/
def Call (room : ℕ) (w : Work α ε) (chunk : List β)
    (r : Except ε (OperatorResult × List β × σ)) : Prop :=
  if w.items.length < room then
    match w.failure with
    | some e => r = .error e
    | none => ∃ out s', r = .ok (.needMoreInput, chunk ++ out, s') ∧ E w.items out ∧ idle s'
  else ∃ out s', r = .ok (.haveMoreOutput, chunk ++ out, s') ∧ E (w.items.take room) out ∧
    R ⟨w.items.drop room, w.failure⟩ s'

/-- A call that gets on with the work `w`: it raises the exception of the work, or ends it, or works
off some items and leaves the others. -/
inductive GetsOn (w : Work α ε) (r : Except ε (OperatorResult × List β × σ)) : Prop
  | raises {e : ε} (failure : w.failure = some e) (raised : r = .error e)
  | ends {out : List β} {s' : σ} (failure : w.failure = none)
      (answered : r = .ok (.needMoreInput, out, s')) (right : E w.items out) (done : idle s')
  | goes_on {l : List α} {w' : Work α ε} {out : List β} {s' : σ} (items : w.items = l ++ w'.items)
      (failure : w.failure = w'.failure) (some_items : l ≠ [])
      (answered : r = .ok (.haveMoreOutput, out, s')) (right : E l out) (left : R w' s')

variable {E R idle} (hE : ∀ {l l' out out'}, E l out → E l' out' → E (l ++ l') (out ++ out'))
include hE

/-- A call that answers some items and goes on with what is left. -/
theorem Call.prepend {room : ℕ} {l : List α} {w : Work α ε} {chunk out : List β}
    {r : Except ε (OperatorResult × List β × σ)} (hl : E l out) (hroom : l.length ≤ room)
    (h : Call E R idle (room - l.length) w (chunk ++ out) r) :
    Call E R idle room ⟨l ++ w.items, w.failure⟩ chunk r := by
  unfold Call at h ⊢
  by_cases hlt : w.items.length < room - l.length
  · rw [if_pos hlt] at h
    rw [if_pos (by rw [List.length_append]; omega)]
    cases hw : w.failure with
    | some e =>
      rw [hw] at h
      exact h
    | none =>
      rw [hw] at h
      obtain ⟨out', s', hr, ho, hs'⟩ := h
      rw [List.append_assoc] at hr
      exact ⟨out ++ out', s', hr, hE hl ho, hs'⟩
  · rw [if_neg hlt] at h
    rw [if_neg (by rw [List.length_append]; omega)]
    obtain ⟨out', s', hr, ho, hs'⟩ := h
    rw [List.append_assoc] at hr
    refine ⟨out ++ out', s', hr, ?_, ?_⟩
    · rw [List.take_append, List.take_of_length_le hroom]
      exact hE hl ho
    · rw [List.drop_append, List.drop_eq_nil_of_le hroom]
      exact hs'

omit hE in
/-- Such a call gets on, when it has room at all. -/
theorem Call.gets_on {room : ℕ} (hroom : 0 < room) {w : Work α ε} {r : Except ε (OperatorResult × List β × σ)}
    (h : Call E R idle room w [] r) : GetsOn E R idle w r := by
  unfold Call at h
  by_cases hlt : w.items.length < room
  · rw [if_pos hlt] at h
    cases hw : w.failure with
    | some e =>
      rw [hw] at h
      exact .raises hw h
    | none =>
      rw [hw] at h
      obtain ⟨out, s', hr, ho, hs'⟩ := h
      exact .ends hw hr ho hs'
  · rw [if_neg hlt] at h
    obtain ⟨out, s', hr, ho, hs'⟩ := h
    have hitems : w.items = w.items.take room ++ w.items.drop room := (List.take_append_drop room w.items).symm
    refine GetsOn.goes_on hitems (rfl : (⟨w.items.drop room, w.failure⟩ : Work α ε).failure = _) ?_ hr ho hs'
    intro hnil
    have hlen := congrArg List.length hnil
    rw [List.length_take, List.length_nil] at hlen
    omega

/-- The induction is on the calls; each but the last works off some items. -/
theorem drain_spec {execute : σ → Except ε (OperatorResult × List β × σ)} (stuck : ε)
    (hcall : ∀ w s, R w s → GetsOn E R idle w (execute s)) :
    ∀ (fuel : ℕ) (w : Work α ε) (s : σ), R w s → w.items.length < fuel →
      w.Answered (fun l p => E l p.1 ∧ idle p.2) (drain execute stuck fuel s)
  | 0, w, _, _, hfuel => absurd hfuel (Nat.not_lt_zero _)
  | fuel + 1, w, s, hR, hfuel => by
    unfold Work.Answered
    rw [drain]
    cases hcall w s hR with
    | raises hw hr => rw [hw, hr]
    | ends hw hr ho hs' =>
      rw [hw, hr]
      exact ⟨_, rfl, ho, hs'⟩
    | @goes_on l w' out s' hitems hfail hne hr ho hs' =>
      have hlen : w'.items.length < fuel := by
        have hpos := List.length_pos_of_ne_nil hne
        rw [hitems, List.length_append] at hfuel
        omega
      have ih := drain_spec stuck hcall fuel w' s' hs' hlen
      unfold Work.Answered at ih
      rw [hr, hfail]
      cases hw : w'.failure with
      | some e =>
        rw [hw] at ih
        show (drain execute stuck fuel s').map _ = _
        rw [ih]
        rfl
      | none =>
        rw [hw] at ih
        obtain ⟨⟨out', t⟩, hd, ho', ht⟩ := ih
        refine ⟨(out ++ out', t), ?_, ?_, ht⟩
        · show (drain execute stuck fuel s').map _ = _
          rw [hd]
          rfl
        · rw [hitems]
          exact hE ho ho'

/-- Input after input, an operator answers the items of all of them, or raises the first exception of
its work. -/
theorem drainAll_spec {execute : ι → σ → Except ε (OperatorResult × List β × σ)} (stuck : ε)
    {R : ι → Work α ε → σ → Prop} {work : ι → Work α ε}
    (hcall : ∀ i w s, R i w s → GetsOn E (R i) idle w (execute i s))
    (hstart : ∀ i s, idle s → R i (work i) s) (hnil : E [] []) {fuel : ℕ} :
    ∀ (is : List ι) (s : σ), idle s → (∀ i ∈ is, (work i).items.length < fuel) →
      (Work.concat (is.map work)).Answered E (drainAll execute stuck fuel is s)
  | [], s, _, _ => ⟨[], rfl, hnil⟩
  | i :: is, s, hs, hfuel => by
    have hi := drain_spec hE stuck (hcall i) fuel (work i) s (hstart i s hs) (hfuel i List.mem_cons_self)
    unfold Work.Answered at hi ⊢
    rw [List.map_cons, Work.concat, Work.append, drainAll]
    cases hw : (work i).failure with
    | some e =>
      rw [hw] at hi
      simp only [hw]
      rw [hi]
    | none =>
      rw [hw] at hi
      obtain ⟨⟨out, s'⟩, hd, ho, hs'⟩ := hi
      have ih := drainAll_spec stuck hcall hstart hnil is s' hs'
        fun j hj => hfuel j (List.mem_cons_of_mem _ hj)
      unfold Work.Answered at ih
      rw [hd]
      simp only
      cases hf : (Work.concat (is.map work)).failure with
      | some e =>
        rw [hf] at ih
        rw [ih]
        rfl
      | none =>
        rw [hf] at ih
        obtain ⟨out', hd', ho'⟩ := ih
        exact ⟨out ++ out', by rw [hd']; rfl, hE ho ho'⟩

end Call

end Lib
