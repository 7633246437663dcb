/-
# Functions with parameters fixed

A call gives each parameter of a function an argument, a literal, or room for an
answer. What a caller gives is placed: the parameters that are bound take their
literals, the others the arguments in their order, and those behind the last
argument their defaults (`Placing.call`).

A forwarding function takes the parameters that are left when some are fixed, and
passes the literals of the fixed ones (`forward`). Where it fixes what the placing
binds, and the last parameters at their defaults, a call of it is a call of the
function (`call_forward`).

Key definitions: `Operand`, `Placing`, `forward`. Key theorems: `pass_forward`, `call_forward`.
-/
import Mathlib.Data.List.GetD
import Mathlib.Data.List.Nodup

namespace Lib

/-- What a parameter is given. -/
inductive Operand (L : Type*)
  | out
  | arg (k : ℕ)
  | lit (l : L)
  deriving DecidableEq, Repr

/-- What a forwarding function passes: one of its own parameters, or a literal. -/
inductive Passed (L : Type*)
  | param (k : ℕ)
  | lit (l : L)
  deriving DecidableEq, Repr

variable {κ L : Type*} [DecidableEq κ]

/-- The parameters that are left. -/
def remaining (fixed : κ → Option L) (params : List κ) : List κ := params.filter fun p => (fixed p).isNone

def forward (fixed : κ → Option L) (params : List κ) : List (Passed L) :=
  params.map fun p => (fixed p).elim (.param ((remaining fixed params).idxOf p)) .lit

/-- What the called function is given, where the parameters are given `given`. -/
def Passed.pass (given : List (Operand L)) : Passed L → Operand L
  | .param k => given.getD k .out
  | .lit l => .lit l

theorem pass_forward {fixed : κ → Option L} {params : List κ} (operand : κ → Operand L)
    (hfixed : ∀ p ∈ params, ∀ l, fixed p = some l → operand p = .lit l) :
    (forward fixed params).map (Passed.pass ((remaining fixed params).map operand)) = params.map operand := by
  rw [forward, List.map_map]
  refine List.map_congr_left fun p hp => ?_
  rw [Function.comp_apply]
  cases h : fixed p with
  | some l => exact (hfixed p hp l h).symm
  | none =>
    have hleft : p ∈ remaining fixed params := List.mem_filter.mpr ⟨hp, by rw [h]; rfl⟩
    have hlt := List.idxOf_lt_length_of_mem hleft
    show ((remaining fixed params).map operand).getD ((remaining fixed params).idxOf p) .out = operand p
    rw [List.getD_eq_getElem _ _ (by rwa [List.length_map]), List.getElem_map, List.getElem_idxOf]

theorem forward_congr {fixed fixed' : κ → Option L} {params : List κ} (h : ∀ p ∈ params, fixed p = fixed' p) :
    forward fixed params = forward fixed' params := by
  have hleft : remaining fixed params = remaining fixed' params :=
    List.filter_congr fun p hp => by rw [h p hp]
  rw [forward, forward, hleft]
  exact List.map_congr_left fun p hp => by rw [h p hp]

/-- Parameters may be told apart by their names. -/
theorem forward_map {α : Type*} [DecidableEq α] (name : α → κ) {fixed : κ → Option L} {params : List α}
    (hnodup : (params.map name).Nodup) :
    forward (fun a => fixed (name a)) params = forward fixed (params.map name) := by
  have hleft : remaining fixed (params.map name) = (remaining (fun a => fixed (name a)) params).map name := by
    rw [remaining, List.filter_map]
    rfl
  rw [forward, forward, List.map_map, hleft]
  refine List.map_congr_left fun a ha => ?_
  rw [Function.comp_apply]
  cases h : fixed (name a) with
  | some l => rfl
  | none =>
    have hmem : a ∈ remaining (fun a => fixed (name a)) params := List.mem_filter.mpr ⟨ha, by simp [h]⟩
    have hdistinct : ((remaining (fun a => fixed (name a)) params).map name).Nodup := by
      rw [← hleft]
      exact hnodup.filter _
    obtain ⟨i, hi, hget⟩ := List.getElem_of_mem hmem
    have hidx := hdistinct.idxOf_getElem i (by rwa [List.length_map])
    rw [List.getElem_map, hget] at hidx
    rw [hidx, ← hget, hdistinct.of_map.idxOf_getElem]

/-! ### Placing -/

/-- The parameters of a function, those it answers through, those that are bound, and the defaults. -/
structure Placing (κ L : Type*) where
  params : List κ
  out : κ → Bool
  bound : κ → Option L
  default : κ → L

namespace Placing

variable (P Q : Placing κ L)

/-- The parameters that take arguments. -/
def facing : List κ := P.params.filter fun p => !P.out p && (P.bound p).isNone

/-- A parameter, where `m` arguments are given. -/
def operand (m : ℕ) (p : κ) : Operand L :=
  if P.out p then .out
  else (P.bound p).elim (if P.facing.idxOf p < m then .arg (P.facing.idxOf p) else .lit (P.default p)) .lit

def call (m : ℕ) : List (Operand L) := P.params.map (P.operand m)

variable {P Q}

omit [DecidableEq κ] in
theorem mem_facing {p : κ} : p ∈ P.facing ↔ p ∈ P.params ∧ P.out p = false ∧ P.bound p = none := by
  rw [facing, List.mem_filter]
  cases P.out p <;> cases P.bound p <;> simp

omit [DecidableEq κ] in
theorem nodup_facing (h : P.params.Nodup) : P.facing.Nodup := h.filter _

theorem operand_out {m : ℕ} {p : κ} (h : P.out p = true) : P.operand m p = .out := if_pos h

theorem operand_bound {m : ℕ} {p : κ} {l : L} (hout : P.out p = false) (h : P.bound p = some l) :
    P.operand m p = .lit l := by
  rw [operand, hout, h]
  rfl

theorem operand_facing {m : ℕ} {p : κ} (h : p ∈ P.facing) :
    P.operand m p = if P.facing.idxOf p < m then .arg (P.facing.idxOf p) else .lit (P.default p) := by
  obtain ⟨-, hout, hbound⟩ := mem_facing.mp h
  rw [operand, hout, hbound]
  rfl

/-- The first parameters stand where they stood. -/
theorem idxOf_take {xs : List κ} {j : ℕ} {p : κ} (h : p ∈ xs.take j) : (xs.take j).idxOf p = xs.idxOf p := by
  conv_rhs => rw [← List.take_append_drop j xs]
  rw [List.idxOf_append_of_mem h]

theorem le_idxOf_of_mem_drop {xs : List κ} (hnodup : xs.Nodup) {j : ℕ} {p : κ} (h : p ∈ xs.drop j) :
    j ≤ xs.idxOf p := by
  obtain ⟨i, hi, rfl⟩ := List.getElem_of_mem h
  rw [List.length_drop] at hi
  rw [List.getElem_drop, hnodup.idxOf_getElem]
  omega

theorem operand_drop (hnodup : P.params.Nodup) {m j : ℕ} (hm : m ≤ j) {p : κ} (h : p ∈ P.facing.drop j) :
    P.operand m p = .lit (P.default p) := by
  rw [operand_facing (List.mem_of_mem_drop h), if_neg]
  have := le_idxOf_of_mem_drop (nodup_facing hnodup) h
  omega

omit [DecidableEq κ] in
/-- Of different elements, those that are among the first are the first. -/
theorem filter_eq_take {xs : List κ} (hnodup : xs.Nodup) {j : ℕ} {keep : κ → Bool}
    (h : ∀ p ∈ xs, keep p = true ↔ p ∈ xs.take j) : xs.filter keep = xs.take j := by
  have hsplit : xs = xs.take j ++ xs.drop j := (List.take_append_drop j xs).symm
  have hdisjoint : ∀ p ∈ xs.take j, p ∉ xs.drop j := by
    rw [hsplit] at hnodup
    exact fun p hp hp' => (List.nodup_append.mp hnodup).2.2 p hp p hp' rfl
  have hfirst : (xs.take j).filter keep = xs.take j :=
    List.filter_eq_self.mpr fun p hp => (h p (List.mem_of_mem_take hp)).mpr hp
  have hlast : (xs.drop j).filter keep = [] :=
    List.filter_eq_nil_iff.mpr fun p hp hkeep => hdisjoint p ((h p (List.mem_of_mem_drop hp)).mp hkeep) hp
  calc xs.filter keep = (xs.take j ++ xs.drop j).filter keep := by rw [← hsplit]
    _ = xs.take j := by rw [List.filter_append, hfirst, hlast, List.append_nil]

/-- Where every parameter is given its argument, no default is read. -/
theorem call_default (d : κ → L) {m : ℕ} (hm : P.facing.length ≤ m) :
    ({ P with default := d } : Placing κ L).call m = P.call m := by
  refine List.map_congr_left fun p hp => ?_
  by_cases hfacing : p ∈ P.facing
  · have hlt := List.idxOf_lt_length_of_mem hfacing
    have hlt' : P.facing.idxOf p < m := by omega
    have hgiven : ({ P with default := d } : Placing κ L).operand m p = .arg (P.facing.idxOf p) := by
      rw [operand_facing (P := { P with default := d }) hfacing]
      exact if_pos hlt'
    rw [hgiven, operand_facing hfacing, if_pos hlt']
  · cases hout : P.out p with
    | true => rw [operand_out hout, operand_out (P := { P with default := d }) hout]
    | false =>
      cases hbound : P.bound p with
      | some l => rw [operand_bound hout hbound, operand_bound (P := { P with default := d }) hout hbound]
      | none => exact absurd (mem_facing.mpr ⟨hp, hout, hbound⟩) hfacing

variable {fixed : κ → Option L}

/-- What is left of a function that fixes parameters and agrees on the others. -/
structure Fixes (P Q : Placing κ L) (fixed : κ → Option L) (j : ℕ) : Prop where
  params : Q.params = remaining fixed P.params
  out : ∀ p ∈ Q.params, Q.out p = P.out p
  bound : ∀ p ∈ Q.params, Q.bound p = P.bound p
  first : ∀ p ∈ P.facing, fixed p = none ↔ p ∈ P.facing.take j

omit [DecidableEq κ] in
theorem Fixes.mem {j : ℕ} (h : Fixes P Q fixed j) {p : κ} : p ∈ Q.params ↔ p ∈ P.params ∧ fixed p = none := by
  rw [h.params, remaining, List.mem_filter, Option.isNone_iff_eq_none]

omit [DecidableEq κ] in
/-- The parameters that take arguments are the first of those that did. -/
theorem Fixes.facing_eq {j : ℕ} (h : Fixes P Q fixed j) (hnodup : P.params.Nodup) : Q.facing = P.facing.take j := by
  have hfacing : Q.facing = P.facing.filter fun p => (fixed p).isNone := by
    rw [facing, facing, h.params, remaining, List.filter_filter, List.filter_filter]
    refine List.filter_congr fun p hp => ?_
    by_cases hfixed : fixed p = none
    · have hmem := h.mem.mpr ⟨hp, hfixed⟩
      rw [h.out p hmem, h.bound p hmem, Bool.and_comm]
    · have hnone : (fixed p).isNone = false := by
        rw [Option.isNone_eq_false_iff, Option.isSome_iff_ne_none]
        exact hfixed
      rw [hnone, Bool.and_false, Bool.false_and]
  rw [hfacing]
  exact filter_eq_take (nodup_facing hnodup) fun p hp => by rw [Option.isNone_iff_eq_none]; exact h.first p hp

/-- A call of the forwarding function is a call of the function. -/
theorem call_forward {j m : ℕ} (h : Fixes P Q fixed j) (hnodup : P.params.Nodup)
    (hfixed : ∀ p ∈ P.params, ∀ l, fixed p = some l → P.operand m p = .lit l)
    (hdefault : ∀ p ∈ Q.facing, m ≤ Q.facing.idxOf p → Q.default p = P.default p) :
    (forward fixed P.params).map (Passed.pass (Q.call m)) = P.call m := by
  have hfacing := h.facing_eq hnodup
  have hsame : ∀ p ∈ Q.params, Q.operand m p = P.operand m p := by
    intro p hp
    by_cases hpf : p ∈ Q.facing
    · have hpf' : p ∈ P.facing.take j := hfacing ▸ hpf
      have hidx : Q.facing.idxOf p = P.facing.idxOf p := by rw [hfacing, idxOf_take hpf']
      rw [operand_facing hpf, operand_facing (List.mem_of_mem_take hpf'), hidx]
      by_cases hlt : P.facing.idxOf p < m
      · rw [if_pos hlt, if_pos hlt]
      · rw [if_neg hlt, if_neg hlt, hdefault p hpf (by omega)]
    · rw [operand, operand, h.out p hp, h.bound p hp]
      cases hout : P.out p with
      | true => rfl
      | false =>
        cases hbound : P.bound p with
        | some l => rfl
        | none =>
          refine absurd (mem_facing.mpr ⟨hp, ?_, ?_⟩) hpf
          · rw [h.out p hp, hout]
          · rw [h.bound p hp, hbound]
  have hcall : Q.call m = (remaining fixed P.params).map (P.operand m) := by
    rw [call, ← h.params]
    exact List.map_congr_left hsame
  rw [hcall, pass_forward _ hfixed, call]

end Placing
end Lib
