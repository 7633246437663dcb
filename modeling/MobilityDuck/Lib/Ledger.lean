/-
# A ledger of what was obtained and released

Things that must be released are numbered as they are obtained, and a number
is never given out again. The ledger records the numbers released so far. A
program that holds some of them and hands them on is accounted for by what it
takes and what it leaves (`Moves`): these compose, and something held beside
them is untouched. When the books balance, nothing was released twice, and
everything was released exactly when nothing is held (`Balanced.perm_iff`).

Key definitions: `Ledger`, `Ledger.Moves`, `Ledger.Balanced`.
Key theorems: `Moves.trans`, `Balanced.moves`, `Balanced.nodup`, `Balanced.perm_iff`.
-/
import Mathlib.Algebra.Order.Group.Multiset
import Mathlib.Data.Multiset.Range

namespace Lib

structure Ledger where
  next : ℕ
  released : List ℕ

namespace Ledger

def empty : Ledger := ⟨0, []⟩

def alloc (l : Ledger) : Ledger := { l with next := l.next + 1 }

def free (l : Ledger) (id : ℕ) : Ledger := { l with released := id :: l.released }

def freeAll (l : Ledger) (ids : List ℕ) : Ledger := ids.foldl free l

/-- From `l` to `l'` the numbers `ins` were given up and `outs` are held instead. -/
def Moves (l l' : Ledger) (ins outs : Multiset ℕ) : Prop :=
  (l'.released : Multiset ℕ) + outs + Multiset.range l.next =
    (l.released : Multiset ℕ) + ins + Multiset.range l'.next

/-- Each number given out was released once or is held, and not both. -/
def Balanced (l : Ledger) (held : Multiset ℕ) : Prop :=
  (l.released : Multiset ℕ) + held = Multiset.range l.next

variable {l l' l'' : Ledger} {ins mid outs rest held : Multiset ℕ}

theorem Moves.refl (l : Ledger) (ins : Multiset ℕ) : l.Moves l ins ins := rfl

theorem moves_iff_count : l.Moves l' ins outs ↔ ∀ p,
    l'.released.count p + outs.count p + (Multiset.range l.next).count p =
      l.released.count p + ins.count p + (Multiset.range l'.next).count p := by
  simp [Moves, Multiset.ext]

theorem Moves.trans (h : l.Moves l' ins mid) (h' : l'.Moves l'' mid outs) :
    l.Moves l'' ins outs := by
  rw [moves_iff_count] at *
  intro p
  have := h p
  have := h' p
  omega

/-- What is held beside is untouched. -/
theorem Moves.frame (h : l.Moves l' ins outs) (rest : Multiset ℕ) :
    l.Moves l' (ins + rest) (outs + rest) := by
  rw [moves_iff_count] at *
  intro p
  have := h p
  simp only [Multiset.count_add]
  omega

theorem moves_alloc (l : Ledger) : l.Moves l.alloc 0 {l.next} := by
  rw [moves_iff_count]
  intro p
  simp only [alloc, Multiset.range_succ, Multiset.count_zero, Multiset.count_cons,
    Multiset.count_singleton]
  omega

/-- What is obtained first is held beside what follows. -/
theorem Moves.of_alloc (h : l.alloc.Moves l' ins outs) : l.Moves l' ins ({l.next} + outs) := by
  have hfirst := (moves_alloc l).frame ins
  have hrest := h.frame {l.next}
  rw [zero_add, add_comm] at hfirst
  rw [add_comm outs] at hrest
  exact hfirst.trans hrest

theorem moves_free (l : Ledger) (id : ℕ) : l.Moves (l.free id) {id} 0 := by
  rw [moves_iff_count]
  intro p
  by_cases h : id = p
  · subst h
    simp [free]
  · simp [free, h, Ne.symm h]

theorem moves_freeAll : ∀ (l : Ledger) (ids : List ℕ), l.Moves (l.freeAll ids) ids 0
  | l, [] => Moves.refl l 0
  | l, id :: ids => by
    have h : l.Moves (l.free id) ({id} + (ids : Multiset ℕ)) (0 + ids) := (moves_free l id).frame ids
    rw [zero_add] at h
    exact h.trans (moves_freeAll (l.free id) ids)

theorem balanced_empty : Balanced empty 0 := rfl

theorem Balanced.moves (h : l.Balanced (ins + rest)) (hm : l.Moves l' ins outs) :
    l'.Balanced (outs + rest) := by
  rw [moves_iff_count] at hm
  simp only [Balanced, Multiset.ext, Multiset.count_add, Multiset.coe_count] at h ⊢
  intro p
  have := h p
  have := hm p
  omega

/-- What moves while nothing is held. -/
theorem Balanced.moves_zero (h : l.Balanced 0) (hm : l.Moves l' 0 outs) : l'.Balanced outs := by
  have h' : l'.Balanced (outs + 0) := Balanced.moves (by rwa [add_zero]) hm
  rwa [add_zero] at h'

/-- Nothing was released twice. -/
theorem Balanced.nodup (h : l.Balanced held) : l.released.Nodup := by
  have hle : (l.released : Multiset ℕ) ≤ Multiset.range l.next := h ▸ Multiset.le_add_right _ _
  exact Multiset.coe_nodup.mp (Multiset.nodup_of_le hle (Multiset.nodup_range _))

/-- Everything was released exactly if nothing is held. -/
theorem Balanced.perm_iff (h : l.Balanced held) :
    l.released.Perm (List.range l.next) ↔ held = 0 := by
  rw [← Multiset.coe_eq_coe]
  constructor
  · intro hp
    have heq : (l.released : Multiset ℕ) + held = l.released + 0 := by
      rw [add_zero, h]
      exact hp.symm
    exact add_left_cancel heq
  · rintro rfl
    rw [Balanced, add_zero] at h
    exact h

end Ledger

end Lib
