/-
# Time as a machine integer, with codes for both infinities

A time type counts days or microseconds from an epoch of its own in a signed
integer, and takes the ends of the integer's range for the infinities: the
greatest code for +∞, and for -∞ the least code or the one above it. What a code
stands for is a time on one common line (`TimeLine.time`), on which the codes
from -∞ to +∞ keep their order (`TimeLine.time_strictMonoOn`).

Between two such types, adding the distance of the epochs and wrapping around
(`TimeLine.shift`) is undone by the way back (`shift_shift`), but it keeps the
time of a code only where the code is finite and its sum is a finite code too
(`time_shift_iff`).

Key definitions: `TimeLine`, `TimeLine.time`, `TimeLine.Finite`,
`TimeLine.shift`. Key theorems: `TimeLine.time_strictMonoOn`,
`TimeLine.shift_shift`, `TimeLine.time_shift_iff`.
-/
import Mathlib.Order.WithBot
import Mathlib.Order.Monotone.Defs
import Mathlib.Order.ConditionallyCompleteLattice.Basic
import Mathlib.Data.Int.ConditionallyCompleteOrder

namespace Lib

/-- A time type over the integers from `-half` to `half - 1`: the code of -∞, and the time of the code
zero. -/
structure TimeLine (half : ℕ) where
  bot : ℤ
  epoch : ℤ
  le_bot : -(half : ℤ) ≤ bot
  bot_le : bot ≤ 1 - (half : ℤ)
  two_le_half : 2 ≤ half

namespace TimeLine

variable {half : ℕ} {src dst l : TimeLine half} {c d : ℤ}

/-- The code of +∞. -/
def top (_ : TimeLine half) : ℤ := (half : ℤ) - 1

/-- The code is one of the integer's. -/
def Code (half : ℕ) (c : ℤ) : Prop := -(half : ℤ) ≤ c ∧ c < (half : ℤ)

/-- The code is of neither infinity. -/
def Finite (l : TimeLine half) (c : ℤ) : Prop := l.bot < c ∧ c < l.top

/-- The time a code stands for; below the code of -∞ there is no other time. -/
def time (l : TimeLine half) (c : ℤ) : WithBot (WithTop ℤ) :=
  if c ≤ l.bot then ⊥ else if l.top ≤ c then ⊤ else ((c + l.epoch : ℤ) : WithTop ℤ)

/-- The code moved from one epoch to the other, as the integer type adds. -/
def shift (src dst : TimeLine half) (c : ℤ) : ℤ := (c + (src.epoch - dst.epoch)).bmod (2 * half)

theorem bot_lt_top (l : TimeLine half) : l.bot < l.top := by
  have hbot := l.bot_le
  have hhalf := l.two_le_half
  unfold top
  omega

theorem time_of_le (h : c ≤ l.bot) : l.time c = ⊥ := if_pos h

theorem time_of_top_le (h : l.top ≤ c) : l.time c = ⊤ := by
  have hbot : ¬ c ≤ l.bot := by have := l.bot_lt_top; omega
  rw [time, if_neg hbot, if_pos h]

theorem time_of_finite (h : l.Finite c) : l.time c = ((c + l.epoch : ℤ) : WithTop ℤ) := by
  rw [time, if_neg (not_le.mpr h.1), if_neg (not_le.mpr h.2)]

theorem coe_ne_top (z : ℤ) : ((z : WithTop ℤ) : WithBot (WithTop ℤ)) ≠ ⊤ := by
  intro h
  exact WithTop.coe_ne_top (WithBot.coe_injective h)

/-- A finite time has one code. -/
theorem finite_of_time_eq {z : ℤ} (h : l.time c = (z : WithTop ℤ)) : l.Finite c ∧ c + l.epoch = z := by
  by_cases hbot : c ≤ l.bot
  · rw [time_of_le hbot] at h
    exact absurd h.symm (WithBot.coe_ne_bot)
  · by_cases htop : l.top ≤ c
    · rw [time_of_top_le htop] at h
      exact absurd h.symm (coe_ne_top z)
    · have hfin : l.Finite c := ⟨not_le.mp hbot, not_le.mp htop⟩
      rw [time_of_finite hfin] at h
      exact ⟨hfin, WithTop.coe_injective (WithBot.coe_injective h)⟩

theorem le_bot_of_time_eq (h : l.time c = ⊥) : c ≤ l.bot := by
  by_contra hbot
  rw [time, if_neg hbot] at h
  by_cases htop : l.top ≤ c
  · rw [if_pos htop] at h
    exact absurd h (WithBot.coe_ne_bot (a := (⊤ : WithTop ℤ)))
  · rw [if_neg htop] at h
    exact absurd h WithBot.coe_ne_bot

theorem top_le_of_time_eq (h : l.time c = ⊤) : l.top ≤ c := by
  by_cases hbot : c ≤ l.bot
  · rw [time_of_le hbot] at h
    exact absurd h.symm (WithBot.coe_ne_bot (a := (⊤ : WithTop ℤ)))
  · by_contra htop
    rw [time, if_neg hbot, if_neg htop] at h
    exact coe_ne_top _ h

/-- From -∞ to +∞ the codes are ordered as their times. -/
theorem time_strictMonoOn (l : TimeLine half) : StrictMonoOn l.time (Set.Icc l.bot l.top) := by
  intro c hc d hd hcd
  by_cases hbot : c ≤ l.bot
  · rw [time_of_le hbot, bot_lt_iff_ne_bot]
    intro h
    have := le_bot_of_time_eq h
    have := hc.1
    omega
  · have hfin : l.Finite c := ⟨not_le.mp hbot, lt_of_lt_of_le hcd hd.2⟩
    by_cases htop : l.top ≤ d
    · rw [time_of_top_le htop, time_of_finite hfin, lt_top_iff_ne_top]
      exact coe_ne_top _
    · have hfin' : l.Finite d := ⟨lt_trans hfin.1 hcd, not_le.mp htop⟩
      rw [time_of_finite hfin, time_of_finite hfin', WithBot.coe_lt_coe, WithTop.coe_lt_coe]
      omega

theorem Finite.mem_Icc (h : l.Finite c) : c ∈ Set.Icc l.bot l.top := ⟨h.1.le, h.2.le⟩

theorem Finite.code (h : l.Finite c) : Code half c :=
  ⟨l.le_bot.trans h.1.le, h.2.trans (Int.sub_one_lt_of_le le_rfl)⟩

/-- A code that does not leave the range stays what it is. -/
theorem bmod_of_code (h : Code half c) : c.bmod (2 * half) = c := by
  apply Int.bmod_eq_of_le_mul_two
  · have := h.1
    push_cast
    omega
  · have := h.2
    push_cast
    omega

/-- There and back: the wrapping undoes itself. -/
theorem shift_shift (hc : Code half c) : dst.shift src (src.shift dst c) = c := by
  rw [shift, shift, Int.bmod_add_bmod,
    show c + (src.epoch - dst.epoch) + (dst.epoch - src.epoch) = c by omega, bmod_of_code hc]

/-- The epochs differ, by more than one and by less than half the range. -/
def Apart (src dst : TimeLine half) : Prop :=
  2 ≤ (src.epoch - dst.epoch).natAbs ∧ (src.epoch - dst.epoch).natAbs < half

/-- A sum that left the range was wrapped around once. -/
theorem shift_cases (hc : Code half c) (hapart : Apart src dst) :
    Code half (c + (src.epoch - dst.epoch)) ∧ src.shift dst c = c + (src.epoch - dst.epoch) ∨
      half ≤ c + (src.epoch - dst.epoch) ∧
          src.shift dst c = c + (src.epoch - dst.epoch) - (2 * half : ℕ) ∨
        c + (src.epoch - dst.epoch) < -(half : ℤ) ∧
          src.shift dst c = c + (src.epoch - dst.epoch) + (2 * half : ℕ) := by
  obtain ⟨hlow, hhigh⟩ := hc
  have hdist := hapart.2
  by_cases hup : half ≤ c + (src.epoch - dst.epoch)
  · refine .inr (.inl ⟨hup, ?_⟩)
    rw [shift, ← Int.sub_bmod_right]
    exact bmod_of_code ⟨by push_cast; omega, by push_cast; omega⟩
  · by_cases hdown : c + (src.epoch - dst.epoch) < -(half : ℤ)
    · refine .inr (.inr ⟨hdown, ?_⟩)
      rw [shift, ← Int.add_bmod_right]
      exact bmod_of_code ⟨by push_cast; omega, by push_cast; omega⟩
    · have hcode : Code half (c + (src.epoch - dst.epoch)) := ⟨not_lt.mp hdown, not_le.mp hup⟩
      exact .inl ⟨hcode, bmod_of_code hcode⟩

/-- No code of an infinity is moved to a code of the same infinity. -/
theorem finite_of_time_shift_eq (hc : Code half c) (hapart : Apart src dst)
    (h : dst.time (src.shift dst c) = src.time c) : src.Finite c := by
  obtain ⟨hfar, hnear⟩ := hapart
  have hdst := dst.bot_le
  have hsrc := src.bot_le
  by_cases hbot : c ≤ src.bot
  · rw [time_of_le hbot] at h
    have hle := le_bot_of_time_eq h
    have hlow := hc.1
    rcases shift_cases hc ⟨hfar, hnear⟩ with ⟨hin, heq⟩ | ⟨hout, heq⟩ | ⟨hout, heq⟩
    · have := hin.1
      omega
    · omega
    · push_cast at heq
      omega
  · refine ⟨not_le.mp hbot, ?_⟩
    by_contra htop
    rw [time_of_top_le (not_lt.mp htop)] at h
    have hle := top_le_of_time_eq h
    have hhigh := hc.2
    unfold top at htop hle
    rcases shift_cases hc ⟨hfar, hnear⟩ with ⟨hin, heq⟩ | ⟨hout, heq⟩ | ⟨hout, heq⟩
    · have := hin.2
      omega
    · push_cast at heq
      omega
    · omega

/-- **A shift keeps a time where both codes are finite.** For any other code it lands on another time:
the infinities among the finite ones, and what overflows on the other side. -/
theorem time_shift_iff (hc : Code half c) (hapart : Apart src dst) :
    dst.time (src.shift dst c) = src.time c ↔
      src.Finite c ∧ dst.Finite (c + (src.epoch - dst.epoch)) := by
  constructor
  · intro h
    have hfin := finite_of_time_shift_eq hc hapart h
    rw [time_of_finite hfin] at h
    obtain ⟨hfin', heq⟩ := finite_of_time_eq h
    have hsum : src.shift dst c = c + (src.epoch - dst.epoch) := by omega
    exact ⟨hfin, hsum ▸ hfin'⟩
  · rintro ⟨hfin, hfin'⟩
    have hsum : src.shift dst c = c + (src.epoch - dst.epoch) := bmod_of_code hfin'.code
    rw [hsum, time_of_finite hfin, time_of_finite hfin',
      show c + (src.epoch - dst.epoch) + dst.epoch = c + src.epoch by omega]

end TimeLine

end Lib
