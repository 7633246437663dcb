/-
# Doubles as their bits

A double is its 64 bits: the sign, the exponent and the fraction. A number
that is not NaN is `scaled`, an integer count of the smallest positive double
`2 ^ -1074`; an infinity counts as one step beyond the largest finite double,
so `scaled` orders the numbers as `<` and `==` do, and gives the two zeros one
value.

Key definitions: `Binary64`, `Binary64.IsFinite`, `Binary64.scaled`, `Binary64.Eq`, `Binary64.Lt`.
-/
import Mathlib.Algebra.Order.Ring.Int
import Mathlib.Tactic.GCongr
import Mathlib.Tactic.Linarith

namespace Lib

/-- The 64 bits of a double. -/
structure Binary64 where
  bits : UInt64
  deriving DecidableEq, Repr

namespace Binary64

variable (x y : Binary64)

def sign : Bool := 2 ^ 63 ≤ x.bits.toNat

def exponent : ℕ := x.bits.toNat / 2 ^ 52 % 2 ^ 11

def fraction : ℕ := x.bits.toNat % 2 ^ 52

def IsFinite : Prop := x.exponent ≠ 2047

def IsInf : Prop := x.exponent = 2047 ∧ x.fraction = 0

def IsNaN : Prop := x.exponent = 2047 ∧ x.fraction ≠ 0

instance : Decidable x.IsFinite := inferInstanceAs (Decidable (_ ≠ _))

instance : Decidable x.IsInf := inferInstanceAs (Decidable (_ ∧ _))

instance : Decidable x.IsNaN := inferInstanceAs (Decidable (_ ∧ _))

/-- The magnitude, in units of `2 ^ -1074`. -/
def magnitude : ℕ :=
  if x.exponent = 0 then x.fraction else (2 ^ 52 + x.fraction) * 2 ^ (x.exponent - 1)

def scaled : ℤ := if x.sign then -x.magnitude else x.magnitude

/-- `x == y`. -/
def Eq : Prop := ¬ x.IsNaN ∧ ¬ y.IsNaN ∧ x.scaled = y.scaled

/-- `x < y`. -/
def Lt : Prop := ¬ x.IsNaN ∧ ¬ y.IsNaN ∧ x.scaled < y.scaled

instance : Decidable (x.Eq y) := inferInstanceAs (Decidable (_ ∧ _))

instance : Decidable (x.Lt y) := inferInstanceAs (Decidable (_ ∧ _))

def zero : Binary64 := ⟨0⟩

def negInf : Binary64 := ⟨0xFFF0000000000000⟩

/-- One, in units of `2 ^ -1074`. -/
def unit : ℤ := 2 ^ 1074

/-- The double of an integer of at most 53 bits. -/
def ofInt (n : ℤ) : Binary64 :=
  if n = 0 then zero
  else
    let e := Nat.log2 n.natAbs
    ⟨UInt64.ofNat ((if n < 0 then 2 ^ 63 else 0) + (1023 + e) * 2 ^ 52 +
      (n.natAbs * 2 ^ (52 - e) - 2 ^ 52))⟩

/-- The integer part of a double that is not negative. -/
def floor : ℤ := x.scaled / unit

variable {x y}

theorem not_isNaN_of_isFinite (h : x.IsFinite) : ¬ x.IsNaN := fun hn => h hn.1

theorem Eq.refl (h : ¬ x.IsNaN) : x.Eq x := ⟨h, h, rfl⟩

theorem Eq.symm (h : x.Eq y) : y.Eq x := ⟨h.2.1, h.1, h.2.2.symm⟩

theorem Eq.trans {z : Binary64} (h : x.Eq y) (h' : y.Eq z) : x.Eq z :=
  ⟨h.1, h'.2.1, h.2.2.trans h'.2.2⟩

/-- The bits are the sign, the exponent and the fraction. -/
theorem toNat_bits : x.bits.toNat =
    (if x.sign then 2 ^ 63 else 0) + x.exponent * 2 ^ 52 + x.fraction := by
  have hlt : x.bits.toNat < 2 ^ 64 := x.bits.toNat_lt
  simp only [sign, exponent, fraction, decide_eq_true_eq]
  split <;> omega

theorem magnitude_pos_of_isInf (h : x.IsInf) : 0 < x.magnitude := by
  rw [magnitude, h.1, if_neg (by decide)]
  positivity

theorem magnitude_of_not_finite (h : x.exponent = 2047) :
    x.magnitude = (2 ^ 52 + x.fraction) * 2 ^ 2046 := by
  rw [magnitude, h, if_neg (by decide)]

theorem natAbs_scaled : x.scaled.natAbs = x.magnitude := by
  unfold scaled
  split <;> simp

/-- A finite double is less than an infinity. -/
theorem magnitude_lt_of_isFinite (h : x.IsFinite) : x.magnitude < 2 ^ 52 * 2 ^ 2046 := by
  have he : x.exponent < 2 ^ 11 := Nat.mod_lt _ (by decide)
  have hf : x.fraction < 2 ^ 52 := Nat.mod_lt _ (by decide)
  have hne : x.exponent ≠ 2047 := h
  unfold magnitude
  split
  · exact lt_of_lt_of_le hf (Nat.le_mul_of_pos_right _ (by positivity))
  · calc (2 ^ 52 + x.fraction) * 2 ^ (x.exponent - 1)
        ≤ (2 ^ 52 + x.fraction) * 2 ^ 2045 := by gcongr <;> omega
      _ < (2 ^ 52 * 2) * 2 ^ 2045 := by gcongr; omega
      _ = 2 ^ 52 * 2 ^ 2046 := by rw [mul_assoc, ← pow_succ']

/-- A number equal to a finite one is finite. -/
theorem Eq.isFinite (h : x.Eq y) (hy : y.IsFinite) : x.IsFinite := by
  by_contra hx
  have hlt := magnitude_lt_of_isFinite hy
  rw [← natAbs_scaled, ← h.2.2, natAbs_scaled, magnitude_of_not_finite (not_not.mp hx),
    Nat.mul_lt_mul_right (by positivity)] at hlt
  omega

/-- An infinity below zero is the one negative infinity. -/
theorem isInf_and_lt_zero_iff : x.IsInf ∧ x.Lt zero ↔ x = negInf := by
  constructor
  · rintro ⟨hi, -, -, hlt⟩
    have hs : x.sign = true := by
      by_contra hs
      have hz : zero.scaled = 0 := by decide
      rw [hz, scaled, if_neg hs] at hlt
      omega
    have hb := toNat_bits (x := x)
    rw [hs, hi.1, hi.2] at hb
    cases x with
    | mk bits =>
      congr
      exact UInt64.toNat.inj hb
  · rintro rfl
    refine ⟨by decide, by decide, by decide, ?_⟩
    rw [scaled, scaled, if_pos (by decide), if_neg (by decide)]
    have h1 : 0 < negInf.magnitude := magnitude_pos_of_isInf (by decide)
    have h2 : zero.magnitude = 0 := by decide
    rw [h2]
    omega

end Binary64

end Lib
