import Elegance.Lib.CInt

/-!
# Signed arithmetic that may go wrong

An `int` operation has a result only where the exact one fits in 32 bits, a left shift where it fits
in as many bits without a sign, and a remainder only for a divisor other than 0. Each is an
`Except`, so that a computation is a `do` block that stops at the first operation that goes wrong.
-/

namespace CInt

inductive Fault where
  | overflow
  | divByZero
  deriving DecidableEq, Repr

/-- `z` is the value of some `int`. -/
def IsInt (z : ℤ) : Prop := intMin ≤ z ∧ z ≤ intMax

instance (z : ℤ) : Decidable (IsInt z) := inferInstanceAs (Decidable (_ ∧ _))

/-- The operation whose exact result is `z`. -/
def checked (z : ℤ) : Except Fault ℤ := if IsInt z then .ok z else .error .overflow

/-- `a % b`, which truncates towards 0; `INT_MIN % -1` overflows. -/
def checkedMod (a b : ℤ) : Except Fault ℤ :=
  if b = 0 then .error .divByZero else if IsInt (a.tdiv b) then .ok (a.tmod b) else .error .overflow

/-- `a << k`: what fits in an `unsigned int` is converted to an `int`. -/
def checkedShl (a : ℤ) (k : ℕ) : Except Fault ℤ :=
  if 0 ≤ a ∧ a * 2 ^ k < 4294967296 then .ok (wrap32 (a * 2 ^ k)) else .error .overflow

@[simp]
theorem checked_of_isInt {z : ℤ} (h : IsInt z) : checked z = .ok z := if_pos h

@[simp]
theorem checked_of_not_isInt {z : ℤ} (h : ¬ IsInt z) : checked z = .error .overflow := if_neg h

theorem checkedShl_of_isInt {a : ℤ} {k : ℕ} (ha : 0 ≤ a) (h : IsInt (a * 2 ^ k)) :
    checkedShl a k = .ok (a * 2 ^ k) := by
  have hroom : a * 2 ^ k < 4294967296 := h.2.trans_lt (by decide)
  rw [checkedShl, if_pos ⟨ha, hroom⟩, wrap32_of_range h.1 h.2]

/-- A shift into the sign bit makes the number negative. -/
theorem checkedShl_sign {a : ℤ} {k : ℕ} (ha : 0 ≤ a) (h : intMax < a * 2 ^ k)
    (h' : a * 2 ^ k < 4294967296) : checkedShl a k = .ok (a * 2 ^ k - 4294967296) := by
  have hwrap : wrap32 (a * 2 ^ k) = a * 2 ^ k - 4294967296 := by
    rw [wrap32_eq]
    rw [intMax] at h
    omega
  rw [checkedShl, if_pos ⟨ha, h'⟩, hwrap]

theorem checkedShl_overflow {a : ℤ} {k : ℕ} (h : 4294967296 ≤ a * 2 ^ k) :
    checkedShl a k = .error .overflow :=
  if_neg fun hroom => absurd hroom.2 (not_lt.2 h)

@[simp]
theorem checkedMod_zero (a : ℤ) : checkedMod a 0 = .error .divByZero := rfl

/-- The remainder of numbers that are not negative is the one of the naturals. -/
theorem checkedMod_of_nonneg {a b : ℤ} (ha : 0 ≤ a) (ha' : a ≤ intMax) (hb : 0 < b) :
    checkedMod a b = .ok (a % b) := by
  have hfits : IsInt (a.tdiv b) := by
    have hpos : 0 ≤ a.tdiv b := Int.tdiv_nonneg ha hb.le
    have hle : a.tdiv b ≤ a := by
      rw [Int.tdiv_eq_ediv_of_nonneg ha]
      exact Int.ediv_le_self b ha
    unfold IsInt intMin
    omega
  rw [checkedMod, if_neg hb.ne', if_pos hfits, Int.tmod_eq_emod_of_nonneg ha]

end CInt
