import Mathlib.Algebra.Ring.Int.Defs
import RowFilter.Proofs.Arith.Null

/-!
# Integer division

The division of words with null, in terms of integers and of the native division it runs on.

The native division faults on a zero divisor, and on the smallest value by minus one, whose quotient
does not fit. Integer division runs it on every pair of operands, with one in the place of each
divisor that it would fault on, and throws the quotient away there.

## Main definitions

- `DivisionFault`, `Integer.nativeDiv` — the native division with its faults.
- `Integer.DivisionIsNull` — the operands whose quotient is null.

## Main statements

- `Integer.nativeDiv_divisor` — no divisor that is handed to the native division makes it fault.
- `Integer.div_of_divisionIsNull`, `Integer.toInt_div` — the quotient.
-/

namespace RowFilter

/-- The ways in which a native signed division can fault. -/
inductive DivisionFault where
  /-- The divisor is zero. -/
  | zeroDivisor
  /-- The quotient does not fit. -/
  | overflow
  deriving DecidableEq, Repr

namespace Integer

variable {w : Nat} {nullCheck : Bool} {a b : BitVec w}

/-- The native signed division. -/
def nativeDiv (a b : BitVec w) : Except DivisionFault (BitVec w) :=
  if b = 0 then .error .zeroDivisor
  else if a = null w ∧ b = -1 then .error .overflow
  else .ok (a.sdiv b)

/-- The operands whose quotient is null: there is none, it does not fit, or the null check meets a
null. -/
def DivisionIsNull (nullCheck : Bool) (a b : BitVec w) : Prop :=
  b = 0 ∨ (a = null w ∧ b = -1) ∨ (nullCheck = true ∧ (a = null w ∨ b = null w))

theorem divisionIsNull_iff :
    divisionIsNull nullCheck a b = true ↔ DivisionIsNull nullCheck a b := by
  simp only [divisionIsNull, eitherNull, isNull, Bool.or_eq_true, Bool.and_eq_true, beq_iff_eq,
    DivisionIsNull, or_assoc]

/-- The smallest value is minus two to the power of one less than the width. -/
theorem toInt_null (hw : 0 < w) : (null w).toInt = -2 ^ (w - 1) := by
  rw [null, BitVec.toInt_intMin_of_pos hw]

/-- One is neither zero nor minus one. -/
theorem one_safe (hw : 1 < w) : (1 : BitVec w) ≠ 0 ∧ (1 : BitVec w) ≠ -1 := by
  have hpow : 2 ^ 2 ≤ 2 ^ w := Nat.pow_le_pow_right (by decide) hw
  have hone : (1#w).toNat = 1 := by rw [BitVec.toNat_ofNat, Nat.mod_eq_of_lt (by omega)]
  have hminus : (-1#w).toNat = 2 ^ w - 1 := by
    rw [BitVec.toNat_neg, hone, Nat.mod_eq_of_lt (by omega)]
  constructor
  · intro h
    have hnat := congrArg BitVec.toNat h
    change (1#w).toNat = (0#w).toNat at hnat
    rw [hone, BitVec.toNat_zero] at hnat
    cases hnat
  · intro h
    have hnat := congrArg BitVec.toNat h
    change (1#w).toNat = (-1#w).toNat at hnat
    omega

/-- The divisor handed to the native division is not zero, and not minus one under the smallest
value. -/
theorem divisor_safe (hw : 1 < w) (nullCheck : Bool) (a b : BitVec w) :
    divisor nullCheck a b ≠ 0 ∧ ¬ (a = null w ∧ divisor nullCheck a b = -1) := by
  obtain ⟨hzero, hminus⟩ := one_safe hw
  rw [divisor]
  split
  next => exact ⟨hzero, fun h => hminus h.2⟩
  next h =>
    rw [divisionIsNull_iff, DivisionIsNull, not_or, not_or] at h
    exact ⟨h.1, h.2.1⟩

/-- So the native division does not fault. -/
theorem nativeDiv_divisor (hw : 1 < w) (nullCheck : Bool) (a b : BitVec w) :
    nativeDiv a (divisor nullCheck a b) = .ok (a.sdiv (divisor nullCheck a b)) := by
  obtain ⟨hzero, hfits⟩ := divisor_safe hw nullCheck a b
  rw [nativeDiv, if_neg hzero, if_neg hfits]

theorem div_of_divisionIsNull (h : DivisionIsNull nullCheck a b) : div nullCheck a b = null w := by
  rw [div, if_pos (divisionIsNull_iff.2 h)]

/-- Every other quotient is that of the integers, truncated toward zero. -/
theorem toInt_div (h : ¬ DivisionIsNull nullCheck a b) :
    (div nullCheck a b).toInt = a.toInt.tdiv b.toInt := by
  have hnull : ¬ divisionIsNull nullCheck a b = true := fun hnull => h (divisionIsNull_iff.1 hnull)
  rw [div, if_neg hnull, divisor, if_neg hnull]
  refine BitVec.toInt_sdiv_of_ne_or_ne a b ?_
  rw [DivisionIsNull, not_or, not_or] at h
  exact Decidable.not_and_iff_not_or_not.1 h.2.1

/-- A quotient truncated toward zero fits, as every word does. -/
theorem tdiv_fits (h : ¬ DivisionIsNull nullCheck a b) :
    -2 ^ (w - 1) ≤ a.toInt.tdiv b.toInt ∧ a.toInt.tdiv b.toInt < 2 ^ (w - 1) := by
  rw [← toInt_div h]
  exact ⟨BitVec.le_toInt _, BitVec.toInt_lt⟩

end Integer

end RowFilter
