import RowFilter.Arith.Floating

/-!
# Null in arithmetic

With the null check, every arithmetic operation and every conversion takes null operands to null.
For integers the check does it; a float has not-a-number for null, and every operation on it yields
not-a-number by itself.

## Main statements

- `Integer.isNull_arith`, `Integer.isNull_neg` — integer operations on null.
- `Floating.arith_eq_nan`, `BinaryFloat.neg_eq_nan` — float operations on null.
- `Floating.ofInteger_eq_nan`, `BinaryFloat.convert_eq_nan` — conversions of null to a float.
- `BinaryFloat.isNaN_ofInt`, `BinaryFloat.isNaN_convert` — no conversion makes a null of a number.
-/

namespace RowFilter

namespace Integer

variable {w : Nat} {a b : BitVec w}

theorem isNull_null (w : Nat) : isNull (null w) = true := by
  simp [isNull]

/-- The null value is its own negation. -/
theorem isNull_neg (h : isNull a = true) : isNull (neg a) = true := by
  have ha : a = null w := eq_of_beq h
  rw [neg, ha, null, BitVec.neg_intMin]
  exact isNull_null w

theorem isNull_propagate (h : isNull a = true ∨ isNull b = true) (result : BitVec w) :
    isNull (propagate true a b result) = true := by
  have heither : eitherNull a b = true := by simpa [eitherNull] using h
  rw [propagate, heither, Bool.true_and, if_pos rfl]
  exact isNull_null w

/-- A null operand makes the result null, even of a division by zero. -/
theorem isNull_arith (op : ArithOp) (h : isNull a = true ∨ isNull b = true) :
    isNull (arith op true a b) = true := by
  cases op with
  | add | sub | mul => exact isNull_propagate h _
  | div =>
    have heither : eitherNull a b = true := by simpa [eitherNull] using h
    have hdivision : divisionIsNull true a b = true := by
      rw [divisionIsNull, heither, Bool.and_true, Bool.or_true]
    rw [arith, div, if_pos hdivision]
    exact isNull_null w

end Integer

namespace BinaryFloat

open Float.Model (Format UnpackedFloat)
open Float.Model.UnpackedFloat (unpackExponent unpackMantissa packComponents packedInfinity
  unpackExponent_packComponents unpackMantissa_packComponents)

variable {f : Format} {a b : Bits f}

theorem unpack_of_isNaN (h : isNaN a = true) : unpack f a = .notANumber := by
  unfold isNaN at h
  cases hunpack : unpack f a with
  | notANumber => rfl
  | infinity | zero | finite => rw [hunpack] at h; cases h

/-- A bit pattern is not a number if its exponent is full and its mantissa is not zero. -/
theorem isNaN_iff (a : Bits f) :
    isNaN a = true ↔ unpackExponent a = -1#_ ∧ unpackMantissa a ≠ 0#_ := by
  change UnpackedFloat.isNaN (if unpackExponent a = -1#_ then
    if unpackMantissa a = 0#_ then _ else .notANumber else _) = true ↔ _
  by_cases he : unpackExponent a = -1#_
  · rw [if_pos he]
    by_cases hm : unpackMantissa a = 0#_
    · rw [if_pos hm]
      exact iff_of_false Bool.false_ne_true fun h => h.2 hm
    · rw [if_neg hm]
      exact iff_of_true rfl ⟨he, hm⟩
  · rw [if_neg he]
    refine iff_of_false ?_ fun h => he h.1
    by_cases hz : unpackExponent a = 0#_
    · rw [if_pos hz]
      by_cases hm : unpackMantissa a = 0#_
      · rw [dif_pos hm]
        exact Bool.false_ne_true
      · rw [dif_neg hm]
        exact Bool.false_ne_true
    · rw [if_neg hz]
      exact Bool.false_ne_true

theorem isNaN_packComponents (sign : UnpackedFloat.Sign) (exponent : BitVec f.exponentBits)
    (mantissa : BitVec f.mantissaBitsWithoutImplicit) :
    isNaN (packComponents f sign exponent mantissa) = true ↔
      exponent = -1#_ ∧ mantissa ≠ 0#_ := by
  rw [isNaN_iff, unpackExponent_packComponents, unpackMantissa_packComponents]

/-- Packing keeps whether a value is a number: one that is out of range becomes an infinity. -/
theorem isNaN_pack (v : UnpackedFloat) : isNaN (pack f v) = v.isNaN := by
  have hfull : ∀ n, n + 1 < 2 ^ f.exponentBits → BitVec.ofNat f.exponentBits n ≠ -1#_ := by
    intro n h heq
    have hnat := congrArg BitVec.toNat heq
    rw [BitVec.toNat_ofNat, BitVec.neg_one_eq_allOnes, BitVec.toNat_allOnes,
      Nat.mod_eq_of_lt (by omega)] at hnat
    omega
  have hinfinity : ∀ s, ¬ isNaN (packedInfinity f s) = true :=
    fun s h => ((isNaN_packComponents _ _ _).1 h).2 rfl
  rw [Bool.eq_iff_iff, pack]
  fun_cases UnpackedFloat.pack with
  | case1 =>
    have hquiet : 1#f.mantissaBitsWithoutImplicit <<< (f.mantissaBitsWithoutImplicit - 1) ≠ 0#_ := by
      intro h
      have hbit := congrArg (·.getLsbD (f.mantissaBitsWithoutImplicit - 1)) h
      simp [Nat.sub_one_lt (Nat.ne_of_gt f.hm)] at hbit
    exact iff_of_true ((isNaN_packComponents _ _ _).2 ⟨rfl, hquiet⟩) rfl
  | case2 s => exact iff_of_false (hinfinity s) Bool.false_ne_true
  | case3 s =>
    exact iff_of_false (fun h => ((isNaN_packComponents _ _ _).1 h).2 rfl) Bool.false_ne_true
  | case4 s m e hm => exact iff_of_false (hinfinity s) Bool.false_ne_true
  | case5 s m e hm bits biased hfits =>
    refine iff_of_false (fun h => ?_) Bool.false_ne_true
    exact hfull biased (by omega) ((isNaN_packComponents _ _ _).1 h).1
  | case6 s m e hm =>
    refine iff_of_false (fun h => ?_) Bool.false_ne_true
    have hpos : 0 + 1 < 2 ^ f.exponentBits := Nat.one_lt_two_pow (Nat.pos_iff_ne_zero.1 f.he)
    exact hfull 0 hpos ((isNaN_packComponents _ _ _).1 h).1

theorem isNaN_nan (f : Format) : isNaN (nan f) = true :=
  isNaN_pack .notANumber

theorem isNaN_round (f : Format) (sign : UnpackedFloat.Sign) (mantissa : Nat) (exponent : Int) :
    (UnpackedFloat.round f sign mantissa exponent).isNaN = false := by
  -- Rounding ends in a zero or a finite number.
  have hends : ∀ (m : Nat) (e : Int), UnpackedFloat.isNaN
      (if h : m = 0 then .zero sign else .finite sign m e (Nat.pos_of_ne_zero h)) = false := by
    intro m e
    by_cases h : m = 0
    · rw [dif_pos h]
      rfl
    · rw [dif_neg h]
      rfl
  exact hends _ _

theorem isNaN_normalize (f : Format) (n exponent : Int) (zero : UnpackedFloat.Sign) :
    (UnpackedFloat.normalize f n exponent zero).isNaN = false := by
  rw [UnpackedFloat.normalize]
  cases compare n 0 with
  | eq => rfl
  | lt | gt => exact isNaN_round f _ _ _

/-- The float nearest to an integer is a number. -/
theorem isNaN_ofInt (f : Format) (n : Int) : isNaN (ofInt f n) = false := by
  rw [ofInt, isNaN_pack, UnpackedFloat.ofInt, isNaN_normalize]

/-- A change of format keeps whether a float is a number. -/
theorem isNaN_convert (source target : Format) (a : Bits source) :
    isNaN (convert source target a) = isNaN a := by
  rw [convert, isNaN_pack, isNaN]
  cases unpack source a with
  | finite sign mantissa exponent => exact isNaN_round target _ _ _
  | notANumber | infinity | zero => rfl

theorem neg_eq_nan (h : isNaN a = true) : neg a = nan f := by
  rw [neg, unpack_of_isNaN h]
  rfl

theorem convert_eq_nan (h : isNaN a = true) (target : Format) :
    convert f target a = nan target := by
  rw [convert, unpack_of_isNaN h]
  rfl

end BinaryFloat

namespace Floating

open BinaryFloat
open Float.Model (Format)

variable {f : Format}

/-- An operand that is not a number makes the result not a number. -/
theorem arith_eq_nan (op : ArithOp) {a b : Bits f} (h : isNaN a = true ∨ isNaN b = true) :
    arith op a b = nan f := by
  rcases h with h | h
  · have ha := unpack_of_isNaN h
    cases op <;> simp only [arith, add, sub, mul, div, ha] <;> rfl
  · have hb := unpack_of_isNaN h
    cases op <;> simp only [arith, add, sub, mul, div, hb] <;> cases unpack f a <;> rfl

theorem ofInteger_eq_nan {w : Nat} {a : BitVec w} (h : Integer.isNull a = true) (f : Format) :
    ofInteger true f a = nan f :=
  if_pos h

/-- The float of an integer is null where the null check meets the null of the integer. -/
theorem isNaN_ofInteger {w : Nat} (nullCheck : Bool) (f : Format) (a : BitVec w) :
    isNaN (ofInteger nullCheck f a) = (nullCheck && Integer.isNull a) := by
  rw [ofInteger]
  split
  next h => exact (isNaN_nan f).trans h.symm
  next h => exact (isNaN_ofInt f _).trans (Bool.eq_false_iff.2 h).symm

end Floating

end RowFilter
