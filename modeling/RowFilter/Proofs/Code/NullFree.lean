import RowFilter.Code

/-!
# Code without null checks

The null checks of a code can be erased from it. What is left computes the same value as long as
no null reaches an operation that was checked, and says by itself whether one does.

## Main definitions

- `Code.erase` — a code with its null checks erased.
- `Word.isSentinel`, `Word.isNaN` — the two forms of null in a register.
- `Code.nullFree` — no promotion, ordering or arithmetic operator of a code meets a null on a frame.

The main statement is `Code.eval_of_nullFree`.

## Design notes

A float needs no check in arithmetic, since not-a-number passes through by itself, so a null
float matters to an ordering alone. A 128-bit integer is neither ordered nor computed with and
has no null.
-/

namespace RowFilter

namespace Integer

variable {w : Nat} {a b : BitVec w}

/-- Beside operands that are not null a result stays as it is. -/
theorem propagate_of_not_null (ha : isNull a = false) (hb : isNull b = false) (nullCheck : Bool)
    (result : BitVec w) : propagate nullCheck a b result = result := by
  rw [propagate, eitherNull, ha, hb, Bool.or_false, Bool.and_false]
  exact if_neg Bool.false_ne_true

theorem divisionIsNull_of_not_null (ha : isNull a = false) (hb : isNull b = false)
    (nullCheck : Bool) : divisionIsNull nullCheck a b = divisionIsNull false a b := by
  rw [divisionIsNull, divisionIsNull, eitherNull, ha, hb, Bool.or_false, Bool.and_false,
    Bool.false_and, Bool.and_false]

/-- A division guards against a zero divisor with and without the check, and against nothing else
when no operand is null. -/
theorem arith_of_not_null (op : ArithOp) (ha : isNull a = false) (hb : isNull b = false)
    (nullCheck : Bool) : arith op nullCheck a b = arith op false a b := by
  cases op with
  | add => rw [arith, arith, add, add, propagate_of_not_null ha hb, propagate_of_not_null ha hb]
  | sub => rw [arith, arith, sub, sub, propagate_of_not_null ha hb, propagate_of_not_null ha hb]
  | mul => rw [arith, arith, mul, mul, propagate_of_not_null ha hb, propagate_of_not_null ha hb]
  | div => rw [arith, arith, div, div, divisor, divisor, divisionIsNull_of_not_null ha hb]

theorem order_of_not_null (op : OrderOp) (ha : isNull a = false) (hb : isNull b = false)
    (nullCheck : Bool) : order op nullCheck a b = order op false a b := by
  rw [order, order, eitherNull, ha, hb, Bool.or_false, Bool.and_false, Bool.false_and]

theorem widen_of_not_null (ha : isNull a = false) (nullCheck : Bool) (target : Nat) :
    widen nullCheck target a = widen false target a := by
  rw [widen, widen, ha, Bool.and_false, Bool.false_and]

end Integer

namespace Floating

open BinaryFloat
open Float.Model (Format)

variable {f : Format}

theorem order_of_not_nan (op : OrderOp) {a b : Bits f} (ha : isNaN a = false)
    (hb : isNaN b = false) (nullCheck : Bool) (tolerance : Bits f) :
    order op nullCheck tolerance a b = order op false tolerance a b := by
  rw [order, order, ha, hb, Bool.or_false, Bool.and_false, Bool.false_and]

theorem ofInteger_of_not_null {w : Nat} {a : BitVec w} (ha : Integer.isNull a = false)
    (nullCheck : Bool) (f : Format) : ofInteger nullCheck f a = ofInteger false f a := by
  rw [ofInteger, ofInteger, ha, Bool.and_false, Bool.false_and]

end Floating

namespace Word

variable {a b : Word}

/-- Whether an integer register holds the value its width reserves for null. -/
def isSentinel : Word → Bool
  | i32 a => Integer.isNull a
  | i64 a => Integer.isNull a
  | i128 _ | f32 _ | f64 _ => false

/-- Whether a float register holds not-a-number. -/
def isNaN : Word → Bool
  | f32 a => BinaryFloat.isNaN a
  | f64 a => BinaryFloat.isNaN a
  | i32 _ | i64 _ | i128 _ => false

/-- The null check of an arithmetic operator is idle unless a sentinel reaches it. -/
theorem arith_of_not_null (op : ArithOp) (ha : a.isSentinel = false) (hb : b.isSentinel = false)
    (nullCheck : Bool) : arith op nullCheck a b = arith op false a b := by
  cases a with
  | i32 a =>
    cases b with
    | i32 b => exact congrArg i32 (Integer.arith_of_not_null op ha hb nullCheck)
    | i64 | i128 | f32 | f64 => rfl
  | i64 a =>
    cases b with
    | i64 b => exact congrArg i64 (Integer.arith_of_not_null op ha hb nullCheck)
    | i32 | i128 | f32 | f64 => rfl
  | i128 | f32 | f64 => cases b <;> rfl

/-- The null check of an ordering is idle unless a null of either form reaches it. -/
theorem order_of_not_null (op : OrderOp) (ha : a.isSentinel = false ∧ a.isNaN = false)
    (hb : b.isSentinel = false ∧ b.isNaN = false) (nullCheck : Bool) :
    order op nullCheck a b = order op false a b := by
  cases a with
  | i32 a =>
    cases b with
    | i32 b => exact Integer.order_of_not_null op ha.1 hb.1 nullCheck
    | i64 | i128 | f32 | f64 => rfl
  | i64 a =>
    cases b with
    | i64 b => exact Integer.order_of_not_null op ha.1 hb.1 nullCheck
    | i32 | i128 | f32 | f64 => rfl
  | f32 a =>
    cases b with
    | f32 b => exact Floating.order_of_not_nan op ha.2 hb.2 nullCheck _
    | i32 | i64 | i128 | f64 => rfl
  | f64 a =>
    cases b with
    | f64 b => exact Floating.order_of_not_nan op ha.2 hb.2 nullCheck _
    | i32 | i64 | i128 | f32 => rfl
  | i128 => cases b <;> rfl

/-- The null check of a conversion is idle unless a sentinel is converted. -/
theorem widen_of_not_null (ha : a.isSentinel = false) (nullCheck : Bool) (target : RegClass) :
    widen nullCheck target a = widen false target a := by
  cases a with
  | i32 a =>
    cases target with
    | i64 => exact congrArg i64 (Integer.widen_of_not_null ha nullCheck 64)
    | f32 => exact congrArg f32 (Floating.ofInteger_of_not_null ha nullCheck _)
    | f64 => exact congrArg f64 (Floating.ofInteger_of_not_null ha nullCheck _)
    | i32 | i128 => rfl
  | i64 a =>
    cases target with
    | f64 => exact congrArg f64 (Floating.ofInteger_of_not_null ha nullCheck _)
    | i32 | i64 | i128 | f32 => rfl
  | i128 | f32 | f64 => cases target <;> rfl

end Word

namespace Code

/-- A code with its null checks erased. -/
def erase : Code → Code
  | const value => const value
  | load t address => load t address
  | length kind column => length kind column
  | neg arg => neg arg.erase
  | not arg => not arg.erase
  | logic op lhs rhs => logic op lhs.erase rhs.erase
  | equality op lhs rhs => equality op lhs.erase rhs.erase
  | order op _ lhs rhs => order op false lhs.erase rhs.erase
  | arith op _ lhs rhs => arith op false lhs.erase rhs.erase
  | widen _ target arg => widen false target arg.erase

/-- On a frame, no operand of a promotion, an ordering or an arithmetic operator is the sentinel of
its register, and no operand of an ordering is not-a-number. -/
def nullFree (frame : Frame) : Code → Bool
  | const _ | load _ _ | length _ _ => true
  | neg arg | not arg => arg.nullFree frame
  | logic _ lhs rhs | equality _ lhs rhs => lhs.nullFree frame && rhs.nullFree frame
  | order _ _ lhs rhs =>
    lhs.nullFree frame && rhs.nullFree frame &&
      !((lhs.eval frame).isSentinel || (rhs.eval frame).isSentinel) &&
      !((lhs.eval frame).isNaN || (rhs.eval frame).isNaN)
  | arith _ _ lhs rhs =>
    lhs.nullFree frame && rhs.nullFree frame &&
      !((lhs.eval frame).isSentinel || (rhs.eval frame).isSentinel)
  | widen _ _ arg => arg.nullFree frame && !(arg.eval frame).isSentinel

/-- Where no null is met without the null checks, the null checks change nothing. -/
theorem eval_of_nullFree {frame : Frame} {code : Code} (h : code.erase.nullFree frame = true) :
    code.eval frame = code.erase.eval frame := by
  induction code with
  | const value => rfl
  | load t address => rfl
  | length kind column => rfl
  | neg arg ih => exact congrArg Word.neg (ih h)
  | not arg ih => exact congrArg Word.not (ih h)
  | logic op lhs rhs ihl ihr =>
    simp only [erase, nullFree, Bool.and_eq_true] at h
    rw [eval, ihl h.1, ihr h.2, erase, eval]
  | equality op lhs rhs ihl ihr =>
    simp only [erase, nullFree, Bool.and_eq_true] at h
    rw [eval, ihl h.1, ihr h.2, erase, eval]
  | order op nullCheck lhs rhs ihl ihr =>
    simp only [erase, nullFree, Bool.and_eq_true, Bool.not_eq_true', Bool.or_eq_false_iff] at h
    obtain ⟨⟨⟨hl, hr⟩, hsentinel⟩, hnan⟩ := h
    rw [eval, ihl hl, ihr hr, erase, eval,
      Word.order_of_not_null op ⟨hsentinel.1, hnan.1⟩ ⟨hsentinel.2, hnan.2⟩ nullCheck]
  | arith op nullCheck lhs rhs ihl ihr =>
    simp only [erase, nullFree, Bool.and_eq_true, Bool.not_eq_true', Bool.or_eq_false_iff] at h
    obtain ⟨⟨hl, hr⟩, hsentinel⟩ := h
    rw [eval, ihl hl, ihr hr, erase, eval,
      Word.arith_of_not_null op hsentinel.1 hsentinel.2 nullCheck]
  | widen nullCheck target arg ih =>
    simp only [erase, nullFree, Bool.and_eq_true, Bool.not_eq_true'] at h
    rw [eval, ih h.1, erase, eval, Word.widen_of_not_null h.2 nullCheck target]

end Code

end RowFilter
