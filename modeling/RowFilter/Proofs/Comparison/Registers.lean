import RowFilter.Proofs.Code.NullFree
import RowFilter.Proofs.Comparison.Integral

/-!
# Comparing two integer registers

What the six comparisons make of two integers in registers of one width. Everything about them
follows from two facts: equality is that of the integers, and an order comparison is the relation
of the integers unless the null check meets the sentinel of the width.

## Main definitions

- `Comparison` — the six comparison operators, with `Comparison.swap` for exchanged operands.
- `Word.SameWidth` — two integer registers of one width.
- `Comparison.Laws` — how the six results hang together.

## Main statements

- `Word.SameWidth.compare_eq` — the result of a comparison in terms of the two integers.
- `Word.SameWidth.laws`, `Word.SameWidth.compare_swap` — the laws, and the mirrored comparison.
-/

namespace RowFilter

/-- The comparison operators. -/
inductive Comparison where
  | equality (op : EqualityOp)
  | order (op : OrderOp)
  deriving DecidableEq, Repr

/-- The operator for exchanged operands. -/
def OrderOp.swap : OrderOp → OrderOp
  | .lt => .gt
  | .le => .ge
  | .gt => .lt
  | .ge => .le

theorem OrderOp.holds_swap (op : OrderOp) (m n : Int) : op.swap.holds n m = op.holds m n := by
  cases op <;> rfl

namespace Comparison

def op : Comparison → BinaryOp
  | equality op => .equality op
  | order op => .order op

/-- The comparison for exchanged operands. -/
def swap : Comparison → Comparison
  | equality op => equality op
  | order op => order op.swap

/-- The relation on integers that a comparison stands for. -/
def holds (c : Comparison) (m n : Int) : Bool :=
  match c with
  | equality .eq => m == n
  | equality .ne => m != n
  | order op => op.holds m n

theorem holds_swap (c : Comparison) (m n : Int) : c.swap.holds n m = c.holds m n := by
  rcases c with (_ | _) | op
  · exact Bool.beq_comm
  · exact congrArg Bool.not Bool.beq_comm
  · exact op.holds_swap m n

/-- Whether the null check makes the comparison false on a null. Equality takes nulls as they
are. -/
def isGated : Comparison → Bool
  | equality _ => false
  | order _ => true

theorem isGated_swap (c : Comparison) : c.swap.isGated = c.isGated := by
  cases c <;> rfl

/-- How the results of the six comparisons of two operands hang together. Without a null in sight
one of less, equal and greater holds, and the other two are made up of them. With one, no order
comparison holds, and equality says that both are null. -/
structure Laws (nullCheck lhsNull rhsNull : Bool) (result : Comparison → Bool) : Prop where
  ne : result (equality .ne) = !result (equality .eq)
  partition : nullCheck = false ∨ (lhsNull = false ∧ rhsNull = false) →
    [result (order .lt), result (equality .eq), result (order .gt)].count true = 1 ∧
      result (order .le) = (result (order .lt) || result (equality .eq)) ∧
      result (order .ge) = (result (order .gt) || result (equality .eq))
  null : nullCheck = true → (lhsNull = true ∨ rhsNull = true) →
    (∀ op, result (order op) = false) ∧
      (result (equality .eq) = true ↔ lhsNull = true ∧ rhsNull = true)

end Comparison

namespace Word

/-- The result of a comparison of two registers. -/
def compare (nullCheck : Bool) (c : Comparison) (a b : Word) : Bool :=
  match c with
  | .equality op => equality op a b
  | .order op => order op nullCheck a b

/-- Two integer registers of one width, 32 or 64 bits. -/
inductive SameWidth : Word → Word → Prop
  | i32 (a b : BitVec 32) : SameWidth (.i32 a) (.i32 b)
  | i64 (a b : BitVec 64) : SameWidth (.i64 a) (.i64 b)

namespace SameWidth

variable {nullCheck : Bool} {a b : Word}

theorem symm (h : SameWidth a b) : SameWidth b a := by
  cases h with
  | i32 a b => exact .i32 b a
  | i64 a b => exact .i64 b a

theorem toInt_inj (h : SameWidth a b) : a.toInt = b.toInt ↔ a = b := by
  cases h with
  | i32 a b => exact BitVec.toInt_inj.trans ⟨congrArg Word.i32, Word.i32.inj⟩
  | i64 a b => exact BitVec.toInt_inj.trans ⟨congrArg Word.i64, Word.i64.inj⟩

theorem equal_eq (h : SameWidth a b) : equal a b = (a.toInt == b.toInt) := by
  rw [Bool.eq_iff_iff, beq_iff_eq]
  cases h with
  | i32 a b => exact beq_iff_eq.trans BitVec.toInt_inj.symm
  | i64 a b => exact beq_iff_eq.trans BitVec.toInt_inj.symm

/-- A comparison of two registers is the relation of the integers, unless the null check makes it
false. -/
theorem compare_eq (h : SameWidth a b) (c : Comparison) :
    compare nullCheck c a b =
      (c.holds a.toInt b.toInt &&
        !(c.isGated && nullCheck && (a.isSentinel || b.isSentinel))) := by
  rcases c with (_ | _) | op
  · exact h.equal_eq.trans (Bool.and_true _).symm
  · exact (congrArg Bool.not h.equal_eq).trans (Bool.and_true _).symm
  · cases h with
    | i32 a b => exact congrArg (· && _) (Integer.related_eq_holds op a b)
    | i64 a b => exact congrArg (· && _) (Integer.related_eq_holds op a b)

/-- A comparison gives the same result as the mirrored one on exchanged operands. -/
theorem compare_swap (h : SameWidth a b) (c : Comparison) :
    compare nullCheck c.swap b a = compare nullCheck c a b := by
  rw [h.compare_eq, h.symm.compare_eq, c.holds_swap, c.isGated_swap, Bool.or_comm]

/-- The sentinel is one integer to each width. -/
theorem toInt_eq_of_isSentinel (h : SameWidth a b) (ha : a.isSentinel = true)
    (hb : b.isSentinel = true) : a.toInt = b.toInt := by
  cases h with
  | i32 a b => exact ((Integer.isNull_iff a).1 ha).trans ((Integer.isNull_iff b).1 hb).symm
  | i64 a b => exact ((Integer.isNull_iff a).1 ha).trans ((Integer.isNull_iff b).1 hb).symm

/-- The six comparisons of two registers obey the laws. -/
theorem laws (h : SameWidth a b) :
    Comparison.Laws nullCheck a.isSentinel b.isSentinel (fun c => compare nullCheck c a b) where
  ne := rfl
  partition := by
    intro hnull
    have hgate : (nullCheck && (a.isSentinel || b.isSentinel)) = false := by
      rcases hnull with rfl | ⟨ha, hb⟩
      · rfl
      · rw [ha, hb, Bool.or_false, Bool.and_false]
    simp only [h.compare_eq, Comparison.isGated, Bool.true_and, Bool.false_and, hgate,
      Bool.not_false, Bool.and_true, Comparison.holds, OrderOp.holds]
    rcases Int.lt_trichotomy a.toInt b.toInt with hlt | heq | hgt
    · have hle : a.toInt ≤ b.toInt := by omega
      have hne : a.toInt ≠ b.toInt := by omega
      have hngt : ¬ b.toInt < a.toInt := by omega
      have hnge : ¬ b.toInt ≤ a.toInt := by omega
      simp [hlt, hle, hne, hngt, hnge]
    · simp [heq]
    · have hge : b.toInt ≤ a.toInt := by omega
      have hne : a.toInt ≠ b.toInt := by omega
      have hnlt : ¬ a.toInt < b.toInt := by omega
      have hnle : ¬ a.toInt ≤ b.toInt := by omega
      simp [hgt, hge, hne, hnlt, hnle]
  null := by
    intro hcheck hnull
    have hgate : (a.isSentinel || b.isSentinel) = true := by
      rcases hnull with ha | hb
      · rw [ha, Bool.true_or]
      · rw [hb, Bool.or_true]
    refine ⟨fun op => ?_, ?_⟩
    · simp only [h.compare_eq, Comparison.isGated, Bool.true_and, hcheck, hgate, Bool.not_true,
        Bool.and_false]
    · change equal a b = true ↔ _
      rw [h.equal_eq, beq_iff_eq]
      refine ⟨fun heq => ?_, fun ⟨ha, hb⟩ => ?_⟩
      · rw [h.toInt_inj.1 heq, Bool.or_self] at hgate
        rw [h.toInt_inj.1 heq]
        exact ⟨hgate, hgate⟩
      · exact h.toInt_eq_of_isSentinel ha hb

/-- The commutative operators of arithmetic. -/
theorem arith_comm (h : SameWidth a b) {op : ArithOp} (hop : op = .add ∨ op = .mul) :
    arith op nullCheck a b = arith op nullCheck b a := by
  have hcomm : ∀ {w : Nat} (a b : BitVec w),
      Integer.arith op nullCheck a b = Integer.arith op nullCheck b a := by
    intro w a b
    rcases hop with rfl | rfl
    · change Integer.propagate nullCheck a b (a + b) = Integer.propagate nullCheck b a (b + a)
      rw [Integer.propagate, Integer.propagate, Integer.eitherNull, Integer.eitherNull,
        Bool.or_comm, BitVec.add_comm]
    · change Integer.propagate nullCheck a b (a * b) = Integer.propagate nullCheck b a (b * a)
      rw [Integer.propagate, Integer.propagate, Integer.eitherNull, Integer.eitherNull,
        Bool.or_comm, BitVec.mul_comm]
  cases h with
  | i32 a b => exact congrArg Word.i32 (hcomm a b)
  | i64 a b => exact congrArg Word.i64 (hcomm a b)

end SameWidth

end Word

end RowFilter
