import RowFilter.Proofs.Arith.Division
import RowFilter.Selector

/-!
# No selector faults on a division

Selectors run their divisions on every row, whatever is stored there. Here their code and their row
loop are carried out once more, with the native division in the place of the total one: a fault of
it ends the run. None occurs, so the native run is the run.

## Main definitions

- `Code.nativeEval`, `Selector.nativeExecute` — evaluation and the row loop, with the faults of the
  native division.

## Main statements

- `Code.nativeEval_eq` — no code faults on any frame.
- `Selector.nativeExecute_eq` — nor does a selector on any rows.
- `Selector.division_never_faults` — together with what a division yields.
-/

namespace RowFilter

namespace Integer

variable {w : Nat}

/-- Integer division by means of the native one, whose quotient is then kept or replaced by null. -/
def nativeQuotient (nullCheck : Bool) (a b : BitVec w) : Except DivisionFault (BitVec w) := do
  let quotient ← nativeDiv a (divisor nullCheck a b)
  return if divisionIsNull nullCheck a b then null w else quotient

theorem nativeQuotient_eq (hw : 1 < w) (nullCheck : Bool) (a b : BitVec w) :
    nativeQuotient nullCheck a b = .ok (div nullCheck a b) := by
  rw [nativeQuotient, nativeDiv_divisor hw]
  rfl

end Integer

/-- An operator of arithmetic, by means of the native division. -/
def Word.nativeArith (op : ArithOp) (nullCheck : Bool) (a b : Word) : Except DivisionFault Word :=
  match op, a, b with
  | .div, i32 a, i32 b => i32 <$> Integer.nativeQuotient nullCheck a b
  | .div, i64 a, i64 b => i64 <$> Integer.nativeQuotient nullCheck a b
  | op, a, b => .ok (arith op nullCheck a b)

theorem Word.nativeArith_eq (op : ArithOp) (nullCheck : Bool) (a b : Word) :
    nativeArith op nullCheck a b = .ok (arith op nullCheck a b) := by
  unfold nativeArith
  split
  next =>
    rw [Integer.nativeQuotient_eq (by decide)]
    rfl
  next =>
    rw [Integer.nativeQuotient_eq (by decide)]
    rfl
  next => rfl

namespace Code

/-- The value on a frame, by means of the native division. -/
def nativeEval (frame : Frame) : Code → Except DivisionFault Word
  | const value => .ok value
  | load t address => .ok ((load t address).eval frame)
  | length kind column => .ok ((length kind column).eval frame)
  | neg arg => return (← nativeEval frame arg).neg
  | not arg => return (← nativeEval frame arg).not
  | logic op lhs rhs => return Word.logic op (← nativeEval frame lhs) (← nativeEval frame rhs)
  | equality op lhs rhs =>
    return .ofBool (Word.equality op (← nativeEval frame lhs) (← nativeEval frame rhs))
  | order op nullCheck lhs rhs =>
    return .ofBool (Word.order op nullCheck (← nativeEval frame lhs) (← nativeEval frame rhs))
  | arith op nullCheck lhs rhs => do
    Word.nativeArith op nullCheck (← nativeEval frame lhs) (← nativeEval frame rhs)
  | widen nullCheck target arg => return Word.widen nullCheck target (← nativeEval frame arg)

/-- No code faults on any frame. -/
theorem nativeEval_eq (frame : Frame) (code : Code) :
    code.nativeEval frame = .ok (code.eval frame) := by
  induction code with
  | const | load | length => rfl
  | neg arg ih | not arg ih | widen nullCheck target arg ih =>
    rw [nativeEval, ih]
    rfl
  | logic op lhs rhs ihl ihr | equality op lhs rhs ihl ihr | order op nullCheck lhs rhs ihl ihr =>
    rw [nativeEval, ihl, ihr]
    rfl
  | arith op nullCheck lhs rhs ihl ihr =>
    rw [nativeEval, ihl, ihr]
    exact Word.nativeArith_eq op nullCheck _ _

end Code

namespace Selector

/-- Whether a row is selected, by means of the native division. -/
def nativeSelects (s : Selector) (memory : Memory) (row : BitVec 64) :
    Except DivisionFault Bool :=
  return (← s.predicate.code.nativeEval { memory, pool := s.predicate.pool, row }).isNonzero

/-- The row loop, with a test that may fault. -/
def nativeScan (accepts : BitVec 64 → Except DivisionFault Bool) (stop row count : BitVec 64)
    (out : Array (BitVec 64)) : Except DivisionFault (BitVec 64 × Array (BitVec 64)) :=
  if row.slt stop then do
    if ← accepts row then
      nativeScan accepts stop (row + 1) (count + 1) (out.setIfInBounds count.toNat row)
    else
      nativeScan accepts stop (row + 1) count out
  else
    .ok (count, out)
termination_by (stop.toInt - row.toInt).toNat
decreasing_by
  all_goals
    have hrow := toInt_add_one_of_slt ‹_›
    have hlt : row.toInt < stop.toInt := BitVec.slt_iff_toInt_lt.1 ‹_›
    omega

/-- Runs the predicate over a range of rows, by means of the native division. -/
def nativeExecute (s : Selector) (memory : Memory) (start stop : BitVec 64)
    (out : Array (BitVec 64)) : Except DivisionFault (BitVec 64 × Array (BitVec 64)) :=
  nativeScan (s.nativeSelects memory) stop start 0 out

/-- Where no test faults the row loop is the one without faults. -/
theorem nativeScan_eq {test : BitVec 64 → Except DivisionFault Bool} {accepts : BitVec 64 → Bool}
    (h : ∀ row, test row = .ok (accepts row)) (stop row count : BitVec 64)
    (out : Array (BitVec 64)) :
    nativeScan test stop row count out = .ok (scan accepts stop row count out) := by
  fun_induction scan accepts stop row count out with
  | case1 row count out hlt haccepts ih =>
    rw [nativeScan, if_pos hlt, h, haccepts]
    exact ih
  | case2 row count out hlt haccepts ih =>
    rw [nativeScan, if_pos hlt, h, Bool.eq_false_iff.2 haccepts]
    exact ih
  | case3 row count out hlt => rw [nativeScan, if_neg hlt]

/-- No selector faults on any rows. -/
theorem nativeExecute_eq (s : Selector) (memory : Memory) (start stop : BitVec 64)
    (out : Array (BitVec 64)) :
    s.nativeExecute memory start stop out = .ok (s.execute memory start stop out) := by
  refine nativeScan_eq (fun row => ?_) stop start 0 out
  rw [nativeSelects, Code.nativeEval_eq]
  rfl

/-- Integer division, of words of any width above one bit: those of 32 and 64 bits are the ones it
is emitted for.

The native division gets a divisor that is not zero, and that is not minus one when the dividend is
the smallest value, which is null. The quotient is null if the divisor is zero, if the exact
quotient does not fit, or if the null check is on and an operand is null; otherwise it is the exact
quotient truncated toward zero, which fits. So a selector that is compiled from any stream can be
run by means of the native division on any rows of any data. -/
theorem division_never_faults :
    (∀ w, 1 < w → (Integer.null w).toInt = -2 ^ (w - 1) ∧ ∀ nullCheck (a b : BitVec w),
      Integer.divisor nullCheck a b ≠ 0 ∧
      ¬ (a = Integer.null w ∧ Integer.divisor nullCheck a b = -1) ∧
      (Integer.DivisionIsNull nullCheck a b → Integer.div nullCheck a b = Integer.null w) ∧
      (¬ Integer.DivisionIsNull nullCheck a b →
        (Integer.div nullCheck a b).toInt = a.toInt.tdiv b.toInt ∧
        -2 ^ (w - 1) ≤ a.toInt.tdiv b.toInt ∧ a.toInt.tdiv b.toInt < 2 ^ (w - 1))) ∧
    ∀ stream config s, compile stream config = .ok s → ∀ memory start stop out,
      s.nativeExecute memory start stop out = .ok (s.execute memory start stop out) := by
  refine ⟨fun w hw => ⟨Integer.toInt_null (Nat.zero_lt_of_lt hw), fun nullCheck a b => ?_⟩,
    fun stream config s _ memory start stop out => s.nativeExecute_eq memory start stop out⟩
  obtain ⟨hzero, hfits⟩ := Integer.divisor_safe hw nullCheck a b
  exact ⟨hzero, hfits, Integer.div_of_divisionIsNull,
    fun h => ⟨Integer.toInt_div h, Integer.tdiv_fits h⟩⟩

/-- The smallest 32-bit word by minus one is null even without the null check, minus seven by two is
minus three, and a quotient of two columns is taken on every row. -/
theorem division_never_faults_smallestByMinusOne :
    let stream : List Instruction := [.column .i32 0, .column .i32 1, .op (.binary (.arith .div))]
    (1 < 32 ∧ Integer.DivisionIsNull false (Integer.null 32) (-1) ∧
      Integer.div false (Integer.null 32) (-1) = Integer.null 32) ∧
    (1 < 64 ∧ ¬ Integer.DivisionIsNull true (-7 : BitVec 64) 2 ∧
      (Integer.div true (-7 : BitVec 64) 2).toInt = -3) ∧
    ∃ s, compile stream {} = .ok s ∧ ∀ memory start stop out,
      s.nativeExecute memory start stop out = .ok (s.execute memory start stop out) := by
  intro stream
  obtain ⟨hdiv, hrun⟩ := division_never_faults
  have hnull : Integer.DivisionIsNull false (Integer.null 32) (-1) := .inr (.inl ⟨rfl, rfl⟩)
  have hexact : ¬ Integer.DivisionIsNull true (-7 : BitVec 64) 2 := by
    rw [← Integer.divisionIsNull_iff]
    decide
  obtain ⟨-, -, hyields, -⟩ := (hdiv 32 (by decide)).2 false (Integer.null 32) (-1)
  obtain ⟨-, -, -, hquotient⟩ := (hdiv 64 (by decide)).2 true (-7) 2
  refine ⟨⟨by decide, hnull, hyields hnull⟩, ⟨by decide, hexact, ?_⟩, _, rfl, hrun stream {} _ rfl⟩
  exact (hquotient hexact).1

end Selector

end RowFilter
