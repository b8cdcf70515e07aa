import RowFilter.Proofs.Comparison.Conversion

/-!
# Integer comparisons partition the rows

The six comparisons of two integer expressions work on the same two registers, so on each row their
results hang together as those of two integers do, and a null on either side is seen by all of them.
Exchanged operands end up in the same two registers, and so the mirrored comparison gives the same
result, and the commutative operators do.

The main statement is `Expr.comparisons_partition`.
-/

namespace RowFilter

namespace Operand

/-- Arithmetic on integer types of one rank has one type. -/
theorem arithType_eq_of_rank {s t : DataType} (hs : s.isInt = true) (h : s.rank = t.rank) :
    arithType s = arithType t := by
  rcases DataType.isInt_cases hs with rfl | ⟨-, hrank, -⟩
  · cases t
    case i64 => rfl
    all_goals cases h
  · have hs32 : s.isInt32 = true := beq_iff_eq.2 hrank
    have ht32 : t.isInt32 = true := beq_iff_eq.2 (h ▸ hrank)
    rw [arithType, arithType, if_pos hs32, if_pos ht32]

end Operand

namespace OperandPair

variable {nullCheck : Bool} {o o' : OperandPair}

/-- A comparison of exchanged registers is the mirrored one. -/
theorem Swaps.value_comparison (h : o.Swaps o') (ho : o.Integral) (c : Comparison) (memory : Memory)
    (row : BitVec 64) :
    (o'.predicate nullCheck c.swap.op).value memory row =
      (o.predicate nullCheck c.op).value memory row := by
  obtain ⟨hleft, hright⟩ := h memory row
  rw [value_predicate_comparison, value_predicate_comparison, hleft, hright,
    (ho.sameWidth memory row).compare_swap]

/-- A commutative operator makes the same of exchanged registers. -/
theorem Swaps.value_arith (h : o.Swaps o') (ho : o.Integral) {op : ArithOp}
    (hop : op = .add ∨ op = .mul) (memory : Memory) (row : BitVec 64) :
    (o'.predicate nullCheck (.arith op)).value memory row =
      (o.predicate nullCheck (.arith op)).value memory row := by
  obtain ⟨hleft, hright⟩ := h memory row
  have hvalue : ∀ p : OperandPair, (p.predicate nullCheck (.arith op)).value memory row =
      Word.arith op nullCheck (p.left memory row).word (p.right memory row).word :=
    fun p => congrArg Value.word (p.result_predicate nullCheck (.arith op) memory row)
  rw [hvalue, hvalue, hleft, hright, (ho.sameWidth memory row).arith_comm hop]

/-- The registers compute at one type, whichever comes first. -/
theorem Swaps.dataType_arith (h : o.Swaps o') (ho : o.Integral) (op : ArithOp) :
    (o'.predicate nullCheck (.arith op)).dataType =
      (o.predicate nullCheck (.arith op)).dataType := by
  change Operand.arithType o'.lhs.dataType = Operand.arithType o.lhs.dataType
  rw [h.dataType_lhs, Operand.arithType_eq_of_rank ho.isInt ho.rank]

end OperandPair

namespace Expr

variable {nullCheck : Bool} {lhs rhs : Expr}

/-- An expression of an integer type: alone it compiles to a predicate of that type. -/
def IsInteger (nullCheck : Bool) (e : Expr) : Prop :=
  ∃ p, Predicate.compile nullCheck e.stream = .ok p ∧ p.dataType.isInt = true

/-- The comparisons of two integer expressions, and their arithmetic, compile to predicates on
one pair of registers, and with the operands exchanged to predicates on another pair.

On every row the registers of the first pair are of one width, and the six results obey the laws,
where null is the sentinel of that width. The comparisons on the second pair are the mirrored
ones; equality and its complement are mirrors of themselves. The commutative operators give the
same type and the same value on both pairs. -/
theorem comparisons_partition (hlhs : lhs.IsInteger nullCheck) (hrhs : rhs.IsInteger nullCheck) :
    ∃ o o' : OperandPair,
      (∀ op : BinaryOp, (∀ l, op ≠ .logic l) → ∀ options payload,
        Predicate.compile nullCheck (binary op options payload lhs rhs).stream =
            .ok (o.predicate nullCheck op) ∧
          Predicate.compile nullCheck (binary op options payload rhs lhs).stream =
            .ok (o'.predicate nullCheck op)) ∧
      (∀ memory row, Word.SameWidth (o.left memory row).word (o.right memory row).word ∧
        ∃ result : Comparison → Bool,
          (∀ c, (o.predicate nullCheck c.op).value memory row = .i32 (if result c then 1 else 0)) ∧
          Comparison.Laws nullCheck (o.left memory row).word.isSentinel
            (o.right memory row).word.isSentinel result) ∧
      (∀ c : Comparison,
        (o'.predicate nullCheck c.swap.op).dataType = (o.predicate nullCheck c.op).dataType ∧
        ∀ memory row, (o'.predicate nullCheck c.swap.op).value memory row =
          (o.predicate nullCheck c.op).value memory row) ∧
      ∀ op : ArithOp, op = .add ∨ op = .mul →
        (o'.predicate nullCheck (.arith op)).dataType =
            (o.predicate nullCheck (.arith op)).dataType ∧
          ∀ memory row, (o'.predicate nullCheck (.arith op)).value memory row =
            (o.predicate nullCheck (.arith op)).value memory row := by
  obtain ⟨p, hp, hpint⟩ := hlhs
  obtain ⟨q, hq, hqint⟩ := hrhs
  obtain ⟨o, hloads, ho, -⟩ := exists_loads_of_isInt hp hpint hq hqint
  obtain ⟨o', hloads', hswap⟩ := hloads.exists_swap
  have hint' : o'.lhs.dataType.isInt = true := by
    rw [hswap.dataType_lhs]
    exact (ho.right Emission.zeroMemory 0).isInt
  refine ⟨o, o', fun op hop options payload => ⟨?_, ?_⟩, fun memory row => ?_,
    fun c => ⟨?_, hswap.value_comparison ho c⟩,
    fun op hop => ⟨hswap.dataType_arith ho op, hswap.value_arith ho hop⟩⟩
  · exact hloads.compile op (BinaryOp.supports_of_isInt hop ho.isInt) options payload
  · exact hloads'.compile op (BinaryOp.supports_of_isInt hop hint') options payload
  · have hwidth := ho.sameWidth memory row
    exact ⟨hwidth, _, fun c => o.value_predicate_comparison nullCheck c memory row, hwidth.laws⟩
  · rw [o'.dataType_predicate_comparison, o.dataType_predicate_comparison]

/-- A 32-bit column and a literal that needs 64 bits: the column is greater than the literal on
the rows on which the literal is less than the column, the null rows included. -/
theorem comparisons_partition_widened :
    let column : Expr := .leaf .column 2 (.int 0)
    let bound : Expr := .leaf .literal 4 (.int 5000000000)
    column.IsInteger true ∧ bound.IsInteger true ∧
      ∃ p q, Predicate.compile true (binary (.order .gt) 0 (.int 0) column bound).stream = .ok p ∧
        Predicate.compile true (binary (.order .lt) 0 (.int 0) bound column).stream = .ok q ∧
        ∀ memory row, q.value memory row = p.value memory row := by
  intro column bound
  have hcolumn : column.IsInteger true := ⟨_, rfl, rfl⟩
  have hbound : bound.IsInteger true := ⟨_, rfl, rfl⟩
  obtain ⟨o, o', hcompile, -, hmirror, -⟩ := comparisons_partition hcolumn hbound
  have hop : ∀ op l, BinaryOp.order op ≠ .logic l := fun _ _ => BinaryOp.noConfusion
  exact ⟨hcolumn, hbound, _, _, (hcompile _ (hop .gt) 0 (.int 0)).1,
    (hcompile _ (hop .lt) 0 (.int 0)).2, (hmirror (.order .gt)).2⟩

end Expr

end RowFilter
