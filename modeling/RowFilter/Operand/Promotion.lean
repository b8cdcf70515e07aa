import RowFilter.Operand

/-!
# Promotion

The two operands of a binary operator are brought to a common rank, the join of their ranks.
Types without a rank never change: two of them pass if they are the same.

## Main definitions

- `DataType.nullGate` — whether a promotion looks for the null of its source.
- `Operand.promote` — a value brought to a rank.
- `Operand.unify` — two operands brought to a common type.
-/

namespace RowFilter

/-- Whether a promotion out of a type looks for null: never for the types that have none. -/
def DataType.nullGate (source : DataType) (nullCheck : Bool) : Bool :=
  nullCheck && source.hasNullSentinel

namespace Operand

/-- A value of rank `source` brought to the rank `target`; a value that has the rank keeps its
type. -/
def promote (nullCheck : Bool) (source target : Rank) (v : Operand) :
    Except CompileError Operand := do
  if source = target then
    return v
  else
    let code ← v.register
    if source.convertsTo target then
      let widened := Code.widen (v.dataType.nullGate nullCheck) target.regClass code
      return inRegister widened target.dataType v.provenance
    else
      throw (.noConversion source target)

/-- Two operands brought to a common type. -/
def unify (nullCheck : Bool) (lhs rhs : Operand) : Except CompileError (Operand × Operand) :=
  match lhs.dataType.rank, rhs.dataType.rank with
  | some l, some r => do
    if l = r then
      return (lhs, rhs)
    else
      let target := l.join r
      let lhs ← promote nullCheck l target lhs
      let rhs ← promote nullCheck r target rhs
      return (lhs, rhs)
  | _, _ =>
    if lhs.dataType = rhs.dataType then .ok (lhs, rhs)
    else .error (.typeMismatch lhs.dataType rhs.dataType)

end Operand

end RowFilter
