import RowFilter.Operand

/-!
# Loading operands

An operator works on registers. Loading brings an operand there and settles its type.

## Main definitions

- `Operand.loadAs` — a value loaded for a target type.
- `Operand.load` — a value loaded at its own type.
- `Operand.loadPair` — the two operands of a binary operator.

## Design notes

Only an inline literal consults the target. A value in memory loads at its own type, and a
value in a register stays as it is. A literal that the target cannot hold is not cut down: an
integer beyond 32 bits becomes a 64-bit one and a float beyond the 32-bit format a 64-bit
one, and promotion then moves the other side up.
-/

namespace RowFilter.Operand

open BinaryFloat (single double)

/-- An integer literal in a register. A float or wide target takes it through the pool; a header
target keeps its type and the width of its register. -/
def loadInt (target : DataType) (value : BitVec 64) : StateM LiteralPool Operand := do
  match target with
  | .f32 =>
    let slot ← LiteralPool.insertSingle (BinaryFloat.ofInt single value.toInt)
    return inRegister (.load .f32 (.pooled slot 4)) .f32 .const
  | .f64 =>
    let slot ← LiteralPool.insertDouble (BinaryFloat.ofInt double value.toInt)
    return inRegister (.load .f64 (.pooled slot 8)) .f64 .const
  | .i128 =>
    let slot ← LiteralPool.insertWide (value.signExtend 128)
    return inRegister (.load .i128 (.pooled slot 16)) .i128 .const
  | .stringHeader => return inRegister (.const (.i32 (value.setWidth 32))) target .const
  | .binaryHeader | .varcharHeader | .i64 =>
    return inRegister (.const (.i64 value)) target .const
  | .i8 | .i16 | .i32 =>
    if withinInt32 value then
      return inRegister (.const (.i32 (value.setWidth 32))) target .const
    else
      return inRegister (.const (.i64 value)) .i64 .const

/-- A float literal in a register: 64 bits wide when the target is a 64-bit number or the literal
is beyond the 32-bit format, 32 bits wide otherwise. -/
def loadFloat (target : DataType) (bits : BitVec 64) : StateM LiteralPool Operand := do
  if target = .i64 ∨ target = .f64 ∨ withinSingle bits = false then
    let slot ← LiteralPool.insertDouble bits
    return inRegister (.load .f64 (.pooled slot 8)) .f64 .const
  else
    let slot ← LiteralPool.insertSingle (BinaryFloat.convert double single bits)
    return inRegister (.load .f32 (.pooled slot 4)) .f32 .const

/-- A value in a register, loaded for a target type. -/
def loadAs (target : DataType) (v : Operand) : StateM LiteralPool Operand :=
  match v.location with
  | .literal (.int value) => loadInt target value
  | .literal (.float bits) => loadFloat target bits
  | .memory address => pure (inRegister (.load v.dataType address) v.dataType v.provenance)
  | .register _ => pure v

/-- A value in a register, loaded at its own type. -/
def load (v : Operand) : StateM LiteralPool Operand :=
  loadAs v.dataType v

/-- The types the two operands of a binary operator are loaded at: a lone literal takes the type
of the other operand. -/
def loadTypes (lhs rhs : Operand) : DataType × DataType :=
  match lhs.isLiteral, rhs.isLiteral with
  | true, false => (rhs.dataType, rhs.dataType)
  | false, true => (lhs.dataType, lhs.dataType)
  | _, _ => (lhs.dataType, rhs.dataType)

/-- The two operands of a binary operator in registers. -/
def loadPair (lhs rhs : Operand) : StateM LiteralPool (Operand × Operand) := do
  let types := loadTypes lhs rhs
  let l ← loadAs types.1 lhs
  let r ← loadAs types.2 rhs
  return (l, r)

end RowFilter.Operand
