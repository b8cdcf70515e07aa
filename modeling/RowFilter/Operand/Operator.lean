import RowFilter.Operand

/-!
# Operators on operands

What each operator makes of operands that are in registers and of a common rank: the type and
provenance of the result, its code, and the types it refuses.

## Main definitions

- `Operand.unary`, `Operand.binary` — an operator applied to its operands.
- `Operand.neg`, `not`, `logic`, `equality`, `order`, `arith` — one group of operators each.

## Design notes

Comparisons yield a 32-bit truth value. Arithmetic on the narrow integers yields a 32-bit
integer, since that is what it computes; negation and logic keep the type of their operand.
Equality is defined on every type, the other comparisons and arithmetic on numbers only, and
logic on the 32-bit integer family only.
-/

namespace RowFilter.Operand

def neg (v : Operand) : Except CompileError Operand := do
  let code ← v.register
  match v.dataType with
  | .i8 | .i16 | .i32 | .i64 | .f32 | .f64 =>
    return inRegister (.neg code) v.dataType v.provenance
  | t => throw (.unsupportedOperation (.unary .neg) t)

/-- The complement of a truth value. -/
def not (v : Operand) : Except CompileError Operand := do
  if v.dataType.isInt32 then
    let code ← v.register
    return inRegister (.not code) v.dataType v.provenance
  else
    throw (.unsupportedOperation (.unary .not) v.dataType)

/-- A logic operator. The result keeps the type of the left operand. -/
def logic (op : LogicOp) (lhs rhs : Operand) : Except CompileError Operand := do
  if lhs.dataType.isInt32 = false then
    throw (.unsupportedOperation (.binary (.logic op)) lhs.dataType)
  else if rhs.dataType.isInt32 = false then
    throw (.unsupportedOperation (.binary (.logic op)) rhs.dataType)
  else
    let a ← lhs.register
    let b ← rhs.register
    return inRegister (.logic op a b) lhs.dataType (lhs.provenance.join rhs.provenance)

/-- Equality or its complement, on every type. -/
def equality (op : EqualityOp) (lhs rhs : Operand) : Except CompileError Operand := do
  let a ← lhs.register
  let b ← rhs.register
  return inRegister (.equality op a b) .i32 (lhs.provenance.join rhs.provenance)

/-- An order comparison of numbers. -/
def order (op : OrderOp) (nullCheck : Bool) (lhs rhs : Operand) :
    Except CompileError Operand := do
  let a ← lhs.register
  let b ← rhs.register
  if lhs.dataType.isInt || lhs.dataType.isFloat then
    return inRegister (.order op nullCheck a b) .i32 (lhs.provenance.join rhs.provenance)
  else
    throw (.unsupportedOperation (.binary (.order op)) lhs.dataType)

/-- The type of an arithmetic result: the 32-bit integer family computes at 32 bits. -/
def arithType (t : DataType) : DataType :=
  if t.isInt32 then .i32 else t

/-- An arithmetic operator on numbers. -/
def arith (op : ArithOp) (nullCheck : Bool) (lhs rhs : Operand) :
    Except CompileError Operand := do
  let a ← lhs.register
  let b ← rhs.register
  if lhs.dataType.isInt || lhs.dataType.isFloat then
    return inRegister (.arith op nullCheck a b) (arithType lhs.dataType)
      (lhs.provenance.join rhs.provenance)
  else
    throw (.unsupportedOperation (.binary (.arith op)) lhs.dataType)

def unary (op : UnaryOp) (v : Operand) : Except CompileError Operand :=
  match op with
  | .neg => neg v
  | .not => not v

def binary (op : BinaryOp) (nullCheck : Bool) (lhs rhs : Operand) :
    Except CompileError Operand :=
  match op with
  | .logic op => logic op lhs rhs
  | .equality op => equality op lhs rhs
  | .order op => order op nullCheck lhs rhs
  | .arith op => arith op nullCheck lhs rhs

end RowFilter.Operand
