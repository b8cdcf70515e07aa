import RowFilter.Expr
import RowFilter.Operand.Operator
import RowFilter.Operand.Promotion

/-!
# The value of an expression

A direct evaluator of expressions on a row, without code, stack or pool: the meaning that
compiled predicates are measured against.

## Main definitions

- `Value` — a word with its type and provenance.
- `Literal.valueAs` — the value of an inline literal at a target type.
- `Value.settle` — the values two operands have beside each other.
- `Value.unify`, `Value.unary`, `Value.binary` — promotion and the operators on values.
- `Expr.value` — the value of an expression on a row, or the error of its first failing node.

## Design notes

The value of a literal depends on where it stands. Beside an operand that is no inline literal
it takes that operand's type; alone, or beside another literal, it takes its own. Which
leaves count as inline literals is a matter of the tree alone: a negated literal and a
128-bit literal do not.
-/

namespace RowFilter

open BinaryFloat (single double)

/-- A word with its type and provenance. -/
structure Value where
  dataType : DataType
  provenance : Provenance
  word : Word
  deriving DecidableEq, Repr, Inhabited

/-- The value of an inline literal at a target type. A literal beyond what the target holds takes
the next wider type of its kind. -/
def Literal.valueAs (target : DataType) : Literal → Value
  | .int x =>
    match target with
    | .f32 => ⟨.f32, .const, .f32 (BinaryFloat.ofInt single x.toInt)⟩
    | .f64 => ⟨.f64, .const, .f64 (BinaryFloat.ofInt double x.toInt)⟩
    | .i128 => ⟨.i128, .const, .i128 (x.signExtend 128)⟩
    | .i64 | .binaryHeader | .varcharHeader => ⟨target, .const, .i64 x⟩
    | .stringHeader => ⟨target, .const, .i32 (x.setWidth 32)⟩
    | .i8 | .i16 | .i32 =>
      if withinInt32 x then ⟨target, .const, .i32 (x.setWidth 32)⟩
      else ⟨.i64, .const, .i64 x⟩
  | .float x =>
    if target ≠ .i64 ∧ target ≠ .f64 ∧ withinSingle x then
      ⟨.f32, .const, .f32 (BinaryFloat.convert double single x)⟩
    else
      ⟨.f64, .const, .f64 x⟩

namespace Value

/-- The values of the two sides of an operator, each given with the inline literal it is, if it is
one. A lone literal is taken at the type of the other side. -/
def settle (a b : Option Literal × Value) : Value × Value :=
  match a, b with
  | (some x, _), (none, b) => (x.valueAs b.dataType, b)
  | (none, a), (some y, _) => (a, y.valueAs a.dataType)
  | (_, a), (_, b) => (a, b)

/-- A value brought to a rank. -/
def promote (nullCheck : Bool) (target : Rank) (v : Value) : Value :=
  if v.dataType.rank = some target then v
  else ⟨target.dataType, v.provenance,
    v.word.widen (v.dataType.nullGate nullCheck) target.regClass⟩

/-- Two values brought to a common type. -/
def unify (nullCheck : Bool) (a b : Value) : Except CompileError (Value × Value) :=
  match a.dataType.rank, b.dataType.rank with
  | some l, some r =>
    if l = r then .ok (a, b)
    else .ok (a.promote nullCheck (l.join r), b.promote nullCheck (l.join r))
  | _, _ =>
    if a.dataType = b.dataType then .ok (a, b)
    else .error (.typeMismatch a.dataType b.dataType)

/-- Whether an operator is defined on a type. -/
def supports (t : DataType) : Opcode → Bool
  | .unary .neg | .binary (.order _) | .binary (.arith _) => t.isInt || t.isFloat
  | .unary .not | .binary (.logic _) => t.isInt32
  | .binary (.equality _) => true
  | _ => false

/-- A unary operator on a value; the type stays. -/
def unary (op : UnaryOp) (v : Value) : Except CompileError Value :=
  if supports v.dataType (.unary op) then
    match op with
    | .neg => .ok ⟨v.dataType, v.provenance, v.word.neg⟩
    | .not => .ok ⟨v.dataType, v.provenance, v.word.not⟩
  else .error (.unsupportedOperation (.unary op) v.dataType)

/-- The result of a binary operator on two values of a common type. -/
def combine (op : BinaryOp) (nullCheck : Bool) (a b : Value) : Value :=
  let provenance := a.provenance.join b.provenance
  match op with
  | .logic op => ⟨a.dataType, provenance, Word.logic op a.word b.word⟩
  | .equality op => ⟨.i32, provenance, .ofBool (Word.equality op a.word b.word)⟩
  | .order op => ⟨.i32, provenance, .ofBool (Word.order op nullCheck a.word b.word)⟩
  | .arith op =>
    ⟨Operand.arithType a.dataType, provenance, Word.arith op nullCheck a.word b.word⟩

/-- A binary operator on two values of a common type. The left type is looked at first; the right
one can only differ from it in a way that matters to no operator. -/
def binary (op : BinaryOp) (nullCheck : Bool) (a b : Value) : Except CompileError Value :=
  if supports a.dataType (.binary op) then .ok (combine op nullCheck a b)
  else .error (.unsupportedOperation (.binary op) a.dataType)

/-- The value of a leaf at its own type. -/
def ofLeaf (memory : Memory) (row : BitVec 64) (op : LeafOp) (i : Instruction) :
    Except CompileError Value := do
  let t ← i.dataType
  match op with
  | .var => return ⟨t, .memory, memory.slotWord t (← Operand.slotNumber i.index)⟩
  | .column =>
    let column ← Operand.slotNumber i.index
    match t with
    | .stringHeader => return ⟨.i32, .memory, memory.fieldLength .string column row⟩
    | .binaryHeader => return ⟨.i64, .memory, memory.fieldLength .binary column row⟩
    | .varcharHeader => return ⟨t, .memory, memory.headerWord column row⟩
    | _ => return ⟨t, .memory, memory.elementWord t column row⟩
  | .literal =>
    match t with
    | .i128 => return ⟨t, .const, .i128 i.payload.wide⟩
    | .f32 | .f64 => return (Literal.float i.payload.double).valueAs t
    | _ => return (Literal.int i.payload.low).valueAs t

end Value

namespace Expr

/-- The inline literal a tree consists of, if it consists of one. -/
def inlineLiteral? : Expr → Option Literal
  | leaf .literal options payload =>
    match DataType.ofTag? options.toNat with
    | none | some .i128 => none
    | some .f32 | some .f64 => some (.float payload.double)
    | some _ => some (.int payload.low)
  | _ => none

/-- The value of an expression on a row. A lone literal beside another operand is taken at that
operand's type. -/
def value (nullCheck : Bool) (memory : Memory) (row : BitVec 64) :
    Expr → Except CompileError Value
  | leaf op options payload => Value.ofLeaf memory row op ⟨.leaf op, options, payload⟩
  | unary op _ _ arg => do
    Value.unary op (← arg.value nullCheck memory row)
  | binary op _ _ lhs rhs => do
    let a ← lhs.value nullCheck memory row
    let b ← rhs.value nullCheck memory row
    let sides := Value.settle (lhs.inlineLiteral?, a) (rhs.inlineLiteral?, b)
    let (a, b) ← Value.unify nullCheck sides.1 sides.2
    Value.binary op nullCheck a b

end Expr

end RowFilter
