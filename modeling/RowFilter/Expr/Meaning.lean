import RowFilter.Expr
import RowFilter.Memory
import RowFilter.Provenance
import RowFilter.Expr.Value

/-!
# The meaning of an expression

The contract of compiled predicates: what each leaf and each operator yields on a row, in terms of
exact integers and of the primitive operations on floats. Nothing here is made of the operations
that compiled code is made of; that the two agree is a theorem.

## Main definitions

- `Meaning.Kind` — the numeric types, with the common type of two of them.
- `Meaning.wordOf` — an integer in the register of a type; `Meaning.sentinel`, the integer that a
  register reserves for null.
- `Meaning.arith`, `Meaning.position?`, `Meaning.convert` — arithmetic, comparison, conversion.
- `Meaning.literal`, `Meaning.stored`, `Meaning.fieldLength` — where values come from.
- `Expr.meaning` — the value of an expression on a row, or the error of its first failing node.

## Design notes

A register is read as a signed integer, the operator is applied to the integers, and the result is
reduced to the register. All six comparisons are read off one position of the left operand relative
to the right one; a float within the tolerance of another is in the position of an equal one, and a
number has no position relative to what is not a number.

Operands of one kind are in registers of one class. The functions on two words are total all the
same, and of words of different classes they yield the first one, or no position.
-/

namespace RowFilter

open BinaryFloat (Bits single double)

namespace Meaning

/-! ### Numeric types -/

/-- A kind of number: integer or float, in 32 bits or in 64. -/
structure Kind where
  isFloat : Bool
  isWide : Bool
  deriving DecidableEq, Repr

/-- The kind that two operands are brought to: a float if either is one, and 64 bits wide if either
is. -/
def Kind.common (a b : Kind) : Kind :=
  ⟨a.isFloat || b.isFloat, a.isWide || b.isWide⟩

/-- The type of a computed number. -/
def Kind.dataType : Kind → DataType
  | ⟨false, false⟩ => .i32
  | ⟨false, true⟩ => .i64
  | ⟨true, false⟩ => .f32
  | ⟨true, true⟩ => .f64

/-- The kind of a numeric type. The wide integer and the headers are no numbers. -/
def kind? : DataType → Option Kind
  | .i8 | .i16 | .i32 => some ⟨false, false⟩
  | .i64 => some ⟨false, true⟩
  | .f32 => some ⟨true, false⟩
  | .f64 => some ⟨true, true⟩
  | .i128 | .stringHeader | .binaryHeader | .varcharHeader => none

/-! ### Registers -/

/-- An integer in the register of a type: reduced to the width, or the nearest float. -/
def wordOf (t : DataType) (n : Int) : Word :=
  match t with
  | .i8 | .i16 | .i32 | .stringHeader => .i32 (BitVec.ofInt 32 n)
  | .i64 | .binaryHeader | .varcharHeader => .i64 (BitVec.ofInt 64 n)
  | .i128 => .i128 (BitVec.ofInt 128 n)
  | .f32 => .f32 (BinaryFloat.ofInt single n)
  | .f64 => .f64 (BinaryFloat.ofInt double n)

/-- The integer that a register of the given width reserves for null, the smallest one. -/
def sentinel (width : Nat) : Int :=
  -Int.pow 2 (width - 1)

/-- The null of a kind: the sentinel of its register, or not-a-number. -/
def null : Kind → Word
  | ⟨false, false⟩ => .i32 (BitVec.ofInt 32 (sentinel 32))
  | ⟨false, true⟩ => .i64 (BitVec.ofInt 64 (sentinel 64))
  | ⟨true, false⟩ => .f32 (BinaryFloat.nan single)
  | ⟨true, true⟩ => .f64 (BinaryFloat.nan double)

def isNull : Word → Bool
  | .i32 a => a.toInt = sentinel 32
  | .i64 a => a.toInt = sentinel 64
  | .i128 a => a.toInt = sentinel 128
  | .f32 a => BinaryFloat.isNaN a
  | .f64 a => BinaryFloat.isNaN a

/-- A truth value: one or zero in a 32-bit register. -/
def truth (b : Bool) : Word :=
  .i32 (if b then 1 else 0)

/-! ### Arithmetic -/

/-- The exact result of an operator on integers from registers of the given width. A quotient is
truncated toward zero; it is the sentinel where there is none or where it does not fit. -/
def exact (op : ArithOp) (width : Nat) (m n : Int) : Int :=
  match op with
  | .add => m + n
  | .sub => m - n
  | .mul => m * n
  | .div => if n = 0 ∨ m = sentinel width ∧ n = -1 then sentinel width else m.tdiv n

/-- An arithmetic operator on integer registers. With the null check a sentinel in either of them
makes the result the sentinel. -/
def arithInteger {w : Nat} (op : ArithOp) (nullCheck : Bool) (a b : BitVec w) : BitVec w :=
  if nullCheck ∧ (a.toInt = sentinel w ∨ b.toInt = sentinel w) then .ofInt w (sentinel w)
  else .ofInt w (exact op w a.toInt b.toInt)

def arithFloat {f : Float.Model.Format} (op : ArithOp) (a b : Bits f) : Bits f :=
  match op with
  | .add => BinaryFloat.add a b
  | .sub => BinaryFloat.sub a b
  | .mul => BinaryFloat.mul a b
  | .div => BinaryFloat.div a b

def arith (op : ArithOp) (nullCheck : Bool) : Word → Word → Word
  | .i32 a, .i32 b => .i32 (arithInteger op nullCheck a b)
  | .i64 a, .i64 b => .i64 (arithInteger op nullCheck a b)
  | .f32 a, .f32 b => .f32 (arithFloat op a b)
  | .f64 a, .f64 b => .f64 (arithFloat op a b)
  | a, _ => a

def neg : Word → Word
  | .i32 a => .i32 (BitVec.ofInt 32 (-a.toInt))
  | .i64 a => .i64 (BitVec.ofInt 64 (-a.toInt))
  | .i128 a => .i128 (BitVec.ofInt 128 (-a.toInt))
  | .f32 a => .f32 (BinaryFloat.neg a)
  | .f64 a => .f64 (BinaryFloat.neg a)

/-- The logic operators are bitwise. -/
def logic (op : LogicOp) : Word → Word → Word
  | .i32 a, .i32 b =>
    match op with
    | .and => .i32 (a &&& b)
    | .or => .i32 (a ||| b)
  | a, _ => a

/-- The complement flips the lowest bit. -/
def not : Word → Word
  | .i32 a => .i32 (a ^^^ 1)
  | a => a

/-! ### Comparison -/

/-- The position of a float relative to another one. Two floats are in the same position if they are
equal, closer to each other than the tolerance, or both not a number. -/
def floatPosition? {f : Float.Model.Format} (tolerance a b : Bits f) : Option Ordering :=
  if BinaryFloat.eq a b ∨ BinaryFloat.lt (BinaryFloat.abs (BinaryFloat.sub a b)) tolerance ∨
      BinaryFloat.isNaN a ∧ BinaryFloat.isNaN b then some .eq
  else if BinaryFloat.lt a b then some .lt
  else if BinaryFloat.lt b a then some .gt
  else none

/-- The position of a number relative to another one. The tolerances are 1e-6 and 1e-10. -/
def position? : Word → Word → Option Ordering
  | .i32 a, .i32 b => some (compare a.toInt b.toInt)
  | .i64 a, .i64 b => some (compare a.toInt b.toInt)
  | .f32 a, .f32 b => floatPosition? (f := single) 0x358637BD#32 a b
  | .f64 a, .f64 b => floatPosition? (f := double) 0x3DDB7CDFD9D7BDBB#64 a b
  | _, _ => none

/-- Wide integers have no order, but they can be equal. -/
def equal : Word → Word → Bool
  | .i128 a, .i128 b => a.toInt == b.toInt
  | a, b => position? a b == some .eq

/-- The positions that an order comparison accepts. -/
def accepts : OrderOp → Ordering → Bool
  | .lt, o => o.isLT
  | .le, o => o.isLE
  | .gt, o => o.isGT
  | .ge, o => o.isGE

/-- An order comparison; with the null check it is false beside a null. -/
def order (op : OrderOp) (nullCheck : Bool) (a b : Word) : Bool :=
  (position? a b).any (accepts op) && !(nullCheck && (isNull a || isNull b))

/-! ### Conversion -/

/-- An integer brought to a kind. The sentinel becomes the null of the kind, where it is looked
for. -/
def convertInteger {w : Nat} (checked : Bool) (target : Kind) (a : BitVec w) : Word :=
  if checked ∧ a.toInt = sentinel w then null target else wordOf target.dataType a.toInt

/-- A number brought to another kind. The only conversion of a float is the one to 64 bits. -/
def convert (checked : Bool) (target : Kind) : Word → Word
  | .i32 a => convertInteger checked target a
  | .i64 a => convertInteger checked target a
  | .f32 a => .f64 (BinaryFloat.convert single double a)
  | a => a

/-- A value brought to a kind. A value of the kind keeps its type. The narrow integer types use
their full range, so no sentinel is looked for in them. -/
def promote (nullCheck : Bool) (target : Kind) (v : Value) : Value :=
  if kind? v.dataType = some target then v
  else ⟨target.dataType, v.provenance,
    convert (nullCheck && v.dataType != .i8 && v.dataType != .i16) target v.word⟩

/-- Two values brought to a common type. What is no number meets its own type only. -/
def unify (nullCheck : Bool) (a b : Value) : Except CompileError (Value × Value) :=
  match kind? a.dataType, kind? b.dataType with
  | some k, some l =>
    .ok (promote nullCheck (k.common l) a, promote nullCheck (k.common l) b)
  | _, _ =>
    if a.dataType = b.dataType then .ok (a, b)
    else .error (.typeMismatch a.dataType b.dataType)

/-! ### Operators -/

/-- A result derives from stored data if one of the operands does. -/
def derive (a b : Value) : Provenance :=
  if a.provenance = .memory ∨ b.provenance = .memory then .memory else .const

/-- A unary operator. Numbers have a negation, the 32-bit integers a complement, and the type
stays. -/
def unary (op : UnaryOp) (v : Value) : Except CompileError Value :=
  match op, kind? v.dataType with
  | .neg, some _ => .ok ⟨v.dataType, v.provenance, neg v.word⟩
  | .not, some ⟨false, false⟩ => .ok ⟨v.dataType, v.provenance, not v.word⟩
  | op, _ => .error (.unsupportedOperation (.unary op) v.dataType)

/-- A binary operator on two values of a common type. Comparisons yield a truth value; logic keeps
the type, and arithmetic computes at the type of the kind. -/
def binary (op : BinaryOp) (nullCheck : Bool) (a b : Value) : Except CompileError Value :=
  match op, kind? a.dataType with
  | .logic op, some ⟨false, false⟩ => .ok ⟨a.dataType, derive a b, logic op a.word b.word⟩
  | .equality .eq, _ => .ok ⟨.i32, derive a b, truth (equal a.word b.word)⟩
  | .equality .ne, _ => .ok ⟨.i32, derive a b, truth (!equal a.word b.word)⟩
  | .order op, some _ => .ok ⟨.i32, derive a b, truth (order op nullCheck a.word b.word)⟩
  | .arith op, some k => .ok ⟨k.dataType, derive a b, arith op nullCheck a.word b.word⟩
  | op, _ => .error (.unsupportedOperation (.binary op) a.dataType)

/-! ### Literals -/

/-- The integer in a payload. A float counts as its bit pattern. -/
def number : Payload → Int
  | .int value => value.toInt
  | .float bits => bits.toInt

/-- The double in a payload: of an integer, the nearest one. -/
def float : Payload → Bits double
  | .int value => BinaryFloat.ofInt double value.toInt
  | .float bits => bits

/-- The inline literal of a type, from its payload. There is none of the wide type. -/
def literal? (t : DataType) (payload : Payload) : Option Literal :=
  match t with
  | .i128 => none
  | .f32 | .f64 => some (.float (float payload))
  | _ => some (.int (BitVec.ofInt 64 (number payload)))

/-- Whether the magnitude of a double is at most the largest finite number of the 32-bit format. -/
def fitsSingle (x : Bits double) : Bool :=
  BinaryFloat.le (f := double) (BinaryFloat.abs x) 0x47EFFFFFE0000000#64

/-- An inline literal taken at a type. An integer that 32 bits cannot hold is taken at 64 bits, and
so is a float beside a 64-bit number and one beyond the range of the 32-bit format. -/
def literal (target : DataType) : Literal → Value
  | .int x =>
    if kind? target = some ⟨false, false⟩ ∧ (x.toInt < -0x80000000 ∨ 0x80000000 ≤ x.toInt) then
      ⟨.i64, .const, wordOf .i64 x.toInt⟩
    else ⟨target, .const, wordOf target x.toInt⟩
  | .float x =>
    if (kind? target).any (·.isWide) ∨ fitsSingle x = false then ⟨.f64, .const, .f64 x⟩
    else ⟨.f32, .const, .f32 (BinaryFloat.convert double single x)⟩

/-- The value of a literal at its own type. -/
def ownLiteral (t : DataType) (payload : Payload) : Value :=
  match literal? t payload with
  | some x => literal t x
  | none => ⟨t, .const, wordOf t (number payload)⟩

/-- The values of two operands, with the inline literals they are. If exactly one of them is one, it
is taken at the type of the other operand. -/
def settle (x y : Option Literal) (a b : Value) : Value × Value :=
  match x, y with
  | some x, none => (literal b.dataType x, b)
  | none, some y => (a, literal a.dataType y)
  | _, _ => (a, b)

/-! ### Stored data -/

/-- The width of an element, in bytes. -/
def width : DataType → Nat
  | .i8 => 1
  | .i16 => 2
  | .i32 | .f32 | .stringHeader => 4
  | .i64 | .f64 | .binaryHeader => 8
  | .i128 | .varcharHeader => 16

/-- The number that `n` bytes spell, the first one counting least. -/
def digits (buffer : Buffer) : (n : Nat) → BitVec 64 → Nat
  | 0, _ => 0
  | n + 1, offset => (buffer offset).toNat + 256 * digits buffer n (offset + 1)

/-- The `n` bytes at an offset. -/
def read (n : Nat) (buffer : Buffer) (offset : BitVec 64) : BitVec (8 * n) :=
  BitVec.ofNat _ (digits buffer n offset)

/-- The value of a type at an offset. Integers are signed; of a varchar header only the low eight
bytes count. -/
def stored (t : DataType) (buffer : Buffer) (offset : BitVec 64) : Word :=
  match t with
  | .f32 => .f32 (read 4 buffer offset)
  | .f64 => .f64 (read 8 buffer offset)
  | .varcharHeader => wordOf t (read 8 buffer offset).toInt
  | t => wordOf t (read (width t) buffer offset).toInt

/-- The length of a value behind a header: the distance to the next value less the header or, where
nothing is left, what the header says. -/
def fieldLength (header : Nat) (data offsets : Buffer) (row : BitVec 64) : Int :=
  let start := read 8 offsets (8 * row)
  let next := read 8 offsets (8 * row + 8)
  if next = start + BitVec.ofNat 64 header then (read header data start).toInt
  else next.toInt - start.toInt - header

/-- The value of a column on a row. Of a string or a binary value it is the length. -/
def column (memory : Memory) (row : BitVec 64) (t : DataType) (index : Nat) : Value :=
  let data := memory.column index
  let aux := memory.aux index
  let offset := BitVec.ofNat 64 (width t) * row
  match t with
  | .stringHeader => ⟨.i32, .memory, wordOf .i32 (fieldLength 4 data aux row)⟩
  | .binaryHeader => ⟨.i64, .memory, wordOf .i64 (fieldLength 8 data aux row)⟩
  | .varcharHeader => ⟨t, .memory, stored t aux offset⟩
  | t => ⟨t, .memory, stored t data offset⟩

/-- The slot that a payload names with its low 32 bits. The byte offset of a slot fits in 32 signed
bits. -/
def slot (payload : Payload) : Except CompileError Nat :=
  let n := (BitVec.ofInt 32 (number payload)).toInt
  if n < 0 then .error (.malformedStream (.negativeSlot n))
  else if 0x80000000 ≤ 8 * n then .error (.malformedStream (.slotOutOfRange n))
  else .ok n.toNat

/-! ### Leaves -/

/-- The type a tag word names. -/
def leafType (options : BitVec 32) : Except CompileError DataType :=
  match DataType.ofTag? options.toNat with
  | some t => .ok t
  | none => .error (.unknownDataType options.toNat)

/-- The value of a leaf at its own type. -/
def leaf (memory : Memory) (row : BitVec 64) (op : LeafOp) (options : BitVec 32)
    (payload : Payload) : Except CompileError Value := do
  let t ← leafType options
  match op with
  | .var => return ⟨t, .memory, stored t memory.slots (BitVec.ofNat 64 (8 * (← slot payload)))⟩
  | .column => return column memory row t (← slot payload)
  | .literal => return ownLiteral t payload

end Meaning

namespace Expr

/-- The inline literal that a tree is, if it is a leaf that stands for one. -/
def loneLiteral? : Expr → Option Literal
  | leaf .literal options payload =>
    (DataType.ofTag? options.toNat).bind fun t => Meaning.literal? t payload
  | _ => none

/-- What an expression means on a row: the operands are evaluated, settled beside each other and
brought to a common type, and the operator is applied. -/
def meaning (nullCheck : Bool) (memory : Memory) (row : BitVec 64) :
    Expr → Except CompileError Value
  | leaf op options payload => Meaning.leaf memory row op options payload
  | unary op _ _ arg => do
    Meaning.unary op (← arg.meaning nullCheck memory row)
  | binary op _ _ lhs rhs => do
    let a ← lhs.meaning nullCheck memory row
    let b ← rhs.meaning nullCheck memory row
    let sides := Meaning.settle lhs.loneLiteral? rhs.loneLiteral? a b
    let (a, b) ← Meaning.unify nullCheck sides.1 sides.2
    Meaning.binary op nullCheck a b

end Expr

end RowFilter
