import RowFilter.Error

/-!
# Predicate instructions

One postfix instruction: an operation, a tag word and a payload.

## Main definitions

- `Payload` — a 128-bit integer or the bits of a double-precision float; `Payload.wide`,
  `low` and `double` read either as the number at hand.
- `Instruction` — with a constructor for each purpose.
- `Instruction.dataType`, `Instruction.index` — what a leaf reads out of its fields.

## Design notes

Nothing ties the payload variant to the tag. The readings are total: a float read as an integer
yields its bit pattern, an integer read as a float the nearest float. Payloads are compared
bit for bit, so a not-a-number literal equals itself and the two zeros differ.
-/

namespace RowFilter

/-- The operand an instruction carries. -/
inductive Payload where
  | int (value : BitVec 128)
  | float (bits : BitVec 64)
  deriving DecidableEq, Repr, Inhabited

/-- Both halves of an integer payload count, and so does the variant. -/
instance : Hashable Payload where
  hash
    | .int value => mixHash 1 (mixHash (hash (value.setWidth 64)) (hash (value.extractLsb' 64 64)))
    | .float bits => mixHash 2 (hash bits)

/-- A word that is extended and cut down again is what it was. -/
theorem setWidth_signExtend_self {w n : Nat} (h : w ≤ n) (x : BitVec w) :
    (x.signExtend n).setWidth w = x := by
  rw [← BitVec.signExtend_eq_setWidth_of_le _ h]
  show BitVec.ofInt w (x.signExtend n).toInt = x
  rw [BitVec.toInt_signExtend_of_le h, BitVec.ofInt_toInt]

namespace Payload

/-- The payload as a 128-bit integer. A float yields its bit pattern, sign-extended. -/
def wide : Payload → BitVec 128
  | int value => value
  | float bits => bits.signExtend 128

/-- The low 64 bits of the payload as an integer. -/
def low (p : Payload) : BitVec 64 :=
  p.wide.setWidth 64

/-- The payload as the bits of a double. An integer yields the nearest double. -/
def double : Payload → BitVec 64
  | int value => BinaryFloat.ofInt BinaryFloat.double value.toInt
  | float bits => bits

end Payload

/-- One postfix instruction. The tag word holds the data type of a leaf and is free for every
other operation. -/
structure Instruction where
  opcode : Opcode
  options : BitVec 32
  payload : Payload
  deriving DecidableEq, Repr, Inhabited, Hashable

namespace Instruction

/-- An operator or terminator: tag word and payload are zero. -/
def op (opcode : Opcode) : Instruction :=
  ⟨opcode, 0, .int 0⟩

/-- The terminator. -/
def ret : Instruction :=
  op .ret

/-- A leaf of the given type. -/
def leaf (op : LeafOp) (t : DataType) (payload : Payload) : Instruction :=
  ⟨.leaf op, BitVec.ofNat 32 t.tag, payload⟩

/-- A read of a variable slot. -/
def var (t : DataType) (slot : BitVec 32) : Instruction :=
  leaf .var t (.int (slot.signExtend 128))

/-- A read of a column at the current row. -/
def column (t : DataType) (index : BitVec 32) : Instruction :=
  leaf .column t (.int (index.signExtend 128))

/-- An integer literal of up to 64 bits. Header types are allowed: a literal is what a header
is compared with. -/
def intLiteral (t : DataType) (value : BitVec 64) : Instruction :=
  leaf .literal t (.int (value.signExtend 128))

/-- A 128-bit integer literal. -/
def wideLiteral (value : BitVec 128) : Instruction :=
  leaf .literal .i128 (.int value)

/-- A float literal. -/
def floatLiteral (t : DataType) (bits : BitVec 64) : Instruction :=
  leaf .literal t (.float bits)

/-- The type the tag word names. -/
def dataType (i : Instruction) : Except CompileError DataType :=
  match DataType.ofTag? i.options.toNat with
  | some t => .ok t
  | none => .error (.unknownDataType i.options.toNat)

/-- A leaf has the type it was made for. -/
@[simp] theorem dataType_leaf (op : LeafOp) (t : DataType) (payload : Payload) :
    (leaf op t payload).dataType = .ok t := by
  cases t <;> rfl

/-- The slot or column a leaf reads: the low 32 bits of the payload, signed. -/
def index (i : Instruction) : BitVec 32 :=
  i.payload.low.setWidth 32

end Instruction

end RowFilter
