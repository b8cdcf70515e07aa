import RowFilter.Code
import RowFilter.Instruction
import RowFilter.Provenance

/-!
# Operands

The values a compilation keeps on its operand stack: where each lives, its type and where it
comes from.

## Main definitions

- `Location` — inline literal, memory operand or register.
- `Operand` — a location with a type and a provenance.
- `Operand.ofVariable`, `Operand.ofColumn`, `Operand.ofLiteral` — the operands of the three
  leaf instructions.
- `Operand.register` — the code of an operand that is in a register.

## Design notes

Reads stay memory operands and literals stay inline until an operator loads them, because the
type a lone literal is loaded at is decided by the other operand. Variable-length reads are
an exception: they compute a length, so they are in a register from the start.
-/

namespace RowFilter

/-- Where a value lives. -/
inductive Location where
  | literal (value : Literal)
  | memory (address : Address)
  | register (code : Code)
  deriving DecidableEq, Repr, Inhabited

/-- A value on the operand stack. -/
structure Operand where
  location : Location
  dataType : DataType
  provenance : Provenance
  deriving DecidableEq, Repr, Inhabited

namespace Operand

/-- A value in a register. -/
def inRegister (code : Code) (t : DataType) (provenance : Provenance) : Operand :=
  ⟨.register code, t, provenance⟩

def isLiteral (v : Operand) : Bool :=
  match v.location with
  | .literal _ => true
  | _ => false

/-- The code of a value that is in a register. -/
def register (v : Operand) : Except CompileError Code :=
  match v.location with
  | .register code => .ok code
  | .literal value => .error (.registerExpected (.literal value))
  | .memory _ => .error (.registerExpected .memory)

/-- The slot a signed index names. A slot is at least zero, and its byte offset, eight times the
index, fits in 32 signed bits. -/
def slotNumber (index : BitVec 32) : Except CompileError Nat :=
  if index.toInt < 0 then
    .error (.malformedStream (.negativeSlot index.toInt))
  else if (BitVec.intMax 32).toInt < 8 * index.toInt then
    .error (.malformedStream (.slotOutOfRange index.toInt))
  else
    .ok index.toNat

def ofVariable (t : DataType) (index : BitVec 32) : Except CompileError Operand := do
  let slot ← slotNumber index
  return ⟨.memory (.slot slot t.size), t, .memory⟩

/-- The operand of a column read at the current row. A string or binary column yields the length
of the value, at an integer type; a varchar column the low half of its header entry. -/
def ofColumn (t : DataType) (index : BitVec 32) : Except CompileError Operand := do
  let column ← slotNumber index
  match t with
  | .stringHeader => return inRegister (.length .string column) .i32 .memory
  | .binaryHeader => return inRegister (.length .binary column) .i64 .memory
  | .varcharHeader => return inRegister (.load .varcharHeader (.auxEntry column)) t .memory
  | _ => return ⟨.memory (.element (.column column) t.shift), t, .memory⟩

/-- The operand of a literal. A wide literal is pooled and becomes a memory operand; every other
literal stays inline, whatever its range. -/
def ofLiteral (i : Instruction) : StateT LiteralPool (Except CompileError) Operand := do
  let t ← i.dataType
  match t with
  | .i128 =>
    let slot ← modifyGet (LiteralPool.insertWide i.payload.wide)
    return ⟨.memory (.pooled slot 16), t, .const⟩
  | .f32 | .f64 => return ⟨.literal (.float i.payload.double), t, .const⟩
  | _ => return ⟨.literal (.int i.payload.low), t, .const⟩

end Operand

end RowFilter
