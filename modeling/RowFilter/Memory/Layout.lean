import RowFilter.Memory
import RowFilter.Word

/-!
# Stored layouts

How values of each type lie in memory, and what a read of each kind yields.

## Main definitions

- `DataType.wordAt` — the value of a type at an offset.
- `Memory.slotWord` — the value in a variable slot.
- `Memory.elementWord` — an element of a fixed-width column.
- `Memory.fieldLength` — the length of a value of a variable-length column.
- `Memory.headerWord` — the header entry of a varchar column.

## Design notes

A variable-length column keeps its values one after the other, each behind a header with its
length, or minus one for null. The auxiliary data holds the offset of every value and a
trailing one. The distance between two offsets less the header is the length; where that is
zero the value may be empty or null, and only then the header is read.
-/

namespace RowFilter

/-- The value of a type at an offset. The narrow integers are sign-extended to 32 bits; every
other type is read bit for bit. Of a varchar header only the low eight bytes are read. -/
def DataType.wordAt (t : DataType) (buffer : Buffer) (offset : BitVec 64) : Word :=
  match t with
  | .i8 => .i32 ((buffer.read 1 offset).signExtend 32)
  | .i16 => .i32 ((buffer.read 2 offset).signExtend 32)
  | .i32 | .stringHeader => .i32 (buffer.read 4 offset)
  | .i64 | .binaryHeader | .varcharHeader => .i64 (buffer.read 8 offset)
  | .i128 => .i128 (buffer.read 16 offset)
  | .f32 => .f32 (buffer.read 4 offset)
  | .f64 => .f64 (buffer.read 8 offset)

@[simp] theorem DataType.regClass_wordAt (t : DataType) (buffer : Buffer) (offset : BitVec 64) :
    (t.wordAt buffer offset).regClass = t.regClass := by
  cases t <;> rfl

/-- The two layouts of a variable-length column, which differ in the width of the header in
front of each value. -/
inductive FieldKind where
  | string
  | binary
  deriving DecidableEq, Repr, Inhabited

namespace FieldKind

/-- The width of the header, in bytes. -/
def headerSize : FieldKind → Nat
  | string => 4
  | binary => 8

/-- The type of the length. -/
def lengthType : FieldKind → DataType
  | string => .i32
  | binary => .i64

/-- The header at an offset, sign-extended to 64 bits. -/
def header (kind : FieldKind) (data : Buffer) (offset : BitVec 64) : BitVec 64 :=
  match kind with
  | string => (data.read 4 offset).signExtend 64
  | binary => data.read 8 offset

/-- A length in the register of its type. -/
def lengthWord (kind : FieldKind) (length : BitVec 64) : Word :=
  match kind with
  | string => .i32 (length.setWidth 32)
  | binary => .i64 length

end FieldKind

namespace Memory

/-- The value at the start of a variable slot. -/
def slotWord (memory : Memory) (t : DataType) (slot : Nat) : Word :=
  t.wordAt memory.slots (BitVec.ofNat 64 (8 * slot))

/-- The element of a fixed-width column on a row. -/
def elementWord (memory : Memory) (t : DataType) (column : Nat) (row : BitVec 64) : Word :=
  t.wordAt (memory.column column) (row * BitVec.ofNat 64 t.size)

/-- The length of the value of a variable-length column on a row, minus one for null. -/
def fieldLength (memory : Memory) (kind : FieldKind) (column : Nat) (row : BitVec 64) : Word :=
  let entries := memory.aux column
  let start : BitVec 64 := entries.read 8 (row * 8)
  let next : BitVec 64 := entries.read 8 (row * 8 + 8)
  let distance := next - start - BitVec.ofNat 64 kind.headerSize
  kind.lengthWord
    (if distance = 0 then kind.header (memory.column column) start else distance)

/-- The low eight bytes of the 16-byte entry of a varchar column on a row. -/
def headerWord (memory : Memory) (column : Nat) (row : BitVec 64) : Word :=
  DataType.varcharHeader.wordAt (memory.aux column) (row * 16)

@[simp] theorem regClass_fieldLength (memory : Memory) (kind : FieldKind) (column : Nat)
    (row : BitVec 64) :
    (memory.fieldLength kind column row).regClass = kind.lengthType.regClass := by
  cases kind <;> rfl

end Memory

end RowFilter
