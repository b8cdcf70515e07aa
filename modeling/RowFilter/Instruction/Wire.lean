import RowFilter.Instruction
import RowFilter.LittleEndian

/-!
# Wire records

The packed form of an instruction stream: 32 bytes for each instruction.

| bytes | contents |
|---|---|
| 0 to 3 | operation code, signed |
| 4 to 7 | tag word |
| 8 to 23 | payload |
| 24 to 31 | zero |

All fields are little-endian. A float payload is written as its bit pattern, zero-extended;
reading takes a payload for a float exactly when the instruction is a literal of a float
type.

## Main definitions

- `Instruction.encode`, `Instruction.decode` — one record.
- `Instruction.decodeAll` — a packed buffer of records.
-/

namespace RowFilter

/-- The length of a record in bytes. -/
def recordSize : Nat := 32

/-- The 16 payload bytes of a record, as a word. -/
def Payload.image : Payload → BitVec 128
  | int value => value
  | float bits => bits.setWidth 128

namespace Instruction

/-- The record of an instruction. -/
def encode (i : Instruction) : List Byte :=
  LittleEndian.bytes 4 (BitVec.ofInt 32 i.opcode.code)
    ++ LittleEndian.bytes 4 i.options
    ++ LittleEndian.bytes 16 i.payload.image
    ++ List.replicate 8 0#8

/-- The instruction of a record. An unknown operation is reported before an unknown type; only
leaves have their type looked at. -/
def decode (record : List Byte) : Except CompileError Instruction :=
  let code := BitVec.toInt (LittleEndian.word 4 record)
  let options : BitVec 32 := LittleEndian.word 4 (record.drop 4)
  let image : BitVec 128 := LittleEndian.word 16 (record.drop 8)
  match Opcode.ofCode? code with
  | none => .error (.unknownOpcode code)
  | some (.leaf leaf) =>
    match DataType.ofTag? options.toNat with
    | none => .error (.unknownDataType options.toNat)
    | some t =>
      if leaf = .literal ∧ t.isFloat then
        .ok ⟨.leaf leaf, options, .float (image.setWidth 64)⟩
      else
        .ok ⟨.leaf leaf, options, .int image⟩
  | some opcode => .ok ⟨opcode, options, .int image⟩

/-- A buffer cut into records; the last one may be short. -/
def records (bytes : List Byte) : List (List Byte) :=
  if bytes = [] then []
  else bytes.take recordSize :: records (bytes.drop recordSize)
termination_by bytes.length
decreasing_by
  have := List.length_pos_iff.2 ‹¬bytes = []›
  simp only [List.length_drop, recordSize]
  omega

/-- The instructions of a packed buffer. The length is checked first; then the first bad record
decides the error. -/
def decodeAll (bytes : List Byte) : Except CompileError (List Instruction) :=
  if bytes.length % recordSize = 0 then
    (records bytes).mapM decode
  else
    .error (.malformedStream (.raggedLength bytes.length))

/-- The packed form of a stream. -/
def encodeAll (stream : List Instruction) : List Byte :=
  stream.flatMap encode

@[simp] theorem length_encode (i : Instruction) : i.encode.length = recordSize := by
  simp [encode, recordSize]

end Instruction

end RowFilter
