import RowFilter.LiteralPool

/-!
# Run-time memory

The data a predicate reads: one buffer of elements and one auxiliary buffer for each column, and
the variable slots.

## Main definitions

- `Buffer` — bytes by offset, and `Buffer.read`, a little-endian word at any alignment.
- `Memory` — the buffers a predicate is run on.
- `Frame` — everything one evaluation of the predicate depends on.

## Design notes

A buffer gives a byte for every 64-bit offset, as the address space does. Callers promise
buffers that cover what a predicate reads; outside of them the value of a byte is of no
account, and `Buffer.ofBytes` takes zero.
-/

namespace RowFilter

/-- Memory behind one pointer: the byte at each offset, counted modulo the address space. -/
abbrev Buffer : Type := BitVec 64 → Byte

namespace Buffer

/-- The buffer that starts with the given bytes. -/
def ofBytes (bytes : Array Byte) : Buffer := fun offset =>
  bytes.getD offset.toNat 0

/-- The `count` bytes from an offset on. -/
def slice (buffer : Buffer) : (count : Nat) → BitVec 64 → List Byte
  | 0, _ => []
  | count + 1, offset => buffer offset :: slice buffer count (offset + 1)

/-- The word of `count` bytes at an offset. -/
def read (buffer : Buffer) (count : Nat) (offset : BitVec 64) : BitVec (8 * count) :=
  LittleEndian.word count (buffer.slice count offset)

end Buffer

/-- The data a predicate is run on. Columns are numbered from zero. -/
structure Memory where
  /-- The element data of a column. -/
  column : Nat → Buffer
  /-- The auxiliary data of a column: offsets or header entries of variable-length values. -/
  aux : Nat → Buffer
  /-- The variable slots, eight bytes each. -/
  slots : Buffer

/-- What one evaluation of a predicate depends on. -/
structure Frame where
  memory : Memory
  pool : LiteralPool
  /-- The current row. -/
  row : BitVec 64

end RowFilter
