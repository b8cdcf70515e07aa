import RowFilter.Memory

/-!
# Memory operands

Where a value is read from: a region, an index register and a displacement.

## Main definitions

- `Region` — what the base pointer points to.
- `Address` — base, scaled index, displacement and access width.
- `Address.slot`, `Address.element`, `Address.auxEntry`, `Address.pooled` — the operands
  that leaves and literals give rise to.

## Design notes

Scaled indexing covers elements of up to eight bytes. For wider elements the row is shifted
before it is used as an index, and the index is then not scaled again.
-/

namespace RowFilter

/-- The memory behind a base pointer. -/
inductive Region where
  | slots
  | column (index : Nat)
  | aux (index : Nat)
  | pool (slot : Nat)
  deriving DecidableEq, Repr, Inhabited

def Region.buffer (frame : Frame) : Region → Buffer
  | slots => frame.memory.slots
  | column index => frame.memory.column index
  | aux index => frame.memory.aux index
  | pool slot => Buffer.ofBytes (frame.pool.bytes slot).toArray

/-- A memory operand: `base + (index << shift) + displacement`, read `size` bytes wide. The
index, when there is one, is the row shifted left beforehand by the number of bits given. -/
structure Address where
  base : Region
  index : Option Nat
  shift : Nat
  displacement : Nat
  size : Nat
  deriving DecidableEq, Repr, Inhabited

namespace Address

/-- The offset an operand has from its base on a row. -/
def offset (a : Address) (row : BitVec 64) : BitVec 64 :=
  let scaled :=
    match a.index with
    | none => 0
    | some before => (row <<< before) <<< a.shift
  scaled + BitVec.ofNat 64 a.displacement

/-- An operand at the start of a variable slot. -/
def slot (slot size : Nat) : Address :=
  ⟨.slots, none, 0, 8 * slot, size⟩

/-- The element of the current row in a region of elements `2 ^ shift` bytes wide. -/
def element (base : Region) (shift : Nat) : Address :=
  if shift ≤ 3 then ⟨base, some 0, shift, 0, 1 <<< shift⟩
  else ⟨base, some shift, 0, 0, 1 <<< shift⟩

/-- The low eight bytes of the current row's 16-byte entry in a column's auxiliary data. -/
def auxEntry (column : Nat) : Address :=
  ⟨.aux column, some 4, 0, 0, 8⟩

/-- An operand at the start of a pool slot. -/
def pooled (slot size : Nat) : Address :=
  ⟨.pool slot, none, 0, 0, size⟩

end Address

end RowFilter
