import RowFilter.LittleEndian

/-!
# Literal pool

Wide and float literals are kept beside the code in 16-byte slots, and the code reads them
from there. A pool belongs to one compilation.

## Main definitions

- `LiteralPool` — the slots, in the order in which their images were first inserted.
- `LiteralPool.insert` — the slot of an image; equal images share one.
- `LiteralPool.insertWide`, `insertSingle`, `insertDouble` — the slots of typed constants.

## Design notes

An image is a 128-bit word whose little-endian bytes are the slot. A shorter constant is
extended with zeros, so constants of different types with one image share a slot; each is
read back at its own width. Slots are numbered from zero and are never written again, so a
slot number serves as an address for as long as the pool lives.
-/

namespace RowFilter

/-- The 16-byte slots of a compilation. -/
structure LiteralPool where
  slots : Array (BitVec 128) := #[]
  deriving DecidableEq, Repr, Inhabited

namespace LiteralPool

def empty : LiteralPool := {}

def size (pool : LiteralPool) : Nat :=
  pool.slots.size

def isEmpty (pool : LiteralPool) : Bool :=
  pool.slots.isEmpty

/-- The image a slot holds; zero where there is no such slot. -/
def image (pool : LiteralPool) (slot : Nat) : BitVec 128 :=
  pool.slots.getD slot 0

def bytes (pool : LiteralPool) (slot : Nat) : List Byte :=
  LittleEndian.bytes 16 (pool.image slot)

/-- The slot of an image. An image that is present keeps its slot; a new one is appended. -/
def insert (image : BitVec 128) : StateM LiteralPool Nat := fun pool =>
  match pool.slots.idxOf? image with
  | some slot => (slot, pool)
  | none => (pool.size, ⟨pool.slots.push image⟩)

def insertWide (value : BitVec 128) : StateM LiteralPool Nat :=
  insert value

def insertSingle (bits : BitVec 32) : StateM LiteralPool Nat :=
  insert (bits.setWidth 128)

def insertDouble (bits : BitVec 64) : StateM LiteralPool Nat :=
  insert (bits.setWidth 128)

/-- A pool as debugging output shows it. -/
def debugText (pool : LiteralPool) : String :=
  "ConstPool \x7b slots: " ++ toString pool.size ++ " \x7d"

end LiteralPool

end RowFilter
