/-!
# Operand data types

The ten declared types an operand of a row predicate can have, the promotion ranks of the
numeric ones, and the register classes values live in once they are loaded.

## Main definitions

- `DataType` — with its wire tag, display name, element width and rank.
- `Rank` and `Rank.join` — the least rank two numeric operands are both brought to;
  `Rank.convertsTo` tells the conversions there are.
- `RegClass` and `DataType.regClass` — the register a loaded value of a type occupies.

## Design notes

The three 32-bit integer types share one rank and one register class: `i8` and `i16` are
sign-extended when they are read, so an operand keeps its narrow tag while its register
already holds 32 bits. The wide integer and the three header tags have no rank. They take
part in equality only, and only with an operand of the identical tag.
-/

namespace RowFilter

/-- A register class: three integer widths and two float widths. -/
inductive RegClass where
  | i32
  | i64
  | i128
  | f32
  | f64
  deriving DecidableEq, Repr, Inhabited

namespace RegClass

/-- The width of a register of the class, in bits. -/
def bits : RegClass → Nat
  | i32 | f32 => 32
  | i64 | f64 => 64
  | i128 => 128

def name : RegClass → String
  | i32 => "i32"
  | i64 => "i64"
  | i128 => "i128"
  | f32 => "f32"
  | f64 => "f64"

end RegClass

/-- The position of a numeric type in the promotion order. -/
inductive Rank where
  | int32
  | int64
  | float32
  | float64
  deriving DecidableEq, Repr, Inhabited

namespace Rank

def height : Rank → Nat
  | int32 => 0
  | int64 => 1
  | float32 => 2
  | float64 => 3

instance : Ord Rank where
  compare a b := compare a.height b.height

/-- The higher of two ranks. -/
def max (a b : Rank) : Rank :=
  if (compare a b).isLE then b else a

/-- The rank two operands are brought to. It is the higher one, except that a 64-bit integer
against a single-precision float meets in double precision, which holds both. -/
def join : Rank → Rank → Rank
  | int64, float32 | float32, int64 => float64
  | a, b => max a b

def name : Rank → String
  | int32 => "Int32"
  | int64 => "Int64"
  | float32 => "Float32"
  | float64 => "Float64"

def isInt : Rank → Bool
  | int32 | int64 => true
  | float32 | float64 => false

/-- The register class of a value of the rank. -/
def regClass : Rank → RegClass
  | int32 => .i32
  | int64 => .i64
  | float32 => .f32
  | float64 => .f64

/-- Whether there is a conversion from a rank to another one. -/
def convertsTo : Rank → Rank → Bool
  | int32, int64 | int32, float32 | int32, float64 | int64, float64 | float32, float64 => true
  | _, _ => false

/-- Two ranks that differ both reach their join, by a conversion or by being it. -/
theorem convertsTo_join (a b : Rank) :
    (a ≠ a.join b → a.convertsTo (a.join b) = true) ∧
      (b ≠ a.join b → b.convertsTo (a.join b) = true) := by
  cases a <;> cases b <;> decide

end Rank

/-- The declared type of an operand.

The header types describe the variable-length layouts: a value of such a type is the length
or the header word of a stored field, never its bytes. -/
inductive DataType where
  | i8
  | i16
  | i32
  | f32
  | i64
  | f64
  | i128
  | stringHeader
  | binaryHeader
  | varcharHeader
  deriving DecidableEq, Repr, Inhabited

namespace DataType

/-- The tag that stands for the type in an instruction. -/
def tag : DataType → Nat
  | i8 => 0
  | i16 => 1
  | i32 => 2
  | f32 => 3
  | i64 => 4
  | f64 => 5
  | i128 => 6
  | stringHeader => 7
  | binaryHeader => 8
  | varcharHeader => 9

/-- The type a tag stands for, if it stands for one. -/
def ofTag? : Nat → Option DataType
  | 0 => some i8
  | 1 => some i16
  | 2 => some i32
  | 3 => some f32
  | 4 => some i64
  | 5 => some f64
  | 6 => some i128
  | 7 => some stringHeader
  | 8 => some binaryHeader
  | 9 => some varcharHeader
  | _ => none

/-- Reading a tag gives back the type it was written for. -/
@[simp] theorem ofTag?_tag (t : DataType) : ofTag? t.tag = some t := by
  cases t <;> rfl

/-- A number is a tag exactly when it is at most nine. -/
theorem isSome_ofTag?_iff (n : Nat) : (ofTag? n).isSome ↔ n ≤ 9 := by
  constructor
  · intro h
    unfold ofTag? at h
    split at h <;> simp_all
  · intro h
    match n, h with
    | 0, _ | 1, _ | 2, _ | 3, _ | 4, _ | 5, _ | 6, _ | 7, _ | 8, _ | 9, _ => rfl

/-- The name a type is shown by in messages. -/
def name : DataType → String
  | i8 => "i8"
  | i16 => "i16"
  | i32 => "i32"
  | f32 => "f32"
  | i64 => "i64"
  | f64 => "f64"
  | i128 => "i128"
  | stringHeader => "string_header"
  | binaryHeader => "binary_header"
  | varcharHeader => "varchar_header"

/-- The name a type is shown by in debugging output. -/
def debugName : DataType → String
  | i8 => "I8"
  | i16 => "I16"
  | i32 => "I32"
  | f32 => "F32"
  | i64 => "I64"
  | f64 => "F64"
  | i128 => "I128"
  | stringHeader => "StringHeader"
  | binaryHeader => "BinaryHeader"
  | varcharHeader => "VarcharHeader"

/-- The binary logarithm of the element width in bytes. -/
def shift : DataType → Nat
  | i8 => 0
  | i16 => 1
  | i32 | f32 | stringHeader => 2
  | i64 | f64 | binaryHeader => 3
  | i128 | varcharHeader => 4

/-- The element width in bytes. -/
def size (t : DataType) : Nat :=
  1 <<< t.shift

/-- The promotion rank of a numeric type; the wide integer and the headers have none. -/
def rank : DataType → Option Rank
  | i8 | i16 | i32 => some .int32
  | i64 => some .int64
  | f32 => some .float32
  | f64 => some .float64
  | i128 | stringHeader | binaryHeader | varcharHeader => none

def isHeader : DataType → Bool
  | stringHeader | binaryHeader | varcharHeader => true
  | _ => false

def isFloat : DataType → Bool
  | f32 | f64 => true
  | _ => false

/-- Whether the type is an integer type that computes in a 32- or 64-bit register. -/
def isInt (t : DataType) : Bool :=
  t.rank.any Rank.isInt

/-- Whether the type belongs to the 32-bit integer family. -/
def isInt32 (t : DataType) : Bool :=
  t.rank == some .int32

/-- Whether a value of the type is reserved for null. The two narrow integer types use their
full range for values. -/
def hasNullSentinel : DataType → Bool
  | i8 | i16 => false
  | _ => true

/-- The register class of a loaded value of the type. -/
def regClass : DataType → RegClass
  | i8 | i16 | i32 | stringHeader => .i32
  | i64 | binaryHeader | varcharHeader => .i64
  | i128 => .i128
  | f32 => .f32
  | f64 => .f64

end DataType

/-- The type an operand has once it was promoted to the rank. -/
def Rank.dataType : Rank → DataType
  | int32 => .i32
  | int64 => .i64
  | float32 => .f32
  | float64 => .f64

end RowFilter
