import RowFilter.BinaryFloat

/-!
# Inline literals

A literal that stays in the instruction until an operator asks for it, and the range
questions that decide which register it is loaded into.

## Main definitions

- `Literal` — a 64-bit integer or the bits of a double-precision float.
- `withinInt32` and `withinSingle` — the range tests.
- `Literal.text` — the literal as messages show it.
-/

namespace RowFilter

open Float.Model (UnpackedFloat)

/-- A literal that is held inline. -/
inductive Literal where
  | int (value : BitVec 64)
  | float (bits : BitVec 64)
  deriving DecidableEq, Repr, Inhabited

/-- Whether a 64-bit integer has the same value as some 32-bit one. -/
def withinInt32 (value : BitVec 64) : Bool :=
  (BitVec.intMin 32).toInt ≤ value.toInt && value.toInt ≤ (BitVec.intMax 32).toInt

/-- The largest finite number of the 32-bit format, in the 64-bit format. -/
def largestSingle : BitVec 64 :=
  0x47EFFFFFE0000000#64

/-- Whether the magnitude of a double is within the finite range of the 32-bit format.

Only the magnitude counts: zero, subnormal and negative numbers are in range, and so are
numbers that the narrower format would round. A not-a-number is out of range. -/
def withinSingle (bits : BitVec 64) : Bool :=
  BinaryFloat.le (f := BinaryFloat.double) (BinaryFloat.abs (f := BinaryFloat.double) bits)
    largestSingle

namespace Literal

/-- The sign a number is written with. -/
private def signText : UnpackedFloat.Sign → String
  | .positive => ""
  | .negative => "-"

/-- The exact decimal expansion of `mantissa * 2 ^ exponent`, with at least one digit after
the point. A negative power of two is a power of five over a power of ten, so the expansion
ends. -/
private def dyadicText (mantissa : Nat) (exponent : Int) : String :=
  let places := (-exponent).toNat
  let scaled := mantissa * Nat.pow 2 exponent.toNat * Nat.pow 5 places
  let fraction := (toString (Nat.pow 10 places + scaled % Nat.pow 10 places)).toList.tail
  let digits := (fraction.reverse.dropWhile (· == '0')).reverse
  let shown := if digits.isEmpty then ['0'] else digits
  toString (scaled / Nat.pow 10 places) ++ "." ++ String.ofList shown

/-- A double written exactly. -/
private def doubleText (bits : BitVec 64) : String :=
  match BinaryFloat.unpack BinaryFloat.double bits with
  | .notANumber => "NaN"
  | .infinity sign => signText sign ++ "inf"
  | .zero sign => signText sign ++ "0.0"
  | .finite sign mantissa exponent _ => signText sign ++ dyadicText mantissa exponent

/-- The literal as messages show it. -/
def text : Literal → String
  | int value => "Int(" ++ toString value.toInt ++ ")"
  | float bits => "Float(" ++ doubleText bits ++ ")"

end Literal

end RowFilter
