/-!
# Binary floating point on bit patterns

Arithmetic, comparison and conversion of IEEE 754 binary floats, on the bit patterns that
registers and memory hold. One definition serves both widths: every operation takes the
format, unpacks its operands, computes exactly, rounds to nearest with ties to even, and
packs the result.

## Main definitions

- `BinaryFloat.Bits f` — the bit patterns of a format, with `single` and `double`.
- `add`, `sub`, `mul`, `div`, `neg`, `abs` — arithmetic; `eq`, `lt`, `le` — comparison.
- `ofInt` — the float nearest to an integer; `convert` — a change of format.

## Design notes

A result that is not a number is always the one canonical quiet pattern `nan`. Bits that are
only moved, loaded or stored are never unpacked, so the payload of a stored not-a-number
survives until an operation consumes it.
-/

namespace RowFilter.BinaryFloat

open Float.Model (Format UnpackedFloat)

/-- The bit patterns of a format. -/
abbrev Bits (f : Format) : Type := BitVec f.numBits

abbrev single : Format := Format.binary32

abbrev double : Format := Format.binary64

/-- The value a bit pattern stands for: not a number, or a signed infinity, zero or finite
number. -/
def unpack (f : Format) (a : Bits f) : UnpackedFloat :=
  UnpackedFloat.unpack f a

/-- The bit pattern of a value. -/
def pack (f : Format) (v : UnpackedFloat) : Bits f :=
  UnpackedFloat.pack f v

def nan (f : Format) : Bits f :=
  pack f .notANumber

variable {f : Format}

def isNaN (a : Bits f) : Bool :=
  (unpack f a).isNaN

def add (a b : Bits f) : Bits f :=
  pack f (UnpackedFloat.add f (unpack f a) (unpack f b))

def sub (a b : Bits f) : Bits f :=
  pack f (UnpackedFloat.sub f (unpack f a) (unpack f b))

def mul (a b : Bits f) : Bits f :=
  pack f (UnpackedFloat.mul f (unpack f a) (unpack f b))

/-- The rounded quotient; a finite number by zero is an infinity, zero by zero no number. -/
def div (a b : Bits f) : Bits f :=
  pack f (UnpackedFloat.div f (unpack f a) (unpack f b))

def neg (a : Bits f) : Bits f :=
  pack f (unpack f a).neg

def abs (a : Bits f) : Bits f :=
  pack f (unpack f a).abs

/-- Numeric equality: the two zeros are equal, and nothing equals a not-a-number. -/
def eq (a b : Bits f) : Bool :=
  (unpack f a).beq (unpack f b)

/-- Strictly below; false when either side is not a number. -/
def lt (a b : Bits f) : Bool :=
  (unpack f a).lt (unpack f b)

/-- Below or equal; false when either side is not a number. -/
def le (a b : Bits f) : Bool :=
  (unpack f a).le (unpack f b)

def ofInt (f : Format) (n : Int) : Bits f :=
  pack f (UnpackedFloat.ofInt f n)

/-- The value rounded to a format, before packing. -/
def round (f : Format) : UnpackedFloat → UnpackedFloat
  | .finite sign mantissa exponent _ => UnpackedFloat.round f sign mantissa exponent
  | v => v

/-- The float of the target format nearest to a float of the source format. -/
def convert (source target : Format) (a : Bits source) : Bits target :=
  pack target (round target (unpack source a))

end RowFilter.BinaryFloat
