import RowFilter.Arith.Integer
import RowFilter.BinaryFloat

/-!
# Float arithmetic and tolerant comparison

Floats carry null as not-a-number, which every operation passes on by itself. What is added
here is a comparison under which values closer than a tolerance count as equal.

## Main definitions

- `Floating.near` — equality within a tolerance; two nulls are equal.
- `Floating.order` — the order comparisons, composed so that near values are equal, at most
  and at least each other, and neither below nor above.
- `Floating.singleTolerance`, `Floating.doubleTolerance` — the tolerances of both widths.
- `Floating.ofInteger` — the conversion of an integer word, with its null.

## Design notes

With the null check the order comparisons are false on a null operand. Without it `le` and
`ge` hold of two nulls, since `near` does.
-/

namespace RowFilter.Floating

open BinaryFloat
open Float.Model (Format)

variable {f : Format}

/-- The tolerance of the 32-bit format, 1e-6: one tenth of it would be below the spacing of
32-bit floats near one. -/
def singleTolerance : Bits single :=
  0x358637BD#32

/-- The tolerance of the 64-bit format, 1e-10. -/
def doubleTolerance : Bits double :=
  0x3DDB7CDFD9D7BDBB#64

/-- Whether two floats are equal, closer than the tolerance, or both null. -/
def near (tolerance a b : Bits f) : Bool :=
  eq a b || lt (abs (sub a b)) tolerance || (isNaN a && isNaN b)

/-- The tolerant comparison an order operator stands for. -/
def related (op : OrderOp) (tolerance a b : Bits f) : Bool :=
  match op with
  | .lt => !near tolerance a b && lt a b
  | .le => near tolerance a b || lt a b
  | .gt => !near tolerance a b && lt b a
  | .ge => near tolerance a b || lt b a

/-- The tolerant comparison, false with the null check when an operand is null. -/
def order (op : OrderOp) (nullCheck : Bool) (tolerance a b : Bits f) : Bool :=
  related op tolerance a b && !(nullCheck && (isNaN a || isNaN b))

def arith (op : ArithOp) (a b : Bits f) : Bits f :=
  match op with
  | .add => add a b
  | .sub => sub a b
  | .mul => mul a b
  | .div => div a b

/-- The float nearest to an integer word. With the null check the null of the source becomes a
not-a-number. -/
def ofInteger {w : Nat} (nullCheck : Bool) (f : Format) (a : BitVec w) : Bits f :=
  if nullCheck && Integer.isNull a then nan f else ofInt f a.toInt

end RowFilter.Floating
