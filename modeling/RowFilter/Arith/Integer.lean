import RowFilter.Opcode

/-!
# Integer arithmetic with a null value

Two's-complement arithmetic on words of any width in which the smallest value is reserved
for null.

## Main definitions

- `Integer.null` — the reserved value, the smallest of its width.
- `Integer.add`, `sub`, `mul` — wrapping arithmetic; with the null check a null operand
  makes the result null.
- `Integer.div` — division that never faults. `Integer.divisor` is the divisor handed to
  the native division.
- `Integer.order` — signed comparison; with the null check it is false on a null operand.

## Design notes

The native signed division faults on a zero divisor and on the smallest value by minus one.
Both cases are answered with null, and `divisor` puts one in the place of the divisor there,
so the division itself may run on every row without a branch. Equality knows no null: two
nulls are equal.
-/

namespace RowFilter.Integer

variable {w : Nat}

/-- The value reserved for null, the smallest of its width. -/
def null (w : Nat) : BitVec w :=
  BitVec.intMin w

def isNull (a : BitVec w) : Bool :=
  a == null w

def eitherNull (a b : BitVec w) : Bool :=
  isNull a || isNull b

/-- A result of two operands, replaced by null when one of them is null. -/
def propagate (nullCheck : Bool) (a b result : BitVec w) : BitVec w :=
  if nullCheck && eitherNull a b then null w else result

/-- Two's-complement negation; null negates to itself. -/
def neg (a : BitVec w) : BitVec w :=
  -a

def add (nullCheck : Bool) (a b : BitVec w) : BitVec w :=
  propagate nullCheck a b (a + b)

def sub (nullCheck : Bool) (a b : BitVec w) : BitVec w :=
  propagate nullCheck a b (a - b)

def mul (nullCheck : Bool) (a b : BitVec w) : BitVec w :=
  propagate nullCheck a b (a * b)

/-- Whether a quotient is null whatever the native division would do: the divisor is zero, the
quotient does not fit, or the null check meets a null. -/
def divisionIsNull (nullCheck : Bool) (a b : BitVec w) : Bool :=
  b == 0 || (isNull a && b == -1) || (nullCheck && eitherNull a b)

/-- The divisor handed to the native division. -/
def divisor (nullCheck : Bool) (a b : BitVec w) : BitVec w :=
  if divisionIsNull nullCheck a b then 1 else b

/-- The quotient truncated toward zero, or null. -/
def div (nullCheck : Bool) (a b : BitVec w) : BitVec w :=
  if divisionIsNull nullCheck a b then null w else a.sdiv (divisor nullCheck a b)

def arith (op : ArithOp) (nullCheck : Bool) (a b : BitVec w) : BitVec w :=
  match op with
  | .add => add nullCheck a b
  | .sub => sub nullCheck a b
  | .mul => mul nullCheck a b
  | .div => div nullCheck a b

/-- The signed comparison an order operator stands for. -/
def related (op : OrderOp) (a b : BitVec w) : Bool :=
  match op with
  | .lt => a.slt b
  | .le => a.sle b
  | .gt => b.slt a
  | .ge => b.sle a

/-- The signed comparison, false with the null check when an operand is null. -/
def order (op : OrderOp) (nullCheck : Bool) (a b : BitVec w) : Bool :=
  related op a b && !(nullCheck && eitherNull a b)

/-- A bitwise logic operator. On zero and one it is the logic operator itself. -/
def logic (op : LogicOp) (a b : BitVec w) : BitVec w :=
  match op with
  | .and => a &&& b
  | .or => a ||| b

/-- The complement of a truth value: the lowest bit is flipped. -/
def not (a : BitVec w) : BitVec w :=
  a ^^^ 1

def ofBool (w : Nat) (b : Bool) : BitVec w :=
  if b then 1 else 0

/-- A word widened with its sign. With the null check the null of the source becomes the null of
the target. -/
def widen (nullCheck : Bool) (target : Nat) (a : BitVec w) : BitVec target :=
  if nullCheck && isNull a then null target else a.signExtend target

end RowFilter.Integer
