import RowFilter.Arith.Floating
import RowFilter.DataType

/-!
# Machine words

A word is the contents of a register together with its class. The operations on words pick
the arithmetic of their class.

## Main definitions

- `Word` — the contents of a register; `Word.regClass` is its class.
- `Word.arith`, `Word.order`, `Word.equal`, `Word.logic`, `Word.neg`, `Word.not` — the
  operators.
- `Word.widen` — the conversions to a wider class.

## Design notes

The operations on two words need both in one class; promotion brings them there. They are
total all the same: of words of different classes, arithmetic and logic yield the first, and
no two are equal or ordered. So the class of a result depends on the classes of the operands
alone. A widening that does not exist yields zero.
-/

namespace RowFilter

open BinaryFloat (Bits single double)

/-- The contents of a register. -/
inductive Word where
  | i32 (bits : BitVec 32)
  | i64 (bits : BitVec 64)
  | i128 (bits : BitVec 128)
  | f32 (bits : Bits single)
  | f64 (bits : Bits double)
  deriving DecidableEq, Repr, Inhabited

namespace Word

def regClass : Word → RegClass
  | i32 _ => .i32
  | i64 _ => .i64
  | i128 _ => .i128
  | f32 _ => .f32
  | f64 _ => .f64

/-- The zero word of a class. -/
def zero : RegClass → Word
  | .i32 => i32 0
  | .i64 => i64 0
  | .i128 => i128 0
  | .f32 => f32 0
  | .f64 => f64 0

/-- A truth value as a word: zero or one in a 32-bit register. -/
def ofBool (b : Bool) : Word :=
  i32 (Integer.ofBool 32 b)

/-- Whether a word counts as true: some bit is set. -/
def isNonzero : Word → Bool
  | i32 a => a != 0
  | i64 a => a != 0
  | i128 a => a != 0
  | f32 a => a != 0
  | f64 a => a != 0

def neg : Word → Word
  | i32 a => i32 (Integer.neg a)
  | i64 a => i64 (Integer.neg a)
  | i128 a => i128 (Integer.neg a)
  | f32 a => f32 (BinaryFloat.neg a)
  | f64 a => f64 (BinaryFloat.neg a)

/-- The complement of a truth value. -/
def not : Word → Word
  | i32 a => i32 (Integer.not a)
  | a => a

/-- A bitwise logic operator on 32-bit words. -/
def logic (op : LogicOp) : Word → Word → Word
  | i32 a, i32 b => i32 (Integer.logic op a b)
  | a, _ => a

def arith (op : ArithOp) (nullCheck : Bool) : Word → Word → Word
  | i32 a, i32 b => i32 (Integer.arith op nullCheck a b)
  | i64 a, i64 b => i64 (Integer.arith op nullCheck a b)
  | f32 a, f32 b => f32 (Floating.arith op a b)
  | f64 a, f64 b => f64 (Floating.arith op a b)
  | a, _ => a

def order (op : OrderOp) (nullCheck : Bool) : Word → Word → Bool
  | i32 a, i32 b => Integer.order op nullCheck a b
  | i64 a, i64 b => Integer.order op nullCheck a b
  | f32 a, f32 b => Floating.order op nullCheck Floating.singleTolerance a b
  | f64 a, f64 b => Floating.order op nullCheck Floating.doubleTolerance a b
  | _, _ => false

/-- Equality: exact for integers, tolerant for floats. -/
def equal : Word → Word → Bool
  | i32 a, i32 b => a == b
  | i64 a, i64 b => a == b
  | i128 a, i128 b => a == b
  | f32 a, f32 b => Floating.near Floating.singleTolerance a b
  | f64 a, f64 b => Floating.near Floating.doubleTolerance a b
  | _, _ => false

/-- Equality or its complement. -/
def equality (op : EqualityOp) (a b : Word) : Bool :=
  match op with
  | .eq => equal a b
  | .ne => !equal a b

/-- A word converted to a wider class. With the null check the null of an integer source becomes
the null of the target. -/
def widen (nullCheck : Bool) : RegClass → Word → Word
  | .i64, i32 a => i64 (Integer.widen nullCheck 64 a)
  | .f32, i32 a => f32 (Floating.ofInteger nullCheck single a)
  | .f64, i32 a => f64 (Floating.ofInteger nullCheck double a)
  | .f64, i64 a => f64 (Floating.ofInteger nullCheck double a)
  | .f64, f32 a => f64 (BinaryFloat.convert single double a)
  | target, _ => zero target

@[simp] theorem regClass_neg (a : Word) : a.neg.regClass = a.regClass := by
  cases a <;> rfl

@[simp] theorem regClass_not (a : Word) : a.not.regClass = a.regClass := by
  cases a <;> rfl

@[simp] theorem regClass_logic (op : LogicOp) (a b : Word) :
    (logic op a b).regClass = a.regClass := by
  cases a <;> cases b <;> rfl

@[simp] theorem regClass_arith (op : ArithOp) (nullCheck : Bool) (a b : Word) :
    (arith op nullCheck a b).regClass = a.regClass := by
  cases a <;> cases b <;> rfl

@[simp] theorem regClass_ofBool (b : Bool) : (ofBool b).regClass = .i32 :=
  rfl

@[simp] theorem isNonzero_ofBool (b : Bool) : (ofBool b).isNonzero = b := by
  cases b <;> rfl

@[simp] theorem regClass_zero (c : RegClass) : (zero c).regClass = c := by
  cases c <;> rfl

@[simp] theorem regClass_widen (nullCheck : Bool) (target : RegClass) (a : Word) :
    (widen nullCheck target a).regClass = target := by
  cases target <;> cases a <;> rfl

end Word

end RowFilter
