import RowFilter.Address
import RowFilter.Memory.Layout

/-!
# Emitted code

The code of a predicate, and what it computes on a frame.

## Main definitions

- `Code` — an expression over loads, constants and the operations on words.
- `Code.regClass` — the class of the register the value of a code lands in.
- `Code.eval` — the value on a frame.

The main statement is `Code.regClass_eval`: the class of a value is known from the code.

## Design notes

Every null check is decided while code is emitted, so it appears here as a flag on the
operation it governs. The operations are those of `Word`; nothing in `Code` depends on data
types, apart from a load, which a type describes completely.
-/

namespace RowFilter

/-- The code of a value. -/
inductive Code where
  /-- A constant. -/
  | const (value : Word)
  /-- A value of a type, read from memory. -/
  | load (t : DataType) (address : Address)
  /-- The length of a variable-length value. -/
  | length (kind : FieldKind) (column : Nat)
  /-- Negation. -/
  | neg (arg : Code)
  /-- The complement of a truth value. -/
  | not (arg : Code)
  /-- A logic operator. -/
  | logic (op : LogicOp) (lhs rhs : Code)
  /-- Equality or its complement. -/
  | equality (op : EqualityOp) (lhs rhs : Code)
  /-- An order comparison. -/
  | order (op : OrderOp) (nullCheck : Bool) (lhs rhs : Code)
  /-- An arithmetic operator. -/
  | arith (op : ArithOp) (nullCheck : Bool) (lhs rhs : Code)
  /-- A conversion to a wider class. -/
  | widen (nullCheck : Bool) (target : RegClass) (arg : Code)
  deriving DecidableEq, Repr, Inhabited

namespace Code

/-- The class of the register the value lands in. -/
def regClass : Code → RegClass
  | const value => value.regClass
  | load t _ => t.regClass
  | length kind _ => kind.lengthType.regClass
  | neg arg | not arg => arg.regClass
  | logic _ lhs _ | arith _ _ lhs _ => lhs.regClass
  | equality _ _ _ | order _ _ _ _ => .i32
  | widen _ target _ => target

/-- The value on a frame. -/
def eval (frame : Frame) : Code → Word
  | const value => value
  | load t address => t.wordAt (address.base.buffer frame) (address.offset frame.row)
  | length kind column => frame.memory.fieldLength kind column frame.row
  | neg arg => (eval frame arg).neg
  | not arg => (eval frame arg).not
  | logic op lhs rhs => Word.logic op (eval frame lhs) (eval frame rhs)
  | equality op lhs rhs => .ofBool (Word.equality op (eval frame lhs) (eval frame rhs))
  | order op nullCheck lhs rhs =>
    .ofBool (Word.order op nullCheck (eval frame lhs) (eval frame rhs))
  | arith op nullCheck lhs rhs => Word.arith op nullCheck (eval frame lhs) (eval frame rhs)
  | widen nullCheck target arg => Word.widen nullCheck target (eval frame arg)

/-- The class of a value is known from the code, whatever the frame. -/
theorem regClass_eval (frame : Frame) (code : Code) :
    (code.eval frame).regClass = code.regClass := by
  induction code with
  | const value => rfl
  | load t address => exact DataType.regClass_wordAt t _ _
  | length kind column => exact Memory.regClass_fieldLength _ kind column _
  | neg arg ih => simpa [eval, regClass] using ih
  | not arg ih => simpa [eval, regClass] using ih
  | logic op lhs rhs ihl _ => simpa [eval, regClass] using ihl
  | equality op lhs rhs _ _ => rfl
  | order op nullCheck lhs rhs _ _ => rfl
  | arith op nullCheck lhs rhs ihl _ => simpa [eval, regClass] using ihl
  | widen nullCheck target arg _ => simp [eval, regClass]

end Code

end RowFilter
