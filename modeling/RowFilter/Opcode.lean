/-!
# Operation codes

The operations a predicate instruction can name, grouped by what they do to the operand
stack: leaves push a value, unary operators replace the top, binary operators replace the
top two.

## Main definitions

- `Opcode` — with one constructor per group.
- `Opcode.code` and `Opcode.ofCode?` — the numbers operations are encoded by.
- `Opcode.name` — the names they are shown by.

## Design notes

Because the groups are constructors, a case analysis on an opcode already knows how many
operands it takes; no operator can reach code that was written for another group.
-/

namespace RowFilter

/-- The operations that push a value without consuming any. -/
inductive LeafOp where
  | var
  | column
  | literal
  deriving DecidableEq, Repr, Inhabited, Hashable

/-- The operators on one operand. -/
inductive UnaryOp where
  | neg
  | not
  deriving DecidableEq, Repr, Inhabited, Hashable

inductive LogicOp where
  | and
  | or
  deriving DecidableEq, Repr, Inhabited, Hashable

inductive EqualityOp where
  | eq
  | ne
  deriving DecidableEq, Repr, Inhabited, Hashable

inductive OrderOp where
  | lt
  | le
  | gt
  | ge
  deriving DecidableEq, Repr, Inhabited, Hashable

inductive ArithOp where
  | add
  | sub
  | mul
  | div
  deriving DecidableEq, Repr, Inhabited, Hashable

/-- The operators on two operands. -/
inductive BinaryOp where
  | logic (op : LogicOp)
  | equality (op : EqualityOp)
  | order (op : OrderOp)
  | arith (op : ArithOp)
  deriving DecidableEq, Repr, Inhabited, Hashable

/-- What an instruction does. `invalid` is a code reserved for streams that must not compile;
`ret` ends a stream. -/
inductive Opcode where
  | invalid
  | ret
  | leaf (op : LeafOp)
  | unary (op : UnaryOp)
  | binary (op : BinaryOp)
  deriving DecidableEq, Repr, Inhabited, Hashable

namespace Opcode

/-- The number an operation is encoded by. -/
def code : Opcode → Int
  | invalid => -1
  | ret => 0
  | leaf .var => 1
  | leaf .column => 2
  | leaf .literal => 3
  | unary .neg => 4
  | unary .not => 5
  | binary (.logic .and) => 6
  | binary (.logic .or) => 7
  | binary (.equality .eq) => 8
  | binary (.equality .ne) => 9
  | binary (.order .lt) => 10
  | binary (.order .le) => 11
  | binary (.order .gt) => 12
  | binary (.order .ge) => 13
  | binary (.arith .add) => 14
  | binary (.arith .sub) => 15
  | binary (.arith .mul) => 16
  | binary (.arith .div) => 17

/-- The operation a number stands for, if it stands for one. -/
def ofCode? : Int → Option Opcode
  | -1 => some invalid
  | 0 => some ret
  | 1 => some (leaf .var)
  | 2 => some (leaf .column)
  | 3 => some (leaf .literal)
  | 4 => some (unary .neg)
  | 5 => some (unary .not)
  | 6 => some (binary (.logic .and))
  | 7 => some (binary (.logic .or))
  | 8 => some (binary (.equality .eq))
  | 9 => some (binary (.equality .ne))
  | 10 => some (binary (.order .lt))
  | 11 => some (binary (.order .le))
  | 12 => some (binary (.order .gt))
  | 13 => some (binary (.order .ge))
  | 14 => some (binary (.arith .add))
  | 15 => some (binary (.arith .sub))
  | 16 => some (binary (.arith .mul))
  | 17 => some (binary (.arith .div))
  | _ => none

/-- Reading a code gives back the operation it was written for. -/
@[simp] theorem ofCode?_code (op : Opcode) : ofCode? op.code = some op := by
  rcases op with _ | _ | (_ | _ | _) | (_ | _) |
    ((_ | _) | (_ | _) | (_ | _ | _ | _) | (_ | _ | _ | _)) <;> rfl

/-- The name an operation is shown by. -/
def name : Opcode → String
  | invalid => "Inv"
  | ret => "Ret"
  | leaf .var => "Var"
  | leaf .column => "Mem"
  | leaf .literal => "Imm"
  | unary .neg => "Neg"
  | unary .not => "Not"
  | binary (.logic .and) => "And"
  | binary (.logic .or) => "Or"
  | binary (.equality .eq) => "Eq"
  | binary (.equality .ne) => "Ne"
  | binary (.order .lt) => "Lt"
  | binary (.order .le) => "Le"
  | binary (.order .gt) => "Gt"
  | binary (.order .ge) => "Ge"
  | binary (.arith .add) => "Add"
  | binary (.arith .sub) => "Sub"
  | binary (.arith .mul) => "Mul"
  | binary (.arith .div) => "Div"

def isLeaf : Opcode → Bool
  | leaf _ => true
  | _ => false

def isUnary : Opcode → Bool
  | unary _ => true
  | _ => false

def isBinary : Opcode → Bool
  | binary _ => true
  | _ => false

/-- The number of operands an operation takes off the stack. -/
def arity : Opcode → Nat
  | unary _ => 1
  | binary _ => 2
  | _ => 0

end Opcode

end RowFilter
