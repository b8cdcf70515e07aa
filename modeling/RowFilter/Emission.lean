import RowFilter.Operand.Load
import RowFilter.Operand.Operator
import RowFilter.Operand.Promotion

/-!
# Emission

One pass over a postfix stream that turns instructions into operands on a stack and operators
into code.

## Main definitions

- `Emitter` — the constant pool and the operand stack of a compilation.
- `Emission` — a step that may fail and keeps the emitter as the failure left it.
- `step` — the effect of one instruction.
- `emit` — the effect of a stream, up to its terminator.

## Design notes

A failing step keeps what it did before it failed: an operand that was popped stays popped and
a constant that was pooled stays pooled. A binary operator pops its right operand first.
-/

namespace RowFilter

/-- The state of a compilation. The head of the stack is its top. -/
structure Emitter where
  pool : LiteralPool := {}
  stack : List Operand := []
  deriving DecidableEq, Repr, Inhabited

/-- A step of a compilation. -/
abbrev Emission : Type → Type :=
  EStateM CompileError Emitter

namespace Emission

/-- A step that only adds to the pool. -/
def pooling {α : Type} (action : StateM LiteralPool α) : Emission α := fun s =>
  let (result, pool) := action s.pool
  .ok result { s with pool }

/-- A step that adds to the pool, or fails and leaves the emitter as it was. -/
def poolingOrFail {α : Type} (action : StateT LiteralPool (Except CompileError) α) :
    Emission α := fun s =>
  match action s.pool with
  | .ok (result, pool) => .ok result { s with pool }
  | .error e => .error e s

/-- A step that only decides. -/
def deciding {α : Type} (result : Except CompileError α) : Emission α := fun s =>
  match result with
  | .ok a => .ok a s
  | .error e => .error e s

def push (v : Operand) : Emission Unit := fun s =>
  .ok () { s with stack := v :: s.stack }

def pop (position : Nat) : Emission Operand := fun s =>
  match s.stack with
  | [] => .error (.stackUnderflow position) s
  | v :: rest => .ok v { s with stack := rest }

def peek : Emission (Option Operand) := fun s =>
  .ok s.stack.head? s

def leafOperand (op : LeafOp) (i : Instruction) : Emission Operand :=
  match op with
  | .var => do
    let t ← deciding i.dataType
    deciding (Operand.ofVariable t i.index)
  | .column => do
    let t ← deciding i.dataType
    deciding (Operand.ofColumn t i.index)
  | .literal => poolingOrFail (Operand.ofLiteral i)

/-- A unary operator on the top of the stack. -/
def unary (op : UnaryOp) (position : Nat) : Emission Operand := do
  let v ← pop position
  let v ← pooling v.load
  deciding (Operand.unary op v)

/-- A binary operator on the top two values: both are loaded, brought to a common type and
combined. -/
def binary (op : BinaryOp) (nullCheck : Bool) (position : Nat) : Emission Operand := do
  let rhs ← pop position
  let lhs ← pop position
  let (lhs, rhs) ← pooling (Operand.loadPair lhs rhs)
  let (lhs, rhs) ← deciding (Operand.unify nullCheck lhs rhs)
  deciding (Operand.binary op nullCheck lhs rhs)

/-- The effect of the instruction at a position. The terminator has none of its own. -/
def step (nullCheck : Bool) (position : Nat) (i : Instruction) : Emission Unit :=
  match i.opcode with
  | .invalid => throw (.invalidInstruction position)
  | .ret => pure ()
  | .leaf op => leafOperand op i >>= push
  | .unary op => unary op position >>= push
  | .binary op => binary op nullCheck position >>= push

/-- The effect of the instructions up to the terminator or the end, the first of which stands at
the given position. -/
def run (nullCheck : Bool) : (position : Nat) → List Instruction → Emission Unit
  | _, [] => pure ()
  | position, i :: rest =>
    if i.opcode = .ret then pure ()
    else do
      step nullCheck position i
      run nullCheck (position + 1) rest

/-- The effect of a stream. The result is the value it leaves on top of the stack. -/
def emit (nullCheck : Bool) (stream : List Instruction) : Emission (Option Operand) := do
  run nullCheck 0 stream
  peek

end Emission

end RowFilter
