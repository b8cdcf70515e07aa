import RowFilter.Emission

/-!
# Compiled predicates

The value a stream leaves on top of the stack, as code that can be evaluated on any row.

## Main definitions

- `Predicate` — the code of a value, its type and provenance, and the constants it reads.
- `Predicate.compile` — the predicate of a stream.
- `Predicate.value` — its value on a row.
-/

namespace RowFilter

/-- A compiled value. -/
structure Predicate where
  code : Code
  dataType : DataType
  provenance : Provenance
  /-- The pooled constants the code reads. -/
  pool : LiteralPool
  /-- The number of values the stream left on the stack, the compiled one included. -/
  depth : Nat
  deriving DecidableEq, Repr, Inhabited

namespace Predicate

/-- Compiles a stream: the value on top of the stack is loaded at its own type. -/
def build (nullCheck : Bool) (stream : List Instruction) : Emission Predicate := do
  let some top ← Emission.emit nullCheck stream | throw .emptyPredicate
  let value ← Emission.pooling top.load
  let code ← Emission.deciding value.register
  let s ← get
  return { code, dataType := value.dataType, provenance := value.provenance,
           pool := s.pool, depth := s.stack.length }

/-- The predicate of a stream, compiled from nothing. -/
def compile (nullCheck : Bool) (stream : List Instruction) : Except CompileError Predicate :=
  match build nullCheck stream {} with
  | .ok p _ => .ok p
  | .error e _ => .error e

def value (p : Predicate) (memory : Memory) (row : BitVec 64) : Word :=
  p.code.eval { memory, pool := p.pool, row }

end Predicate

end RowFilter
