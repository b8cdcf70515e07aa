import RowFilter.DataType
import RowFilter.Literal
import RowFilter.Opcode

/-!
# Compile errors

The causes for which an instruction stream is refused. Every failure is raised while a
stream is decoded or compiled; compiled code has no error path of its own.

## Main definitions

- `CompileError` — one constructor for each cause.
- `StreamFault` — the ways a stream can be malformed.
- `Unloaded` — what an operator found where it needs a register.
-/

namespace RowFilter

/-- A way in which an instruction stream is malformed. -/
inductive StreamFault where
  /-- The byte length is not a whole number of records. -/
  | raggedLength (length : Nat)
  /-- A leaf names a slot below zero. -/
  | negativeSlot (index : Int)
  /-- A leaf names a slot whose byte offset exceeds 32 signed bits. -/
  | slotOutOfRange (index : Int)
  deriving DecidableEq, Repr, Inhabited

/-- An operand that is not in a register. -/
inductive Unloaded where
  | literal (value : Literal)
  | memory
  deriving DecidableEq, Repr, Inhabited

/-- The cause of a refused stream. Positions count instructions from zero. -/
inductive CompileError where
  | invalidInstruction (position : Nat)
  | unknownOpcode (code : Int)
  | unknownDataType (tag : Nat)
  | malformedStream (fault : StreamFault)
  | stackUnderflow (position : Nat)
  | unsupportedOperation (op : Opcode) (dataType : DataType)
  | typeMismatch (lhs rhs : DataType)
  | emptyPredicate
  | nonBooleanResult (dataType : DataType)
  | registerExpected (found : Unloaded)
  | noConversion (source target : Rank)
  deriving DecidableEq, Repr, Inhabited

end RowFilter
