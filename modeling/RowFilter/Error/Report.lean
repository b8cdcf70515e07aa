import RowFilter.Error

/-!
# Error reports

The form in which failures are shown: a category and the details it is worded with.

## Main definitions

- `Report` — a failure with its details as text; `Report.message` is its wording.
- `CompileError.report` — the report of each cause.

## Design notes

A report can hold details that no cause of this library produces: the `setup` category
belongs to code generators that first have to start up a target. Its wording is fixed here
beside the others so that all failures read alike.
-/

namespace RowFilter

/-- A failure as it is shown. -/
inductive Report where
  | invalidInstruction (position : Nat)
  | unknownOpcode (code : Int)
  | unknownDataType (tag : Nat)
  | malformedStream (detail : String)
  | stackUnderflow (position : Nat)
  | unsupportedOperation (op dataType : String)
  | typeMismatch (lhs rhs : String)
  | emptyPredicate
  | nonBooleanResult (dataType : String)
  | codegen (detail : String)
  | setup (detail : String)
  deriving DecidableEq, Repr, Inhabited

def Report.message : Report → String
  | invalidInstruction position => "invalid instruction at position " ++ toString position
  | unknownOpcode code => "unknown opcode " ++ toString code
  | unknownDataType tag => "unknown data type tag " ++ toString tag
  | malformedStream detail => "malformed instruction stream: " ++ detail
  | stackUnderflow position => "operand stack underflow at position " ++ toString position
  | unsupportedOperation op dataType => "unsupported operation: " ++ op ++ " on " ++ dataType
  | typeMismatch lhs rhs => "type mismatch: " ++ lhs ++ " vs " ++ rhs
  | emptyPredicate => "predicate left no result on the operand stack"
  | nonBooleanResult dataType => "predicate result of type " ++ dataType ++ " is not boolean"
  | codegen detail => "codegen: " ++ detail
  | setup detail => "setup: " ++ detail

def StreamFault.detail : StreamFault → String
  | raggedLength length => "length " ++ toString length ++ " is not a multiple of 32"
  | negativeSlot index => "negative slot index " ++ toString index
  | slotOutOfRange index => "slot index " ++ toString index ++ " out of range"

def Unloaded.detail : Unloaded → String
  | literal value => "Imm(" ++ value.text ++ ")"
  | memory => "Mem"

/-- The report of a cause. -/
def CompileError.report : CompileError → Report
  | invalidInstruction position => .invalidInstruction position
  | unknownOpcode code => .unknownOpcode code
  | unknownDataType tag => .unknownDataType tag
  | malformedStream fault => .malformedStream fault.detail
  | stackUnderflow position => .stackUnderflow position
  | unsupportedOperation op dataType => .unsupportedOperation op.name dataType.name
  | typeMismatch lhs rhs => .typeMismatch lhs.name rhs.name
  | emptyPredicate => .emptyPredicate
  | nonBooleanResult dataType => .nonBooleanResult dataType.name
  | registerExpected found => .codegen ("expected a register operand, found " ++ found.detail)
  | noConversion source target =>
    .codegen ("no conversion from " ++ source.name ++ " to " ++ target.name)

def CompileError.message (e : CompileError) : String :=
  e.report.message

end RowFilter
