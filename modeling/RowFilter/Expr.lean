import RowFilter.Instruction

/-!
# Predicate expressions

The expression a postfix stream spells, as a tree.

## Main definitions

- `Expr` — a tree of leaves and operators.
- `Expr.stream` — its postfix spelling.

## Design notes

A node carries the tag word and the payload of its instruction, so that a tree has exactly one
spelling and no stream is left out. Operators make no use of theirs.
-/

namespace RowFilter

/-- A predicate expression. -/
inductive Expr where
  | leaf (op : LeafOp) (options : BitVec 32) (payload : Payload)
  | unary (op : UnaryOp) (options : BitVec 32) (payload : Payload) (arg : Expr)
  | binary (op : BinaryOp) (options : BitVec 32) (payload : Payload) (lhs rhs : Expr)
  deriving DecidableEq, Repr, Inhabited

namespace Expr

/-- The postfix spelling: operands first, the left one before the right one, then the
operator. -/
def stream : Expr → List Instruction
  | leaf op options payload => [⟨.leaf op, options, payload⟩]
  | unary op options payload arg => arg.stream ++ [⟨.unary op, options, payload⟩]
  | binary op options payload lhs rhs =>
    lhs.stream ++ rhs.stream ++ [⟨.binary op, options, payload⟩]

/-- A spelling is never empty. -/
theorem stream_ne_nil (e : Expr) : e.stream ≠ [] := by
  cases e <;> simp [stream]

end Expr

end RowFilter
