/-!
# Provenance of values

Whether a value derives from literals alone or from stored data.
-/

namespace RowFilter

/-- Where a value comes from. -/
inductive Provenance where
  /-- The value derives from literals alone. -/
  | const
  /-- The value derives from a column or a variable. -/
  | memory
  deriving DecidableEq, Repr, Inhabited

namespace Provenance

/-- The provenance of a result of two operands: stored data dominates literals. -/
def join : Provenance → Provenance → Provenance
  | const, const => const
  | _, _ => memory

def name : Provenance → String
  | const => "Const"
  | memory => "Memory"

/-- A result derives from stored data exactly when one of the operands does. -/
theorem join_eq_memory_iff (a b : Provenance) :
    a.join b = memory ↔ a = memory ∨ b = memory := by
  cases a <;> cases b <;> simp [join]

end Provenance

end RowFilter
