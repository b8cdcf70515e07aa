import RowFilter.Config
import RowFilter.Instruction.Wire
import RowFilter.Predicate

/-!
# Row selection

A selector runs a compiled predicate over a range of rows and writes down the rows on which it
is not zero.

## Main definitions

- `Selector` — a predicate whose value is an integer.
- `Selector.compile`, `Selector.compileBytes` — the selector of a stream, or of its records.
- `Selector.execute` — the row loop, on an output buffer.
- `Selector.select` — the selected rows.

## Design notes

The row counter and the output counter are 64-bit registers. The row counter is stepped only
while it is below the end of the range, so it cannot run over, and for the same reason the
loop ends.
-/

namespace RowFilter

/-- A predicate that can be tested against zero. -/
structure Selector where
  predicate : Predicate
  /-- The value is an integer of 32 or 64 bits. -/
  isInt : predicate.dataType.isInt = true

namespace Selector

def resultType (s : Selector) : DataType :=
  s.predicate.dataType

/-- The selector of a predicate; a value that is no 32- or 64-bit integer is refused. -/
def ofPredicate (p : Predicate) : Except CompileError Selector :=
  if h : p.dataType.isInt = true then .ok ⟨p, h⟩
  else .error (.nonBooleanResult p.dataType)

def compile (stream : List Instruction) (config : Config) : Except CompileError Selector := do
  let p ← Predicate.compile config.nullCheck stream
  ofPredicate p

/-- Decodes wire records and compiles them. -/
def compileBytes (bytes : List Byte) (config : Config) : Except CompileError Selector := do
  let stream ← Instruction.decodeAll bytes
  compile stream config

def selects (s : Selector) (memory : Memory) (row : BitVec 64) : Bool :=
  (s.predicate.value memory row).isNonzero

/-- A row below the end of the range has a successor. -/
theorem toInt_add_one_of_slt {row stop : BitVec 64} (h : row.slt stop = true) :
    (row + 1).toInt = row.toInt + 1 := by
  have hlt : row.toInt < stop.toInt := BitVec.slt_iff_toInt_lt.1 h
  have hstop : stop.toInt < 2 ^ 63 := BitVec.toInt_lt (x := stop)
  have hrow : -2 ^ 63 ≤ row.toInt := BitVec.le_toInt row
  rw [BitVec.toInt_add, show (1 : BitVec 64).toInt = 1 from rfl]
  apply Int.bmod_eq_of_le <;> omega

/-- The row loop: from `row` up to `stop`, every accepted row is written to `out` at the next
free index. The result is the number of entries written and the buffer. -/
def scan (accepts : BitVec 64 → Bool) (stop row count : BitVec 64)
    (out : Array (BitVec 64)) : BitVec 64 × Array (BitVec 64) :=
  if row.slt stop then
    if accepts row then
      scan accepts stop (row + 1) (count + 1) (out.setIfInBounds count.toNat row)
    else
      scan accepts stop (row + 1) count out
  else
    (count, out)
termination_by (stop.toInt - row.toInt).toNat
decreasing_by
  all_goals
    have hrow := toInt_add_one_of_slt ‹_›
    have hlt : row.toInt < stop.toInt := BitVec.slt_iff_toInt_lt.1 ‹_›
    omega

/-- Runs the predicate over the rows from `start` up to `stop`. Callers promise an output buffer
with an entry for every row of the range. -/
def execute (s : Selector) (memory : Memory) (start stop : BitVec 64)
    (out : Array (BitVec 64)) : BitVec 64 × Array (BitVec 64) :=
  scan (s.selects memory) stop start 0 out

/-- The rows of a range that are selected. -/
def select (s : Selector) (memory : Memory) (start stop : BitVec 64) :
    List (BitVec 64) :=
  let out := Array.replicate (stop.toInt - start.toInt).toNat 0
  let (count, out) := s.execute memory start stop out
  out.toList.take count.toNat

/-- A selector as debugging output shows it. -/
def debugText (s : Selector) : String :=
  "CompiledFilter \x7b result_type: " ++ s.resultType.debugName ++ ", pool: "
    ++ s.predicate.pool.debugText ++ " \x7d"

end Selector

end RowFilter
