import RowFilter.Proofs.Comparison.Integral

/-!
# Integer leaves

Reads and literals of the four integer types, the integers they stand for, and the values they
have alone and beside each other.

## Main definitions

- `IntLeaf` — a leaf of an integer type that its own type can hold.
- `IntLeaf.number` — the integer it stands for on a row.
- `IntLeaf.isNull` — whether that integer is the null of its declared type.
- `IntLeaf.beside` — the value it has beside another leaf.

The main statement is `IntLeaf.beside_integral`: the value beside another leaf still stands for
the same integer.
-/

namespace RowFilter

/-- Whether an integer is within the range of an integer type: some word of the width of the type
stands for it. -/
def DataType.Contains (t : DataType) (n : Int) : Prop :=
  ∃ x : BitVec (8 * t.size), x.toInt = n

/-- A variable read, a column read or a literal of an integer type. Reads name a slot that exists
and literals are within the range of their type. -/
structure IntLeaf where
  op : LeafOp
  dataType : DataType
  payload : Payload
  isInt : dataType.isInt = true
  accepted :
    match op with
    | .var | .column =>
      0 ≤ (payload.low.setWidth 32).toInt ∧
        8 * (payload.low.setWidth 32).toInt ≤ (BitVec.intMax 32).toInt
    | .literal => dataType.Contains payload.low.toInt

variable {memory : Memory} {row : BitVec 64}

/-- An integer read from memory stands for the signed integer stored there. -/
theorem DataType.toInt_wordAt {t : DataType} (h : t.isInt = true) (buffer : Buffer)
    (offset : BitVec 64) :
    (t.wordAt buffer offset).toInt = (buffer.read t.size offset).toInt := by
  cases t
  case i32 | i64 => rfl
  case i8 => exact BitVec.toInt_signExtend_of_le (x := buffer.read 1 offset) (by decide)
  case i16 => exact BitVec.toInt_signExtend_of_le (x := buffer.read 2 offset) (by decide)
  all_goals exact absurd h (by decide)

theorem DataType.contains_read (t : DataType) (buffer : Buffer) (offset : BitVec 64) :
    t.Contains (buffer.read t.size offset).toInt :=
  ⟨_, rfl⟩

theorem withinInt32_iff (x : BitVec 64) :
    withinInt32 x = true ↔ -0x80000000 ≤ x.toInt ∧ x.toInt ≤ 0x7FFFFFFF := by
  rw [withinInt32, Bool.and_eq_true, decide_eq_true_iff, decide_eq_true_iff]
  exact Iff.rfl

theorem toInt_setWidth_of_withinInt32 {x : BitVec 64} (h : withinInt32 x = true) :
    (x.setWidth 32).toInt = x.toInt := by
  obtain ⟨hlow, hhigh⟩ := (withinInt32_iff x).1 h
  rw [← BitVec.signExtend_eq_setWidth_of_le x (by decide), BitVec.toInt_signExtend]
  refine Int.bmod_eq_of_le ?_ ?_
  · change -0x80000000 ≤ x.toInt
    exact hlow
  · change x.toInt < 0x80000000
    omega

/-- The type an integer literal takes for an integer target: the target, or the 64-bit type when the
literal is out of the 32-bit range. -/
def Literal.settledType (target : DataType) (x : BitVec 64) : DataType :=
  if withinInt32 x then target else .i64

/-- An integer literal keeps its integer, whatever integer type it is taken at. -/
theorem Literal.valueAs_int {target : DataType} (h : target.isInt = true) (x : BitVec 64) :
    ((Literal.int x).valueAs target).Integral ∧
      ((Literal.int x).valueAs target).dataType = settledType target x ∧
      ((Literal.int x).valueAs target).word.toInt = x.toInt := by
  by_cases hx : withinInt32 x = true
  · rw [settledType, if_pos hx]
    cases target
    case i64 => exact ⟨⟨rfl, rfl⟩, rfl, rfl⟩
    case i8 | i16 | i32 =>
      have hvalue : ∀ t, (if withinInt32 x then Value.mk t .const (.i32 (x.setWidth 32))
          else ⟨.i64, .const, .i64 x⟩) = ⟨t, .const, .i32 (x.setWidth 32)⟩ := fun _ => if_pos hx
      rw [valueAs, hvalue]
      exact ⟨⟨rfl, rfl⟩, rfl, toInt_setWidth_of_withinInt32 hx⟩
    all_goals exact absurd h (by decide)
  · rw [settledType, if_neg hx]
    cases target
    case i64 => exact ⟨⟨rfl, rfl⟩, rfl, rfl⟩
    case i8 | i16 | i32 =>
      rw [valueAs, if_neg hx]
      exact ⟨⟨rfl, rfl⟩, rfl, rfl⟩
    all_goals exact absurd h (by decide)

/-- Of the 32-bit family only one type has a null. -/
theorem DataType.eq_i32_of_hasNullSentinel {t : DataType} (hint : t.isInt = true) (hne : t ≠ .i64)
    (h : t.hasNullSentinel = true) : t = .i32 := by
  cases t
  case i32 => rfl
  case i64 => exact absurd rfl hne
  case i8 | i16 => exact absurd h (by decide)
  all_goals exact absurd hint (by decide)

/-- An integer of the 32-bit family is within the 32-bit range, and if its type has no null it is
not the smallest one. -/
theorem DataType.Contains.narrow {t : DataType} {n : Int} (h : t.Contains n)
    (hint : t.isInt = true) (hne : t ≠ .i64) :
    -0x80000000 ≤ n ∧ n ≤ 0x7FFFFFFF ∧
      (t.hasNullSentinel = false → n ≠ (Integer.null 32).toInt) := by
  obtain ⟨x, rfl⟩ := h
  have hnull := Integer.toInt_null32
  have hlow := BitVec.le_toInt x
  have hhigh := BitVec.toInt_lt (x := x)
  cases t
  case i64 => exact absurd rfl hne
  case i8 =>
    change -2 ^ 7 ≤ x.toInt at hlow
    change x.toInt < 2 ^ 7 at hhigh
    omega
  case i16 =>
    change -2 ^ 15 ≤ x.toInt at hlow
    change x.toInt < 2 ^ 15 at hhigh
    omega
  case i32 =>
    change -2 ^ 31 ≤ x.toInt at hlow
    change x.toInt < 2 ^ 31 at hhigh
    exact ⟨hlow, by omega, fun h => Bool.noConfusion h⟩
  all_goals exact absurd hint (by decide)

/-- A literal within its own type is taken at that type. -/
theorem Literal.settledType_of_contains {t : DataType} {x : BitVec 64} (h : t.isInt = true)
    (hx : t.Contains x.toInt) : settledType t x = t := by
  by_cases ht : t = .i64
  · subst ht
    exact ite_self _
  · obtain ⟨hlow, hhigh, -⟩ := hx.narrow h ht
    exact if_pos ((withinInt32_iff x).2 ⟨hlow, hhigh⟩)

namespace Value

/-- A value of its own type that the type contains is null, beside whatever operand, exactly when
it is the smallest value of a type that has a null. -/
theorem nullBeside_of_contains {v : Value} (hint : v.dataType.isInt = true)
    (h : v.dataType.Contains v.word.toInt) (peer : DataType) :
    v.nullBeside peer =
      (v.dataType.hasNullSentinel &&
        v.word.toInt == (Integer.null (8 * v.dataType.size)).toInt) := by
  by_cases ht : v.dataType = .i64
  · rw [nullBeside, if_pos ht, ht]
    rfl
  · obtain ⟨-, -, hnull⟩ := h.narrow hint ht
    rw [nullBeside, if_neg ht]
    cases hsentinel : v.dataType.hasNullSentinel with
    | false =>
      rw [beq_eq_false_iff_ne.2 (hnull hsentinel), Bool.and_false, Bool.false_and]
    | true =>
      rw [DataType.eq_i32_of_hasNullSentinel hint ht hsentinel, Bool.or_true]
      rfl

end Value

namespace IntLeaf

/-- The slot or column a read names. -/
def slot (x : IntLeaf) : Nat :=
  (x.payload.low.setWidth 32).toNat

def instruction (x : IntLeaf) : Instruction :=
  .leaf x.op x.dataType x.payload

def expr (x : IntLeaf) : Expr :=
  .leaf x.op (BitVec.ofNat 32 x.dataType.tag) x.payload

/-- The integer the leaf stands for: the signed integer in memory, of the declared width, or the
literal. -/
def number (x : IntLeaf) (memory : Memory) (row : BitVec 64) : Int :=
  match x.op with
  | .var => (memory.slots.read x.dataType.size (BitVec.ofNat 64 (8 * x.slot))).toInt
  | .column =>
    ((memory.column x.slot).read x.dataType.size (row * BitVec.ofNat 64 x.dataType.size)).toInt
  | .literal => x.payload.low.toInt

/-- Whether the integer is the null of the declared type. -/
def isNull (x : IntLeaf) (memory : Memory) (row : BitVec 64) : Bool :=
  x.dataType.hasNullSentinel &&
    x.number memory row == (Integer.null (8 * x.dataType.size)).toInt

/-- The value of the leaf at its own type. -/
def value (x : IntLeaf) (memory : Memory) (row : BitVec 64) : Value :=
  match x.op with
  | .var => ⟨x.dataType, .memory, memory.slotWord x.dataType x.slot⟩
  | .column => ⟨x.dataType, .memory, memory.elementWord x.dataType x.slot row⟩
  | .literal => (Literal.int x.payload.low).valueAs x.dataType

/-- The value of the leaf beside another one: a lone literal is taken at the type of the read. -/
def beside (x y : IntLeaf) (memory : Memory) (row : BitVec 64) : Value :=
  if x.op = .literal ∧ y.op ≠ .literal then (Literal.int x.payload.low).valueAs y.dataType
  else x.value memory row

theorem contains_number (x : IntLeaf) (memory : Memory) (row : BitVec 64) :
    x.dataType.Contains (x.number memory row) := by
  obtain ⟨op, t, payload, hint, haccepted⟩ := x
  cases op with
  | var | column => exact DataType.contains_read t _ _
  | literal => exact haccepted

/-- At its own type the leaf has an integral value, for the integer that it stands for. -/
theorem value_integral (x : IntLeaf) (memory : Memory) (row : BitVec 64) :
    (x.value memory row).Integral ∧ (x.value memory row).dataType = x.dataType ∧
      (x.value memory row).word.toInt = x.number memory row := by
  obtain ⟨op, t, payload, hint, haccepted⟩ := x
  cases op with
  | var | column =>
    exact ⟨⟨hint, DataType.regClass_wordAt t _ _⟩, rfl, DataType.toInt_wordAt hint _ _⟩
  | literal =>
    have h := Literal.valueAs_int hint payload.low
    rw [Literal.settledType_of_contains hint haccepted] at h
    exact h

/-- Beside another leaf the value is integral and stands for the same integer. -/
theorem beside_integral (x y : IntLeaf) (memory : Memory) (row : BitVec 64) :
    (x.beside y memory row).Integral ∧
      (x.beside y memory row).word.toInt = x.number memory row := by
  rw [beside]
  split
  · rename_i h
    obtain ⟨hv, -, hn⟩ := Literal.valueAs_int y.isInt x.payload.low
    refine ⟨hv, hn.trans ?_⟩
    rw [number, h.1]
  · obtain ⟨hv, -, hn⟩ := x.value_integral memory row
    exact ⟨hv, hn⟩

end IntLeaf

end RowFilter
