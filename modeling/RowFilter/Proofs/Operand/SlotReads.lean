import RowFilter.Proofs.Code.Reads
import RowFilter.Proofs.Operand.Closure

/-!
# Reads of slots and columns

The two leaves that read memory, side by side: both take a number out of the payload, and that
number names a variable slot for one of them and a column for the other.

## Main definitions

- `Operand.IsSlot` — the numbers that name a slot.
- `ReadOp` — the two leaves, with the `operand` each puts on the stack, the `code` that loads it, the
  `value` the code yields and the bytes it `reads`.

## Main statements

- `Operand.slotNumber_eq` — which numbers are refused, and for what.
- `Emission.leafOperand_leafOp` — the outcome of a leaf that reads.
- `ReadOp.eval_code`, `ReadOp.reads_code` — the value and the bytes read.
-/

namespace RowFilter

namespace Address

theorem offset_slot (row : BitVec 64) (slot size : Nat) :
    (Address.slot slot size).offset row = BitVec.ofNat 64 (8 * slot) := by
  simp [Address.slot, offset]

theorem base_element (base : Region) (shift : Nat) : (element base shift).base = base := by
  unfold element
  split <;> rfl

theorem shiftLeft_eq_mul (row : BitVec 64) (n : Nat) :
    row <<< n = row * BitVec.ofNat 64 (1 <<< n) := by
  have hpow : BitVec.twoPow 64 n = BitVec.ofNat 64 (1 <<< n) := by
    apply BitVec.eq_of_toNat_eq
    rw [BitVec.toNat_twoPow, BitVec.toNat_ofNat, Nat.one_shiftLeft]
  rw [BitVec.shiftLeft_eq_mul_twoPow, hpow]

/-- Whether the row is scaled or shifted beforehand, the offset is that of the row's element. -/
theorem offset_element (row : BitVec 64) (base : Region) (shift : Nat) :
    (element base shift).offset row = row * BitVec.ofNat 64 (1 <<< shift) := by
  rw [← shiftLeft_eq_mul]
  unfold element
  split <;> simp [offset]

theorem offset_auxEntry (row : BitVec 64) (column : Nat) :
    (auxEntry column).offset row = row * 16 := by
  have hshift : (auxEntry column).offset row = row <<< 4 := by simp [auxEntry, offset]
  rw [hshift, shiftLeft_eq_mul]
  rfl

end Address

namespace Operand

/-- The numbers that name a slot: eight times the number is the offset in a table of eight-byte
entries, and it fits in 32 signed bits. -/
def IsSlot (n : Int) : Prop :=
  0 ≤ n ∧ 8 * n ≤ (BitVec.intMax 32).toInt

instance (n : Int) : Decidable (IsSlot n) :=
  inferInstanceAs (Decidable (_ ∧ _))

/-- The fault of a number that names no slot. -/
def slotFault (n : Int) : StreamFault :=
  if n < 0 then .negativeSlot n else .slotOutOfRange n

theorem slotNumber_eq (index : BitVec 32) :
    slotNumber index =
      if IsSlot index.toInt then .ok index.toNat
      else .error (.malformedStream (slotFault index.toInt)) := by
  rw [slotNumber, slotFault]
  by_cases hneg : index.toInt < 0
  · have hnot : ¬IsSlot index.toInt := fun h => Int.not_lt.2 h.1 hneg
    rw [if_pos hneg, if_neg hnot, if_pos hneg]
  · rw [if_neg hneg, if_neg hneg]
    by_cases hlarge : (BitVec.intMax 32).toInt < 8 * index.toInt
    · have hnot : ¬IsSlot index.toInt := fun h => Int.not_lt.2 h.2 hlarge
      rw [if_pos hlarge, if_neg hnot]
    · rw [if_neg hlarge, if_pos ⟨Int.not_lt.1 hneg, Int.not_lt.1 hlarge⟩]

theorem slotNumber_eq_ok {index : BitVec 32} {slot : Nat} (h : slotNumber index = .ok slot) :
    slot = index.toNat := by
  rw [slotNumber_eq] at h
  split at h <;> cases h
  rfl

end Operand

/-- The leaves that read memory. -/
inductive ReadOp where
  | var
  | column
  deriving DecidableEq, Repr

namespace ReadOp

def leafOp : ReadOp → LeafOp
  | var => .var
  | column => .column

/-- The operand of a read. -/
def operand (op : ReadOp) (t : DataType) (slot : Nat) : Operand :=
  match op, t with
  | var, t => ⟨.memory (.slot slot t.size), t, .memory⟩
  | column, .stringHeader => .inRegister (.length .string slot) .i32 .memory
  | column, .binaryHeader => .inRegister (.length .binary slot) .i64 .memory
  | column, .varcharHeader =>
    .inRegister (.load .varcharHeader (.auxEntry slot)) .varcharHeader .memory
  | column, t => ⟨.memory (.element (.column slot) t.shift), t, .memory⟩

/-- The code that loads a read. -/
def code (op : ReadOp) (t : DataType) (slot : Nat) : Code :=
  match op, t with
  | var, t => .load t (.slot slot t.size)
  | column, .stringHeader => .length .string slot
  | column, .binaryHeader => .length .binary slot
  | column, .varcharHeader => .load .varcharHeader (.auxEntry slot)
  | column, t => .load t (.element (.column slot) t.shift)

/-- What is read on a row: the value in the slot, or that of the column, which is a length if the
column has values of variable length. -/
def value (op : ReadOp) (memory : Memory) (row : BitVec 64) (t : DataType) (slot : Nat) : Value :=
  match op, t with
  | var, t => ⟨t, .memory, memory.slotWord t slot⟩
  | column, .stringHeader => ⟨.i32, .memory, memory.fieldLength .string slot row⟩
  | column, .binaryHeader => ⟨.i64, .memory, memory.fieldLength .binary slot row⟩
  | column, .varcharHeader => ⟨.varcharHeader, .memory, memory.headerWord slot row⟩
  | column, t => ⟨t, .memory, memory.elementWord t slot row⟩

/-- The bytes a read takes. A column with values of variable length is mostly read through its
auxiliary data. -/
def reads (op : ReadOp) (memory : Memory) (row : BitVec 64) (t : DataType) (slot : Nat) :
    List Span :=
  match op, t with
  | var, t => [⟨.slots, BitVec.ofNat 64 (8 * slot), t.readSize⟩]
  | column, .stringHeader => memory.lengthReads .string slot row
  | column, .binaryHeader => memory.lengthReads .binary slot row
  | column, .varcharHeader => [⟨.aux slot, row * 16, 8⟩]
  | column, t => [⟨.column slot, row * BitVec.ofNat 64 t.size, t.size⟩]

variable {memory : Memory} {row : BitVec 64} {pool : LiteralPool}

theorem region_of_mem_reads_var {t : DataType} {slot : Nat} {span : Span}
    (h : span ∈ var.reads memory row t slot) : span.region = .slots := by
  cases List.mem_singleton.1 h
  rfl

/-- A column is read from its own data and its own auxiliary data. -/
theorem region_of_mem_reads_column {t : DataType} {slot : Nat} {span : Span}
    (h : span ∈ column.reads memory row t slot) :
    span.region = .column slot ∨ span.region = .aux slot := by
  cases t with
  | stringHeader | binaryHeader => exact Memory.region_of_mem_lengthReads h
  | varcharHeader =>
    cases List.mem_singleton.1 h
    exact .inr rfl
  | _ =>
    cases List.mem_singleton.1 h
    exact .inl rfl

/-- An operand that reads has a property if the code it is loaded by does. -/
theorem within_operand {K : Code → Prop} {op : ReadOp} {t : DataType} {slot : Nat} :
    (op.operand t slot).Within K ↔ K (op.code t slot) := by
  cases op <;> cases t <;> exact Iff.rfl

theorem load_operand (op : ReadOp) (t : DataType) (slot : Nat) (pool : LiteralPool) :
    (op.operand t slot).load pool =
      (.inRegister (op.code t slot) (op.operand t slot).dataType .memory, pool) := by
  cases op <;> cases t <;> rfl

/-- The code of a read yields what is read. -/
theorem eval_code (op : ReadOp) (t : DataType) (slot : Nat) :
    (op.code t slot).eval ⟨memory, pool, row⟩ = (op.value memory row t slot).word := by
  cases op with
  | var =>
    change (Code.load t (.slot slot t.size)).eval ⟨memory, pool, row⟩ = _
    rw [Code.eval, Address.offset_slot]
    rfl
  | column =>
    have helement : ∀ t : DataType,
        (Code.load t (.element (.column slot) t.shift)).eval ⟨memory, pool, row⟩ =
          memory.elementWord t slot row := by
      intro t
      rw [Code.eval, Address.offset_element, Address.base_element]
      rfl
    cases t with
    | stringHeader | binaryHeader => rfl
    | varcharHeader =>
      change (Code.load .varcharHeader (.auxEntry slot)).eval ⟨memory, pool, row⟩ = _
      rw [Code.eval, Address.offset_auxEntry]
      rfl
    | _ => exact helement _

theorem value_eq (op : ReadOp) (t : DataType) (slot : Nat) :
    op.value memory row t slot =
      ⟨(op.operand t slot).dataType, .memory, (op.code t slot).eval ⟨memory, pool, row⟩⟩ := by
  rw [eval_code]
  cases op <;> cases t <;> rfl

/-- The code of a read takes the bytes of the read. -/
theorem reads_code (op : ReadOp) (t : DataType) (slot : Nat) :
    (op.code t slot).reads memory row = op.reads memory row t slot := by
  cases op with
  | var =>
    change (Code.load t (.slot slot t.size)).reads memory row = _
    rw [Code.reads, Address.offset_slot]
    rfl
  | column =>
    have helement : ∀ t : DataType,
        (Code.load t (.element (.column slot) t.shift)).reads memory row =
          [⟨.column slot, row * BitVec.ofNat 64 t.size, t.readSize⟩] := by
      intro t
      rw [Code.reads, Address.offset_element, Address.base_element, DataType.size]
    cases t with
    | stringHeader | binaryHeader => rfl
    | varcharHeader =>
      change (Code.load .varcharHeader (.auxEntry slot)).reads memory row = _
      rw [Code.reads, Address.offset_auxEntry]
      rfl
    | _ => exact helement _

end ReadOp

/-- A leaf that reads yields its operand if the tag names a type and the payload a slot. -/
theorem Emission.leafOperand_leafOp (op : ReadOp) (i : Instruction) :
    leafOperand op.leafOp i = deciding do
      let t ← i.dataType
      let slot ← Operand.slotNumber i.index
      return op.operand t slot := by
  cases op with
  | var =>
    change (deciding i.dataType >>= fun t => deciding (Operand.ofVariable t i.index)) = _
    cases i.dataType with
    | error e => rfl
    | ok t => rfl
  | column =>
    change (deciding i.dataType >>= fun t => deciding (Operand.ofColumn t i.index)) = _
    cases i.dataType with
    | error e => rfl
    | ok t =>
      change deciding (Operand.ofColumn t i.index) = _
      rw [Operand.ofColumn]
      cases Operand.slotNumber i.index with
      | error e => rfl
      | ok slot => cases t <;> rfl

theorem Emission.leafOperand_eq_ok {op : ReadOp} {i : Instruction} {s s' : Emitter} {v : Operand}
    (h : leafOperand op.leafOp i s = .ok v s') :
    ∃ t, i.dataType = .ok t ∧ v = op.operand t i.index.toNat ∧ s' = s := by
  rw [leafOperand_leafOp] at h
  cases ht : i.dataType with
  | error e =>
    rw [ht] at h
    cases h
  | ok t =>
    cases hslot : Operand.slotNumber i.index with
    | error e =>
      rw [ht, hslot] at h
      cases h
    | ok slot =>
      rw [ht, hslot] at h
      cases h
      exact ⟨t, rfl, Operand.slotNumber_eq_ok hslot ▸ rfl, rfl⟩

end RowFilter
