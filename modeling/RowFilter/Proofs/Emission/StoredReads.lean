import RowFilter.Proofs.Emission.Addressing
import RowFilter.Proofs.Memory.Fields

/-!
# Reads of stored values

A read is compiled to code that yields the stored value: the element of a column of fixed width, the
value at the start of a variable slot, half of a varchar header, the length of a value of variable
length. The read may stand behind any instructions that are accepted.

The main statements are `Predicate.compile_stored` and `Predicate.compile_lengths`.
-/

namespace RowFilter

open LittleEndian (bytes packed)
open Operand (IsSlot)

namespace Predicate

variable {nullCheck : Bool} {before : List Instruction} {s : Emitter} {index : BitVec 32}

/-- A read of a slot or column that exists compiles to the code of the read. -/
theorem compile_append_read (hret : ∀ i ∈ before, i.opcode ≠ .ret)
    (hbefore : Emission.run nullCheck 0 before {} = .ok () s) (hslot : IsSlot index.toInt)
    (op : ReadOp) (t : DataType) :
    compile nullCheck (before ++ [.leaf op.leafOp t (.int (index.signExtend 128))]) =
      .ok ⟨op.code t index.toNat, (op.operand t index.toNat).dataType, .memory, s.pool,
        s.stack.length + 1⟩ := by
  apply compile_eq_ok_of_run
  have hstep : Emission.step nullCheck before.length _ s = _ :=
    Emission.step_read op t (index.signExtend 128) before.length s
  rw [setWidth_signExtend_self (by decide), if_pos hslot] at hstep
  rw [Emission.run_append_cons hret hbefore Opcode.noConfusion]
  exact Emission.bind_eq_ok_iff.2 ⟨(), _, hstep, rfl⟩

/-- Reads of stored values, behind instructions that are accepted.

A column of fixed width, stored at a pointer of any alignment, yields the element of the row. A
variable yields the value at the start of its slot, whatever else the slot and its neighbours
hold; a wide one takes two slots. A varchar column yields the low half of the entry of the row. -/
theorem compile_stored (hret : ∀ i ∈ before, i.opcode ≠ .ret)
    (hbefore : Emission.run nullCheck 0 before {} = .ok () s) (hslot : IsSlot index.toInt) :
    (∀ t : DataType, t.isHeader = false →
      ∃ p, compile nullCheck (before ++ [.column t index]) = .ok p ∧ p.dataType = t ∧
        ∀ (memory : Memory) (space : Buffer) (pointer : BitVec 64)
          (values : List (BitVec (8 * t.readSize))),
          memory.column index.toNat = space.behind pointer →
          space.Holds pointer (packed t.readSize values) →
          ∀ (r : Nat) (hr : r < values.length),
            p.value memory (BitVec.ofNat 64 r) = t.loaded values[r]) ∧
    (∀ t : DataType,
      ∃ p, compile nullCheck (before ++ [.var t index]) = .ok p ∧ p.dataType = t ∧
        ∀ (memory : Memory) (row : BitVec 64) (value : BitVec (8 * t.readSize)),
          memory.slots.Holds (BitVec.ofNat 64 (8 * index.toNat)) (bytes t.readSize value) →
          p.value memory row = t.loaded value) ∧
    ∃ p, compile nullCheck (before ++ [.column .varcharHeader index]) = .ok p ∧
      p.dataType = .varcharHeader ∧
      ∀ (memory : Memory) (entries : List (BitVec 128)),
        (memory.aux index.toNat).Holds 0 (packed 16 entries) →
        ∀ (r : Nat) (hr : r < entries.length),
          p.value memory (BitVec.ofNat 64 r) = .i64 (entries[r].setWidth 64) := by
  have hcompile := compile_append_read hret hbefore hslot
  refine ⟨fun t ht => ⟨_, hcompile .column t, ?_, ?_⟩, fun t => ⟨_, hcompile .var t, rfl, ?_⟩,
    ⟨_, hcompile .column .varcharHeader, rfl, ?_⟩⟩
  · cases t
    case stringHeader | binaryHeader | varcharHeader => cases ht
    all_goals rfl
  · intro memory space pointer values hcolumn hvalues r hr
    have hholds : (memory.column index.toNat).Holds 0 (packed t.readSize values) := by
      rw [hcolumn]
      exact Buffer.holds_behind_zero.2 hvalues
    refine (ReadOp.eval_code .column t index.toNat).trans ?_
    rw [← Memory.elementWord_of_holds ht hholds hr]
    cases t
    case stringHeader | binaryHeader | varcharHeader => cases ht
    all_goals rfl
  · intro memory row value hvalue
    exact (ReadOp.eval_code .var t index.toNat).trans (Memory.slotWord_of_holds hvalue)
  · intro memory entries hentries r hr
    exact (ReadOp.eval_code .column .varcharHeader index.toNat).trans
      (Memory.headerWord_of_holds hentries hr)

/-- The second element of a column of 16-bit integers at an odd address, a negative one; a wide
variable in two slots behind other bytes; and the second entry of a varchar column. -/
theorem compile_stored_odd :
    let before : List Instruction := [.column .f64 3]
    let space : Buffer := Buffer.ofBytes #[9, 5, 0, 0xFE, 0xFF, 9]
    let values : List (BitVec (8 * DataType.i16.readSize)) := [5, -2]
    let wide : BitVec (8 * DataType.i128.readSize) := 0x1020000000000000003
    let entries : List (BitVec 128) := [1, 0x70000000000000002]
    let memory : Memory := ⟨fun _ => space.behind 1, fun _ => Buffer.ofBytes (packed 16 entries).toArray,
      Buffer.ofBytes (List.replicate 8 7 ++ bytes 16 wide).toArray⟩
    ∃ s, (∀ i ∈ before, i.opcode ≠ .ret) ∧ Emission.run true 0 before {} = .ok () s ∧
      IsSlot (1 : BitVec 32).toInt ∧ DataType.i16.isHeader = false ∧
      space.Holds 1 (packed DataType.i16.readSize values) ∧
      memory.slots.Holds (BitVec.ofNat 64 (8 * (1 : BitVec 32).toNat))
        (bytes DataType.i128.readSize wide) ∧
      (memory.aux (1 : BitVec 32).toNat).Holds 0 (packed 16 entries) ∧
      ∃ p q h, compile true (before ++ [.column .i16 1]) = .ok p ∧
        compile true (before ++ [.var .i128 1]) = .ok q ∧
        compile true (before ++ [.column .varcharHeader 1]) = .ok h ∧
        p.value memory 1 = .i32 (-2) ∧ q.value memory 1 = .i128 0x1020000000000000003 ∧
        h.value memory 1 = .i64 2 := by
  intro before space values wide entries memory
  have hret : ∀ i ∈ before, i.opcode ≠ .ret := by decide
  have hslot : IsSlot (1 : BitVec 32).toInt := by decide
  have hvalues : space.Holds 1 (packed DataType.i16.readSize values) := rfl
  have hwide : memory.slots.Holds (BitVec.ofNat 64 (8 * (1 : BitVec 32).toNat))
      (bytes DataType.i128.readSize wide) := rfl
  have hentries : (memory.aux (1 : BitVec 32).toNat).Holds 0 (packed 16 entries) := rfl
  obtain ⟨hfixed, hvar, h, hh, -, hheader⟩ := compile_stored hret rfl hslot
  obtain ⟨p, hp, -, hcolumn⟩ := hfixed .i16 rfl
  obtain ⟨q, hq, -, hslots⟩ := hvar .i128
  exact ⟨_, hret, rfl, hslot, rfl, hvalues, hwide, hentries, p, q, h, hp, hq, hh,
    hcolumn memory space 1 values rfl hvalues 1 (by decide), hslots memory 1 wide hwide,
    (hheader memory entries hentries 1 (by decide)).trans (by decide)⟩

/-- The read of a column of strings or binary values, behind instructions that are accepted. It
has the type of a length, and on every row of a column that is laid out in the memory it yields
the length of the value: zero if the value is empty, and minus one if it is null. -/
theorem compile_lengths (hret : ∀ i ∈ before, i.opcode ≠ .ret)
    (hbefore : Emission.run nullCheck 0 before {} = .ok () s) (hslot : IsSlot index.toInt)
    (kind : FieldKind) :
    ∃ p, compile nullCheck (before ++ [.column kind.headerType index]) = .ok p ∧
      p.dataType = kind.lengthType ∧
      ∀ (memory : Memory) (column : StoredFields kind), column.In memory index.toNat →
        ∀ (r : Nat) (hr : r < column.fields.length),
          (p.value memory (BitVec.ofNat 64 r)).regClass = kind.lengthType.regClass ∧
            (p.value memory (BitVec.ofNat 64 r)).toInt = column.fields[r].length := by
  refine ⟨_, compile_append_read hret hbefore hslot .column kind.headerType, ?_, ?_⟩
  · cases kind <;> rfl
  · intro memory column hcolumn r hr
    have hvalue : (ReadOp.column.code kind.headerType index.toNat).eval
        ⟨memory, s.pool, BitVec.ofNat 64 r⟩ =
          memory.fieldLength kind index.toNat (BitVec.ofNat 64 r) := by
      cases kind <;> rfl
    rw [value, hvalue]
    exact ⟨Memory.regClass_fieldLength _ _ _ _, column.toInt_fieldLength hcolumn hr⟩

/-- A string of one letter, an empty one and a null. -/
theorem compile_lengths_null :
    let before : List Instruction := [.column .f64 3]
    let fields : List Field := [some [0x61], some [], none]
    let column : StoredFields .string := ⟨fields, fun _ => by decide, by decide⟩
    let memory : Memory := ⟨fun _ => Buffer.ofBytes (FieldKind.string.records fields).toArray,
      fun _ => Buffer.ofBytes (packed 8 (FieldKind.string.offsets 0 fields)).toArray, fun _ => 0⟩
    ∃ s, (∀ i ∈ before, i.opcode ≠ .ret) ∧ Emission.run false 0 before {} = .ok () s ∧
      IsSlot (2 : BitVec 32).toInt ∧ column.In memory (2 : BitVec 32).toNat ∧
      ∃ p, compile false (before ++ [.column .stringHeader 2]) = .ok p ∧ p.dataType = .i32 ∧
        (p.value memory 0).toInt = 1 ∧ (p.value memory 1).toInt = 0 ∧
        (p.value memory 2).toInt = -1 := by
  intro before fields column memory
  have hret : ∀ i ∈ before, i.opcode ≠ .ret := by decide
  have hslot : IsSlot (2 : BitVec 32).toInt := by decide
  have hcolumn : column.In memory (2 : BitVec 32).toNat := ⟨rfl, rfl⟩
  obtain ⟨p, hp, ht, hvalue⟩ := compile_lengths hret rfl hslot .string
  exact ⟨_, hret, rfl, hslot, hcolumn, p, hp, ht, (hvalue memory column hcolumn 0 (by decide)).2,
    (hvalue memory column hcolumn 1 (by decide)).2, (hvalue memory column hcolumn 2 (by decide)).2⟩

end Predicate

end RowFilter
