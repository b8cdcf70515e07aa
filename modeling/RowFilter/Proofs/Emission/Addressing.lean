import RowFilter.Proofs.Expr.Compilation
import RowFilter.Proofs.Operand.SlotReads

/-!
# Which slot a payload names

A read with an integer payload, behind any instructions that were accepted. The number that
decides is not the payload but what its low 32 bits are as a signed number: if that number names
a slot the read is of this slot, and otherwise the stream is refused as malformed.

A payload that names a slot is that number, so it is read as it should be. But a payload beyond
32 signed bits is cut down before anything looks at it, and where what is left happens to name a
slot the instruction is accepted, for a slot that its payload does not name.

The main statement is `Predicate.compile_read`.
-/

namespace RowFilter

open Operand (IsSlot slotFault)

namespace Instruction

/-- The index of a leaf is the low end of its payload. -/
theorem index_int (op : LeafOp) (t : DataType) (n : BitVec 128) :
    (leaf op t (.int n)).index = n.setWidth 32 :=
  BitVec.setWidth_setWidth_of_le n (by decide)

end Instruction

namespace Operand

/-- A payload that names a slot is the number that its low 32 bits are. -/
theorem IsSlot.toInt_setWidth {n : BitVec 128} (h : IsSlot n.toInt) :
    (n.setWidth 32).toInt = n.toInt := by
  obtain ⟨hlow, hhigh⟩ := h
  have hmax : (BitVec.intMax 32).toInt = 2147483647 := by decide
  -- Cutting down to 128 bits first changes nothing, and makes the unsigned payload the signed one.
  rw [BitVec.toInt_setWidth, ← Int.bmod_bmod_of_dvd (m := 2 ^ 128) (by decide),
    ← BitVec.toInt_eq_toNat_bmod]
  exact Int.bmod_eq_of_le (by omega) (by omega)

/-- A payload names a slot just in case its low bits do and are the same number. -/
theorem isSlot_toInt_iff {n : BitVec 128} :
    IsSlot n.toInt ↔ IsSlot (n.setWidth 32).toInt ∧ (n.setWidth 32).toInt = n.toInt := by
  constructor
  · intro h
    rw [h.toInt_setWidth]
    exact ⟨h, rfl⟩
  · rintro ⟨h, heq⟩
    exact heq ▸ h

end Operand

namespace Emission

variable {nullCheck : Bool} {before : List Instruction} {s : Emitter}

/-- A read is put on the stack, or refused for the low bits of its payload. -/
theorem step_read (op : ReadOp) (t : DataType) (n : BitVec 128) (position : Nat) (s : Emitter) :
    step nullCheck position (.leaf op.leafOp t (.int n)) s =
      if IsSlot (n.setWidth 32).toInt then
        .ok () { s with stack := op.operand t (n.setWidth 32).toNat :: s.stack }
      else .error (.malformedStream (slotFault (n.setWidth 32).toInt)) s := by
  change (leafOperand op.leafOp (.leaf op.leafOp t (.int n)) >>= push) s = _
  rw [leafOperand_leafOp, Instruction.dataType_leaf, Operand.slotNumber_eq, Instruction.index_int]
  by_cases h : IsSlot (n.setWidth 32).toInt
  · rw [if_pos h, if_pos h]
    rfl
  · rw [if_neg h, if_neg h]
    rfl

/-- The instruction behind a stream that is accepted is the next one to be looked at. -/
theorem run_append_cons (hret : ∀ i ∈ before, i.opcode ≠ .ret)
    (hbefore : run nullCheck 0 before {} = .ok () s) {i : Instruction} (hi : i.opcode ≠ .ret)
    (after : List Instruction) :
    run nullCheck 0 (before ++ i :: after) {} =
      (step nullCheck before.length i >>= fun _ => run nullCheck (before.length + 1) after) s := by
  rw [run_append hret, Nat.zero_add, run, if_neg hi]
  change EStateM.bind (run nullCheck 0 before) _ {} = _
  simp only [EStateM.bind, hbefore]

end Emission

namespace Predicate

theorem compile_eq_error_of_run {nullCheck : Bool} {stream : List Instruction} {e : CompileError}
    {s : Emitter} (h : Emission.run nullCheck 0 stream {} = .error e s) :
    compile nullCheck stream = .error e := by
  have hbuild : build nullCheck stream {} = .error e s :=
    Emission.bind_eq_error_iff.2 (.inl (Emission.bind_eq_error_iff.2 (.inl h)))
  rw [compile, hbuild]

/-- A stream whose last value is a read compiles to the code of the read. -/
theorem compile_eq_ok_of_run {nullCheck : Bool} {stream : List Instruction} {s : Emitter}
    {op : ReadOp} {t : DataType} {slot : Nat}
    (h : Emission.run nullCheck 0 stream {} =
      .ok () { s with stack := op.operand t slot :: s.stack }) :
    compile nullCheck stream =
      .ok ⟨op.code t slot, (op.operand t slot).dataType, .memory, s.pool, s.stack.length + 1⟩ := by
  refine compile_eq_ok_iff.2 ⟨op.operand t slot, _, op.code t slot,
    Emission.bind_eq_ok_iff.2 ⟨(), _, h, rfl⟩, ?_, ?_⟩
  · rw [ReadOp.load_operand]
    rfl
  · rw [ReadOp.load_operand]
    rfl

/-- A read of a known type with an integer payload, behind instructions that are accepted. If the
low 32 bits of the payload, as a signed number, name a slot, the instruction is accepted, and the
emitted code has the value of that slot or column and reads the bytes of that one only. If not,
the stream is refused as malformed, whatever follows. The payload itself names a slot just in
case its low bits do and are the same number. -/
theorem compile_read {nullCheck : Bool} {before : List Instruction} {s : Emitter}
    (hret : ∀ i ∈ before, i.opcode ≠ .ret)
    (hbefore : Emission.run nullCheck 0 before {} = .ok () s) (op : ReadOp) (t : DataType)
    (n : BitVec 128) :
    let i := Instruction.leaf op.leafOp t (.int n)
    let low := n.setWidth 32
    (IsSlot low.toInt →
      (∀ after, Emission.run nullCheck 0 (before ++ i :: after) {} =
        Emission.run nullCheck (before.length + 1) after
          { s with stack := op.operand t low.toNat :: s.stack }) ∧
      ∃ p, compile nullCheck (before ++ [i]) = .ok p ∧ ∀ memory row,
        p.result memory row = op.value memory row t low.toNat ∧
        p.code.reads memory row = op.reads memory row t low.toNat) ∧
    (¬IsSlot low.toInt → ∀ after, compile nullCheck (before ++ i :: after) =
      .error (.malformedStream (slotFault low.toInt))) ∧
    (IsSlot n.toInt ↔ IsSlot low.toInt ∧ low.toInt = n.toInt) := by
  intro i low
  have hrun := Emission.run_append_cons hret hbefore (i := i) Opcode.noConfusion
  refine ⟨fun hlow => ?_, fun hlow after => ?_, Operand.isSlot_toInt_iff⟩
  · have hstep : Emission.step nullCheck before.length i s =
        .ok () { s with stack := op.operand t low.toNat :: s.stack } :=
      (Emission.step_read op t n before.length s).trans (if_pos hlow)
    have hgo : ∀ after, Emission.run nullCheck 0 (before ++ i :: after) {} =
        Emission.run nullCheck (before.length + 1) after
          { s with stack := op.operand t low.toNat :: s.stack } := by
      intro after
      rw [hrun after]
      change EStateM.bind (Emission.step nullCheck before.length i) _ s = _
      simp only [EStateM.bind, hstep]
    refine ⟨hgo, _, compile_eq_ok_of_run (hgo []), fun memory row => ?_⟩
    exact ⟨(op.value_eq t low.toNat).symm, op.reads_code t low.toNat⟩
  · have hstep : Emission.step nullCheck before.length i s =
        .error (.malformedStream (slotFault low.toInt)) s :=
      (Emission.step_read op t n before.length s).trans (if_neg hlow)
    apply compile_eq_error_of_run (s := s)
    rw [hrun after]
    exact Emission.bind_eq_error_iff.2 (.inl hstep)

/-- A read of column five, behind another read. -/
theorem compile_read_second :
    let before : List Instruction := [.column .i8 2]
    ∃ s, (∀ i ∈ before, i.opcode ≠ .ret) ∧ Emission.run true 0 before {} = .ok () s ∧
      IsSlot ((5 : BitVec 128).setWidth 32).toInt ∧
      ∃ p, compile true (before ++ [.leaf .column .i64 (.int 5)]) = .ok p ∧ ∀ memory row,
        p.result memory row = ⟨.i64, .memory, memory.elementWord .i64 5 row⟩ ∧
        p.code.reads memory row = [⟨.column 5, row * 8, 8⟩] := by
  intro before
  have hret : ∀ i ∈ before, i.opcode ≠ .ret := by decide
  have hslot : IsSlot ((5 : BitVec 128).setWidth 32).toInt := by decide
  exact ⟨_, hret, rfl, hslot, ((compile_read hret rfl .column .i64 5).1 hslot).2⟩

/-- A payload with a single bit, the one above the low 32 bits, names no slot, and yet the
instruction is accepted and reads column zero. -/
theorem compile_read_reduced :
    ¬IsSlot (0x100000000 : BitVec 128).toInt ∧
      ∃ p, compile true [.leaf .column .i32 (.int 0x100000000), .ret] = .ok p ∧
        ∀ memory row, p.value memory row = memory.elementWord .i32 0 row := by
  refine ⟨by decide, ⟨ReadOp.column.code .i32 0, .i32, .memory, {}, 1⟩, rfl, fun memory row => ?_⟩
  exact ReadOp.column.eval_code .i32 0

end Predicate

end RowFilter
