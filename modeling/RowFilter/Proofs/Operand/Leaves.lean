import RowFilter.Proofs.Emission.Agreement
import RowFilter.Proofs.Operand.Loading
import RowFilter.Proofs.Operand.SlotReads

/-!
# The values of leaves

The operand a leaf puts on the stack stands for the value stored where the leaf points, or for the
literal it spells.

The main statement is `Emission.leafOperand_agrees`.
-/

namespace RowFilter

variable {memory : Memory} {row : BitVec 64} {pool : LiteralPool}

/-- The operand of a read stands for what is read. -/
theorem ReadOp.represents_operand (op : ReadOp) (t : DataType) (slot : Nat) :
    (op.operand t slot).Represents pool memory row (none, op.value memory row t slot) := by
  refine .loadable (u := .inRegister (op.code t slot) (op.operand t slot).dataType .memory)
    ?_ ?_ (fun target => ?_) ⟨?_, ?_, op.code t slot, rfl, fun later _ => op.eval_code t slot⟩
  all_goals cases op <;> cases t <;> rfl

theorem Value.ofLeaf_leafOp (op : ReadOp) (i : Instruction) :
    ofLeaf memory row op.leafOp i = do
      let t ← i.dataType
      let slot ← Operand.slotNumber i.index
      return op.value memory row t slot := by
  rw [ofLeaf]
  cases i.dataType with
  | error e => rfl
  | ok t =>
    cases op with
    | var => rfl
    | column =>
      cases Operand.slotNumber i.index with
      | error e => rfl
      | ok slot => cases t <;> rfl

namespace Operand

/-- A pooled literal stands for itself as long as the pool only grows. -/
theorem represents_pooled (value : BitVec 128) (pool : LiteralPool) :
    (⟨.memory (.pooled (LiteralPool.insertWide value pool).1 16), .i128, .const⟩ :
        Operand).Represents (LiteralPool.insertWide value pool).2 memory row
      (none, ⟨.i128, .const, .i128 value⟩) :=
  .loadable rfl rfl (fun _ => rfl) (carries_insertWide value pool 16)

end Operand

namespace Emission

/-- The outcome of a leaf: the stack is not touched yet, and the operand stands for the leaf's
value. -/
theorem leafOperand_agrees (op : LeafOp) (options : BitVec 32) (payload : Payload) (s : Emitter) :
    Agrees (fun v s' a => s'.stack = s.stack ∧ s.pool.Extends s'.pool ∧
        v.Represents s'.pool memory row ((Expr.leaf op options payload).inlineLiteral?, a))
      (leafOperand op ⟨.leaf op, options, payload⟩ s)
      (Value.ofLeaf memory row op ⟨.leaf op, options, payload⟩) := by
  have hread : ∀ op : ReadOp,
      Agrees (fun v s' a => s'.stack = s.stack ∧ s.pool.Extends s'.pool ∧
          v.Represents s'.pool memory row (none, a))
        (leafOperand op.leafOp ⟨.leaf op.leafOp, options, payload⟩ s)
        (Value.ofLeaf memory row op.leafOp ⟨.leaf op.leafOp, options, payload⟩) := by
    intro op
    rw [leafOperand_leafOp, Value.ofLeaf_leafOp]
    cases Instruction.dataType ⟨.leaf op.leafOp, options, payload⟩ with
    | error e => exact rfl
    | ok t =>
      cases Operand.slotNumber (Instruction.index ⟨.leaf op.leafOp, options, payload⟩) with
      | error e => exact rfl
      | ok slot => exact ⟨rfl, .refl s.pool, op.represents_operand t slot⟩
  cases op with
  | var => exact hread .var
  | column => exact hread .column
  | literal =>
    simp only [leafOperand, Value.ofLeaf, Operand.ofLiteral, Expr.inlineLiteral?,
      Instruction.dataType]
    cases DataType.ofTag? options.toNat with
    | none => exact rfl
    | some t =>
      cases t with
      | i128 =>
        exact ⟨rfl, (LiteralPool.insert_extends _ s.pool).1, Operand.represents_pooled _ s.pool⟩
      | _ => exact ⟨rfl, .refl s.pool, .literal rfl⟩

end Emission

end RowFilter
