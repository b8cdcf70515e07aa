import RowFilter.Proofs.Emission.Postfix
import RowFilter.Proofs.Operand.SlotReads

/-!
# A predicate depends on the bytes it names

The code of a predicate reads its own constants and, for each read instruction before the
terminator, the bytes which that instruction names. Nothing else in memory is looked at: the
value on a row is the same on two memories that have the same bytes there, and neither the data
nor the auxiliary data of other columns is touched.

That the code reads nothing but named bytes is a property of code that the operations keep, so it
need be looked at for the operands of the read instructions only.

## Main definitions

- `Emitter.Within K` — the operands on the stack have the property `K`.
- `Instruction.reads` — the bytes an instruction names.
- `Code.ReadsOnly` — the code reads constants and bytes that given instructions name.

## Main statements

- `Emission.step_within`, `Emission.run_within` — one instruction, and a stream of them.
- `Predicate.value_determined` — reads and value of a predicate.
-/

namespace RowFilter

variable {K : Code → Prop}

/-- Every operand on the stack has the property. -/
def Emitter.Within (K : Code → Prop) (s : Emitter) : Prop :=
  ∀ v ∈ s.stack, v.Within K

/-- The operand of the instruction, if it is one that reads, has the property. -/
def Instruction.Within (K : Code → Prop) (i : Instruction) : Prop :=
  ∀ (op : ReadOp) t, i.opcode = .leaf op.leafOp → i.dataType = .ok t →
    (op.operand t i.index.toNat).Within K

namespace Emission

variable {nullCheck : Bool} {position : Nat} {s s' : Emitter} {v : Operand} {i : Instruction}
  {stream : List Instruction}

theorem deciding_eq_ok {α : Type} {result : Except CompileError α} {a : α}
    (h : deciding result s = .ok a s') : result = .ok a ∧ s' = s := by
  cases result with
  | error e => cases h
  | ok b =>
    cases h
    exact ⟨rfl, rfl⟩

theorem pop_within (hs : s.Within K) (h : pop position s = .ok v s') :
    v.Within K ∧ s'.Within K := by
  unfold pop at h
  split at h
  next => cases h
  next v rest hstack =>
    cases h
    exact List.forall_mem_cons.1 (hstack ▸ hs)

theorem unary_within (hK : Code.Closed K) (hs : s.Within K) {op : UnaryOp}
    (h : unary op position s = .ok v s') : v.Within K ∧ s'.Within K := by
  obtain ⟨u, s₁, hpop, h⟩ := bind_eq_ok_iff.1 h
  obtain ⟨hu, hs₁⟩ := pop_within hs hpop
  rw [pooling_bind] at h
  obtain ⟨hunary, rfl⟩ := deciding_eq_ok h
  exact ⟨(hu.loadAs hK u.dataType s₁.pool).unary hK hunary, hs₁⟩

theorem binary_within (hK : Code.Closed K) (hs : s.Within K) {op : BinaryOp}
    (h : binary op nullCheck position s = .ok v s') : v.Within K ∧ s'.Within K := by
  obtain ⟨r, s₁, hpop, h⟩ := bind_eq_ok_iff.1 h
  obtain ⟨hr, hs₁⟩ := pop_within hs hpop
  obtain ⟨l, s₂, hpop, h⟩ := bind_eq_ok_iff.1 h
  obtain ⟨hl, hs₂⟩ := pop_within hs₁ hpop
  rw [pooling_bind] at h
  obtain ⟨hl, hr⟩ := hl.loadPair hK hr s₂.pool
  obtain ⟨⟨l', r'⟩, s₃, hdecide, h⟩ := bind_eq_ok_iff.1 h
  obtain ⟨hunify, rfl⟩ := deciding_eq_ok hdecide
  obtain ⟨hl, hr⟩ := hl.unify hK hr hunify
  obtain ⟨hbinary, rfl⟩ := deciding_eq_ok h
  exact ⟨hl.binary hK hr hbinary, hs₂⟩

theorem leafOperand_within (hK : Code.Closed K) (hs : s.Within K) (hi : i.Within K) {op : LeafOp}
    (hop : i.opcode = .leaf op) (h : leafOperand op i s = .ok v s') :
    v.Within K ∧ s'.Within K := by
  have hread : ∀ op : ReadOp, i.opcode = .leaf op.leafOp →
      leafOperand op.leafOp i s = .ok v s' → v.Within K ∧ s'.Within K := by
    intro op hop h
    obtain ⟨t, ht, rfl, rfl⟩ := leafOperand_eq_ok h
    exact ⟨hi op t hop ht, hs⟩
  cases op with
  | var => exact hread .var hop h
  | column => exact hread .column hop h
  | literal =>
    unfold leafOperand poolingOrFail Operand.ofLiteral at h
    cases ht : i.dataType with
    | error e =>
      rw [ht] at h
      cases h
    | ok t =>
      rw [ht] at h
      cases t with
      | i128 =>
        cases h
        exact ⟨hK.pooled _ _ _, hs⟩
      | _ =>
        cases h
        exact ⟨trivial, hs⟩

/-- One instruction keeps the property. -/
theorem step_within (hK : Code.Closed K) (hs : s.Within K) (hi : i.Within K)
    (h : step nullCheck position i s = .ok () s') : s'.Within K := by
  -- All groups but the terminator compute an operand, which is then put on the stack.
  have hpush : ∀ action : Emission Operand,
      (∀ v s₁, action s = .ok v s₁ → v.Within K ∧ s₁.Within K) →
      (action >>= push) s = .ok () s' → s'.Within K := by
    intro action haction h
    obtain ⟨v, s₁, hv, h⟩ := bind_eq_ok_iff.1 h
    cases h
    exact List.forall_mem_cons.2 (haction v s₁ hv)
  cases hop : i.opcode with
  | invalid =>
    simp only [step, hop] at h
    cases h
  | ret =>
    simp only [step, hop] at h
    cases h
    exact hs
  | leaf op =>
    simp only [step, hop] at h
    exact hpush _ (fun _ _ hv => leafOperand_within hK hs hi hop hv) h
  | unary op =>
    simp only [step, hop] at h
    exact hpush _ (fun _ _ hv => unary_within hK hs hv) h
  | binary op =>
    simp only [step, hop] at h
    exact hpush _ (fun _ _ hv => binary_within hK hs hv) h

/-- A stream keeps the property. -/
theorem run_within (hK : Code.Closed K) (hs : s.Within K) (hstream : ∀ i ∈ stream, i.Within K)
    (h : run nullCheck position stream s = .ok () s') : s'.Within K := by
  induction stream generalizing position s with
  | nil =>
    cases h
    exact hs
  | cons i rest ih =>
    obtain ⟨hi, hrest⟩ := List.forall_mem_cons.1 hstream
    unfold run at h
    split at h
    next =>
      -- The terminator ends the run where it is.
      cases h
      exact hs
    next =>
      obtain ⟨⟨⟩, s₁, hstep, hrun⟩ := bind_eq_ok_iff.1 h
      exact ih (step_within hK hs hi hstep) hrest hrun

end Emission

/-- The code of a predicate has every property that the operands of its read instructions have
and that the operations keep. -/
theorem Predicate.within_code (hK : Code.Closed K) {nullCheck : Bool} {stream : List Instruction}
    {p : Predicate} (hstream : ∀ i ∈ beforeRet stream, i.Within K)
    (h : compile nullCheck stream = .ok p) : K p.code := by
  obtain ⟨top, e, hemit, hcode, -⟩ := exists_top_of_compile h
  obtain ⟨hrun, htop⟩ := Emission.emit_eq_ok_iff.1 hemit
  have hstack : e.Within K := Emission.run_within hK (fun v hv => by cases hv) hstream hrun
  have hmem : top ∈ e.stack := List.mem_of_head? htop.symm
  exact (Operand.within_of_register hcode).1 ((hstack top hmem).loadAs hK top.dataType e.pool)

/-- The bytes an instruction names. -/
def Instruction.reads (memory : Memory) (row : BitVec 64) (i : Instruction) : List Span :=
  match i.opcode, i.dataType with
  | .leaf .var, .ok t => ReadOp.var.reads memory row t i.index.toNat
  | .leaf .column, .ok t => ReadOp.column.reads memory row t i.index.toNat
  | _, _ => []

/-- The code reads constants and bytes that instructions of the list name. -/
def Code.ReadsOnly (stream : List Instruction) (memory : Memory) (row : BitVec 64) (code : Code) :
    Prop :=
  ∀ span ∈ code.reads memory row,
    (∃ slot, span.region = .pool slot) ∨ ∃ i ∈ stream, span ∈ i.reads memory row

variable {stream : List Instruction} {memory memory' : Memory} {row : BitVec 64}

theorem Code.closed_readsOnly : Code.Closed (Code.ReadsOnly stream memory row) where
  const value := fun span h => by cases h
  pooled t slot size := by
    intro span h
    cases List.mem_singleton.1 h
    exact .inl ⟨slot, rfl⟩
  unary op arg h := by
    cases op <;> exact h
  binary nullCheck op lhs rhs hl hr := by
    cases op <;> exact List.forall_mem_append.2 ⟨hl, hr⟩
  widen nullCheck target arg h := h

/-- The operand of a read instruction reads the bytes which that instruction names. -/
theorem Instruction.within_readsOnly {i : Instruction} (hi : i ∈ stream) :
    i.Within (Code.ReadsOnly stream memory row) := by
  intro op t hop ht
  have hreads : op.reads memory row t i.index.toNat = i.reads memory row := by
    rw [reads, hop, ht]
    cases op <;> rfl
  rw [ReadOp.within_operand]
  intro span hspan
  rw [ReadOp.reads_code, hreads] at hspan
  exact .inr ⟨i, hi, hspan⟩

theorem Instruction.of_mem_reads {i : Instruction} {span : Span} {k : Nat}
    (h : span ∈ i.reads memory row) (hk : span.region = .column k ∨ span.region = .aux k) :
    i.opcode = .leaf .column ∧ i.index.toNat = k := by
  unfold reads at h
  split at h
  next =>
    rw [ReadOp.region_of_mem_reads_var h] at hk
    rcases hk with hk | hk <;> cases hk
  next hop _ =>
    refine ⟨hop, ?_⟩
    rcases ReadOp.region_of_mem_reads_column h with hspan | hspan <;>
      rcases hk with hk | hk <;> cases hspan.symm.trans hk
    · rfl
    · rfl
  next => cases h

/-- The value of a predicate on a row is known from the bytes that its read instructions name before
the terminator: it is the same on all memories that have the same bytes there, whatever else they
hold. All code that is put together on the way, whether or not it ends up in the predicate, reads
nothing else but pooled constants. In particular it never touches a column, or the auxiliary data of
one, that no such instruction names. -/
theorem Predicate.value_determined {nullCheck : Bool} {p : Predicate}
    (h : compile nullCheck stream = .ok p) (row : BitVec 64) :
    (∀ memory memory', (∀ i ∈ beforeRet stream, ∀ span ∈ i.reads memory row,
        span.bytes ⟨memory, p.pool, row⟩ = span.bytes ⟨memory', p.pool, row⟩) →
      p.value memory row = p.value memory' row) ∧
    ∀ code, (code = p.code ∨ ∃ n s,
        Emission.run nullCheck 0 ((beforeRet stream).take n) {} = .ok () s ∧
          ∃ v ∈ s.stack, v.location = .register code) →
      ∀ memory, ∀ span ∈ code.reads memory row,
        ((∃ slot, span.region = .pool slot) ∨ ∃ i ∈ beforeRet stream, span ∈ i.reads memory row) ∧
        ∀ k, (∀ i ∈ beforeRet stream, i.opcode = .leaf .column → i.index.toNat ≠ k) →
          span.region ≠ .column k ∧ span.region ≠ .aux k := by
  have hnamed (memory : Memory) :
      ∀ i ∈ beforeRet stream, i.Within (Code.ReadsOnly (beforeRet stream) memory row) :=
    fun i hi => Instruction.within_readsOnly hi
  have hcode (memory : Memory) : p.code.ReadsOnly (beforeRet stream) memory row :=
    within_code Code.closed_readsOnly (hnamed memory) h
  constructor
  · intro memory memory' hagree
    apply Code.eval_congr
    intro span hspan
    rcases hcode memory span hspan with ⟨slot, hslot⟩ | ⟨i, hi, hspan⟩
    · -- The constants are part of the predicate, not of the memory it runs on.
      rw [Span.bytes, Span.bytes, hslot]
      rfl
    · exact hagree i hi span hspan
  · intro code hemitted memory span hspan
    have hreads : code.ReadsOnly (beforeRet stream) memory row := by
      rcases hemitted with rfl | ⟨n, s, hrun, v, hv, hlocation⟩
      · exact hcode memory
      · have hstack := Emission.run_within Code.closed_readsOnly (fun v hv => by cases hv)
          (fun i hi => hnamed memory i (List.mem_of_mem_take hi)) hrun
        exact (Operand.within_of_register hlocation).1 (hstack v hv)
    refine ⟨hreads span hspan, fun k hunnamed => ?_⟩
    have hforeign : ¬(span.region = .column k ∨ span.region = .aux k) := by
      intro hk
      rcases hreads span hspan with ⟨slot, hslot⟩ | ⟨i, hi, hspan⟩
      · rw [hslot] at hk
        rcases hk with hk | hk <;> cases hk
      · obtain ⟨hop, hindex⟩ := Instruction.of_mem_reads hspan hk
        exact hunnamed i hi hop hindex
    exact ⟨fun hk => hforeign (.inl hk), fun hk => hforeign (.inr hk)⟩

/-- A value of variable length with nothing but its header, in a column between others: the length
comes from that header. The other columns may hold anything, also the one that is named behind the
terminator. -/
theorem Predicate.value_determined_header :
    let stream : List Instruction := [.column .stringHeader 1, .ret, .column .i64 0]
    let offsets : Buffer := Buffer.ofBytes #[0, 0, 0, 0, 0, 0, 0, 0, 4]
    let memory : Memory := ⟨fun _ _ => 0xFF, fun _ => offsets, fun _ => 0⟩
    let memory' : Memory :=
      ⟨fun k _ => if k = 1 then 0xFF else 7, fun k => if k = 1 then offsets else fun _ => 5,
        fun _ => 9⟩
    ∃ p, compile true stream = .ok p ∧
      (∀ i ∈ beforeRet stream, ∀ span ∈ i.reads memory 0,
        span.bytes ⟨memory, p.pool, 0⟩ = span.bytes ⟨memory', p.pool, 0⟩) ∧
      p.value memory 0 = .i32 (-1) ∧ p.value memory 0 = p.value memory' 0 := by
  intro stream offsets memory memory'
  have hcompile : compile true stream = .ok ⟨.length .string 1, .i32, .memory, {}, 1⟩ := rfl
  have hagree : ∀ i ∈ beforeRet stream, ∀ span ∈ i.reads memory 0,
      span.bytes ⟨memory, {}, 0⟩ = span.bytes ⟨memory', {}, 0⟩ := by decide
  exact ⟨_, hcompile, hagree, by decide, (value_determined hcompile 0).1 memory memory' hagree⟩

end RowFilter
