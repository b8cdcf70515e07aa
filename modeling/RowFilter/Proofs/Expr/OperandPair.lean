import RowFilter.Proofs.Expr.Truth

/-!
# The operands of a binary operator

Everything that is done about two operands is done before the operator comes in: they are emitted,
loaded, and brought to a common type. So the operators on two operands all work on the same two
registers, and exchanging the operands exchanges the registers.

## Main definitions

- `Expr.converted` — the values two operands have beside each other, brought to a common type.
- `OperandPair` — the registers these values are in, with the predicate of each operator on them.
- `Expr.Loads` — two operands that end up in such registers.

## Main statements

- `Expr.exists_loads` — operands that can be brought to a common type end up in two registers.
- `Expr.Loads.exists_swap` — exchanged operands end up in exchanged registers.
-/

namespace RowFilter

open Emission (Agrees deciding)

theorem Rank.join_comm (l r : Rank) : l.join r = r.join l := by
  cases l <;> cases r <;> rfl

namespace Value

variable {nullCheck : Bool} {a b a' b' : Value}

theorem settle_swap (x y : Option Literal × Value) : settle y x = (settle x y).swap := by
  obtain ⟨_ | _, a⟩ := x <;> obtain ⟨_ | _, b⟩ := y <;> rfl

theorem unify_swap (h : unify nullCheck a b = .ok (a', b')) :
    unify nullCheck b a = .ok (b', a') := by
  have hsame {e e' : CompileError}
      (h : (if a.dataType = b.dataType then Except.ok (a, b) else .error e) = .ok (a', b')) :
      (if b.dataType = a.dataType then Except.ok (b, a) else .error e') = .ok (b', a') := by
    split at h
    next ht =>
      cases h
      exact if_pos ht.symm
    next => cases h
  unfold unify at h ⊢
  cases ha : a.dataType.rank with
  | none =>
    rw [ha] at h
    cases hb : b.dataType.rank <;> exact hsame h
  | some l =>
    cases hb : b.dataType.rank with
    | none =>
      rw [ha, hb] at h
      exact hsame h
    | some r =>
      simp only [ha, hb] at h ⊢
      split at h
      next hrank =>
        cases h
        exact if_pos hrank.symm
      next hrank =>
        cases h
        rw [if_neg (Ne.symm hrank), Rank.join_comm]

end Value

namespace Expr

variable {nullCheck : Bool} {memory : Memory} {row : BitVec 64} {lhs rhs : Expr} {u v : Value}

/-- The values of two operands beside each other, brought to a common type. -/
def converted (nullCheck : Bool) (memory : Memory) (row : BitVec 64) (lhs rhs : Expr) :
    Except CompileError (Value × Value) := do
  let (a, b) ← sides nullCheck memory row lhs rhs
  Value.unify nullCheck a b

theorem sides_swap {a b : Value} (h : sides nullCheck memory row lhs rhs = .ok (a, b)) :
    sides nullCheck memory row rhs lhs = .ok (b, a) := by
  obtain ⟨x, hx, h⟩ := exists_of_bind_eq_ok h
  obtain ⟨y, hy, h⟩ := exists_of_bind_eq_ok h
  rw [sides, hy, hx]
  change Except.ok (Value.settle _ _) = _
  rw [Value.settle_swap, Except.ok.inj h]
  rfl

/-- Exchanged operands have exchanged values. -/
theorem converted_swap (h : converted nullCheck memory row lhs rhs = .ok (u, v)) :
    converted nullCheck memory row rhs lhs = .ok (v, u) := by
  obtain ⟨⟨a, b⟩, hsides, hunify⟩ := exists_of_bind_eq_ok h
  rw [converted, sides_swap hsides]
  exact Value.unify_swap hunify

end Expr

/-- A register with a value of a type: the code of the value, and where the value comes from. -/
structure Register where
  code : Code
  dataType : DataType
  provenance : Provenance
  deriving DecidableEq, Repr, Inhabited

/-- The two registers that an operator works on, and the constants that are read there. -/
structure OperandPair where
  lhs : Register
  rhs : Register
  pool : LiteralPool
  deriving DecidableEq, Repr, Inhabited

namespace OperandPair

/-- The value in the left register on a row. -/
def left (o : OperandPair) (memory : Memory) (row : BitVec 64) : Value :=
  ⟨o.lhs.dataType, o.lhs.provenance, o.lhs.code.eval ⟨memory, o.pool, row⟩⟩

/-- The value in the right register on a row. -/
def right (o : OperandPair) (memory : Memory) (row : BitVec 64) : Value :=
  ⟨o.rhs.dataType, o.rhs.provenance, o.rhs.code.eval ⟨memory, o.pool, row⟩⟩

/-- The predicate of an operator on the registers. -/
def predicate (o : OperandPair) (nullCheck : Bool) (op : BinaryOp) : Predicate where
  code := .binary nullCheck op o.lhs.code o.rhs.code
  dataType := op.resultType o.lhs.dataType
  provenance := o.lhs.provenance.join o.rhs.provenance
  pool := o.pool
  depth := 1

/-- The predicate has the value that the operator makes of the registers. -/
theorem result_predicate (o : OperandPair) (nullCheck : Bool) (op : BinaryOp) (memory : Memory)
    (row : BitVec 64) :
    (o.predicate nullCheck op).result memory row =
      Value.combine op nullCheck (o.left memory row) (o.right memory row) := by
  cases op <;> rfl

/-- On every row the second pair holds the values of the first one, exchanged. -/
def Swaps (o o' : OperandPair) : Prop :=
  ∀ memory row, o'.left memory row = o.right memory row ∧ o'.right memory row = o.left memory row

theorem Swaps.dataType_lhs {o o' : OperandPair} (h : o.Swaps o') :
    o'.lhs.dataType = o.rhs.dataType :=
  congrArg Value.dataType (h Emission.zeroMemory 0).1

end OperandPair

/-- Two operands that end up in two registers. An operator that the common type has compiles to its
predicate on them, whichever it is, and on every row they hold the converted values. -/
structure Expr.Loads (nullCheck : Bool) (lhs rhs : Expr) (o : OperandPair) : Prop where
  compile (op : BinaryOp) (hop : Value.supports o.lhs.dataType (.binary op) = true)
    (options : BitVec 32) (payload : Payload) :
    Predicate.compile nullCheck (binary op options payload lhs rhs).stream =
      .ok (o.predicate nullCheck op)
  converted (memory : Memory) (row : BitVec 64) :
    converted nullCheck memory row lhs rhs = .ok (o.left memory row, o.right memory row)

namespace Emission

variable {nullCheck : Bool} {memory : Memory} {row : BitVec 64}

/-- The spellings of two operands, and what an operator does about them before anything else. -/
def operandPair (nullCheck : Bool) (lhs rhs : Expr) : Emission (Operand × Operand) := do
  run nullCheck 0 (lhs.stream ++ rhs.stream)
  operands nullCheck (lhs.stream ++ rhs.stream).length

/-- The spelling of a binary operator: its two operands, then the operator on their registers. -/
theorem run_binary (nullCheck : Bool) (op : BinaryOp) (options : BitVec 32) (payload : Payload)
    (lhs rhs : Expr) (s : Emitter) :
    run nullCheck 0 (Expr.binary op options payload lhs rhs).stream s = (do
      let (l, r) ← operandPair nullCheck lhs rhs
      deciding (Operand.binary op nullCheck l r) >>= push : Emission Unit) s := by
  have hstep : run nullCheck (lhs.stream ++ rhs.stream).length [⟨.binary op, options, payload⟩] =
      binary op nullCheck (lhs.stream ++ rhs.stream).length >>= push :=
    funext fun s => run_singleton Opcode.noConfusion _ s
  rw [Expr.stream, run_append (fun i h => opcode_ne_ret_of_mem_operands h), Nat.zero_add, hstep,
    binary_eq_operands]
  simp only [operandPair, bind_assoc]

theorem run_binary_eq_ok {op : BinaryOp} {lhs rhs : Expr} {s s' : Emitter} {l r v : Operand}
    (hpair : operandPair nullCheck lhs rhs s = .ok (l, r) s')
    (hop : Operand.binary op nullCheck l r = .ok v) (options : BitVec 32) (payload : Payload) :
    run nullCheck 0 (Expr.binary op options payload lhs rhs).stream s =
      .ok () { s' with stack := v :: s'.stack } := by
  rw [run_binary]
  refine bind_eq_ok_iff.2 ⟨(l, r), s', hpair, bind_eq_ok_iff.2 ⟨v, s', ?_, rfl⟩⟩
  rw [hop]
  rfl

/-- Emitting two operands agrees with evaluating them. -/
theorem operandPair_agrees (lhs rhs : Expr) (s : Emitter) :
    Agrees (HoldsPair memory row s s.stack) (operandPair nullCheck lhs rhs s)
      (Expr.converted nullCheck memory row lhs rhs) := by
  rw [operandPair, run_append (fun i h => opcode_ne_ret_of_mem_stream h), Expr.converted, Expr.sides,
    bind_assoc, bind_assoc]
  refine (run_stream_agrees lhs 0 s).bind fun _ s₁ a h => ?_
  obtain ⟨l, hl, hpool, hlv⟩ := h
  rw [bind_assoc]
  refine (run_stream_agrees rhs _ s₁).bind fun _ s₂ b h => ?_
  obtain ⟨r, hr, hpool', hrv⟩ := h
  rw [hl] at hr
  refine (operands_agrees hr (hlv.mono hpool') hrv).mono fun lr s₃ ab h => ?_
  exact ⟨h.stack, (hpool.trans hpool').trans h.pool, h.left, h.right, h.rank⟩

end Emission

/-- A stream that leaves a register on top compiles to the code of the register. -/
theorem Predicate.compile_of_run_register {nullCheck : Bool} {stream : List Instruction}
    {s : Emitter} {code : Code} {t : DataType} {provenance : Provenance}
    (h : Emission.run nullCheck 0 stream {} =
      .ok () { s with stack := .inRegister code t provenance :: s.stack }) :
    compile nullCheck stream = .ok ⟨code, t, provenance, s.pool, s.stack.length + 1⟩ :=
  compile_eq_ok_iff.2 ⟨.inRegister code t provenance, _, code,
    Emission.bind_eq_ok_iff.2 ⟨(), _, h, rfl⟩, rfl, rfl⟩

/-- Operands that can be brought to a common type on some row end up in two registers, which are the
same on all rows. -/
theorem Expr.exists_loads {nullCheck : Bool} {memory : Memory} {row : BitVec 64} {lhs rhs : Expr}
    {u v : Value} (h : converted nullCheck memory row lhs rhs = .ok (u, v)) :
    ∃ o, Loads nullCheck lhs rhs o := by
  have hagrees := fun memory row => @Emission.operandPair_agrees nullCheck memory row lhs rhs {}
  cases hpair : Emission.operandPair nullCheck lhs rhs {} with
  | error e s =>
    have hfail := hagrees memory row
    rw [hpair] at hfail
    cases h.symm.trans hfail.of_error
  | ok lr s =>
    simp only [hpair] at hagrees
    obtain ⟨l, r⟩ := lr
    -- The registers are the same on all data, so any data will do to find them.
    obtain ⟨ab, -, ⟨hstack, -, hl, hr, hrank⟩⟩ := (hagrees memory row).of_ok
    obtain ⟨a, ha, -⟩ := hl.register
    obtain ⟨b, hb, -⟩ := hr.register
    refine ⟨⟨⟨a, l.dataType, l.provenance⟩, ⟨b, r.dataType, r.provenance⟩, s.pool⟩, ?_, ?_⟩
    · intro op hop options payload
      have hranks : l.dataType.rank = r.dataType.rank := by rw [hl.dataType, hr.dataType, hrank]
      have hoperator : Operand.binary op nullCheck l r = .ok _ :=
        (Operand.binary_eq ha hb hranks op).trans (if_pos hop)
      have hrun := Emission.run_binary_eq_ok hpair hoperator options payload
      rw [Predicate.compile_of_run_register hrun, hstack]
      rfl
    · intro memory row
      obtain ⟨⟨u, v⟩, hconverted, ⟨-, -, hl, hr, -⟩⟩ := (hagrees memory row).of_ok
      obtain ⟨a', ha', heval⟩ := hl.register
      obtain ⟨b', hb', heval'⟩ := hr.register
      obtain rfl : a' = a := Except.ok.inj (ha'.symm.trans ha)
      obtain rfl : b' = b := Except.ok.inj (hb'.symm.trans hb)
      rw [hconverted, OperandPair.left, OperandPair.right, heval _ (.refl _), heval' _ (.refl _),
        hl.dataType, hl.provenance, hr.dataType, hr.provenance]

/-- Exchanged operands end up in exchanged registers. -/
theorem Expr.Loads.exists_swap {nullCheck : Bool} {lhs rhs : Expr} {o : OperandPair}
    (h : Loads nullCheck lhs rhs o) :
    ∃ o', Loads nullCheck rhs lhs o' ∧ o.Swaps o' := by
  have hswap := fun memory row => converted_swap (h.converted memory row)
  obtain ⟨o', ho'⟩ := exists_loads (hswap Emission.zeroMemory 0)
  refine ⟨o', ho', fun memory row => ?_⟩
  have heq := Except.ok.inj ((ho'.converted memory row).symm.trans (hswap memory row))
  exact ⟨congrArg Prod.fst heq, congrArg Prod.snd heq⟩

end RowFilter
