import RowFilter.Proofs.Emission.Agreement
import RowFilter.Proofs.Emission.Running

/-!
# Stack depth

How deep the operand stack is while a stream is run, and which failures point at an instruction.

An instruction needs as many operands as its arity says and replaces them by one. Only two failures
name a position: the one of an operation that must not compile, and the one of a missing operand.
Everything else that a step may fail on is found in the operands and the fields of the instruction,
and points nowhere. So a failure that names a position says how deep the stack was there.

## Main definitions

- `CompileError.position?` — the position a cause points at.
- `Emission.Deepens depth` — a stack of the given depth, or a failure that points nowhere.

## Main statements

- `Emission.step_deepens` — the depth after one instruction.
- `Emission.step_stackUnderflow_iff`, `Emission.step_invalidInstruction_iff` — one failing step.
- `Emission.length_stack_run` — the depth after a stream.
- `Emission.run_eq_error_iff` — the first failing step of a stream.
-/

namespace RowFilter

/-- The position a cause points at. -/
def CompileError.position? : CompileError → Option Nat
  | invalidInstruction position | stackUnderflow position => some position
  | unknownOpcode _ | unknownDataType _ | malformedStream _ | unsupportedOperation _ _
  | typeMismatch _ _ | emptyPredicate | nonBooleanResult _ | registerExpected _
  | noConversion _ _ => none

/-- A computation none of whose failures points at a position. -/
def Unplaced {α : Type} (result : Except CompileError α) : Prop :=
  ∀ e, result = .error e → e.position? = none

namespace Unplaced

variable {α β : Type}

theorem ok (a : α) : Unplaced (.ok a) := by
  intro e h
  cases h

theorem error {e : CompileError} (h : e.position? = none) :
    Unplaced (.error e : Except CompileError α) := by
  intro e' he
  cases he
  exact h

theorem bind {result : Except CompileError α} {f : α → Except CompileError β}
    (h : Unplaced result) (hf : ∀ a, Unplaced (f a)) : Unplaced (result >>= f) := by
  cases result with
  | ok a => exact hf a
  | error e => exact .error (h e rfl)

end Unplaced

/-- A leaf takes no operand and a binary operator one more than the operand it puts back. -/
theorem Opcode.arity_add_isLeaf {op : Opcode} (hinvalid : op ≠ .invalid) (hret : op ≠ .ret) :
    op.arity + (if op.isLeaf = true then 1 else 0) = 1 + if op.isBinary = true then 1 else 0 := by
  cases op with
  | invalid => exact absurd rfl hinvalid
  | ret => exact absurd rfl hret
  | leaf | unary | binary => rfl

theorem Instruction.unplaced_dataType (i : Instruction) : Unplaced i.dataType := by
  unfold dataType
  split
  · exact .ok _
  · exact .error rfl

namespace Operand

theorem unplaced_slotNumber (index : BitVec 32) : Unplaced (slotNumber index) := by
  unfold slotNumber
  split
  · exact .error rfl
  · split
    · exact .error rfl
    · exact .ok _

theorem unplaced_ofVariable (t : DataType) (index : BitVec 32) : Unplaced (ofVariable t index) :=
  (unplaced_slotNumber index).bind fun _ => .ok _

theorem unplaced_ofColumn (t : DataType) (index : BitVec 32) : Unplaced (ofColumn t index) := by
  refine (unplaced_slotNumber index).bind fun column => ?_
  cases t <;> exact .ok _

theorem unplaced_register (v : Operand) : Unplaced v.register := by
  unfold register
  split
  · exact .ok _
  · exact .error rfl
  · exact .error rfl

theorem unplaced_promote (nullCheck : Bool) (source target : Rank) (v : Operand) :
    Unplaced (promote nullCheck source target v) := by
  unfold promote
  split
  · exact .ok v
  · refine v.unplaced_register.bind fun code => ?_
    split
    · exact .ok _
    · exact .error rfl

theorem unplaced_unify (nullCheck : Bool) (l r : Operand) : Unplaced (unify nullCheck l r) := by
  unfold unify
  split
  · split
    · exact .ok _
    · exact (unplaced_promote _ _ _ l).bind fun _ => (unplaced_promote _ _ _ r).bind fun _ => .ok _
  · split
    · exact .ok _
    · exact .error rfl

theorem unplaced_unary (op : UnaryOp) (v : Operand) : Unplaced (unary op v) := by
  cases op with
  | neg =>
    refine v.unplaced_register.bind fun code => ?_
    cases v.dataType
    case i128 | stringHeader | binaryHeader | varcharHeader => exact .error rfl
    all_goals exact .ok _
  | not =>
    change Unplaced (not v)
    unfold not
    split
    · exact v.unplaced_register.bind fun _ => .ok _
    · exact .error rfl

theorem unplaced_binary (op : BinaryOp) (nullCheck : Bool) (l r : Operand) :
    Unplaced (binary op nullCheck l r) := by
  have hregisters {f : Code → Code → Except CompileError Operand} (hf : ∀ a b, Unplaced (f a b)) :
      Unplaced (l.register >>= fun a => r.register >>= f a) :=
    l.unplaced_register.bind fun a => r.unplaced_register.bind (hf a)
  cases op with
  | logic op =>
    change Unplaced (logic op l r)
    unfold logic
    split
    · exact .error rfl
    · split
      · exact .error rfl
      · exact hregisters fun _ _ => .ok _
  | equality op => exact hregisters fun _ _ => .ok _
  | order op =>
    change Unplaced (order op nullCheck l r)
    unfold order
    refine hregisters fun _ _ => ?_
    split
    · exact .ok _
    · exact .error rfl
  | arith op =>
    change Unplaced (arith op nullCheck l r)
    unfold arith
    refine hregisters fun _ _ => ?_
    split
    · exact .ok _
    · exact .error rfl

end Operand

namespace Emission

variable {α β : Type} {nullCheck : Bool} {position : Nat} {s s' : Emitter} {i : Instruction}
  {stream : List Instruction}

/-- Popping an empty stack fails, whatever follows. -/
theorem pop_nil_bind (h : s.stack = []) (position : Nat) (f : Operand → Emission β) :
    (pop position >>= f) s = .error (.stackUnderflow position) s := by
  refine bind_eq_error_iff.2 (.inl ?_)
  rw [pop, h]

/-- An outcome with a stack of the given depth, or a failure that points nowhere. -/
def Deepens (depth : Nat) : EStateM.Result CompileError Emitter α → Prop
  | .ok _ s => s.stack.length = depth
  | .error e _ => e.position? = none

theorem deepens_deciding {result : Except CompileError α} (h : Unplaced result) :
    Deepens s.stack.length (deciding result s) := by
  cases result with
  | ok a => exact rfl
  | error e => exact h e rfl

theorem Deepens.bind {m n : Nat} {action : Emission α} {f : α → Emission β}
    (h : Deepens m (action s)) (hnext : ∀ a s', s'.stack.length = m → Deepens n (f a s')) :
    Deepens n ((action >>= f) s) := by
  change Deepens n (EStateM.bind action f s)
  unfold EStateM.bind
  match action s, h with
  | .ok a s', h => exact hnext a s' h
  | .error e s', h => exact h

theorem Deepens.push {n : Nat} {action : Emission Operand} (h : Deepens n (action s)) :
    Deepens (n + 1) ((action >>= push) s) :=
  h.bind fun _ _ hs => congrArg Nat.succ hs

theorem leafOperand_deepens (op : LeafOp) (i : Instruction) (s : Emitter) :
    Deepens s.stack.length (leafOperand op i s) := by
  cases op with
  | var =>
    refine (deepens_deciding i.unplaced_dataType).bind fun t s' hs => ?_
    exact hs ▸ deepens_deciding (Operand.unplaced_ofVariable t i.index)
  | column =>
    refine (deepens_deciding i.unplaced_dataType).bind fun t s' hs => ?_
    exact hs ▸ deepens_deciding (Operand.unplaced_ofColumn t i.index)
  | literal =>
    simp only [leafOperand, poolingOrFail, Operand.ofLiteral]
    cases htype : i.dataType with
    | error e => exact i.unplaced_dataType e htype
    | ok t => cases t <;> exact rfl

theorem unary_deepens {v : Operand} {rest : List Operand} (hs : s.stack = v :: rest) (op : UnaryOp)
    (position : Nat) : Deepens rest.length (unary op position s) := by
  rw [unary, pop_bind hs, pooling_bind]
  exact deepens_deciding (Operand.unplaced_unary op _)

theorem binary_deepens {l r : Operand} {rest : List Operand} (hs : s.stack = r :: l :: rest)
    (op : BinaryOp) (nullCheck : Bool) (position : Nat) :
    Deepens rest.length (binary op nullCheck position s) := by
  rw [binary, pop_bind hs, pop_bind rfl, pooling_bind]
  refine (deepens_deciding (Operand.unplaced_unify nullCheck _ _)).bind fun lr s' hs' => ?_
  exact hs' ▸ deepens_deciding (Operand.unplaced_binary op nullCheck lr.1 lr.2)

/-- One instruction that has its operands replaces them by one operand. -/
theorem step_deepens (hinvalid : i.opcode ≠ .invalid) (hret : i.opcode ≠ .ret)
    (harity : i.opcode.arity ≤ s.stack.length) :
    Deepens (s.stack.length - i.opcode.arity + 1) (step nullCheck position i s) := by
  unfold step
  cases hop : i.opcode with
  | invalid => exact absurd hop hinvalid
  | ret => exact absurd hop hret
  | leaf op => exact (leafOperand_deepens op i s).push
  | unary op =>
    rw [hop] at harity
    match hs : s.stack, harity with
    | v :: rest, _ => exact (unary_deepens hs op position).push
  | binary op =>
    rw [hop] at harity
    match hs : s.stack, harity with
    | r :: l :: rest, _ => exact (binary_deepens hs op nullCheck position).push

/-- One instruction that lacks an operand. A binary operator may have taken one by then. -/
theorem step_of_length_lt (h : s.stack.length < i.opcode.arity) (nullCheck : Bool)
    (position : Nat) : ∃ s', step nullCheck position i s = .error (.stackUnderflow position) s' := by
  unfold step
  cases hop : i.opcode with
  | invalid | ret | leaf op =>
    rw [hop] at h
    exact absurd h (Nat.not_lt_zero _)
  | unary op =>
    rw [hop] at h
    have hs : s.stack = [] := List.length_eq_zero_iff.1 (Nat.lt_one_iff.1 h)
    have hunary : unary op position s = .error (.stackUnderflow position) s := by
      rw [unary, pop_nil_bind hs]
    exact ⟨_, bind_eq_error_iff.2 (.inl hunary)⟩
  | binary op =>
    rw [hop] at h
    cases hs : s.stack with
    | nil =>
      have hbinary : binary op nullCheck position s = .error (.stackUnderflow position) s := by
        rw [binary, pop_nil_bind hs]
      exact ⟨_, bind_eq_error_iff.2 (.inl hbinary)⟩
    | cons v rest =>
      rw [hs] at h
      have hrest : rest = [] :=
        List.length_eq_zero_iff.1 (Nat.lt_one_iff.1 (Nat.lt_of_succ_lt_succ h))
      have hbinary : binary op nullCheck position s =
          .error (.stackUnderflow position) { s with stack := rest } := by
        rw [binary, pop_bind hs, pop_nil_bind hrest]
      exact ⟨_, bind_eq_error_iff.2 (.inl hbinary)⟩

theorem step_of_invalid (h : i.opcode = .invalid) (nullCheck : Bool) (position : Nat)
    (s : Emitter) : step nullCheck position i s = .error (.invalidInstruction position) s := by
  rw [step, h]
  rfl

/-- What one instruction does to the depth of the stack: it is one that must not compile, or it
lacks an operand, or it replaces its operands by one unless something else is wrong. -/
theorem step_cases (hret : i.opcode ≠ .ret) (nullCheck : Bool) (position : Nat) (s : Emitter) :
    (i.opcode = .invalid ∧
      step nullCheck position i s = .error (.invalidInstruction position) s) ∨
    (s.stack.length < i.opcode.arity ∧
      ∃ s', step nullCheck position i s = .error (.stackUnderflow position) s') ∨
    (i.opcode ≠ .invalid ∧ i.opcode.arity ≤ s.stack.length ∧
      Deepens (s.stack.length - i.opcode.arity + 1) (step nullCheck position i s)) := by
  by_cases hinvalid : i.opcode = .invalid
  · exact .inl ⟨hinvalid, step_of_invalid hinvalid nullCheck position s⟩
  · by_cases hlt : s.stack.length < i.opcode.arity
    · exact .inr (.inl ⟨hlt, step_of_length_lt hlt nullCheck position⟩)
    · have hle := Nat.le_of_not_lt hlt
      exact .inr (.inr ⟨hinvalid, hle, step_deepens hinvalid hret hle⟩)

theorem step_stackUnderflow_iff (hret : i.opcode ≠ .ret) (q : Nat) :
    (∃ s', step nullCheck position i s = .error (.stackUnderflow q) s') ↔
      q = position ∧ s.stack.length < i.opcode.arity := by
  constructor
  · rintro ⟨s', hstep⟩
    rcases step_cases hret nullCheck position s with ⟨-, h⟩ | ⟨hlt, s'', h⟩ | ⟨-, -, h⟩
    · rw [h] at hstep
      cases hstep
    · rw [h] at hstep
      cases hstep
      exact ⟨rfl, hlt⟩
    · rw [hstep] at h
      cases h
  · rintro ⟨rfl, hlt⟩
    exact step_of_length_lt hlt nullCheck q

theorem step_invalidInstruction_iff (hret : i.opcode ≠ .ret) (q : Nat) :
    (∃ s', step nullCheck position i s = .error (.invalidInstruction q) s') ↔
      q = position ∧ i.opcode = .invalid := by
  constructor
  · rintro ⟨s', hstep⟩
    rcases step_cases hret nullCheck position s with ⟨hinvalid, h⟩ | ⟨-, s'', h⟩ | ⟨-, -, h⟩
    · rw [h] at hstep
      cases hstep
      exact ⟨rfl, hinvalid⟩
    · rw [h] at hstep
      cases hstep
    · rw [hstep] at h
      cases h
  · rintro ⟨rfl, hinvalid⟩
    exact ⟨s, step_of_invalid hinvalid nullCheck q s⟩

/-- An instruction that succeeds had its operands and has replaced them by one. -/
theorem length_stack_step (hret : i.opcode ≠ .ret) (hstep : step nullCheck position i s = .ok () s') :
    i.opcode.arity ≤ s.stack.length ∧
      s'.stack.length + i.opcode.arity = s.stack.length + 1 := by
  rcases step_cases hret nullCheck position s with ⟨-, h⟩ | ⟨-, s'', h⟩ | ⟨-, hle, h⟩
  · rw [h] at hstep
    cases hstep
  · rw [h] at hstep
    cases hstep
  · rw [hstep] at h
    change s'.stack.length = _ at h
    exact ⟨hle, by omega⟩

theorem run_cons (hret : i.opcode ≠ .ret) (nullCheck : Bool) (position : Nat)
    (rest : List Instruction) : run nullCheck position (i :: rest) =
      step nullCheck position i >>= fun _ => run nullCheck (position + 1) rest := by
  rw [run, if_neg hret]

/-- The depth of the stack after a stream: every leaf adds an operand and every binary operator
takes one away. -/
theorem length_stack_run (hret : ∀ i ∈ stream, i.opcode ≠ .ret)
    (h : run nullCheck position stream s = .ok () s') :
    (s'.stack.length : Int) = s.stack.length + stream.countP (·.opcode.isLeaf) -
      stream.countP (·.opcode.isBinary) := by
  induction stream generalizing position s with
  | nil =>
    cases h
    simp
  | cons i rest ih =>
    obtain ⟨hi, hrest⟩ := List.forall_mem_cons.1 hret
    rw [run_cons hi] at h
    obtain ⟨⟨⟩, s₁, hstep, hrun⟩ := bind_eq_ok_iff.1 h
    have hdepth := ih hrest hrun
    have hone := (length_stack_step hi hstep).2
    have hinvalid : i.opcode ≠ .invalid := fun hop => by
      rw [step_of_invalid hop] at hstep
      cases hstep
    have hbalance := Opcode.arity_add_isLeaf hinvalid hi
    rw [List.countP_cons, List.countP_cons]
    omega

/-- A stream fails at its first failing instruction. -/
theorem run_eq_error_iff (hret : ∀ i ∈ stream, i.opcode ≠ .ret) {e : CompileError} :
    run nullCheck position stream s = .error e s' ↔
      ∃ p, ∃ h : p < stream.length, ∃ s'', run nullCheck position (stream.take p) s = .ok () s'' ∧
        step nullCheck (position + p) stream[p] s'' = .error e s' := by
  induction stream generalizing position s with
  | nil =>
    constructor
    · intro h
      cases h
    · rintro ⟨p, h, -⟩
      cases h
  | cons i rest ih =>
    obtain ⟨hi, hrest⟩ := List.forall_mem_cons.1 hret
    have hposition (p : Nat) : position + 1 + p = position + (p + 1) := by omega
    rw [run_cons hi, bind_eq_error_iff]
    constructor
    · rintro (hstep | ⟨⟨⟩, s₁, hstep, hrun⟩)
      · exact ⟨0, Nat.succ_pos _, s, rfl, hstep⟩
      · obtain ⟨p, hp, s'', hbefore, hfail⟩ := (ih hrest).1 hrun
        refine ⟨p + 1, Nat.succ_lt_succ hp, s'', ?_, hposition p ▸ hfail⟩
        rw [List.take_succ_cons, run_cons hi]
        exact bind_eq_ok_iff.2 ⟨(), s₁, hstep, hbefore⟩
    · rintro ⟨p, hp, s'', hbefore, hfail⟩
      cases p with
      | zero =>
        cases hbefore
        exact .inl hfail
      | succ p =>
        rw [List.take_succ_cons, run_cons hi] at hbefore
        obtain ⟨⟨⟩, s₁, hstep, hbefore⟩ := bind_eq_ok_iff.1 hbefore
        refine .inr ⟨(), s₁, hstep, (ih hrest).2 ⟨p, Nat.lt_of_succ_lt_succ hp, s'', hbefore, ?_⟩⟩
        exact hposition p ▸ hfail

end Emission

end RowFilter
