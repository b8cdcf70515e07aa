import RowFilter.Error.Report
import RowFilter.Proofs.Emission.Running
import RowFilter.Proofs.Operand.Coherence

/-!
# Emission keeps register classes and types together

Whatever the stream, emission goes from a stack of coherent operands to stacks of coherent operands,
and where it fails the cause lies in the stream: no operator ever meets an operand that is not in a
register, and no promotion asks for a conversion that there is not.

The proof reads every step of the emitter as a triple, from an emitter whose operands are sound to a
result together with another such emitter, or to a refusal of the stream. No operation can be handed
to the code of another group, since the groups are constructors of `Opcode`.

## Main definitions

- `CompileError.IsRefusal` — the causes that lie in the stream.
- `Emitter.Sound` — all operands on the stack are sound.
- `Emission.Ensures Q` — an outcome in `Q`, or a refusal.

## Main statements

- `Emission.step_sound`, `Emission.run_sound` — one instruction, and a stream of them.
- `Emission.emit_coherent` — coherence on any stream, and the causes of its failure.
- `Predicate.regClass_code` — the code of a predicate has the class of its type.
-/

namespace RowFilter

/-- The causes for which emission refuses a stream. All others belong to the decoder, to the use
made of the result, or to a code generator at odds with itself. -/
def CompileError.IsRefusal : CompileError → Prop
  | invalidInstruction _ | unknownDataType _ | malformedStream _ | stackUnderflow _
  | unsupportedOperation _ _ | typeMismatch _ _ => True
  | unknownOpcode _ | emptyPredicate | nonBooleanResult _ | registerExpected _
  | noConversion _ _ => False

/-- A refusal is not reported as a failure of the code generator. -/
theorem CompileError.IsRefusal.report_ne_codegen {e : CompileError} (h : e.IsRefusal)
    (detail : String) : e.report ≠ .codegen detail := by
  intro hreport
  cases e with
  | registerExpected | noConversion => exact h
  | _ => cases hreport

theorem Instruction.dataType_refusal {i : Instruction} {e : CompileError}
    (h : i.dataType = .error e) : e.IsRefusal := by
  unfold dataType at h
  split at h
  · cases h
  · cases h
    exact trivial

theorem Operand.slotNumber_refusal {index : BitVec 32} {e : CompileError}
    (h : slotNumber index = .error e) : e.IsRefusal := by
  unfold slotNumber at h
  split at h
  · cases h
    exact trivial
  · split at h
    · cases h
      exact trivial
    · cases h

/-- Every operand on the stack is sound. -/
def Emitter.Sound (given : Code → Prop) (s : Emitter) : Prop :=
  ∀ v ∈ s.stack, v.Sound given

/-- The codes in the registers of an emitter. -/
def Emitter.Holds (s : Emitter) (code : Code) : Prop :=
  ∃ v ∈ s.stack, v.location = .register code

namespace Emission

variable {α β : Type} {given : Code → Prop} {s : Emitter}

/-- An outcome that is a result in `Q` or a refusal. -/
def Ensures (Q : α → Emitter → Prop) : EStateM.Result CompileError Emitter α → Prop
  | .ok a s => Q a s
  | .error e _ => e.IsRefusal

theorem Ensures.mono {Q Q' : α → Emitter → Prop} {outcome : EStateM.Result CompileError Emitter α}
    (h : Ensures Q outcome) (hQ : ∀ a s, Q a s → Q' a s) : Ensures Q' outcome := by
  match outcome, h with
  | .ok a s, h => exact hQ a s h
  | .error e s, h => exact h

/-- The rule for a sequence. -/
theorem Ensures.bind {Q : α → Emitter → Prop} {Q' : β → Emitter → Prop} {action : Emission α}
    {f : α → Emission β} (h : Ensures Q (action s)) (hnext : ∀ a s', Q a s' → Ensures Q' (f a s')) :
    Ensures Q' ((action >>= f) s) := by
  change Ensures Q' (EStateM.bind action f s)
  unfold EStateM.bind
  match action s, h with
  | .ok a s', h => exact hnext a s' h
  | .error e s', h => exact h

/-- A decision ensures what each of its outcomes does. -/
theorem ensures_deciding {Q : α → Emitter → Prop} {result : Except CompileError α}
    (hok : ∀ a, result = .ok a → Q a s) (herror : ∀ e, result = .error e → e.IsRefusal) :
    Ensures Q (deciding result s) := by
  cases result with
  | ok a => exact hok a rfl
  | error e => exact herror e rfl

/-- What only adds to the pool leaves the stack alone. -/
theorem pooling_sound (hs : s.Sound given) (action : StateM LiteralPool α) :
    Ensures (fun a s' => a = (action s.pool).1 ∧ s'.Sound given) (pooling action s) :=
  ⟨rfl, hs⟩

theorem pop_ensures (position : Nat) :
    Ensures (fun v s' => s.stack = v :: s'.stack) (pop position s) := by
  unfold pop
  split
  next => exact trivial
  next v rest hs => exact hs

/-- Popping takes a sound operand and leaves sound ones. -/
theorem pop_sound (hs : s.Sound given) (position : Nat) :
    Ensures (fun v s' => v.Sound given ∧ s'.Sound given) (pop position s) := by
  refine (pop_ensures position).mono fun v s' hstack => ?_
  have hall : ∀ w ∈ v :: s'.stack, w.Sound given := hstack ▸ hs
  exact List.forall_mem_cons.1 hall

theorem Ensures.push {action : Emission Operand}
    (h : Ensures (fun v s' => v.Sound given ∧ s'.Sound given) (action s)) :
    Ensures (fun _ s' => s'.Sound given) ((action >>= push) s) :=
  h.bind fun _ _ hv => List.forall_mem_cons.2 hv

theorem variable_sound (hs : s.Sound given) (t : DataType) (index : BitVec 32) :
    Ensures (fun v s' => v.Sound given ∧ s'.Sound given)
      (deciding (Operand.ofVariable t index) s) := by
  unfold Operand.ofVariable
  cases hslot : Operand.slotNumber index with
  | error e => exact Operand.slotNumber_refusal hslot
  | ok slot => exact ⟨Operand.sound_memory, hs⟩

/-- A column read is in memory, or in a register that has the class of the type it is read at. -/
theorem column_sound (hs : s.Sound given) (t : DataType) (index : BitVec 32) :
    Ensures (fun v s' => v.Sound given ∧ s'.Sound given)
      (deciding (Operand.ofColumn t index) s) := by
  unfold Operand.ofColumn
  cases hslot : Operand.slotNumber index with
  | error e => exact Operand.slotNumber_refusal hslot
  | ok column =>
    cases t
    case stringHeader | binaryHeader =>
      exact ⟨(Operand.loaded_inRegister rfl (.length _ _)).sound, hs⟩
    case varcharHeader => exact ⟨(Operand.loaded_inRegister rfl (.load _ _)).sound, hs⟩
    all_goals exact ⟨Operand.sound_memory, hs⟩

theorem literal_sound (hs : s.Sound given) (i : Instruction) :
    Ensures (fun v s' => v.Sound given ∧ s'.Sound given)
      (poolingOrFail (Operand.ofLiteral i) s) := by
  unfold poolingOrFail Operand.ofLiteral
  cases htype : i.dataType with
  | error e => exact i.dataType_refusal htype
  | ok t =>
    cases t
    case i128 => exact ⟨Operand.sound_memory, hs⟩
    all_goals exact ⟨Operand.sound_literal, hs⟩

theorem leafOperand_sound (hs : s.Sound given) (op : LeafOp) (i : Instruction) :
    Ensures (fun v s' => v.Sound given ∧ s'.Sound given) (leafOperand op i s) := by
  have htype : Ensures (fun _ s' => s'.Sound given) (deciding i.dataType s) :=
    ensures_deciding (fun _ _ => hs) fun _ => i.dataType_refusal
  cases op with
  | var => exact htype.bind fun t _ hs => variable_sound hs t i.index
  | column => exact htype.bind fun t _ hs => column_sound hs t i.index
  | literal => exact literal_sound hs i

theorem unary_sound (hs : s.Sound given) (op : UnaryOp) (position : Nat) :
    Ensures (fun v s' => v.Sound given ∧ s'.Sound given) (unary op position s) := by
  refine (pop_sound hs position).bind fun v s hv => ?_
  obtain ⟨hv, hs⟩ := hv
  refine (pooling_sound hs v.load).bind fun u s' hu => ?_
  obtain ⟨rfl, hs'⟩ := hu
  rcases Operand.unary_loaded (hv.loadAs v.dataType s.pool) op with ⟨w, hw, hloaded⟩ | hw
  · rw [Operand.load, hw]
    exact ⟨hloaded.sound, hs'⟩
  · rw [Operand.load, hw]
    exact trivial

theorem binary_sound (hs : s.Sound given) (op : BinaryOp) (nullCheck : Bool) (position : Nat) :
    Ensures (fun v s' => v.Sound given ∧ s'.Sound given) (binary op nullCheck position s) := by
  refine (pop_sound hs position).bind fun r s₁ hr => ?_
  obtain ⟨hr, hs₁⟩ := hr
  refine (pop_sound hs₁ position).bind fun l s₂ hl => ?_
  obtain ⟨hl, hs₂⟩ := hl
  refine (pooling_sound hs₂ (Operand.loadPair l r)).bind fun lr s₃ hlr => ?_
  obtain ⟨rfl, hs₃⟩ := hlr
  obtain ⟨hl, hr⟩ := Operand.loadPair_loaded hl hr s₂.pool
  rcases Operand.unify_loaded hl hr nullCheck with
    ⟨l', r', hunify, hl', hr', hrank, hclass⟩ | hunify
  · simp only [hunify]
    -- The operands have one rank, so no operator looks at the type of the right one.
    rcases Operand.binary_loaded hl' hr' hrank hclass op nullCheck with ⟨v, hv, hloaded⟩ | hv
    · change Ensures _ (deciding (Operand.binary op nullCheck l' r') s₃)
      rw [hv]
      exact ⟨hloaded.sound, hs₃⟩
    · change Ensures _ (deciding (Operand.binary op nullCheck l' r') s₃)
      rw [hv]
      exact trivial
  · simp only [hunify]
    exact trivial

/-- One instruction keeps the operands sound. -/
theorem step_sound (hs : s.Sound given) (nullCheck : Bool) (position : Nat) (i : Instruction) :
    Ensures (fun _ s' => s'.Sound given) (step nullCheck position i s) := by
  unfold step
  cases i.opcode with
  | invalid => exact trivial
  | ret => exact hs
  | leaf op => exact (leafOperand_sound hs op i).push
  | unary op => exact (unary_sound hs op position).push
  | binary op => exact (binary_sound hs op nullCheck position).push

/-- A stream keeps the operands sound. -/
theorem run_sound (hs : s.Sound given) (nullCheck : Bool) (position : Nat)
    (stream : List Instruction) :
    Ensures (fun _ s' => s'.Sound given) (run nullCheck position stream s) := by
  induction stream generalizing position s with
  | nil => exact hs
  | cons i rest ih =>
    unfold run
    split
    next => exact hs
    next => exact (step_sound hs nullCheck position i).bind fun _ _ hs' => ih hs' (position + 1)

/-- On any stream and any stack of coherent operands. After each instruction every operand on the
stack is coherent, and its code is put together from the codes that were there at first by
operations that are defined on the classes they meet. The two topmost operands, loaded and promoted
as a binary operator does it, are in registers of one class, or their types do not meet. Where
emission fails, the cause lies in the stream, and is not reported as one of the code generator. -/
theorem emit_coherent (nullCheck : Bool) (stream : List Instruction) (s : Emitter)
    (hs : ∀ v ∈ s.stack, v.Coherent) :
    (∀ n s', run nullCheck 0 (stream.take n) s = .ok () s' →
      (∀ v ∈ s'.stack, v.Coherent ∧
        ∀ code, v.location = .register code → code.Built s.Holds) ∧
      ∀ r l below, s'.stack = r :: l :: below →
        ∀ lhs rhs, (Operand.loadPair l r s'.pool).1 = (lhs, rhs) →
          (∃ lhs' rhs' c d, Operand.unify nullCheck lhs rhs = .ok (lhs', rhs') ∧
            lhs'.location = .register c ∧ rhs'.location = .register d ∧
            c.regClass = d.regClass) ∨
          Operand.unify nullCheck lhs rhs = .error (.typeMismatch lhs.dataType rhs.dataType)) ∧
    ∀ e s', emit nullCheck stream s = .error e s' →
      e.IsRefusal ∧ ∀ detail, e.report ≠ .codegen detail := by
  have hsound : s.Sound s.Holds := by
    intro v hv code hcode
    exact ⟨hs v hv code hcode, .given ⟨v, hv, hcode⟩⟩
  constructor
  · intro n s' hrun
    have hs' : s'.Sound s.Holds := by
      have h := run_sound hsound nullCheck 0 (stream.take n)
      rwa [hrun] at h
    constructor
    · intro v hv
      exact ⟨fun code hcode => (hs' v hv code hcode).1, fun code hcode => (hs' v hv code hcode).2⟩
    · intro r l below hstack lhs rhs hpair
      have hl : l.Sound s.Holds := hs' l (by simp [hstack])
      have hr : r.Sound s.Holds := hs' r (by simp [hstack])
      obtain ⟨hlhs, hrhs⟩ := Operand.loadPair_loaded hl hr s'.pool
      rw [hpair] at hlhs hrhs
      rcases Operand.unify_loaded hlhs hrhs nullCheck with
        ⟨lhs', rhs', hunify, ⟨c, hc, hcl, -⟩, ⟨d, hd, hdr, -⟩, -, hclass⟩ | hunify
      · exact .inl ⟨lhs', rhs', c, d, hunify, hc, hd, by rw [hcl, hdr, hclass]⟩
      · exact .inr hunify
  · intro e s' hemit
    have h : Ensures (fun _ _ => True) (emit nullCheck stream s) :=
      (run_sound hsound nullCheck 0 stream).bind fun _ _ _ => trivial
    rw [hemit] at h
    exact ⟨h, h.report_ne_codegen⟩

/-- Adding a literal to a register that was on the stack before the stream. -/
theorem emit_coherent_add :
    let s : Emitter := { stack := [⟨.literal (.int 5), .i8, .const⟩,
      ⟨.register (.load .i64 (.slot 0 8)), .i64, .memory⟩] }
    (∀ v ∈ s.stack, v.Coherent) ∧
      ∃ s', run true 0 [.op (.binary (.arith .add))] s = .ok () s' ∧
        (∀ v ∈ s'.stack, v.Coherent ∧ ∀ code, v.location = .register code → code.Built s.Holds) ∧
        ∀ e s'', emit true [.op (.binary (.arith .add))] s = .error e s'' →
          e.IsRefusal ∧ ∀ detail, e.report ≠ .codegen detail := by
  intro s
  have hs : ∀ v ∈ s.stack, v.Coherent := by
    refine List.forall_mem_cons.2 ⟨?_, List.forall_mem_singleton.2 ?_⟩
    · intro code hcode
      cases hcode
    · intro code hcode
      cases hcode
      rfl
  have h := emit_coherent true [.op (.binary (.arith .add))] s hs
  exact ⟨hs, _, rfl, (h.1 1 _ rfl).1, h.2⟩

end Emission

/-- The code of a compiled predicate has the class of the type it is compiled to, and so have the
operands of every operation in it. -/
theorem Predicate.regClass_code {nullCheck : Bool} {stream : List Instruction} {p : Predicate}
    (h : compile nullCheck stream = .ok p) :
    p.code.regClass = p.dataType.regClass ∧ p.code.Built fun _ => False := by
  obtain ⟨top, s, hemit, hcode, htype, -⟩ := exists_top_of_compile h
  have hempty : ({} : Emitter).Sound fun _ => False := fun v hv => absurd hv List.not_mem_nil
  have hstack : Emission.Ensures (fun top s => top = s.stack.head? ∧ s.Sound fun _ => False)
      (Emission.emit nullCheck stream {}) :=
    (Emission.run_sound hempty nullCheck 0 stream).bind fun _ _ hs => ⟨rfl, hs⟩
  rw [hemit] at hstack
  obtain ⟨htop, hs⟩ := hstack
  have hmem : top ∈ s.stack := List.mem_of_mem_head? (htop ▸ rfl)
  have hload := ((hs top hmem).loadAs top.dataType s.pool).sound p.code hcode
  rw [← htype]
  exact hload

end RowFilter
