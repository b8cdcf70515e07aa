import RowFilter.Proofs.Emission.Running
import RowFilter.Proofs.Operand.Application
import RowFilter.Proofs.Operand.Leaves
import RowFilter.Selector

/-!
# Compilation preserves meaning

The postfix spelling of an expression compiles to code that computes the value of the expression.

The proof is an induction on the expression. What it maintains is `Emission.Leaves`: after the
spelling, the stack holds one operand more than before, and that operand represents the value. It
holds for every stack and pool the spelling starts from, so it applies to the operands of an
operator one after the other.

## Main definitions

- `Emission.Leaves` — the stack that the spelling of an expression leaves behind.
- `Emission.operands` — what every binary operator does before it looks which one it is.

## Main statements

- `Emission.emit_stream_agrees` — emission of a spelling against the evaluator, on any stack.
- `Predicate.map_result_compile_stream` — the compiled predicate against the evaluator.
- `Predicate.compile_stream_of_value` — an expression that has values compiles.
- `Selector.map_selects_compile_stream` — the selected rows against the evaluator.
-/

namespace RowFilter

variable {memory : Memory} {row : BitVec 64} {nullCheck : Bool}

namespace Emission

/-- One operand was put on the stack, and it represents a value that an expression has. -/
def Leaves (memory : Memory) (row : BitVec 64) (before : Emitter) (literal? : Option Literal)
    (after : Emitter) (a : Value) : Prop :=
  ∃ v, after.stack = v :: before.stack ∧ before.pool.Extends after.pool ∧
    v.Represents after.pool memory row (literal?, a)

theorem unary_agrees {op : UnaryOp} {position : Nat} {s : Emitter} {v : Operand}
    {stack : List Operand} {x : Option Literal × Value} (hs : s.stack = v :: stack)
    (hv : v.Represents s.pool memory row x) :
    Agrees (fun u s' c => s'.stack = stack ∧ s.pool.Extends s'.pool ∧
        u.Carries s'.pool memory row c)
      (unary op position s) (Value.unary op x.2) := by
  obtain ⟨hpool, hload⟩ := hv.load
  rw [unary, pop_bind hs, pooling_bind]
  refine (Operand.unary_agrees op hload _).mono fun u s' c h => ?_
  obtain ⟨rfl, hu⟩ := h
  exact ⟨rfl, hpool, hu⟩

/-- The topmost two values, loaded and brought to a common type. -/
def operands (nullCheck : Bool) (position : Nat) : Emission (Operand × Operand) := do
  let rhs ← pop position
  let lhs ← pop position
  let (lhs, rhs) ← pooling (Operand.loadPair lhs rhs)
  deciding (Operand.unify nullCheck lhs rhs)

/-- What a binary operator does about its operands is the same for all of them. -/
theorem binary_eq_operands (op : BinaryOp) (nullCheck : Bool) (position : Nat) :
    binary op nullCheck position = (do
      let (lhs, rhs) ← operands nullCheck position
      deciding (Operand.binary op nullCheck lhs rhs)) := by
  simp only [binary, operands, bind_assoc]

/-- Two operands of one rank were brought into registers that hold the given values, and nothing
but them was taken from the stack. -/
structure HoldsPair (memory : Memory) (row : BitVec 64) (before : Emitter) (stack : List Operand)
    (lr : Operand × Operand) (after : Emitter) (ab : Value × Value) : Prop where
  stack : after.stack = stack
  pool : before.pool.Extends after.pool
  left : lr.1.Carries after.pool memory row ab.1
  right : lr.2.Carries after.pool memory row ab.2
  rank : ab.1.dataType.rank = ab.2.dataType.rank

theorem operands_agrees {position : Nat} {s : Emitter} {l r : Operand} {stack : List Operand}
    {x y : Option Literal × Value} (hs : s.stack = r :: l :: stack)
    (hl : l.Represents s.pool memory row x) (hr : r.Represents s.pool memory row y) :
    Agrees (HoldsPair memory row s stack) (operands nullCheck position s)
      (Value.unify nullCheck (Value.settle x y).1 (Value.settle x y).2) := by
  obtain ⟨hpool, hl', hr'⟩ := hl.loadPair hr
  rw [operands, pop_bind hs, pop_bind rfl, pooling_bind]
  refine (Operand.unify_agrees hl' hr' _).mono fun lr s' ab h => ?_
  obtain ⟨rfl, hcl, hcr, hrank⟩ := h
  exact ⟨rfl, hpool, hcl, hcr, hrank⟩

theorem binary_agrees {op : BinaryOp} {position : Nat} {s : Emitter} {l r : Operand}
    {stack : List Operand} {x y : Option Literal × Value} (hs : s.stack = r :: l :: stack)
    (hl : l.Represents s.pool memory row x) (hr : r.Represents s.pool memory row y) :
    Agrees (fun u s' c => s'.stack = stack ∧ s.pool.Extends s'.pool ∧
        u.Carries s'.pool memory row c)
      (binary op nullCheck position s)
      (do
        let (a, b) ← Value.unify nullCheck (Value.settle x y).1 (Value.settle x y).2
        Value.binary op nullCheck a b) := by
  rw [binary_eq_operands]
  refine (operands_agrees hs hl hr).bind fun lr s' ab h => ?_
  refine (Operand.binary_agrees op h.left h.right h.rank _).mono fun u s'' c hu => ?_
  obtain ⟨rfl, hu⟩ := hu
  exact ⟨h.stack, h.pool, hu⟩

theorem opcode_ne_ret_of_mem_stream {e : Expr} {i : Instruction} (h : i ∈ e.stream) :
    i.opcode ≠ .ret := by
  induction e with
  | leaf op options payload =>
    rw [List.mem_singleton.1 h]
    exact Opcode.noConfusion
  | unary op options payload arg ih =>
    rcases List.mem_append.1 h with h | h
    · exact ih h
    · rw [List.mem_singleton.1 h]
      exact Opcode.noConfusion
  | binary op options payload lhs rhs ihl ihr =>
    rcases List.mem_append.1 h with h | h
    · rcases List.mem_append.1 h with h | h
      · exact ihl h
      · exact ihr h
    · rw [List.mem_singleton.1 h]
      exact Opcode.noConfusion

theorem opcode_ne_ret_of_mem_operands {lhs rhs : Expr} {i : Instruction}
    (h : i ∈ lhs.stream ++ rhs.stream) : i.opcode ≠ .ret := by
  rcases List.mem_append.1 h with h | h
  · exact opcode_ne_ret_of_mem_stream h
  · exact opcode_ne_ret_of_mem_stream h

/-- A computed operand that carries a value is left on the stack. -/
theorem push_leaves {s : Emitter} {action : Emission Operand} {value : Except CompileError Value}
    {stack : List Operand}
    (h : Agrees (fun u s' c => s'.stack = stack ∧ s.pool.Extends s'.pool ∧
      u.Carries s'.pool memory row c) (action s) value) {before : Emitter}
    (hstack : before.stack = stack) (hpool : before.pool.Extends s.pool) :
    Agrees (fun _ s' c => Leaves memory row before none s' c) ((action >>= push) s) value := by
  refine h.push.mono fun _ s'' c hpush => ?_
  obtain ⟨u, s', ⟨rfl, hgrow, hu⟩, rfl⟩ := hpush
  exact ⟨u, by rw [hstack], hpool.trans hgrow, hu.represents⟩

/-- Running a spelling agrees with evaluating the expression, at any position and on any stack. -/
theorem run_stream_agrees (e : Expr) (position : Nat) (s : Emitter) :
    Agrees (fun _ s' a => Leaves memory row s e.inlineLiteral? s' a)
      (run nullCheck position e.stream s) (e.value nullCheck memory row) := by
  induction e generalizing position s with
  | leaf op options payload =>
    rw [Expr.stream, run_singleton (by exact Opcode.noConfusion)]
    refine (leafOperand_agrees op options payload s).push.mono fun _ s'' a h => ?_
    obtain ⟨v, s', ⟨hs, hpool, hv⟩, rfl⟩ := h
    exact ⟨v, by rw [hs], hpool, hv⟩
  | unary op options payload arg ih =>
    rw [Expr.stream, run_append fun i h => opcode_ne_ret_of_mem_stream h]
    refine (ih position s).bind fun _ s' a h => ?_
    obtain ⟨v, hs, hpool, hv⟩ := h
    rw [run_singleton (by exact Opcode.noConfusion)]
    exact push_leaves (unary_agrees hs hv) rfl hpool
  | binary op options payload lhs rhs ihl ihr =>
    rw [Expr.stream, run_append fun i h => opcode_ne_ret_of_mem_operands h,
      run_append fun i h => opcode_ne_ret_of_mem_stream h, bind_assoc]
    refine (ihl position s).bind fun _ s' a h => ?_
    obtain ⟨l, hl, hpool, hlv⟩ := h
    -- The left operand waits on the stack; the right one may only add to the pool it reads.
    refine (ihr _ s').bind fun _ s'' b h => ?_
    obtain ⟨r, hr, hpool', hrv⟩ := h
    rw [run_singleton (by exact Opcode.noConfusion)]
    rw [hl] at hr
    exact push_leaves (binary_agrees hr (hlv.mono hpool') hrv) rfl (hpool.trans hpool')

/-- The outcome of emission is the operand left on top of the stack. -/
theorem emit_stream_agrees (e : Expr) (s : Emitter) :
    Agrees (fun top s' a => ∃ v, top = some v ∧ s'.stack = v :: s.stack ∧
        v.Represents s'.pool memory row (e.inlineLiteral?, a))
      (emit nullCheck e.stream s) (e.value nullCheck memory row) := by
  rw [← bind_pure (e.value nullCheck memory row)]
  refine (run_stream_agrees e 0 s).bind fun _ s' a h => ?_
  obtain ⟨v, hs, -, hv⟩ := h
  exact ⟨v, by rw [hs, List.head?_cons], hs, hv⟩

/-- A memory to evaluate on where the data does not matter. -/
def zeroMemory : Memory :=
  ⟨fun _ _ => 0, fun _ _ => 0, fun _ => 0⟩

end Emission

namespace Predicate

/-- The value a predicate has on a row, with its type and provenance. -/
def result (p : Predicate) (memory : Memory) (row : BitVec 64) : Value :=
  ⟨p.dataType, p.provenance, p.value memory row⟩

theorem build_stream_agrees (e : Expr) (s : Emitter) :
    Emission.Agrees (fun p _ a => p.result memory row = a) (build nullCheck e.stream s)
      (e.value nullCheck memory row) := by
  rw [← bind_pure (e.value nullCheck memory row)]
  refine (Emission.emit_stream_agrees e s).bind fun top s' a h => ?_
  obtain ⟨v, rfl, -, hv⟩ := h
  obtain ⟨-, ht, hp, code, hcode, heval⟩ := hv.load
  have hregister : (v.load s'.pool).1.register = .ok code := by
    simp only [Operand.register, hcode]
  simp only [Emission.pooling_bind, hregister]
  change Value.mk _ _ _ = a
  rw [ht, hp, value, heval _ (.refl _)]

/-- The predicate compiled from a spelling has the value of the evaluator on every row, and where
the evaluator fails, compilation fails in the same way. -/
theorem map_result_compile_stream (nullCheck : Bool) (e : Expr) (memory : Memory)
    (row : BitVec 64) :
    (compile nullCheck e.stream).map (·.result memory row) = e.value nullCheck memory row := by
  have h := @build_stream_agrees memory row nullCheck e {}
  unfold compile
  cases hbuild : build nullCheck e.stream {} with
  | error err s' =>
    rw [hbuild] at h
    exact h.of_error.symm
  | ok p s' =>
    rw [hbuild] at h
    obtain ⟨a, ha, hp⟩ := h.of_ok
    rw [ha, ← hp]
    rfl

/-- A predicate compiled from a spelling has the value of the expression. -/
theorem value_of_compile_stream {nullCheck : Bool} {e : Expr} {p : Predicate}
    (h : compile nullCheck e.stream = .ok p) (memory : Memory) (row : BitVec 64) :
    e.value nullCheck memory row = .ok (p.result memory row) := by
  rw [← map_result_compile_stream, h]
  rfl

/-- An expression with a value on every row compiles, to a predicate with those values. -/
theorem compile_stream_of_value {nullCheck : Bool} {e : Expr} {f : Memory → BitVec 64 → Value}
    (h : ∀ memory row, e.value nullCheck memory row = .ok (f memory row)) :
    ∃ p, compile nullCheck e.stream = .ok p ∧ ∀ memory row, p.result memory row = f memory row := by
  have hresult : ∀ memory row,
      (compile nullCheck e.stream).map (·.result memory row) = .ok (f memory row) :=
    fun memory row => (map_result_compile_stream nullCheck e memory row).trans (h memory row)
  cases hcompile : compile nullCheck e.stream with
  | error err =>
    rw [hcompile] at hresult
    cases hresult Emission.zeroMemory 0
  | ok p =>
    rw [hcompile] at hresult
    exact ⟨p, rfl, fun memory row => Except.ok.inj (hresult memory row)⟩

end Predicate

/-- The rows that the selector of a spelling accepts are those on which the evaluator's value is a
nonzero integer; a value that is no integer is refused. -/
theorem Selector.map_selects_compile_stream (config : Config) (e : Expr) (memory : Memory)
    (row : BitVec 64) :
    (compile e.stream config).map (·.selects memory row) = (do
      let v ← e.value config.nullCheck memory row
      if v.dataType.isInt then .ok v.word.isNonzero else .error (.nonBooleanResult v.dataType)) := by
  rw [← Predicate.map_result_compile_stream, compile]
  cases Predicate.compile config.nullCheck e.stream with
  | error err => rfl
  | ok p =>
    change (ofPredicate p).map _ = if p.dataType.isInt = true then _ else _
    by_cases h : p.dataType.isInt = true
    · rw [ofPredicate, dif_pos h, if_pos h]
      rfl
    · rw [ofPredicate, dif_neg h, if_neg h]
      rfl

end RowFilter
