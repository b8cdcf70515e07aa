import Mathlib.Data.List.Forall2
import Mathlib.Data.List.TakeWhile
import RowFilter.Proofs.Emission.StackDepth
import RowFilter.Proofs.Expr.Compilation
import RowFilter.Proofs.Expr.Forest

/-!
# Streams as forests

Emission accepts nothing but sequences of postfix expressions, and what it leaves on the stack are
the values of these expressions.

A stream is read and emitted side by side, one with a stack of expressions and one with a stack of
operands. `Emission.Models` keeps the two in step: each operand stands for the value of the
expression beside it. The depth of the stack decides whether an operator has its operands, so where
emission fails for want of one can be told by counting leaves and binary operators.

## Main definitions

- `beforeRet` — the instructions that are run.
- `Operand.Computes` — an operand whose code yields the value of an expression.
- `Emission.Models` — a stack of operands beside a stack of expressions.

## Main statements

- `Emission.step_models`, `Emission.run_models` — one instruction, and a stream of them.
- `Emission.emit_postfix` — the causes that name a position, and the forest a stream spells.
- `Predicate.exists_expr_of_compile_extends`, `Predicate.exists_expr_of_compile` — the expression a
  predicate has the value of.
-/

namespace RowFilter

/-- The instructions that are run: those before the first terminator. -/
def beforeRet (stream : List Instruction) : List Instruction :=
  stream.takeWhile fun i => i.opcode ≠ .ret

theorem opcode_ne_ret_of_mem_beforeRet {stream : List Instruction} {i : Instruction}
    (h : i ∈ beforeRet stream) : i.opcode ≠ .ret := by
  simpa using List.mem_takeWhile_imp h

variable {nullCheck : Bool} {pool later : LiteralPool}

namespace Operand

/-- An operand that, loaded into a register, has the type and the provenance of an expression's
value, and whose code yields the word of that value on every row, whatever is pooled later. -/
def Computes (nullCheck : Bool) (pool : LiteralPool) (v : Operand) (e : Expr) : Prop :=
  ∃ code, (v.load pool).1.location = .register code ∧
    ∀ memory row later, (v.load pool).2.Extends later →
      e.value nullCheck memory row = .ok ⟨(v.load pool).1.dataType, (v.load pool).1.provenance,
        code.eval ⟨memory, later, row⟩⟩

/-- An operand that stands for the value of an expression on every row. -/
def Models (nullCheck : Bool) (pool : LiteralPool) (v : Operand) (e : Expr) : Prop :=
  ∀ memory row, ∃ a, e.value nullCheck memory row = .ok a ∧
    v.Represents pool memory row (e.inlineLiteral?, a)

variable {v : Operand} {e : Expr}

theorem Models.mono (h : v.Models nullCheck pool e) (hpool : pool.Extends later) :
    v.Models nullCheck later e := by
  intro memory row
  obtain ⟨a, ha, hv⟩ := h memory row
  exact ⟨a, ha, hv.mono hpool⟩

theorem Models.computes (h : v.Models nullCheck pool e) : v.Computes nullCheck pool e := by
  -- The code is the same on all data, so any data will do to find it.
  obtain ⟨a, -, hv⟩ := h Emission.zeroMemory 0
  obtain ⟨code, hcode, -⟩ := hv.load.2.eval
  refine ⟨code, hcode, fun memory row later hlater => ?_⟩
  obtain ⟨a, ha, hv⟩ := h memory row
  obtain ⟨-, ht, hp, code', hcode', heval⟩ := hv.load
  obtain rfl : code = code' := Location.register.inj (hcode.symm.trans hcode')
  rw [ha, ht, hp, heval later hlater]

end Operand

namespace Emission

variable {position : Nat} {s s' : Emitter} {i : Instruction} {stream : List Instruction}
  {trees : List Expr}

/-- The operands on the stack stand for the values of the given expressions, the top first. -/
def Models (nullCheck : Bool) (s : Emitter) (trees : List Expr) : Prop :=
  List.Forall₂ (Operand.Models nullCheck s.pool) s.stack trees

/-- An action that leaves the value of an expression on the stack, whatever the data, puts the
expression on top. -/
theorem models_of_leaves (before : Emitter) {action : Emission Unit} {e : Expr}
    (hbefore : Models nullCheck before trees)
    (h : ∀ memory row, Agrees (fun _ s' a => Leaves memory row before e.inlineLiteral? s' a)
      (action s) (e.value nullCheck memory row))
    (haction : action s = .ok () s') : Models nullCheck s' (e :: trees) := by
  rw [haction] at h
  obtain ⟨-, -, v, hstack, hpool, -⟩ := (h zeroMemory 0).of_ok
  unfold Models
  rw [hstack]
  refine .cons (fun memory row => ?_) (hbefore.imp fun _ _ hv => hv.mono hpool)
  obtain ⟨a, ha, w, hw, -, hrepresents⟩ := (h memory row).of_ok
  obtain rfl : v = w := (List.cons.inj (hstack.symm.trans hw)).1
  exact ⟨a, ha, hrepresents⟩

/-- One instruction that succeeds is one that can be read, and it keeps operands and expressions in
step. -/
theorem step_models (hret : i.opcode ≠ .ret) (hs : Models nullCheck s trees)
    (hstep : step nullCheck position i s = .ok () s') :
    ∃ trees', Expr.shift? trees i = some trees' ∧ Models nullCheck s' trees' := by
  obtain ⟨opcode, options, payload⟩ := i
  cases opcode with
  | invalid =>
    rw [step_of_invalid rfl] at hstep
    cases hstep
  | ret => exact absurd rfl hret
  | leaf op =>
    refine ⟨_, rfl, models_of_leaves s hs (fun memory row => ?_) hstep⟩
    refine (leafOperand_agrees op options payload s).push.mono fun _ s'' a h => ?_
    obtain ⟨v, s', ⟨hstack, hpool, hv⟩, rfl⟩ := h
    exact ⟨v, by rw [hstack], hpool, hv⟩
  | unary op =>
    have hlength := (length_stack_step hret hstep).1
    unfold Models at hs
    generalize hstack : s.stack = stack at hs hlength
    cases hs with
    | nil => cases hlength
    | @cons v arg stack rest hv hrest =>
      refine ⟨_, rfl, models_of_leaves { s with stack } hrest (fun memory row => ?_) hstep⟩
      obtain ⟨a, ha, hv⟩ := hv memory row
      rw [Expr.value, ha]
      exact push_leaves (unary_agrees hstack hv) rfl (.refl _)
  | binary op =>
    have hlength := (length_stack_step hret hstep).1
    unfold Models at hs
    generalize hstack : s.stack = stack at hs hlength
    cases hs with
    | nil => cases hlength
    | @cons r rhs stack rest hr hrest =>
      cases hrest with
      | nil => exact absurd hlength (Nat.not_succ_le_self 1)
      | @cons l lhs stack rest hl hrest =>
        refine ⟨_, rfl, models_of_leaves { s with stack } hrest (fun memory row => ?_) hstep⟩
        obtain ⟨a, ha, hl⟩ := hl memory row
        obtain ⟨b, hb, hr⟩ := hr memory row
        rw [Expr.value, ha, hb]
        exact push_leaves (binary_agrees hstack hl hr) rfl (.refl _)

/-- A stream that succeeds is one that can be read, and it keeps operands and expressions in
step. -/
theorem run_models (hret : ∀ i ∈ stream, i.opcode ≠ .ret) (hs : Models nullCheck s trees)
    (hrun : run nullCheck position stream s = .ok () s') :
    ∃ trees', stream.foldlM Expr.shift? trees = some trees' ∧ Models nullCheck s' trees' := by
  induction stream generalizing position s trees with
  | nil =>
    cases hrun
    exact ⟨trees, rfl, hs⟩
  | cons i rest ih =>
    obtain ⟨hi, hrest⟩ := List.forall_mem_cons.1 hret
    rw [run_cons hi] at hrun
    obtain ⟨⟨⟩, s₁, hstep, hrun⟩ := bind_eq_ok_iff.1 hrun
    obtain ⟨trees₁, hshift, hs₁⟩ := step_models hi hs hstep
    obtain ⟨trees', hread, hs'⟩ := ih hrest hs₁ hrun
    refine ⟨trees', ?_, hs'⟩
    rw [List.foldlM_cons, hshift]
    exact hread

theorem run_beforeRet (nullCheck : Bool) (position : Nat) (stream : List Instruction) :
    run nullCheck position (beforeRet stream) = run nullCheck position stream := by
  induction stream generalizing position with
  | nil => rfl
  | cons i rest ih =>
    by_cases hi : i.opcode = .ret
    · rw [beforeRet, List.takeWhile_cons_of_neg (by simpa using hi), run, run, if_pos hi]
    · rw [beforeRet, List.takeWhile_cons_of_pos (by simpa using hi), run_cons hi, run_cons hi]
      exact congrArg _ (funext fun _ => ih (position + 1))

theorem emit_eq_error_iff {e : CompileError} :
    emit nullCheck stream s = .error e s' ↔
      run nullCheck 0 (beforeRet stream) s = .error e s' := by
  rw [emit, bind_eq_error_iff, run_beforeRet]
  refine or_iff_left ?_
  rintro ⟨_, _, -, h⟩
  cases h

theorem emit_eq_ok_iff {top : Option Operand} :
    emit nullCheck stream s = .ok top s' ↔
      run nullCheck 0 (beforeRet stream) s = .ok () s' ∧ top = s'.stack.head? := by
  rw [emit, bind_eq_ok_iff, run_beforeRet]
  constructor
  · rintro ⟨⟨⟩, s'', hrun, h⟩
    cases h
    exact ⟨hrun, rfl⟩
  · rintro ⟨hrun, rfl⟩
    exact ⟨(), s', hrun, rfl⟩

/-- The depth of the stack before the instruction at a position, counted from the leaves and the
binary operators in front of it. -/
def depthBefore (depth : Nat) (stream : List Instruction) (p : Nat) : Int :=
  depth + (stream.take p).countP (·.opcode.isLeaf) - (stream.take p).countP (·.opcode.isBinary)

/-- The instructions before a position all succeed. -/
def Reaches (nullCheck : Bool) (stream : List Instruction) (s : Emitter) (p : Nat) : Prop :=
  ∃ s', run nullCheck 0 (stream.take p) s = .ok () s'

/-- A stream fails with a cause that its steps find by a test on the instruction and the depth of
the stack, when the first instruction that passes the test is reached. -/
theorem exists_run_eq_error_iff (cause : Nat → CompileError) (test : Int → Instruction → Prop)
    (hret : ∀ i ∈ stream, i.opcode ≠ .ret)
    (hstep : ∀ (position q : Nat) (i : Instruction) (s : Emitter), i.opcode ≠ .ret →
      ((∃ s', step nullCheck position i s = .error (cause q) s') ↔
        q = position ∧ test s.stack.length i)) (q : Nat) :
    (∃ s', run nullCheck 0 stream s = .error (cause q) s') ↔
      ∃ h : q < stream.length, Reaches nullCheck stream s q ∧
        test (depthBefore s.stack.length stream q) stream[q] := by
  have hdepth {p : Nat} {s'' : Emitter} (hrun : run nullCheck 0 (stream.take p) s = .ok () s'') :
      (s''.stack.length : Int) = depthBefore s.stack.length stream p :=
    length_stack_run (fun i hi => hret i (List.mem_of_mem_take hi)) hrun
  have hget {p : Nat} (hp : p < stream.length) : stream[p].opcode ≠ .ret :=
    hret _ (List.getElem_mem hp)
  constructor
  · rintro ⟨s', hrun⟩
    obtain ⟨p, hp, s'', hbefore, hfail⟩ := (run_eq_error_iff hret).1 hrun
    obtain ⟨hq, htest⟩ := (hstep _ q _ s'' (hget hp)).1 ⟨s', hfail⟩
    obtain rfl : q = p := hq.trans (Nat.zero_add p)
    exact ⟨hp, ⟨s'', hbefore⟩, hdepth hbefore ▸ htest⟩
  · rintro ⟨hp, ⟨s'', hbefore⟩, htest⟩
    obtain ⟨s', hfail⟩ := (hstep (0 + q) q _ s'' (hget hp)).2
      ⟨(Nat.zero_add q).symm, (hdepth hbefore).symm ▸ htest⟩
    exact ⟨s', (run_eq_error_iff hret).2 ⟨q, hp, s'', hbefore, hfail⟩⟩

/-- A stream that fails does so at some position, whatever follows there. -/
theorem exists_position_of_error (hret : ∀ i ∈ stream, i.opcode ≠ .ret) {e : CompileError}
    (h : run nullCheck 0 stream s = .error e s') :
    ∃ p < stream.length, Reaches nullCheck stream s p ∧
      ∀ rest, emit nullCheck (stream.take (p + 1) ++ rest) s = .error e s' := by
  obtain ⟨p, hp, s'', hbefore, hfail⟩ := (run_eq_error_iff hret).1 h
  refine ⟨p, hp, ⟨s'', hbefore⟩, fun rest => ?_⟩
  have htake : ∀ i ∈ stream.take (p + 1), i.opcode ≠ .ret :=
    fun i hi => hret i (List.mem_of_mem_take hi)
  have hprefix : run nullCheck 0 (stream.take (p + 1)) s = .error e s' := by
    refine (run_eq_error_iff htake).2 ⟨p, by rw [List.length_take]; omega, s'', ?_, ?_⟩
    · rwa [List.take_take, Nat.min_eq_left (Nat.le_succ p)]
    · rwa [List.getElem_take]
  refine bind_eq_error_iff.2 (.inl ?_)
  rw [run_append htake]
  exact bind_eq_error_iff.2 (.inl hprefix)

/-- A stream that succeeds from an empty stack spells one forest, and leaves the values of its
expressions behind. -/
theorem exists_forest_of_run (hret : ∀ i ∈ stream, i.opcode ≠ .ret) (hs : s.stack = [])
    (h : run nullCheck 0 stream s = .ok () s') :
    ∃ forest, Expr.spelling forest = stream ∧
      List.Forall₂ (Operand.Computes nullCheck s'.pool) s'.stack forest.reverse := by
  have hempty : Models nullCheck s [] := by
    unfold Models
    rw [hs]
    exact .nil
  obtain ⟨trees, hread, hmodels⟩ := run_models hret hempty h
  refine ⟨trees.reverse, Expr.spelling_of_foldlM_shift? hread, ?_⟩
  rw [List.reverse_reverse]
  exact hmodels.imp fun _ _ hv => hv.computes

/-- Emission of a stream, from a stack of any depth.

It fails for want of an operand at the first position where the depth, counted from the leaves
and the binary operators before it, is less than the arity of the operator, and it fails on an
operation that must not compile at the first such operation, provided everything before the
position succeeds. What stands behind the first terminator, or behind the position of a failure,
has no influence.

Where it succeeds from an empty stack, the instructions that are run are the spelling of one and
only one forest. The stack then holds the values of its expressions in their order, and the
result is the value of the last one; there is none just in case no instruction is run. -/
theorem emit_postfix (nullCheck : Bool) (stream : List Instruction) (s : Emitter) :
    (∀ p, (∃ s', emit nullCheck stream s = .error (.stackUnderflow p) s') ↔
      ∃ h : p < (beforeRet stream).length, Reaches nullCheck (beforeRet stream) s p ∧
        depthBefore s.stack.length (beforeRet stream) p < (beforeRet stream)[p].opcode.arity) ∧
    (∀ p, (∃ s', emit nullCheck stream s = .error (.invalidInstruction p) s') ↔
      ∃ h : p < (beforeRet stream).length, Reaches nullCheck (beforeRet stream) s p ∧
        (beforeRet stream)[p].opcode = .invalid) ∧
    (∀ stream', beforeRet stream' = beforeRet stream →
      emit nullCheck stream' s = emit nullCheck stream s) ∧
    (∀ e s', emit nullCheck stream s = .error e s' →
      ∃ p < (beforeRet stream).length, Reaches nullCheck (beforeRet stream) s p ∧
        ∀ rest, emit nullCheck ((beforeRet stream).take (p + 1) ++ rest) s = .error e s') ∧
    ∀ top s', s.stack = [] → emit nullCheck stream s = .ok top s' →
      ∃ forest, (∀ forest', Expr.spelling forest' = beforeRet stream ↔ forest' = forest) ∧
        forest.length = s'.stack.length ∧
        List.Forall₂ (Operand.Computes nullCheck s'.pool) s'.stack.reverse forest ∧
        (top = none ↔ beforeRet stream = []) ∧
        ∀ v, top = some v → ∃ e, forest.getLast? = some e ∧ v.Computes nullCheck s'.pool e := by
  have hret : ∀ i ∈ beforeRet stream, i.opcode ≠ .ret :=
    fun i hi => opcode_ne_ret_of_mem_beforeRet hi
  refine ⟨fun p => ?_, fun p => ?_, fun stream' h => ?_, fun e s' h => ?_, fun top s' hs h => ?_⟩
  · simp only [emit_eq_error_iff]
    exact exists_run_eq_error_iff .stackUnderflow (fun depth i => depth < i.opcode.arity) hret
      (fun position q i s hi => (step_stackUnderflow_iff hi q).trans (by simp)) p
  · simp only [emit_eq_error_iff]
    exact exists_run_eq_error_iff .invalidInstruction (fun _ i => i.opcode = .invalid) hret
      (fun position q i s hi => step_invalidInstruction_iff hi q) p
  · rw [emit, emit, ← run_beforeRet, h, run_beforeRet]
  · exact exists_position_of_error hret (emit_eq_error_iff.1 h)
  · obtain ⟨hrun, rfl⟩ := emit_eq_ok_iff.1 h
    obtain ⟨forest, hspelling, hvalues⟩ := exists_forest_of_run hret hs hrun
    have hlength : forest.length = s'.stack.length := by
      rw [hvalues.length_eq, List.length_reverse]
    refine ⟨forest, fun forest' => ⟨fun h => ?_, fun h => h ▸ hspelling⟩, hlength, ?_, ?_,
      fun v hv => ?_⟩
    · exact Expr.spelling_injective (h.trans hspelling.symm)
    · rw [← List.forall₂_reverse_iff, List.reverse_reverse]
      exact hvalues
    · rw [List.head?_eq_none_iff, ← hspelling, Expr.spelling_eq_nil_iff, ← List.length_eq_zero_iff,
        ← hlength, List.length_eq_zero_iff]
    · obtain ⟨rest, hstack⟩ := List.head?_eq_some_iff.1 hv
      rw [hstack] at hvalues
      obtain ⟨e, trees, he, -, hforest⟩ := List.forall₂_cons_left_iff.1 hvalues
      exact ⟨e, by rw [List.getLast?_eq_head?_reverse, hforest, List.head?_cons], he⟩

end Emission

/-- A predicate computes the value of the last expression its stream spells, on its own pool and on
every later one. -/
theorem Predicate.exists_expr_of_compile_extends {stream : List Instruction} {p : Predicate}
    (h : compile nullCheck stream = .ok p) :
    ∃ (forest : List Expr) (e : Expr), beforeRet stream = Expr.spelling forest ++ e.stream ∧
      ∀ memory row later, p.pool.Extends later →
        e.value nullCheck memory row =
          .ok ⟨p.dataType, p.provenance, p.code.eval ⟨memory, later, row⟩⟩ := by
  obtain ⟨top, s, code, hemit, hregister, rfl⟩ := compile_eq_ok_iff.1 h
  obtain ⟨hrun, htop⟩ := Emission.emit_eq_ok_iff.1 hemit
  obtain ⟨forest, hspelling, hvalues⟩ := Emission.exists_forest_of_run
    (fun i hi => opcode_ne_ret_of_mem_beforeRet hi) rfl hrun
  obtain ⟨below, hstack⟩ := List.head?_eq_some_iff.1 htop.symm
  rw [hstack] at hvalues
  obtain ⟨e, trees, ⟨code', hcode, hvalue⟩, -, hforest⟩ := List.forall₂_cons_left_iff.1 hvalues
  obtain rfl : code' = code :=
    Location.register.inj (hcode.symm.trans (Operand.register_eq_ok.1 hregister))
  refine ⟨trees.reverse, e, ?_, hvalue⟩
  rw [← hspelling, List.reverse_eq_iff.1 hforest, List.reverse_cons, Expr.spelling_append,
    Expr.spelling_singleton]

/-- A predicate has the value of the last expression its stream spells. -/
theorem Predicate.exists_expr_of_compile {stream : List Instruction} {p : Predicate}
    (h : compile nullCheck stream = .ok p) :
    ∃ (forest : List Expr) (e : Expr), beforeRet stream = Expr.spelling forest ++ e.stream ∧
      ∀ memory row, e.value nullCheck memory row = .ok (p.result memory row) := by
  obtain ⟨forest, e, hstream, hvalue⟩ := exists_expr_of_compile_extends h
  exact ⟨forest, e, hstream, fun memory row => hvalue memory row _ (.refl _)⟩

end RowFilter
