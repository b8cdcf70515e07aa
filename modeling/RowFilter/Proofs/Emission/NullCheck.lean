import RowFilter.Predicate
import RowFilter.Proofs.Code.NullFree

/-!
# Compilation with and without null checks

The null check is a choice made once for a whole stream, and nothing in a compilation but the
flags in the code depends on it. So the compilation without it is the compilation with it, with
the checks erased from every operand on the stack: it fails alike, it pools the same constants
and it keeps the same types. The two predicates then differ on a row only if a null reaches one
of the checks there.

## Main definitions

- `Operand.erase`, `Emitter.erase`, `Predicate.erase` — the null checks erased from the code held.
- `Emission.Erases h checked unchecked` — two steps, the second of which runs on erased emitters as
  the first one does on emitters, up to erasure.

## Main statements

- `Emission.step_erases`, `Emission.run_erases` — an instruction and a stream.
- `Predicate.compile_erase` — the predicates of a stream.
- `Predicate.compile_nullCheck` — when they have the same value on a row.
-/

namespace RowFilter

/-- A location with the null checks of its code erased. -/
def Location.erase : Location → Location
  | .literal value => .literal value
  | .memory address => .memory address
  | .register code => .register code.erase

namespace Operand

/-- An operand with the null checks of its code erased. -/
def erase (v : Operand) : Operand :=
  { v with location := v.location.erase }

@[simp] theorem dataType_erase (v : Operand) : v.erase.dataType = v.dataType :=
  rfl

@[simp] theorem isLiteral_erase (v : Operand) : v.erase.isLiteral = v.isLiteral := by
  obtain ⟨location, t, provenance⟩ := v
  cases location <;> rfl

theorem register_erase (v : Operand) : v.erase.register = Code.erase <$> v.register := by
  obtain ⟨location, t, provenance⟩ := v
  cases location <;> rfl

/-- A loaded literal is a constant or a read of the pool, which are not checked. -/
theorem erase_map_loadInt (target : DataType) (value : BitVec 64) :
    erase <$> loadInt target value = loadInt target value := by
  cases target
  case i8 | i16 | i32 =>
    by_cases h : withinInt32 value = true
    · simp only [loadInt, if_pos h]
      rfl
    · simp only [loadInt, if_neg h]
      rfl
  all_goals rfl

theorem erase_map_loadFloat (target : DataType) (bits : BitVec 64) :
    erase <$> loadFloat target bits = loadFloat target bits := by
  unfold loadFloat
  split <;> rfl

theorem loadAs_erase (target : DataType) (v : Operand) :
    loadAs target v.erase = erase <$> loadAs target v := by
  obtain ⟨location, t, provenance⟩ := v
  cases location with
  | literal value =>
    cases value with
    | int value => exact (erase_map_loadInt target value).symm
    | float bits => exact (erase_map_loadFloat target bits).symm
  | memory address => rfl
  | register code => rfl

theorem load_erase (v : Operand) : v.erase.load = erase <$> v.load :=
  loadAs_erase v.dataType v

theorem loadPair_erase (lhs rhs : Operand) :
    loadPair lhs.erase rhs.erase = Prod.map erase erase <$> loadPair lhs rhs := by
  have htypes : loadTypes lhs.erase rhs.erase = loadTypes lhs rhs := by
    simp only [loadTypes, isLiteral_erase, dataType_erase]
  simp only [loadPair, htypes, loadAs_erase, bind_map_left, map_bind, map_pure, Prod.map]

theorem promote_erase (nullCheck : Bool) (source target : Rank) (v : Operand) :
    promote false source target v.erase = erase <$> promote nullCheck source target v := by
  unfold promote
  split
  · rfl
  · rw [register_erase, bind_map_left, map_bind]
    refine bind_congr fun code => ?_
    split
    · rfl
    · rfl

theorem unify_erase (nullCheck : Bool) (lhs rhs : Operand) :
    unify false lhs.erase rhs.erase = Prod.map erase erase <$> unify nullCheck lhs rhs := by
  unfold unify
  rw [dataType_erase, dataType_erase]
  split
  · split
    · rfl
    · simp only [promote_erase nullCheck, bind_map_left, map_bind, map_pure, Prod.map]
  · split
    · rfl
    · rfl

theorem neg_erase (v : Operand) : neg v.erase = erase <$> neg v := by
  rw [neg, neg, register_erase, bind_map_left, map_bind]
  refine bind_congr fun code => ?_
  rw [dataType_erase]
  cases v.dataType <;> rfl

theorem not_erase (v : Operand) : not v.erase = erase <$> not v := by
  rw [not, not, register_erase, bind_map_left, dataType_erase]
  split
  · rw [map_bind]
    rfl
  · rfl

theorem unary_erase (op : UnaryOp) (v : Operand) :
    unary op v.erase = erase <$> unary op v := by
  cases op with
  | neg => exact neg_erase v
  | not => exact not_erase v

theorem logic_erase (op : LogicOp) (lhs rhs : Operand) :
    logic op lhs.erase rhs.erase = erase <$> logic op lhs rhs := by
  unfold logic
  rw [dataType_erase, dataType_erase, register_erase, register_erase]
  split
  · rfl
  · split
    · rfl
    · simp only [bind_map_left, map_bind]
      rfl

theorem equality_erase (op : EqualityOp) (lhs rhs : Operand) :
    equality op lhs.erase rhs.erase = erase <$> equality op lhs rhs := by
  simp only [equality, register_erase, bind_map_left, map_bind]
  rfl

theorem order_erase (op : OrderOp) (nullCheck : Bool) (lhs rhs : Operand) :
    order op false lhs.erase rhs.erase = erase <$> order op nullCheck lhs rhs := by
  simp only [order, register_erase, bind_map_left, map_bind]
  refine bind_congr fun a => bind_congr fun b => ?_
  rw [dataType_erase]
  split
  · rfl
  · rfl

theorem arith_erase (op : ArithOp) (nullCheck : Bool) (lhs rhs : Operand) :
    arith op false lhs.erase rhs.erase = erase <$> arith op nullCheck lhs rhs := by
  simp only [arith, register_erase, bind_map_left, map_bind]
  refine bind_congr fun a => bind_congr fun b => ?_
  rw [dataType_erase]
  split
  · rfl
  · rfl

theorem binary_erase (op : BinaryOp) (nullCheck : Bool) (lhs rhs : Operand) :
    binary op false lhs.erase rhs.erase = erase <$> binary op nullCheck lhs rhs := by
  cases op with
  | logic op => exact logic_erase op lhs rhs
  | equality op => exact equality_erase op lhs rhs
  | order op => exact order_erase op nullCheck lhs rhs
  | arith op => exact arith_erase op nullCheck lhs rhs

/-- A leaf is read without a check. -/
theorem erase_map_ofVariable (t : DataType) (index : BitVec 32) :
    erase <$> ofVariable t index = ofVariable t index := by
  rw [ofVariable, map_bind]
  rfl

theorem erase_map_ofColumn (t : DataType) (index : BitVec 32) :
    erase <$> ofColumn t index = ofColumn t index := by
  rw [ofColumn, map_bind]
  refine bind_congr fun column => ?_
  cases t <;> rfl

theorem erase_map_ofLiteral (i : Instruction) : erase <$> ofLiteral i = ofLiteral i := by
  rw [ofLiteral, map_bind]
  refine bind_congr fun t => ?_
  cases t <;> rfl

end Operand

/-- An emitter with the null checks of its operands erased. -/
def Emitter.erase (s : Emitter) : Emitter :=
  { s with stack := s.stack.map Operand.erase }

theorem Emitter.length_stack_erase (s : Emitter) : s.erase.stack.length = s.stack.length :=
  List.length_map _

/-- A predicate with the null checks of its code erased. -/
def Predicate.erase (p : Predicate) : Predicate :=
  { p with code := p.code.erase }

namespace Emission

variable {α β γ δ : Type}

/-- An outcome with the null checks erased from the emitter, and from the result by `h`. -/
def eraseOutcome (h : α → β) :
    EStateM.Result CompileError Emitter α → EStateM.Result CompileError Emitter β
  | .ok a s => .ok (h a) s.erase
  | .error e s => .error e s.erase

/-- On an erased emitter, the second step does what the first one does on the emitter itself. -/
def Erases (h : α → β) (checked : Emission α) (unchecked : Emission β) : Prop :=
  ∀ s, unchecked s.erase = eraseOutcome h (checked s)

namespace Erases

theorem pure (h : α → β) (a : α) :
    Erases h (Pure.pure a : Emission α) (Pure.pure (h a) : Emission β) :=
  fun _ => rfl

theorem throw (h : α → β) (e : CompileError) :
    Erases h (throw e : Emission α) (throw e : Emission β) :=
  fun _ => rfl

theorem bind {h : α → β} {k : γ → δ} {checked : Emission α} {unchecked : Emission β}
    {f : α → Emission γ} {g : β → Emission δ} (hfirst : Erases h checked unchecked)
    (hnext : ∀ a, Erases k (f a) (g (h a))) :
    Erases k (checked >>= f) (unchecked >>= g) := by
  intro s
  change EStateM.bind unchecked g s.erase = eraseOutcome k (EStateM.bind checked f s)
  unfold EStateM.bind
  rw [hfirst s]
  cases checked s with
  | ok a s => exact hnext a s
  | error e s => rfl

theorem pooling {h : α → β} {checked : StateM LiteralPool α} {unchecked : StateM LiteralPool β}
    (heq : unchecked = h <$> checked) :
    Erases h (pooling checked) (pooling unchecked) := by
  subst heq
  exact fun _ => rfl

theorem deciding {h : α → β} {checked : Except CompileError α} {unchecked : Except CompileError β}
    (heq : unchecked = h <$> checked) :
    Erases h (deciding checked) (deciding unchecked) := by
  subst heq
  cases checked with
  | ok a => exact fun _ => rfl
  | error e => exact fun _ => rfl

theorem poolingOrFail {h : α → β} {checked : StateT LiteralPool (Except CompileError) α}
    {unchecked : StateT LiteralPool (Except CompileError) β} (heq : unchecked = h <$> checked) :
    Erases h (poolingOrFail checked) (poolingOrFail unchecked) := by
  subst heq
  intro s
  have hrun : (h <$> checked) s.erase.pool = (fun r => (h r.1, r.2)) <$> checked s.pool :=
    StateT.run_map h checked s.pool
  rw [Emission.poolingOrFail, Emission.poolingOrFail, hrun]
  cases checked s.pool with
  | ok r => rfl
  | error e => rfl

theorem pop (position : Nat) :
    Erases Operand.erase (Emission.pop position) (Emission.pop position) := by
  rintro ⟨pool, stack⟩
  cases stack <;> rfl

theorem push (v : Operand) : Erases id (Emission.push v) (Emission.push v.erase) :=
  fun _ => rfl

theorem peek : Erases (Option.map Operand.erase) Emission.peek Emission.peek := by
  rintro ⟨pool, stack⟩
  cases stack <;> rfl

theorem get : Erases Emitter.erase (get : Emission Emitter) (get : Emission Emitter) :=
  fun _ => rfl

end Erases

theorem leafOperand_erases (op : LeafOp) (i : Instruction) :
    Erases Operand.erase (leafOperand op i) (leafOperand op i) := by
  have hread : Erases id (deciding i.dataType) (deciding i.dataType) :=
    .deciding (id_map i.dataType).symm
  cases op with
  | var => exact hread.bind fun t => .deciding (Operand.erase_map_ofVariable t i.index).symm
  | column => exact hread.bind fun t => .deciding (Operand.erase_map_ofColumn t i.index).symm
  | literal => exact .poolingOrFail (Operand.erase_map_ofLiteral i).symm

theorem unary_erases (op : UnaryOp) (position : Nat) :
    Erases Operand.erase (unary op position) (unary op position) :=
  (Erases.pop position).bind fun v =>
    (Erases.pooling v.load_erase).bind fun v => .deciding (Operand.unary_erase op v)

theorem binary_erases (op : BinaryOp) (nullCheck : Bool) (position : Nat) :
    Erases Operand.erase (binary op nullCheck position) (binary op false position) :=
  (Erases.pop position).bind fun rhs => (Erases.pop position).bind fun lhs =>
    (Erases.pooling (Operand.loadPair_erase lhs rhs)).bind fun sides =>
      (Erases.deciding (Operand.unify_erase nullCheck sides.1 sides.2)).bind fun sides =>
        .deciding (Operand.binary_erase op nullCheck sides.1 sides.2)

/-- An instruction does the same with and without the null check, up to the checks themselves. -/
theorem step_erases (nullCheck : Bool) (position : Nat) (i : Instruction) :
    Erases id (step nullCheck position i) (step false position i) := by
  unfold step
  cases i.opcode with
  | invalid => exact .throw id _
  | ret => exact .pure id ()
  | leaf op => exact (leafOperand_erases op i).bind Erases.push
  | unary op => exact (unary_erases op position).bind Erases.push
  | binary op => exact (binary_erases op nullCheck position).bind Erases.push

/-- So does a stream. -/
theorem run_erases (nullCheck : Bool) (position : Nat) (stream : List Instruction) :
    Erases id (run nullCheck position stream) (run false position stream) := by
  induction stream generalizing position with
  | nil => exact .pure id ()
  | cons i rest ih =>
    unfold run
    split
    · exact .pure id ()
    · exact (step_erases nullCheck position i).bind fun _ => ih (position + 1)

theorem emit_erases (nullCheck : Bool) (stream : List Instruction) :
    Erases (Option.map Operand.erase) (emit nullCheck stream) (emit false stream) :=
  (run_erases nullCheck 0 stream).bind fun _ => .peek

end Emission

namespace Predicate

open Emission (Erases)

theorem build_erases (nullCheck : Bool) (stream : List Instruction) :
    Erases erase (build nullCheck stream) (build false stream) := by
  refine (Emission.emit_erases nullCheck stream).bind fun top => ?_
  cases top with
  | none => exact .throw erase _
  | some top =>
    refine (Erases.pooling top.load_erase).bind fun value => ?_
    refine (Erases.deciding value.register_erase).bind fun code => ?_
    refine Erases.get.bind fun s => ?_
    rw [s.length_stack_erase]
    exact .pure erase _

/-- Without the null check a stream compiles to the predicate it compiles to with it, with the
checks erased. -/
theorem compile_erase (nullCheck : Bool) (stream : List Instruction) :
    compile false stream = erase <$> compile nullCheck stream := by
  have h : build false stream {} = Emission.eraseOutcome erase (build nullCheck stream {}) :=
    build_erases nullCheck stream {}
  rw [compile, compile, h]
  cases build nullCheck stream {} with
  | ok p s => rfl
  | error e s => rfl

/-- The null check decides nothing but the value, and the value only where a null is met: the two
compilations of a stream fail alike, or yield the same type, provenance, stack depth and pool, and
the same value on every row on which the one without the check meets no null. -/
theorem compile_nullCheck (stream : List Instruction) :
    match compile false stream with
    | .error e => compile true stream = .error e
    | .ok p => ∃ q, compile true stream = .ok q ∧ q.dataType = p.dataType ∧
        q.provenance = p.provenance ∧ q.depth = p.depth ∧ q.pool = p.pool ∧
        ∀ memory row, p.code.nullFree ⟨memory, p.pool, row⟩ = true →
          q.value memory row = p.value memory row := by
  rw [compile_erase true stream]
  cases compile true stream with
  | error e => rfl
  | ok q => exact ⟨q, rfl, rfl, rfl, rfl, rfl, fun _ _ h => Code.eval_of_nullFree h⟩

end Predicate

end RowFilter
