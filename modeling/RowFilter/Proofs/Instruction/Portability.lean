import RowFilter.Proofs.Arith.Difference
import RowFilter.Proofs.Comparison.Floats
import RowFilter.Proofs.Expr.Compilation
import RowFilter.Proofs.Instruction.WireForm
import RowFilter.Proofs.Memory.Bytes

/-!
# Compiling from records

Compiling the records of a stream is compiling the wire forms of its instructions. That is the
same as compiling the stream itself as long as every literal means the same in both forms, which
fails for two kinds of literals only: a float given for a wide integer loses its sign extension,
and an integer given for a float becomes the float with its bits.

That each such literal changes the rows of some stream takes a stream that tells any two values
apart. Wide integers are compared exactly. Floats are compared up to a tolerance, which two close
ones pass, so that their difference is first multiplied by infinity.

## Main definitions

- `Construction` — a use of one of the constructors of instructions.
- `Construction.Portable` — whether the constructed instruction means the same in a record.
- `Construction.RoutesDiffer` — a stream that selects other rows from its records.

The main statement is `Construction.compileBytes_encodeAll`.
-/

namespace RowFilter

namespace Instruction

/-- The instruction is no literal whose wire form is read as something else. -/
def Portable (i : Instruction) : Prop :=
  i.opcode = .leaf .literal → ∀ t, i.dataType = .ok t →
    (t = .i128 → i.wireForm.payload.wide = i.payload.wide) ∧
      (t.isFloat = true → i.wireForm.payload.double = i.payload.double)

@[simp] theorem dataType_wireForm (i : Instruction) : i.wireForm.dataType = i.dataType := by
  rw [dataType, dataType, options_wireForm]

@[simp] theorem index_wireForm (i : Instruction) : i.wireForm.index = i.index := by
  rw [index, index, low_wireForm]

theorem ofLiteral_wireForm {i : Instruction} (hop : i.opcode = .leaf .literal) (h : i.Portable) :
    Operand.ofLiteral i.wireForm = Operand.ofLiteral i := by
  unfold Operand.ofLiteral
  rw [dataType_wireForm]
  cases ht : i.dataType with
  | error e => rfl
  | ok t =>
    obtain ⟨hwide, hdouble⟩ := h hop t ht
    cases t with
    | i128 =>
      simp only [hwide rfl]
      rfl
    | f32 | f64 =>
      simp only [hdouble rfl]
      rfl
    | i8 | i16 | i32 | i64 | stringHeader | binaryHeader | varcharHeader =>
      simp only [low_wireForm]
      rfl

/-- A portable instruction has the same effect in its wire form. -/
theorem step_wireForm {i : Instruction} (h : i.Portable) (nullCheck : Bool) (position : Nat) :
    Emission.step nullCheck position i.wireForm = Emission.step nullCheck position i := by
  unfold Emission.step
  rw [opcode_wireForm]
  cases hop : i.opcode with
  | leaf op =>
    cases op with
    | var | column => simp only [Emission.leafOperand, dataType_wireForm, index_wireForm]
    | literal => simp only [Emission.leafOperand, ofLiteral_wireForm hop h]
  | invalid | ret | unary | binary => rfl

theorem run_map_wireForm {stream : List Instruction} (h : ∀ i ∈ stream, i.Portable)
    (nullCheck : Bool) (position : Nat) :
    Emission.run nullCheck position (stream.map wireForm) =
      Emission.run nullCheck position stream := by
  induction stream generalizing position with
  | nil => rfl
  | cons i rest ih =>
    have hi := step_wireForm (h i List.mem_cons_self) nullCheck position
    have hrest := ih (fun j hj => h j (List.mem_cons_of_mem i hj)) (position + 1)
    rw [List.map_cons, Emission.run, Emission.run, opcode_wireForm, hi, hrest]

end Instruction

namespace Selector

/-- The records of a stream compile like the wire forms of its instructions. -/
theorem compileBytes_encodeAll_eq {stream : List Instruction} (h : ∀ i ∈ stream, i.Tagged)
    (config : Config) :
    compileBytes (Instruction.encodeAll stream) config =
      compile (stream.map Instruction.wireForm) config := by
  rw [compileBytes, Instruction.decodeAll_encodeAll h]
  rfl

theorem compile_map_wireForm {stream : List Instruction} (h : ∀ i ∈ stream, i.Portable)
    (config : Config) :
    compile (stream.map Instruction.wireForm) config = compile stream config := by
  simp only [compile, Predicate.compile, Predicate.build, Emission.emit,
    Instruction.run_map_wireForm h]

end Selector

/-- A use of a constructor of instructions. -/
inductive Construction where
  | op (opcode : Opcode)
  | ret
  | var (t : DataType) (slot : BitVec 32)
  | column (t : DataType) (index : BitVec 32)
  | intLiteral (t : DataType) (value : BitVec 64)
  | wideLiteral (value : BitVec 128)
  | floatLiteral (t : DataType) (bits : BitVec 64)

namespace Construction

/-- The constructed instruction. -/
def instruction : Construction → Instruction
  | op opcode => .op opcode
  | ret => .ret
  | var t slot => .var t slot
  | column t index => .column t index
  | intLiteral t value => .intLiteral t value
  | wideLiteral value => .wideLiteral value
  | floatLiteral t bits => .floatLiteral t bits

/-- The constructed instruction means the same in a record: an integer given for a float has the
bits of the float it stands for, and a float given for a wide integer has no sign bit. -/
def Portable : Construction → Prop
  | intLiteral t value =>
    t.isFloat = true → BinaryFloat.ofInt BinaryFloat.double value.toInt = value
  | floatLiteral t bits => t = .i128 → bits.msb = false
  | op _ | ret | var _ _ | column _ _ | wideLiteral _ => True

theorem tagged_instruction (c : Construction) : c.instruction.Tagged := by
  have hleaf : ∀ op t payload, (Instruction.leaf op t payload).Tagged := by
    intro op t payload _ _
    refine ⟨t, ?_⟩
    cases t <;> rfl
  intro op hop
  cases c with
  | op opcode => exact ⟨.i8, rfl⟩
  | ret => cases hop
  | var | column | intLiteral | wideLiteral | floatLiteral => exact hleaf _ _ _ op hop

theorem tagged_of_mem_map (stream : List Construction) :
    ∀ i ∈ stream.map instruction, i.Tagged := by
  intro i hi
  obtain ⟨c, -, rfl⟩ := List.mem_map.1 hi
  exact c.tagged_instruction

theorem portable_instruction {c : Construction} (h : c.Portable) : c.instruction.Portable := by
  intro hop t ht
  cases c with
  | op opcode =>
    obtain rfl : .i8 = t := Except.ok.inj ht
    exact ⟨DataType.noConfusion, Bool.noConfusion⟩
  | ret | var | column => cases hop
  | wideLiteral value =>
    obtain rfl : .i128 = t := Except.ok.inj ht
    exact ⟨fun _ => rfl, Bool.noConfusion⟩
  | intLiteral t' value =>
    obtain rfl : t' = t := Except.ok.inj ((Instruction.dataType_leaf _ _ _).symm.trans ht)
    refine ⟨fun ht => ?_, fun hfloat => ?_⟩
    · subst ht
      rfl
    · have hvalue : Payload.double (.int (value.signExtend 128)) = value := by
        rw [Payload.double, BitVec.toInt_signExtend_of_le (by decide), h hfloat]
      change (Instruction.leaf _ _ _).wireForm.payload.double = Payload.double _
      rw [Instruction.wireForm_of_isFloat hfloat, Payload.low_int_signExtend]
      exact hvalue.symm
  | floatLiteral t' bits =>
    obtain rfl : t' = t := Except.ok.inj ((Instruction.dataType_leaf _ _ _).symm.trans ht)
    refine ⟨fun ht => ?_, fun hfloat => ?_⟩
    · subst ht
      exact (BitVec.signExtend_eq_setWidth_of_msb_false (h rfl)).symm
    · change (Instruction.leaf _ _ _).wireForm.payload.double = Payload.double _
      rw [Instruction.wireForm_of_isFloat hfloat, Payload.low_float]
      rfl

/-- The two ways to compile a stream select different rows: both give a selector, and there is a row
that only one of them accepts. -/
def RoutesDiffer (stream : List Construction) (config : Config) : Prop :=
  ∃ memory row accepted,
    (Selector.compile (stream.map instruction) config).map (·.selects memory row) = .ok accepted ∧
      (Selector.compileBytes (Instruction.encodeAll (stream.map instruction)) config).map
        (·.selects memory row) = .ok !accepted

/-- A memory whose columns start with an element of `n` bytes. -/
def elementMemory (n : Nat) (element : BitVec (8 * n)) : Memory :=
  ⟨fun _ => .ofBytes (LittleEndian.bytes n element).toArray, fun _ _ => 0, fun _ => 0⟩

theorem read_elementMemory {n : Nat} (hn : n < UInt64.size) (element : BitVec (8 * n)) :
    ((elementMemory n element).column 0).read n 0 = element :=
  (Buffer.read_ofBytes_bytes (Nat.le_refl n) hn element).trans (BitVec.setWidth_eq element)

/-- A stream that compares a wide integer column with a literal. -/
def wideProbe (c : Construction) : List Construction :=
  [column .i128 0, c, op (.binary (.equality .eq))]

theorem selects_wideProbe (payload : Payload) (config : Config) (element : BitVec 128) :
    (Selector.compile [.column .i128 0, .leaf .literal .i128 payload, .op (.binary (.equality .eq))]
        config).map (·.selects (elementMemory 16 element) 0) = .ok (element == payload.wide) := by
  have hmap := Selector.map_selects_compile_stream config
    (.binary (.equality .eq) 0 (.int 0)
      (.leaf .column (BitVec.ofNat 32 DataType.i128.tag) (.int 0))
      (.leaf .literal (BitVec.ofNat 32 DataType.i128.tag) payload))
    (elementMemory 16 element) 0
  refine hmap.trans ?_
  show Except.ok (Word.ofBool
    (((elementMemory 16 element).column 0).read 16 0 == payload.wide)).isNonzero = _
  rw [read_elementMemory (by decide), Word.isNonzero_ofBool]

open BinaryFloat (Bits double infinity isNaN mul nan sub)

/-- A stream that compares a 64-bit float column with a literal exactly, not up to the tolerance:
their difference times infinity is not a number if they are equal. -/
def doubleProbe (c : Construction) : List Construction :=
  [column .f64 0, c, op (.binary (.arith .sub)), floatLiteral .f64 infinity,
    op (.binary (.arith .mul)), floatLiteral .f64 (nan double), op (.binary (.equality .eq))]

theorem selects_doubleProbe {t : DataType} (h : t.isFloat = true) (payload : Payload)
    (config : Config) (element : Bits double) :
    (Selector.compile [.column .f64 0, .leaf .literal t payload, .op (.binary (.arith .sub)),
        .floatLiteral .f64 infinity, .op (.binary (.arith .mul)), .floatLiteral .f64 (nan double),
        .op (.binary (.equality .eq))] config).map (·.selects (elementMemory 8 element) 0) =
      .ok (isNaN (mul (sub element payload.double) infinity)) := by
  have hmap := Selector.map_selects_compile_stream config
    (.binary (.equality .eq) 0 (.int 0)
      (.binary (.arith .mul) 0 (.int 0)
        (.binary (.arith .sub) 0 (.int 0)
          (.leaf .column (BitVec.ofNat 32 DataType.f64.tag) (.int 0))
          (.leaf .literal (BitVec.ofNat 32 t.tag) payload))
        (.leaf .literal (BitVec.ofNat 32 DataType.f64.tag) (.float infinity)))
      (.leaf .literal (BitVec.ofNat 32 DataType.f64.tag) (.float (nan double))))
    (elementMemory 8 element) 0
  refine hmap.trans ?_
  cases t
  case f32 | f64 =>
    show Except.ok (Word.ofBool (Floating.near Floating.doubleTolerance
      (mul (sub (((elementMemory 8 element).column 0).read 8 0) payload.double) infinity)
      (nan double))).isNonzero = _
    rw [read_elementMemory (by decide), Floating.near_nan, Word.isNonzero_ofBool]
  all_goals exact absurd h (by decide)

/-- The bits of an integer are not its float, and some column tells them apart: the float itself,
or zero if the bits are no number. -/
theorem exists_isNaN_ne {value : Bits double} (h : BinaryFloat.ofInt double value.toInt ≠ value) :
    ∃ element : Bits double,
      isNaN (mul (sub element value) infinity) =
        !isNaN (mul (sub element (BinaryFloat.ofInt double value.toInt)) infinity) := by
  have hnumber := BinaryFloat.isNaN_ofInt double value.toInt
  have hzero : BinaryFloat.isZero
      (BinaryFloat.unpack double (BinaryFloat.ofInt double value.toInt)) = false := by
    rw [BinaryFloat.isZero_ofInt, decide_eq_false_iff_not]
    intro hint
    obtain rfl : value = 0 := BitVec.eq_of_toInt_eq hint
    exact h rfl
  generalize BinaryFloat.ofInt double value.toInt = nearest at h hnumber hzero
  cases hvalue : isNaN value with
  | true =>
    refine ⟨0, ?_⟩
    have hsub : sub 0 value = nan double := Floating.arith_eq_nan .sub (.inr hvalue)
    have hmul : mul (sub 0 value) infinity = nan double :=
      Floating.arith_eq_nan .mul (.inl (hsub ▸ BinaryFloat.isNaN_nan double))
    have hne : BinaryFloat.eq 0 nearest = false := by
      refine Bool.eq_false_iff.2 fun heq => ?_
      obtain rfl := BinaryFloat.bits_eq_of_eq (.inr hzero) heq
      cases hzero
    rw [hmul, BinaryFloat.isNaN_nan, BinaryFloat.isNaN_mul_sub_infinity rfl hnumber, hne]
    rfl
  | false =>
    refine ⟨nearest, ?_⟩
    have hne : BinaryFloat.eq nearest value = false :=
      Bool.eq_false_iff.2 fun heq => h (BinaryFloat.bits_eq_of_eq (.inl hzero) heq)
    rw [BinaryFloat.isNaN_mul_sub_infinity hnumber hvalue,
      BinaryFloat.isNaN_mul_sub_infinity hnumber hnumber, hne, BinaryFloat.eq_self hnumber]
    rfl

/-- For every other construction there is a stream whose rows change in records. -/
theorem exists_routesDiffer {c : Construction} (h : ¬c.Portable) :
    ∃ others : List Construction, c ∈ others ∧ (∀ d ∈ others, d = c ∨ d.Portable) ∧
      ∀ config, RoutesDiffer others config := by
  cases c with
  | op | ret | var | column | wideLiteral => exact absurd trivial h
  | intLiteral t value =>
    obtain ⟨hfloat, hvalue⟩ := Classical.not_imp.1 h
    refine ⟨doubleProbe (.intLiteral t value), by simp [doubleProbe], ?_, fun config => ?_⟩
    · simp [doubleProbe, Portable]
    · obtain ⟨element, helement⟩ := exists_isNaN_ne hvalue
      refine ⟨elementMemory 8 element, 0, _, selects_doubleProbe hfloat _ config element, ?_⟩
      rw [Selector.compileBytes_encodeAll_eq (tagged_of_mem_map _)]
      change (Selector.compile [.column .f64 0, (Instruction.leaf _ _ _).wireForm, _, _, _, _, _]
        config).map _ = _
      rw [Instruction.wireForm_of_isFloat hfloat, Payload.low_int_signExtend]
      refine (selects_doubleProbe hfloat (.float value) config element).trans ?_
      rw [Payload.double, Payload.double, BitVec.toInt_signExtend_of_le (by decide)]
      exact congrArg Except.ok helement
  | floatLiteral t bits =>
    obtain ⟨rfl, hmsb⟩ := Classical.not_imp.1 h
    refine ⟨wideProbe (.floatLiteral .i128 bits), by simp [wideProbe], ?_, fun config => ?_⟩
    · simp [wideProbe, Portable]
    · refine ⟨elementMemory 16 (bits.signExtend 128), 0, _, selects_wideProbe _ config _, ?_⟩
      rw [Selector.compileBytes_encodeAll_eq (tagged_of_mem_map _)]
      have hne : bits.signExtend 128 ≠ bits.setWidth 128 := by
        intro heq
        have hsign := congrArg BitVec.msb heq
        rw [BitVec.msb_signExtend, BitVec.msb_setWidth, BitVec.getLsbD_of_ge _ _ (by decide)]
          at hsign
        exact hmsb hsign
      refine (selects_wideProbe (.int (bits.setWidth 128)) config _).trans ?_
      show Except.ok (bits.signExtend 128 == bits.setWidth 128) =
        Except.ok !(bits.signExtend 128 == bits.signExtend 128)
      rw [beq_self_eq_true, beq_eq_false_iff_ne.2 hne]
      rfl

/-- Compiling a constructed stream from its records. In general it gives what the wire forms
compile to; where all constructions are portable that is the same error or the same selector,
with the same rows, as the stream itself compiles to. The condition is exact for each
construction: one that is not portable occurs in a stream that, though all the rest is portable,
selects other rows from its records. -/
theorem compileBytes_encodeAll (stream : List Construction) (config : Config) :
    Selector.compileBytes (Instruction.encodeAll (stream.map instruction)) config =
        Selector.compile (stream.map fun c => c.instruction.wireForm) config ∧
      ((∀ c ∈ stream, c.Portable) →
        Selector.compileBytes (Instruction.encodeAll (stream.map instruction)) config =
          Selector.compile (stream.map instruction) config) ∧
      ∀ c ∈ stream, ¬c.Portable →
        ∃ others : List Construction, c ∈ others ∧ (∀ d ∈ others, d = c ∨ d.Portable) ∧
          RoutesDiffer others config := by
  have hwire := Selector.compileBytes_encodeAll_eq (tagged_of_mem_map stream) config
  refine ⟨by rw [hwire, List.map_map]; rfl, fun h => ?_, fun c _ h => ?_⟩
  · rw [hwire]
    refine Selector.compile_map_wireForm (fun i hi => ?_) config
    obtain ⟨c, hc, rfl⟩ := List.mem_map.1 hi
    exact portable_instruction (h c hc)
  · obtain ⟨others, hmem, hothers, hdiffer⟩ := exists_routesDiffer h
    exact ⟨others, hmem, hothers, hdiffer config⟩

/-- A memory whose columns start with minus one as a 64-bit float. -/
def minusOneMemory : Memory :=
  elementMemory 8 0xBFF0000000000000#64

/-- Both kinds of literals change a selection. The bits of negative zero as a wide integer equal
their sign extension, but not when they are read from a record. A column of minus one equals
minus one as a float, but from a record that literal is no number. -/
theorem selects_records_ne :
    let wide := [floatLiteral .i128 (BitVec.intMin 64),
      wideLiteral ((BitVec.intMin 64).signExtend 128), op (.binary (.equality .eq))]
    let float := [column .f64 0, intLiteral .f64 (-1), op (.binary (.equality .eq))]
    let direct := fun stream : List Construction =>
      (Selector.compile (stream.map instruction) {}).map (·.selects minusOneMemory 0)
    let fromRecords := fun stream : List Construction =>
      (Selector.compileBytes (Instruction.encodeAll (stream.map instruction)) {}).map
        (·.selects minusOneMemory 0)
    (direct wide = .ok true ∧ fromRecords wide = .ok false) ∧
      direct float = .ok true ∧ fromRecords float = .ok false := by
  -- The evaluator needs no pool, so that its values can be computed.
  have hselects : ∀ (leaf : LeafOp) (t t' : DataType) (p p' : Payload),
      (Selector.compile [.leaf leaf t p, .leaf .literal t' p', .op (.binary (.equality .eq))]
        {}).map (·.selects minusOneMemory 0) = _ := fun leaf t t' p p' =>
    Selector.map_selects_compile_stream {} (.binary (.equality .eq) 0 (.int 0)
      (.leaf leaf (BitVec.ofNat 32 t.tag) p) (.leaf .literal (BitVec.ofNat 32 t'.tag) p')) _ _
  refine ⟨⟨?_, ?_⟩, ?_, ?_⟩
  · exact hselects .literal .i128 .i128 (.float (BitVec.intMin 64))
      (.int ((BitVec.intMin 64).signExtend 128))
  · dsimp only
    rw [Selector.compileBytes_encodeAll_eq (tagged_of_mem_map _)]
    exact hselects .literal .i128 .i128 (.int ((BitVec.intMin 64).setWidth 128))
      (.int ((BitVec.intMin 64).signExtend 128))
  · exact hselects .column .f64 .f64 (.int 0) (.int (-1))
  · dsimp only
    rw [Selector.compileBytes_encodeAll_eq (tagged_of_mem_map _)]
    exact hselects .column .f64 .f64 (.int 0) (.float (-1))

end Construction

end RowFilter
