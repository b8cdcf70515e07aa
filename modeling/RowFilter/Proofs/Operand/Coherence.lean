import RowFilter.Proofs.Operand.Application

/-!
# Register classes of operands

The type of an operand and the class of its register are settled in different places. Here they are
shown to agree: where an operand is in a register, the register has the class of the type. Loading,
promotion and the operators keep this, and with it every operation of the emitted code stands on
registers that it is defined on.

## Main definitions

- `Code.Built` — code in which every operation is defined on the classes of its operands.
- `Operand.Coherent` — the register class is that of the type.
- `Operand.Sound`, `Operand.Loaded` — coherence together with built code.

## Main statements

- `Operand.loadPair_loaded`, `Operand.unify_loaded` — the operands of a binary operator end up in
  registers of one class.
- `Operand.unary_loaded`, `Operand.binary_loaded` — so does the result, or its type is refused.
-/

namespace RowFilter

/-- Code put together from given code by operations that are defined on the classes of their
operands. Loads and constants need nothing. -/
inductive Code.Built (given : Code → Prop) : Code → Prop
  | given {code : Code} (h : given code) : Built given code
  | const (value : Word) : Built given (.const value)
  | load (t : DataType) (address : Address) : Built given (.load t address)
  | length (kind : FieldKind) (column : Nat) : Built given (.length kind column)
  | neg {arg : Code} (h : Built given arg) (hclass : arg.regClass ≠ .i128) : Built given (.neg arg)
  | not {arg : Code} (h : Built given arg) (hclass : arg.regClass = .i32) : Built given (.not arg)
  | logic {op : LogicOp} {lhs rhs : Code} (hl : Built given lhs) (hr : Built given rhs)
    (hlhs : lhs.regClass = .i32) (hrhs : rhs.regClass = .i32) : Built given (.logic op lhs rhs)
  | equality {op : EqualityOp} {lhs rhs : Code} (hl : Built given lhs) (hr : Built given rhs)
    (hclass : lhs.regClass = rhs.regClass) : Built given (.equality op lhs rhs)
  | order {op : OrderOp} {nullCheck : Bool} {lhs rhs : Code} (hl : Built given lhs)
    (hr : Built given rhs) (hclass : lhs.regClass = rhs.regClass) (hnarrow : lhs.regClass ≠ .i128) :
    Built given (.order op nullCheck lhs rhs)
  | arith {op : ArithOp} {nullCheck : Bool} {lhs rhs : Code} (hl : Built given lhs)
    (hr : Built given rhs) (hclass : lhs.regClass = rhs.regClass) (hnarrow : lhs.regClass ≠ .i128) :
    Built given (.arith op nullCheck lhs rhs)
  | widen {nullCheck : Bool} {source target : Rank} {arg : Code} (h : Built given arg)
    (hclass : arg.regClass = source.regClass) (hconverts : source.convertsTo target = true) :
    Built given (.widen nullCheck target.regClass arg)

theorem DataType.regClass_of_rank {t : DataType} {r : Rank} (h : t.rank = some r) :
    t.regClass = r.regClass := by
  cases t <;> cases h <;> rfl

theorem DataType.regClass_of_isInt32 {t : DataType} (h : t.isInt32 = true) : t.regClass = .i32 := by
  revert h
  cases t <;> decide

theorem DataType.regClass_ne_i128 {t : DataType} (h : (t.isInt || t.isFloat) = true) :
    t.regClass ≠ .i128 := by
  revert h
  cases t <;> decide

namespace Operand

variable {given : Code → Prop} {v l r : Operand}

/-- Where the operand is in a register, the class of the register is the one its type prescribes. -/
def Coherent (v : Operand) : Prop :=
  ∀ code, v.location = .register code → code.regClass = v.dataType.regClass

/-- A coherent operand whose code, where it has code, is built. -/
def Sound (given : Code → Prop) (v : Operand) : Prop :=
  ∀ code, v.location = .register code → code.regClass = v.dataType.regClass ∧ code.Built given

/-- A sound operand in a register. -/
def Loaded (given : Code → Prop) (v : Operand) : Prop :=
  ∃ code, v.location = .register code ∧ code.regClass = v.dataType.regClass ∧ code.Built given

theorem Loaded.sound (h : v.Loaded given) : v.Sound given := by
  obtain ⟨code, hcode, hloaded⟩ := h
  intro code' hcode'
  obtain rfl : code = code' := Location.register.inj (hcode.symm.trans hcode')
  exact hloaded

theorem loaded_inRegister {code : Code} {t : DataType} {provenance : Provenance}
    (hclass : code.regClass = t.regClass) (h : code.Built given) :
    (inRegister code t provenance).Loaded given :=
  ⟨code, rfl, hclass, h⟩

theorem sound_literal {x : Literal} {t : DataType} {provenance : Provenance} :
    (⟨.literal x, t, provenance⟩ : Operand).Sound given := by
  intro code h
  cases h

theorem sound_memory {address : Address} {t : DataType} {provenance : Provenance} :
    (⟨.memory address, t, provenance⟩ : Operand).Sound given := by
  intro code h
  cases h

theorem loadInt_loaded (target : DataType) (value : BitVec 64) (pool : LiteralPool) :
    (loadInt target value pool).1.Loaded given := by
  cases target
  case i8 | i16 | i32 =>
    simp only [loadInt]
    split
    · exact loaded_inRegister rfl (.const _)
    · exact loaded_inRegister rfl (.const _)
  case f32 | f64 | i128 => exact loaded_inRegister rfl (.load _ _)
  case i64 | stringHeader | binaryHeader | varcharHeader => exact loaded_inRegister rfl (.const _)

theorem loadFloat_loaded (target : DataType) (bits : BitVec 64) (pool : LiteralPool) :
    (loadFloat target bits pool).1.Loaded given := by
  unfold loadFloat
  split
  · exact loaded_inRegister rfl (.load _ _)
  · exact loaded_inRegister rfl (.load _ _)

theorem Sound.loadAs (h : v.Sound given) (target : DataType) (pool : LiteralPool) :
    (v.loadAs target pool).1.Loaded given := by
  unfold Operand.loadAs
  cases hv : v.location with
  | literal x =>
    cases x with
    | int value => exact loadInt_loaded target value pool
    | float bits => exact loadFloat_loaded target bits pool
  | memory address => exact loaded_inRegister rfl (.load _ _)
  | register code => exact ⟨code, hv, h code hv⟩

theorem loadPair_loaded (hl : l.Sound given) (hr : r.Sound given) (pool : LiteralPool) :
    (loadPair l r pool).1.1.Loaded given ∧ (loadPair l r pool).1.2.Loaded given :=
  ⟨hl.loadAs _ pool, hr.loadAs _ _⟩

theorem Loaded.promote (h : v.Loaded given) (nullCheck : Bool) {source target : Rank}
    (hrank : v.dataType.rank = some source)
    (hconverts : source ≠ target → source.convertsTo target = true) :
    ∃ u, Operand.promote nullCheck source target v = .ok u ∧ u.Loaded given ∧
      u.dataType.rank = some target := by
  by_cases heq : source = target
  · subst heq
    exact ⟨v, if_pos rfl, h, hrank⟩
  · obtain ⟨code, hcode, hclass, hbuilt⟩ := h
    simp only [Operand.promote, if_neg heq, if_pos (hconverts heq), register_eq_ok.2 hcode]
    refine ⟨_, rfl, loaded_inRegister ?_ (.widen hbuilt ?_ (hconverts heq)), ?_⟩
    · cases target <;> rfl
    · rw [hclass, DataType.regClass_of_rank hrank]
    · cases target <;> rfl

/-- Two loaded operands are brought to registers of one class, or their types do not meet. -/
theorem unify_loaded (hl : l.Loaded given) (hr : r.Loaded given) (nullCheck : Bool) :
    (∃ l' r', unify nullCheck l r = .ok (l', r') ∧ l'.Loaded given ∧ r'.Loaded given ∧
        l'.dataType.rank = r'.dataType.rank ∧ l'.dataType.regClass = r'.dataType.regClass) ∨
      unify nullCheck l r = .error (.typeMismatch l.dataType r.dataType) := by
  generalize hresult : unify nullCheck l r = result
  unfold unify at hresult
  split at hresult
  next a b hlr hrr =>
    refine .inl ?_
    by_cases heq : a = b
    · subst heq
      rw [if_pos rfl] at hresult
      refine ⟨l, r, hresult.symm, hl, hr, hlr.trans hrr.symm, ?_⟩
      rw [DataType.regClass_of_rank hlr, DataType.regClass_of_rank hrr]
    · obtain ⟨hconvl, hconvr⟩ := Rank.convertsTo_join a b
      obtain ⟨l', hl', hll, hrl⟩ := hl.promote nullCheck hlr hconvl
      obtain ⟨r', hr', hlr', hrr'⟩ := hr.promote nullCheck hrr hconvr
      simp only [if_neg heq, hl', hr'] at hresult
      refine ⟨l', r', hresult.symm, hll, hlr', hrl.trans hrr'.symm, ?_⟩
      rw [DataType.regClass_of_rank hrl, DataType.regClass_of_rank hrr']
  next =>
    -- A type without a rank meets no type but itself.
    split at hresult
    next h => exact .inl ⟨l, r, hresult.symm, hl, hr, by rw [h], by rw [h]⟩
    next => exact .inr hresult.symm

/-- An operator on one register yields a register, or its type is refused. -/
theorem unary_loaded (h : v.Loaded given) (op : UnaryOp) :
    (∃ u, unary op v = .ok u ∧ u.Loaded given) ∨
      unary op v = .error (.unsupportedOperation (.unary op) v.dataType) := by
  obtain ⟨code, hcode, hclass, hbuilt⟩ := h
  rw [unary_eq (register_eq_ok.2 hcode)]
  split
  next hsupports =>
    refine .inl ⟨_, rfl, ?_⟩
    cases op with
    | neg =>
      refine loaded_inRegister hclass (.neg hbuilt ?_)
      rw [hclass]
      exact DataType.regClass_ne_i128 hsupports
    | not =>
      refine loaded_inRegister hclass (.not hbuilt ?_)
      rw [hclass]
      exact DataType.regClass_of_isInt32 hsupports
  next => exact .inr rfl

/-- An operator on two registers of one rank and class yields a register, or the left type is
refused. -/
theorem binary_loaded (hl : l.Loaded given) (hr : r.Loaded given)
    (hrank : l.dataType.rank = r.dataType.rank) (hclass : l.dataType.regClass = r.dataType.regClass)
    (op : BinaryOp) (nullCheck : Bool) :
    (∃ u, binary op nullCheck l r = .ok u ∧ u.Loaded given) ∨
      binary op nullCheck l r = .error (.unsupportedOperation (.binary op) l.dataType) := by
  obtain ⟨c, hc, hcl, hbc⟩ := hl
  obtain ⟨d, hd, hdr, hbd⟩ := hr
  have hsame : c.regClass = d.regClass := by rw [hcl, hdr, hclass]
  rw [binary_eq (register_eq_ok.2 hc) (register_eq_ok.2 hd) hrank]
  split
  next hsupports =>
    refine .inl ⟨_, rfl, ?_⟩
    cases op with
    | logic op =>
      have hi32 : c.regClass = .i32 := hcl.trans (DataType.regClass_of_isInt32 hsupports)
      exact loaded_inRegister hcl (.logic hbc hbd hi32 (hsame.symm.trans hi32))
    | equality op => exact loaded_inRegister rfl (.equality hbc hbd hsame)
    | order op =>
      exact loaded_inRegister rfl
        (.order hbc hbd hsame (hcl ▸ DataType.regClass_ne_i128 hsupports))
    | arith op =>
      have hresult : (arithType l.dataType).regClass = l.dataType.regClass := by
        cases l.dataType <;> rfl
      exact loaded_inRegister (hcl.trans hresult.symm)
        (.arith hbc hbd hsame (hcl ▸ DataType.regClass_ne_i128 hsupports))
  next => exact .inr rfl

end Operand

end RowFilter
