import RowFilter.Proofs.Operand.Application

/-!
# Properties of code that emission keeps

Loading, promotion and the operators put the code of an operand together from the code of the
operands they are given, from constants and from pooled constants. So a property of codes that
all of these keep passes from operands to results, whatever the operands, their types and the
pool.

## Main definitions

- `Code.Closed K` — the property `K` is kept.
- `Operand.Within K` — the code that an operand is loaded by has the property.

## Main statements

- `Operand.unary_eq_ok`, `binary_eq_ok`, `promote_eq_ok` — the code of a result.
- `Operand.Within.loadPair`, `Within.unify`, `Within.binary` — the steps of a binary operator.
-/

namespace RowFilter

/-- Constants and pooled constants have the property, and the operations keep it. -/
structure Code.Closed (K : Code → Prop) : Prop where
  const (value : Word) : K (.const value)
  pooled (t : DataType) (slot size : Nat) : K (.load t (.pooled slot size))
  unary (op : UnaryOp) {arg : Code} (h : K arg) : K (.unary op arg)
  binary (nullCheck : Bool) (op : BinaryOp) {lhs rhs : Code} (hl : K lhs) (hr : K rhs) :
    K (.binary nullCheck op lhs rhs)
  widen (nullCheck : Bool) (target : RegClass) {arg : Code} (h : K arg) :
    K (.widen nullCheck target arg)

namespace Operand

variable {K : Code → Prop} {nullCheck : Bool} {v u l r : Operand}

/-- The code that the operand is loaded by has the property. An inline literal becomes a
constant. -/
def Within (K : Code → Prop) (v : Operand) : Prop :=
  match v.location with
  | .literal _ => True
  | .memory address => K (.load v.dataType address)
  | .register code => K code

theorem within_of_register {code : Code} (hv : v.location = .register code) :
    v.Within K ↔ K code := by
  rw [Within, hv]

/-- A unary operator applies its operation to the code in the register. -/
theorem unary_eq_ok {op : UnaryOp} (h : unary op v = .ok u) :
    ∃ code, v.location = .register code ∧ u.location = .register (.unary op code) := by
  cases hregister : v.register with
  | error e =>
    cases op with
    | neg =>
      rw [unary, neg, hregister] at h
      cases h
    | not =>
      rw [unary, Operand.not, hregister] at h
      split at h <;> cases h
  | ok code =>
    rw [unary_eq hregister] at h
    split at h <;> cases h
    exact ⟨code, register_eq_ok.1 hregister, rfl⟩

/-- A binary operator applies its operation to the codes in the registers. -/
theorem binary_eq_ok {op : BinaryOp} (h : binary op nullCheck l r = .ok u) :
    ∃ c d, l.location = .register c ∧ r.location = .register d ∧
      u.location = .register (.binary nullCheck op c d) := by
  cases op with
  | logic op =>
    change logic op l r = .ok u at h
    unfold logic at h
    split at h
    · cases h
    · split at h
      · cases h
      · obtain ⟨c, hc, h⟩ := exists_of_bind_eq_ok h
        obtain ⟨d, hd, h⟩ := exists_of_bind_eq_ok h
        cases h
        exact ⟨c, d, register_eq_ok.1 hc, register_eq_ok.1 hd, rfl⟩
  | equality op =>
    obtain ⟨c, hc, h⟩ := exists_of_bind_eq_ok h
    obtain ⟨d, hd, h⟩ := exists_of_bind_eq_ok h
    cases h
    exact ⟨c, d, register_eq_ok.1 hc, register_eq_ok.1 hd, rfl⟩
  | order op =>
    obtain ⟨c, hc, h⟩ := exists_of_bind_eq_ok h
    obtain ⟨d, hd, h⟩ := exists_of_bind_eq_ok h
    split at h <;> cases h
    exact ⟨c, d, register_eq_ok.1 hc, register_eq_ok.1 hd, rfl⟩
  | arith op =>
    obtain ⟨c, hc, h⟩ := exists_of_bind_eq_ok h
    obtain ⟨d, hd, h⟩ := exists_of_bind_eq_ok h
    split at h <;> cases h
    exact ⟨c, d, register_eq_ok.1 hc, register_eq_ok.1 hd, rfl⟩

/-- A promotion leaves the operand as it is or widens the code in its register. -/
theorem promote_eq_ok {source target : Rank} (h : promote nullCheck source target v = .ok u) :
    u = v ∨ ∃ gate code, v.location = .register code ∧
      u.location = .register (.widen gate target.regClass code) := by
  unfold promote at h
  split at h
  · cases h
    exact .inl rfl
  · obtain ⟨code, hcode, h⟩ := exists_of_bind_eq_ok h
    split at h <;> cases h
    exact .inr ⟨_, code, register_eq_ok.1 hcode, rfl⟩

theorem within_loadInt (hK : Code.Closed K) (target : DataType) (value : BitVec 64)
    (pool : LiteralPool) : (loadInt target value pool).1.Within K := by
  cases target
  case i8 | i16 | i32 =>
    simp only [loadInt]
    split <;> exact hK.const _
  case f32 | f64 | i128 => exact hK.pooled _ _ _
  case i64 | stringHeader | binaryHeader | varcharHeader => exact hK.const _

theorem within_loadFloat (hK : Code.Closed K) (target : DataType) (bits : BitVec 64)
    (pool : LiteralPool) : (loadFloat target bits pool).1.Within K := by
  unfold loadFloat
  split <;> exact hK.pooled _ _ _

theorem Within.loadAs (hK : Code.Closed K) (h : v.Within K) (target : DataType)
    (pool : LiteralPool) : (v.loadAs target pool).1.Within K := by
  unfold Operand.loadAs
  unfold Within at h
  cases hv : v.location with
  | literal x =>
    cases x with
    | int value => exact within_loadInt hK target value pool
    | float bits => exact within_loadFloat hK target bits pool
  | memory address =>
    rw [hv] at h
    exact h
  | register code =>
    rw [hv] at h
    exact (within_of_register hv).2 h

theorem Within.loadPair (hK : Code.Closed K) (hl : l.Within K) (hr : r.Within K)
    (pool : LiteralPool) :
    (loadPair l r pool).1.1.Within K ∧ (loadPair l r pool).1.2.Within K :=
  ⟨hl.loadAs hK _ pool, hr.loadAs hK _ _⟩

theorem Within.unary (hK : Code.Closed K) (hv : v.Within K) {op : UnaryOp}
    (h : unary op v = .ok u) : u.Within K := by
  obtain ⟨code, hcode, hu⟩ := unary_eq_ok h
  exact (within_of_register hu).2 (hK.unary op ((within_of_register hcode).1 hv))

theorem Within.promote (hK : Code.Closed K) (hv : v.Within K) {source target : Rank}
    (h : promote nullCheck source target v = .ok u) : u.Within K := by
  rcases promote_eq_ok h with rfl | ⟨gate, code, hcode, hu⟩
  · exact hv
  · exact (within_of_register hu).2 (hK.widen gate _ ((within_of_register hcode).1 hv))

theorem Within.unify (hK : Code.Closed K) (hl : l.Within K) (hr : r.Within K) {l' r' : Operand}
    (h : unify nullCheck l r = .ok (l', r')) : l'.Within K ∧ r'.Within K := by
  unfold Operand.unify at h
  split at h
  · split at h
    · cases h
      exact ⟨hl, hr⟩
    · obtain ⟨u, hu, h⟩ := exists_of_bind_eq_ok h
      obtain ⟨w, hw, h⟩ := exists_of_bind_eq_ok h
      cases h
      exact ⟨hl.promote hK hu, hr.promote hK hw⟩
  · split at h <;> cases h
    exact ⟨hl, hr⟩

theorem Within.binary (hK : Code.Closed K) (hl : l.Within K) (hr : r.Within K) {op : BinaryOp}
    (h : binary op nullCheck l r = .ok u) : u.Within K := by
  obtain ⟨c, d, hc, hd, hu⟩ := binary_eq_ok h
  exact (within_of_register hu).2
    (hK.binary nullCheck op ((within_of_register hc).1 hl) ((within_of_register hd).1 hr))

end Operand

end RowFilter
