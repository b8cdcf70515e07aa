import RowFilter.Proofs.Comparison.IntLeaf
import RowFilter.Proofs.Comparison.Registers
import RowFilter.Proofs.Expr.OperandPair

/-!
# Integers beside each other

Two expressions with integer values end up in two registers of one width. Neither the type a lone
literal is taken at nor the promotion of the narrower side changes an integer, unless the null check
turns the null of the narrower type into that of the wider one.

## Main definitions

- `Value.Keeps` — an integral value in the place of another one.
- `OperandPair.Integral` — two registers with integers of one width.

## Main statements

- `Value.Integral.exists_unify` — two integral values brought to a common type.
- `Expr.exists_sides_of_integral` — two integral values beside each other.
- `Expr.exists_loads_of_isInt` — two integer expressions in their registers.
-/

namespace RowFilter

variable {nullCheck : Bool} {memory : Memory} {row : BitVec 64}

namespace Value

variable {v v' w w' : Value}

/-- An integral value that took the place of another value. It stands for the same integer, or it
is the sentinel of its register under the null check. -/
structure Keeps (nullCheck : Bool) (v v' : Value) : Prop where
  integral : v'.Integral
  toInt : v'.word.toInt = v.word.toInt ∨ (nullCheck && v'.word.isSentinel) = true

theorem Integral.keeps (h : v.Integral) : Keeps nullCheck v v :=
  ⟨h, .inl rfl⟩

/-- Promotion to the 64-bit type keeps an integral value. -/
theorem Integral.keeps_promote (h : v.Integral) (nullCheck : Bool) :
    Keeps nullCheck v (v.promote nullCheck .int64) ∧
      (v.promote nullCheck .int64).dataType = .i64 := by
  obtain ⟨t, provenance, word⟩ := v
  rcases h.word_cases with ⟨rfl, a, rfl⟩ | ⟨-, hrank, a, rfl⟩
  · rw [promote_of_rank rfl]
    exact ⟨h.keeps, rfl⟩
  · rw [promote_of_rank_ne hrank (by decide)]
    exact ⟨⟨⟨rfl, rfl⟩, Integer.toInt_widen nullCheck t.hasNullSentinel a⟩, rfl⟩

/-- Integral values of one rank are in registers of one width. -/
theorem Integral.sameWidth (hv : v.Integral) (hw : w.Integral)
    (hrank : v.dataType.rank = w.dataType.rank) : Word.SameWidth v.word w.word := by
  rcases hv.word_cases with ⟨hvt, a, ha⟩ | ⟨-, hvr, a, ha⟩ <;>
    rcases hw.word_cases with ⟨hwt, b, hb⟩ | ⟨-, hwr, b, hb⟩
  · rw [ha, hb]
    exact .i64 a b
  · rw [hvt, hwr] at hrank
    cases hrank
  · rw [hvr, hwt] at hrank
    cases hrank
  · rw [ha, hb]
    exact .i32 a b

/-- Two integral values can be brought to a common type, at which both are kept. -/
theorem Integral.exists_unify (hv : v.Integral) (hw : w.Integral) (nullCheck : Bool) :
    ∃ v' w', unify nullCheck v w = .ok (v', w') ∧ Keeps nullCheck v v' ∧ Keeps nullCheck w w' ∧
      v'.dataType.rank = w'.dataType.rank := by
  obtain ⟨hkv, hvt⟩ := hv.keeps_promote nullCheck
  obtain ⟨hkw, hwt⟩ := hw.keeps_promote nullCheck
  have hrank : (v.promote nullCheck .int64).dataType.rank =
      (w.promote nullCheck .int64).dataType.rank := by rw [hvt, hwt]
  -- Unless both are narrow, both are brought to the 64-bit type.
  have hwide {l r : Rank} (hl : v.dataType.rank = some l) (hr : w.dataType.rank = some r)
      (hjoin : l.join r = .int64) :
      ∃ v' w', unify nullCheck v w = .ok (v', w') ∧ Keeps nullCheck v v' ∧
        Keeps nullCheck w w' ∧ v'.dataType.rank = w'.dataType.rank :=
    ⟨_, _, hjoin ▸ unify_of_rank hl hr nullCheck, hkv, hkw, hrank⟩
  rcases hv.word_cases with ⟨hvt, -⟩ | ⟨-, hvr, -⟩ <;>
    rcases hw.word_cases with ⟨hwt, -⟩ | ⟨-, hwr, -⟩
  · exact hwide (congrArg DataType.rank hvt) (congrArg DataType.rank hwt) rfl
  · exact hwide (congrArg DataType.rank hvt) hwr rfl
  · exact hwide hvr (congrArg DataType.rank hwt) rfl
  · exact ⟨v, w, unify_of_same_rank hvr hwr nullCheck, hv.keeps, hw.keeps, hvr.trans hwr.symm⟩

end Value

namespace Expr

variable {e lhs rhs : Expr} {v w : Value}

/-- The value of an inline literal is that of the literal at a type, a float type just in case
the literal is a float. -/
theorem exists_valueAs_of_inlineLiteral? {x : Literal} (hx : e.inlineLiteral? = some x)
    (hv : e.value nullCheck memory row = .ok v) :
    ∃ t : DataType, v = x.valueAs t ∧ (t.isFloat = true ↔ ∃ bits, x = .float bits) := by
  cases e with
  | unary | binary => cases hx
  | leaf op options payload =>
    cases op with
    | var | column => cases hx
    | literal =>
      rw [inlineLiteral?] at hx
      rw [value, Value.ofLeaf, Instruction.dataType] at hv
      cases ht : DataType.ofTag? options.toNat with
      | none =>
        rw [ht] at hx
        cases hx
      | some t =>
        simp only [ht] at hx hv
        refine ⟨t, ?_⟩
        cases t
        case i128 => cases hx
        case f32 | f64 =>
          cases hx
          exact ⟨(Except.ok.inj hv).symm, fun _ => ⟨_, rfl⟩, fun _ => rfl⟩
        all_goals
          cases hx
          refine ⟨(Except.ok.inj hv).symm, Bool.noConfusion, fun h => ?_⟩
          obtain ⟨_, h⟩ := h
          cases h

/-- An inline literal that is an integral value at one integer type is the same integer at every
other one. -/
theorem integral_valueAs_of_inlineLiteral? {x : Literal} (hx : e.inlineLiteral? = some x)
    (hv : e.value nullCheck memory row = .ok v) (h : v.Integral) {t : DataType}
    (ht : t.isInt = true) :
    (x.valueAs t).Integral ∧ (x.valueAs t).word.toInt = v.word.toInt := by
  obtain ⟨own, rfl, -⟩ := exists_valueAs_of_inlineLiteral? hx hv
  cases x with
  | float bits =>
    have hint := h.isInt
    rw [Literal.valueAs] at hint
    split at hint <;> cases hint
  | int n =>
    obtain ⟨hint, -, hn⟩ := Literal.valueAs_int ht n
    have hown : own.isInt = true := by
      have hint := h.isInt
      cases own
      case i8 | i16 | i32 | i64 => rfl
      all_goals cases hint
    exact ⟨hint, hn.trans (Literal.valueAs_int hown n).2.2.symm⟩

/-- Two integral values beside each other are integral, and stand for the integers they stand for
alone. -/
theorem exists_sides_of_integral (hlhs : lhs.value nullCheck memory row = .ok v)
    (hrhs : rhs.value nullCheck memory row = .ok w) (hv : v.Integral) (hw : w.Integral) :
    ∃ a b, sides nullCheck memory row lhs rhs = .ok (a, b) ∧ a.Integral ∧ b.Integral ∧
      a.word.toInt = v.word.toInt ∧ b.word.toInt = w.word.toInt := by
  have hsides : sides nullCheck memory row lhs rhs =
      .ok (Value.settle (lhs.inlineLiteral?, v) (rhs.inlineLiteral?, w)) := by
    rw [sides, hlhs, hrhs]
    rfl
  rw [hsides]
  cases hx : lhs.inlineLiteral? with
  | none =>
    cases hy : rhs.inlineLiteral? with
    | none => exact ⟨v, w, rfl, hv, hw, rfl, rfl⟩
    | some y =>
      obtain ⟨hb, hn⟩ := integral_valueAs_of_inlineLiteral? hy hrhs hw hv.isInt
      exact ⟨v, _, rfl, hv, hb, rfl, hn⟩
  | some x =>
    cases hy : rhs.inlineLiteral? with
    | none =>
      obtain ⟨ha, hn⟩ := integral_valueAs_of_inlineLiteral? hx hlhs hv hw.isInt
      exact ⟨_, w, rfl, ha, hw, hn, rfl⟩
    | some y => exact ⟨v, w, rfl, hv, hw, rfl, rfl⟩

/-- Two integral values are converted to registers of one width. -/
theorem exists_converted_of_integral (hlhs : lhs.value nullCheck memory row = .ok v)
    (hrhs : rhs.value nullCheck memory row = .ok w) (hv : v.Integral) (hw : w.Integral) :
    ∃ a b, converted nullCheck memory row lhs rhs = .ok (a, b) ∧ Value.Keeps nullCheck v a ∧
      Value.Keeps nullCheck w b ∧ a.dataType.rank = b.dataType.rank := by
  obtain ⟨v', w', hsides, hv', hw', hvn, hwn⟩ := exists_sides_of_integral hlhs hrhs hv hw
  obtain ⟨a, b, hunify, ha, hb, hrank⟩ := hv'.exists_unify hw' nullCheck
  refine ⟨a, b, ?_, ⟨ha.integral, hvn ▸ ha.toInt⟩, ⟨hb.integral, hwn ▸ hb.toInt⟩, hrank⟩
  rw [converted, hsides]
  exact hunify

/-- A predicate of an integer type has integral values. -/
theorem integral_of_compile {p : Predicate}
    (h : Predicate.compile nullCheck e.stream = .ok p) (hint : p.dataType.isInt = true)
    (memory : Memory) (row : BitVec 64) : (p.result memory row).Integral :=
  ⟨hint, coherent_value (Predicate.value_of_compile_stream h memory row)⟩

end Expr

namespace OperandPair

/-- Two registers with integers of one width. -/
structure Integral (o : OperandPair) : Prop where
  left (memory : Memory) (row : BitVec 64) : (o.left memory row).Integral
  right (memory : Memory) (row : BitVec 64) : (o.right memory row).Integral
  rank : o.lhs.dataType.rank = o.rhs.dataType.rank

variable {o : OperandPair}

theorem Integral.sameWidth (h : o.Integral) (memory : Memory) (row : BitVec 64) :
    Word.SameWidth (o.left memory row).word (o.right memory row).word :=
  (h.left memory row).sameWidth (h.right memory row) h.rank

theorem Integral.isInt (h : o.Integral) : o.lhs.dataType.isInt = true :=
  (h.left Emission.zeroMemory 0).isInt

/-- A comparison of the registers. -/
theorem value_predicate_comparison (o : OperandPair) (nullCheck : Bool) (c : Comparison)
    (memory : Memory) (row : BitVec 64) :
    (o.predicate nullCheck c.op).value memory row =
      .ofBool (Word.compare nullCheck c (o.left memory row).word (o.right memory row).word) := by
  have hvalue := congrArg Value.word (o.result_predicate nullCheck c.op memory row)
  cases c with
  | equality => exact hvalue
  | order => exact hvalue

theorem dataType_predicate_comparison (o : OperandPair) (nullCheck : Bool) (c : Comparison) :
    (o.predicate nullCheck c.op).dataType = .i32 := by
  cases c <;> rfl

end OperandPair

/-- All binary operators but those of logic are defined on all integers. -/
theorem BinaryOp.supports_of_isInt {op : BinaryOp} (hop : ∀ l, op ≠ .logic l) {t : DataType}
    (h : t.isInt = true) : Value.supports t (.binary op) = true := by
  cases op with
  | logic l => exact absurd rfl (hop l)
  | equality => rfl
  | order | arith => exact Bool.or_eq_true_iff.2 (.inl h)

/-- Two integer expressions end up in registers of one width. On every row the registers keep the
integers of the expressions alone. -/
theorem Expr.exists_loads_of_isInt {lhs rhs : Expr} {p q : Predicate}
    (hp : Predicate.compile nullCheck lhs.stream = .ok p) (hpint : p.dataType.isInt = true)
    (hq : Predicate.compile nullCheck rhs.stream = .ok q) (hqint : q.dataType.isInt = true) :
    ∃ o, Loads nullCheck lhs rhs o ∧ o.Integral ∧ ∀ memory row,
      Value.Keeps nullCheck (p.result memory row) (o.left memory row) ∧
        Value.Keeps nullCheck (q.result memory row) (o.right memory row) := by
  have hconverted := fun memory row => exists_converted_of_integral
    (Predicate.value_of_compile_stream hp memory row)
    (Predicate.value_of_compile_stream hq memory row) (integral_of_compile hp hpint memory row)
    (integral_of_compile hq hqint memory row)
  obtain ⟨_, _, hany, -⟩ := hconverted Emission.zeroMemory 0
  obtain ⟨o, ho⟩ := exists_loads hany
  have hkeeps : ∀ memory row, Value.Keeps nullCheck (p.result memory row) (o.left memory row) ∧
      Value.Keeps nullCheck (q.result memory row) (o.right memory row) ∧
        o.lhs.dataType.rank = o.rhs.dataType.rank := by
    intro memory row
    obtain ⟨a, b, h, ha, hb, hrank⟩ := hconverted memory row
    cases (ho.converted memory row).symm.trans h
    exact ⟨ha, hb, hrank⟩
  refine ⟨o, ho, ⟨fun memory row => ?_, fun memory row => ?_, ?_⟩, fun memory row => ?_⟩
  · exact (hkeeps memory row).1.integral
  · exact (hkeeps memory row).2.1.integral
  · exact (hkeeps Emission.zeroMemory 0).2.2
  · exact ⟨(hkeeps memory row).1, (hkeeps memory row).2.1⟩

end RowFilter
