import RowFilter.Expr.Value

/-!
# Ordering integers

What an order comparison makes of two integer values of any two widths: the relation between the
integers they stand for, and a null test on each of them.

The comparison runs on registers of one width. A 32-bit operand beside a 64-bit one is widened
first, and widening moves its null to the null of the wider register; so which integer counts as
null depends on the type of the other operand. `Value.nullBeside` says which.

## Main definitions

- `OrderOp.holds` — the relation on integers that an order operator stands for.
- `Word.toInt` — the integer an integer word stands for.
- `Value.Integral` — a value of an integer type in the register of that type.
- `Value.nullBeside` — whether a value counts as null beside an operand of a type.

The main statement is `Value.Integral.order_eq`.
-/

namespace RowFilter

/-- The relation on integers that an order operator stands for. -/
def OrderOp.holds (op : OrderOp) (m n : Int) : Bool :=
  match op with
  | .lt => m < n
  | .le => m ≤ n
  | .gt => n < m
  | .ge => n ≤ m

namespace Integer

variable {w : Nat}

theorem related_eq_holds (op : OrderOp) (a b : BitVec w) :
    related op a b = op.holds a.toInt b.toInt := by
  cases op <;> rfl

theorem toInt_null32 : (null 32).toInt = -0x80000000 :=
  rfl

theorem toInt_null64 : (null 64).toInt = -0x8000000000000000 :=
  rfl

theorem isNull_iff (a : BitVec w) : isNull a = true ↔ a.toInt = (null w).toInt := by
  rw [isNull, beq_iff_eq, BitVec.toInt_inj]

/-- A comparison relates the integers `m` and `n` if each operand stands for its integer or is a
null that makes the comparison false. -/
theorem order_eq_of_toInt (op : OrderOp) {nullCheck : Bool} {a b : BitVec w} {m n : Int}
    (ha : a.toInt = m ∨ (nullCheck && isNull a) = true)
    (hb : b.toInt = n ∨ (nullCheck && isNull b) = true) :
    order op nullCheck a b = (op.holds m n && !(nullCheck && (isNull a || isNull b))) := by
  rw [order, eitherNull, related_eq_holds]
  rcases ha with rfl | ha
  · rcases hb with rfl | hb
    · rfl
    · obtain ⟨rfl, hnull⟩ := (Bool.and_eq_true _ _).mp hb
      simp only [hnull, Bool.or_true, Bool.and_true, Bool.not_true, Bool.and_false]
  · obtain ⟨rfl, hnull⟩ := (Bool.and_eq_true _ _).mp ha
    simp only [hnull, Bool.true_or, Bool.and_true, Bool.not_true, Bool.and_false]

/-- Sign extension makes no word null. -/
theorem isNull_signExtend (a : BitVec 32) : isNull (a.signExtend 64) = false := by
  refine Bool.eq_false_iff.2 fun h => ?_
  have hnull := (isNull_iff _).1 h
  have hge : (null 32).toInt ≤ a.toInt := BitVec.le_toInt a
  rw [BitVec.toInt_signExtend_of_le (by decide), toInt_null64] at hnull
  rw [toInt_null32] at hge
  omega

/-- The null of a widened word is that of its source, where the source type has one. -/
theorem isNull_widen (gate : Bool) (a : BitVec 32) :
    isNull (widen gate 64 a) = (gate && isNull a) := by
  by_cases h : (gate && isNull a) = true
  · rw [widen, if_pos h, h]
    exact beq_self_eq_true _
  · rw [widen, if_neg h, Bool.eq_false_iff.2 h, isNull_signExtend]

/-- A widened word keeps its integer or is null. -/
theorem toInt_widen (nullCheck gate : Bool) (a : BitVec 32) :
    (widen (nullCheck && gate) 64 a).toInt = a.toInt ∨
      (nullCheck && isNull (widen (nullCheck && gate) 64 a)) = true := by
  rw [isNull_widen]
  by_cases h : (nullCheck && gate && isNull a) = true
  · obtain ⟨hgate, -⟩ := (Bool.and_eq_true _ _).mp h
    obtain ⟨rfl, -⟩ := (Bool.and_eq_true _ _).mp hgate
    exact .inr h
  · rw [widen, if_neg h, BitVec.toInt_signExtend_of_le (by decide)]
    exact .inl rfl

end Integer

/-- The integer an integer word stands for. -/
def Word.toInt : Word → Int
  | i32 a => a.toInt
  | i64 a => a.toInt
  | i128 a => a.toInt
  | f32 _ | f64 _ => 0

theorem Word.ofBool_eq (b : Bool) : ofBool b = .i32 (if b then 1 else 0) :=
  rfl

theorem Word.ofBool_inj {a b : Bool} : ofBool a = ofBool b ↔ a = b := by
  cases a <;> cases b <;> decide

theorem Rank.join_self (r : Rank) : r.join r = r := by
  cases r <;> rfl

theorem DataType.isInt_of_rank {t : DataType} {r : Rank} (h : t.rank = some r)
    (hr : r.isInt = true) : t.isInt = true := by
  rw [isInt, h, Option.any_some, hr]

/-- The integer types are the 32-bit family and the 64-bit type. -/
theorem DataType.isInt_cases {t : DataType} (h : t.isInt = true) :
    t = .i64 ∨ t ≠ .i64 ∧ t.rank = some .int32 ∧ t.regClass = .i32 := by
  cases t
  case i64 => exact .inl rfl
  case i8 | i16 | i32 => exact .inr ⟨by decide, rfl, rfl⟩
  all_goals exact absurd h (by decide)

namespace Value

/-- A value of an integer type in the register of that type. -/
structure Integral (v : Value) : Prop where
  isInt : v.dataType.isInt = true
  regClass : v.word.regClass = v.dataType.regClass

/-- Whether a value counts as null beside an operand of the type `peer`. A value of the 32-bit
family that is widened has a null only if its own type has one; unwidened, the register decides. -/
def nullBeside (peer : DataType) (v : Value) : Bool :=
  if v.dataType = .i64 then v.word.toInt == (Integer.null 64).toInt
  else (peer != .i64 || v.dataType.hasNullSentinel) && v.word.toInt == (Integer.null 32).toInt

theorem Integral.word_cases {v : Value} (h : v.Integral) :
    (v.dataType = .i64 ∧ ∃ a, v.word = .i64 a) ∨
      v.dataType ≠ .i64 ∧ v.dataType.rank = some .int32 ∧ ∃ a, v.word = .i32 a := by
  obtain ⟨hint, hclass⟩ := h
  rcases DataType.isInt_cases hint with ht | ⟨hne, hrank, hreg⟩
  · refine .inl ⟨ht, ?_⟩
    rw [ht] at hclass
    cases hword : v.word with
    | i64 a => exact ⟨a, rfl⟩
    | i32 | i128 | f32 | f64 => rw [hword] at hclass; cases hclass
  · refine .inr ⟨hne, hrank, ?_⟩
    rw [hreg] at hclass
    cases hword : v.word with
    | i32 a => exact ⟨a, rfl⟩
    | i64 | i128 | f32 | f64 => rw [hword] at hclass; cases hclass

theorem nullBeside_wide {v : Value} {a : BitVec 64} (ht : v.dataType = .i64)
    (hword : v.word = .i64 a) (peer : DataType) : v.nullBeside peer = Integer.isNull a := by
  rw [nullBeside, if_pos ht, hword, Bool.eq_iff_iff, beq_iff_eq, Integer.isNull_iff]
  exact Iff.rfl

/-- A value of the 32-bit family beside another one is null when its register is; beside a 64-bit
operand, its type has to have a null as well. -/
theorem nullBeside_narrow {v : Value} {a : BitVec 32} (ht : v.dataType ≠ .i64)
    (hword : v.word = .i32 a) (peer : DataType) :
    v.nullBeside peer =
      ((peer != .i64 || v.dataType.hasNullSentinel) && Integer.isNull a) := by
  rw [nullBeside, if_neg ht, hword]
  refine congrArg _ ?_
  rw [Bool.eq_iff_iff, beq_iff_eq, Integer.isNull_iff]
  exact Iff.rfl

theorem promote_of_rank {v : Value} {target : Rank} (h : v.dataType.rank = some target)
    (nullCheck : Bool) : v.promote nullCheck target = v := by
  rw [promote, if_pos h]

theorem promote_of_rank_ne {v : Value} {source target : Rank} (h : v.dataType.rank = some source)
    (hne : source ≠ target) (nullCheck : Bool) :
    v.promote nullCheck target =
      ⟨target.dataType, v.provenance, v.word.widen (v.dataType.nullGate nullCheck)
        target.regClass⟩ := by
  rw [promote, h, if_neg fun heq => hne (Option.some.inj heq)]

/-- Two numeric values are both promoted to the join of their ranks. -/
theorem unify_of_rank {v w : Value} {l r : Rank} (hv : v.dataType.rank = some l)
    (hw : w.dataType.rank = some r) (nullCheck : Bool) :
    unify nullCheck v w =
      .ok (v.promote nullCheck (l.join r), w.promote nullCheck (l.join r)) := by
  simp only [unify, hv, hw]
  by_cases h : l = r
  · subst h
    rw [if_pos rfl, l.join_self, promote_of_rank hv, promote_of_rank hw]
  · rw [if_neg h]

/-- Two values of one rank stay as they are. -/
theorem unify_of_same_rank {v w : Value} {r : Rank} (hv : v.dataType.rank = some r)
    (hw : w.dataType.rank = some r) (nullCheck : Bool) : unify nullCheck v w = .ok (v, w) := by
  rw [unify_of_rank hv hw, r.join_self, promote_of_rank hv, promote_of_rank hw]

/-- The value of an order comparison. -/
def ordered (op : OrderOp) (nullCheck : Bool) (v w : Value) : Value :=
  ⟨.i32, v.provenance.join w.provenance,
    .ofBool (op.holds v.word.toInt w.word.toInt &&
      !(nullCheck && (v.nullBeside w.dataType || w.nullBeside v.dataType)))⟩

/-- An order comparison of two integral values is defined, and it relates the integers unless one of
the values is null beside the other. -/
theorem Integral.order_eq {v w : Value} (hv : v.Integral) (hw : w.Integral) (op : OrderOp)
    (nullCheck : Bool) :
    (do
      let (a, b) ← unify nullCheck v w
      binary (.order op) nullCheck a b) = .ok (ordered op nullCheck v w) := by
  have hsupports : supports v.dataType (.binary (.order op)) = true := by
    rw [supports, hv.isInt, Bool.true_or]
  obtain ⟨vt, vp, vw⟩ := v
  obtain ⟨wt, wp, ww⟩ := w
  -- Widening takes place in the two mixed cases only.
  rcases hv.word_cases with ⟨rfl, a, rfl⟩ | ⟨hvt, hvrank, a, rfl⟩ <;>
    rcases hw.word_cases with ⟨rfl, b, rfl⟩ | ⟨hwt, hwrank, b, rfl⟩
  · rw [unify_of_rank rfl rfl, ordered, nullBeside_wide rfl rfl, nullBeside_wide rfl rfl]
    refine congrArg (fun c => Except.ok (Value.mk _ _ (.ofBool c))) ?_
    exact Integer.order_eq_of_toInt op (.inl rfl) (.inl rfl)
  · rw [unify_of_rank rfl hwrank, ordered, nullBeside_wide rfl rfl, nullBeside_narrow hwt rfl]
    rw [show Rank.join .int64 .int32 = .int64 from rfl, promote_of_rank rfl,
      promote_of_rank_ne hwrank (by decide)]
    refine congrArg (fun c => Except.ok (Value.mk _ _ (.ofBool c))) ?_
    have horder := Integer.order_eq_of_toInt op (.inl (Eq.refl a.toInt))
      (Integer.toInt_widen nullCheck wt.hasNullSentinel b)
    rw [Integer.isNull_widen] at horder
    refine horder.trans ?_
    cases nullCheck <;> rfl
  · rw [unify_of_rank hvrank rfl, ordered, nullBeside_narrow hvt rfl, nullBeside_wide rfl rfl]
    rw [show Rank.join .int32 .int64 = .int64 from rfl, promote_of_rank_ne hvrank (by decide),
      promote_of_rank rfl]
    refine congrArg (fun c => Except.ok (Value.mk _ _ (.ofBool c))) ?_
    have horder := Integer.order_eq_of_toInt op
      (Integer.toInt_widen nullCheck vt.hasNullSentinel a) (.inl (Eq.refl b.toInt))
    rw [Integer.isNull_widen] at horder
    refine horder.trans ?_
    cases nullCheck <;> rfl
  · rw [unify_of_same_rank hvrank hwrank, ordered, nullBeside_narrow hvt rfl,
      nullBeside_narrow hwt rfl, bne_iff_ne.2 hvt, bne_iff_ne.2 hwt]
    change (if _ then _ else _) = _
    rw [if_pos hsupports]
    refine congrArg (fun c => Except.ok (Value.mk _ _ (.ofBool c))) ?_
    exact Integer.order_eq_of_toInt op (.inl rfl) (.inl rfl)

end Value

end RowFilter
