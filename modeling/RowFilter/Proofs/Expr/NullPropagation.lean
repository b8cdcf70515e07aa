import RowFilter.Proofs.Arith.Null
import RowFilter.Proofs.Comparison.Integral
import RowFilter.Proofs.Emission.Coherence
import RowFilter.Proofs.Expr.Compilation
import RowFilter.Proofs.Operand.SlotReads

/-!
# Null propagates through arithmetic

With the null check, an arithmetic expression is null on every row on which it reads a null:
whatever the operators and the types on the way up, the null of the leaf arrives as the null of the
result.

A null stays null at each node because its type says so. Only the four types that have a null carry
one, arithmetic and promotion turn such a type into another one of them, and the checks on the way
are switched on by the type.

## Main definitions

- `DataType.IsNull` — the words that are the null of a type.
- `Expr.IsArithmetic`, `Expr.ReadsNull` — the expressions, and the rows.

## Main statements

- `Value.IsNull.promote`, `Value.isNull_arith` — one promotion and one operator.
- `Expr.isNull_value` — an expression, by induction.
- `Predicate.isNull_value_of_readsNull` — the compiled predicate.
-/

namespace RowFilter

open BinaryFloat (Bits single double nan isNaN isNaN_nan)

/-- The null of a type: the smallest integer of its width, or any word that is not a number. The
narrow integers have no null; that of the other types takes no part in arithmetic. -/
inductive DataType.IsNull : DataType → Word → Prop
  | i32 {a : BitVec 32} (h : Integer.isNull a = true) : IsNull .i32 (.i32 a)
  | i64 {a : BitVec 64} (h : Integer.isNull a = true) : IsNull .i64 (.i64 a)
  | f32 {a : Bits single} (h : isNaN a = true) : IsNull .f32 (.f32 a)
  | f64 {a : Bits double} (h : isNaN a = true) : IsNull .f64 (.f64 a)

namespace DataType

/-- Of the 32-bit family only the type that has a null has one. -/
theorem isNull_i32_iff {s : DataType} (hs : s.rank = some .int32) (a : BitVec 32) :
    s.IsNull (.i32 a) ↔ s.hasNullSentinel = true ∧ Integer.isNull a = true := by
  constructor
  · rintro ⟨h⟩
    exact ⟨rfl, h⟩
  · rintro ⟨hsentinel, h⟩
    cases s
    case i32 => exact .i32 h
    case i8 | i16 => cases hsentinel
    all_goals cases hs

theorem isNull_i64_iff (a : BitVec 64) : i64.IsNull (.i64 a) ↔ Integer.isNull a = true :=
  ⟨fun h => by cases h with | i64 h => exact h, .i64⟩

theorem isNull_f32_iff (a : Bits single) : f32.IsNull (.f32 a) ↔ isNaN a = true :=
  ⟨fun h => by cases h with | f32 h => exact h, .f32⟩

theorem isNull_f64_iff (a : Bits double) : f64.IsNull (.f64 a) ↔ isNaN a = true :=
  ⟨fun h => by cases h with | f64 h => exact h, .f64⟩

end DataType

namespace DataType.IsNull

variable {t : DataType} {a b : Word}

theorem of_eq_nan_single {x : Bits single} (h : x = nan single) : IsNull .f32 (.f32 x) :=
  .f32 (h ▸ isNaN_nan single)

theorem of_eq_nan_double {x : Bits double} (h : x = nan double) : IsNull .f64 (.f64 x) :=
  .f64 (h ▸ isNaN_nan double)

/-- Negation takes null to null. -/
theorem neg (h : t.IsNull a) : t.IsNull a.neg := by
  cases h with
  | i32 h => exact .i32 (Integer.isNull_neg h)
  | i64 h => exact .i64 (Integer.isNull_neg h)
  | f32 h => exact of_eq_nan_single (BinaryFloat.neg_eq_nan h)
  | f64 h => exact of_eq_nan_double (BinaryFloat.neg_eq_nan h)

/-- A conversion takes null to null: the types that have one look for it. -/
theorem widen (h : t.IsNull a) {source target : Rank} (hsource : t.rank = some source)
    (hconverts : source.convertsTo target = true) :
    target.dataType.IsNull (a.widen (t.nullGate true) target.regClass) := by
  -- The type of the null settles the source rank; what is left are the conversions out of it.
  cases h with
  | i32 h =>
    cases hsource
    cases target with
    | int32 => cases hconverts
    | int64 => exact .i64 ((Integer.isNull_widen true _).trans h)
    | float32 => exact of_eq_nan_single (Floating.ofInteger_eq_nan h _)
    | float64 => exact of_eq_nan_double (Floating.ofInteger_eq_nan h _)
  | i64 h =>
    cases hsource
    cases target with
    | int32 | int64 | float32 => cases hconverts
    | float64 => exact of_eq_nan_double (Floating.ofInteger_eq_nan h _)
  | f32 h =>
    cases hsource
    cases target with
    | int32 | int64 | float32 => cases hconverts
    | float64 => exact of_eq_nan_double (BinaryFloat.convert_eq_nan h _)
  | f64 h =>
    cases hsource
    cases target <;> cases hconverts

/-- An operator of arithmetic takes null to null, whichever operand is null. -/
theorem arith (op : ArithOp) (hclass : a.regClass = b.regClass) (h : t.IsNull a ∨ t.IsNull b) :
    t.IsNull (Word.arith op true a b) := by
  cases a <;> cases b <;> cases hclass
  case i32.i32 =>
    rcases h with h | h
    · cases h with | i32 h => exact .i32 (Integer.isNull_arith op (.inl h))
    · cases h with | i32 h => exact .i32 (Integer.isNull_arith op (.inr h))
  case i64.i64 =>
    rcases h with h | h
    · cases h with | i64 h => exact .i64 (Integer.isNull_arith op (.inl h))
    · cases h with | i64 h => exact .i64 (Integer.isNull_arith op (.inr h))
  case i128.i128 =>
    rcases h with h | h <;> cases h
  case f32.f32 =>
    rcases h with h | h
    · cases h with | f32 h => exact of_eq_nan_single (Floating.arith_eq_nan op (.inl h))
    · cases h with | f32 h => exact of_eq_nan_single (Floating.arith_eq_nan op (.inr h))
  case f64.f64 =>
    rcases h with h | h
    · cases h with | f64 h => exact of_eq_nan_double (Floating.arith_eq_nan op (.inl h))
    · cases h with | f64 h => exact of_eq_nan_double (Floating.arith_eq_nan op (.inr h))

end DataType.IsNull

/-- Beside a null of a type, arithmetic on a type of the same rank computes at the type of the
null. -/
theorem DataType.IsNull.arithType_eq {s t : DataType} {a : Word} (h : t.IsNull a)
    (hrank : s.rank = t.rank) : Operand.arithType s = t := by
  revert hrank
  cases h <;> cases s <;> decide

namespace Value

/-- The word is in a register of the class that the type prescribes. -/
def Coherent (v : Value) : Prop :=
  v.word.regClass = v.dataType.regClass

/-- The word is the null of the type. -/
def IsNull (v : Value) : Prop :=
  v.dataType.IsNull v.word

variable {v a b : Value}

theorem coherent_valueAs (target : DataType) (x : Literal) : (x.valueAs target).Coherent := by
  cases x with
  | int x =>
    cases target
    case i8 | i16 | i32 =>
      simp only [Literal.valueAs]
      split <;> rfl
    all_goals rfl
  | float x =>
    simp only [Literal.valueAs]
    split <;> rfl

theorem coherent_settle {x y : Option Literal × Value} (hx : x.2.Coherent) (hy : y.2.Coherent) :
    (settle x y).1.Coherent ∧ (settle x y).2.Coherent := by
  obtain ⟨_ | x, a⟩ := x <;> obtain ⟨_ | y, b⟩ := y
  · exact ⟨hx, hy⟩
  · exact ⟨hx, coherent_valueAs _ y⟩
  · exact ⟨coherent_valueAs _ x, hy⟩
  · exact ⟨hx, hy⟩

/-- Only an inline literal is changed by what stands beside it. -/
theorem settle_fst (a : Value) (y : Option Literal × Value) : (settle (none, a) y).1 = a := by
  obtain ⟨_ | y, b⟩ := y <;> rfl

theorem settle_snd (x : Option Literal × Value) (b : Value) : (settle x (none, b)).2 = b := by
  obtain ⟨_ | x, a⟩ := x <;> rfl

theorem Coherent.promote (h : v.Coherent) (nullCheck : Bool) (target : Rank) :
    (v.promote nullCheck target).Coherent := by
  unfold Value.promote
  split
  next => exact h
  next =>
    refine (Word.regClass_widen _ _ _).trans ?_
    cases target <;> rfl

theorem rank_promote (v : Value) (nullCheck : Bool) (target : Rank) :
    (v.promote nullCheck target).dataType.rank = some target := by
  unfold Value.promote
  split
  next h => exact h
  next => cases target <;> rfl

theorem IsNull.exists_rank (h : v.IsNull) : ∃ r, v.dataType.rank = some r := by
  obtain ⟨t, p, w⟩ := v
  cases h <;> exact ⟨_, rfl⟩

theorem IsNull.promote (h : v.IsNull) {source target : Rank}
    (hsource : v.dataType.rank = some source)
    (hconverts : source ≠ target → source.convertsTo target = true) :
    (v.promote true target).IsNull := by
  by_cases heq : source = target
  · rw [promote_of_rank (heq ▸ hsource)]
    exact h
  · rw [promote_of_rank_ne hsource heq]
    exact DataType.IsNull.widen h hsource (hconverts heq)

/-- Two types that meet both have a rank if one of them has. -/
theorem exists_rank_of_unify {nullCheck : Bool} {c : Value × Value}
    (h : unify nullCheck a b = .ok c)
    (hrank : (∃ r, a.dataType.rank = some r) ∨ ∃ r, b.dataType.rank = some r) :
    ∃ l r, a.dataType.rank = some l ∧ b.dataType.rank = some r := by
  unfold unify at h
  split at h
  next l r hl hr => exact ⟨l, r, hl, hr⟩
  next hnone =>
    split at h
    next ht =>
      rw [ht, or_self] at hrank
      obtain ⟨r, hr⟩ := hrank
      exact ⟨r, r, ht ▸ hr, hr⟩
    next => cases h

/-- Two values of which one is null, brought to a common type, are two values of one rank of which
one is null. -/
theorem isNull_unify {a' b' : Value} (ha : a.Coherent) (hb : b.Coherent) (h : a.IsNull ∨ b.IsNull)
    (hunify : unify true a b = .ok (a', b')) :
    a'.Coherent ∧ b'.Coherent ∧ a'.dataType.rank = b'.dataType.rank ∧ (a'.IsNull ∨ b'.IsNull) := by
  obtain ⟨l, r, hl, hr⟩ :=
    exists_rank_of_unify hunify (h.imp IsNull.exists_rank IsNull.exists_rank)
  rw [unify_of_rank hl hr] at hunify
  cases hunify
  obtain ⟨hconvl, hconvr⟩ := Rank.convertsTo_join l r
  refine ⟨ha.promote _ _, hb.promote _ _, ?_, ?_⟩
  · rw [rank_promote, rank_promote]
  · exact h.imp (fun h => h.promote hl hconvl) fun h => h.promote hr hconvr

/-- An operator of arithmetic on two values of one rank, of which one is null, yields null. -/
theorem isNull_arith (op : ArithOp) (ha : a.Coherent) (hb : b.Coherent)
    (hrank : a.dataType.rank = b.dataType.rank) (h : a.IsNull ∨ b.IsNull) :
    (combine (.arith op) true a b).IsNull := by
  have hclass : a.word.regClass = b.word.regClass := by
    obtain ⟨r, hr⟩ : ∃ r, a.dataType.rank = some r := by
      rcases h with h | h
      · exact h.exists_rank
      · exact hrank ▸ h.exists_rank
    rw [ha, hb, DataType.regClass_of_rank hr, DataType.regClass_of_rank (hrank ▸ hr)]
  change (Operand.arithType a.dataType).IsNull (Word.arith op true a.word b.word)
  refine DataType.IsNull.arith op hclass ?_
  rcases h with h | h
  · rw [DataType.IsNull.arithType_eq h rfl]
    exact .inl h
  · rw [DataType.IsNull.arithType_eq h hrank]
    exact .inr h

end Value

namespace Expr

variable {memory : Memory} {row : BitVec 64} {e : Expr} {v : Value}

/-- The expressions built from any leaves by negation and the operators of arithmetic. -/
def IsArithmetic : Expr → Prop
  | leaf _ _ _ => True
  | unary op _ _ arg => op = .neg ∧ arg.IsArithmetic
  | binary op _ _ lhs rhs => (∃ arith, op = .arith arith) ∧ lhs.IsArithmetic ∧ rhs.IsArithmetic

/-- Some variable or column of the expression is, on the row, the null of its declared type. -/
def ReadsNull (memory : Memory) (row : BitVec 64) : Expr → Prop
  | leaf .literal _ _ => False
  | leaf .var options payload =>
    let i : Instruction := ⟨.leaf .var, options, payload⟩
    ∃ t, i.dataType = .ok t ∧ t.IsNull (memory.slotWord t i.index.toNat)
  | leaf .column options payload =>
    let i : Instruction := ⟨.leaf .column, options, payload⟩
    ∃ t, i.dataType = .ok t ∧ t.IsNull (memory.elementWord t i.index.toNat row)
  | unary _ _ _ arg => arg.ReadsNull memory row
  | binary _ _ _ lhs rhs => lhs.ReadsNull memory row ∨ rhs.ReadsNull memory row

theorem ReadsNull.inlineLiteral? (h : e.ReadsNull memory row) : e.inlineLiteral? = none := by
  cases e with
  | leaf op options payload =>
    cases op with
    | literal => exact h.elim
    | var | column => rfl
  | unary | binary => rfl

/-- The value of an expression is in a register of the class that its type prescribes, because its
code is. -/
theorem coherent_value {nullCheck : Bool} (h : e.value nullCheck memory row = .ok v) :
    v.Coherent := by
  rw [← Predicate.map_result_compile_stream] at h
  cases hcompile : Predicate.compile nullCheck e.stream with
  | error err =>
    rw [hcompile] at h
    cases h
  | ok p =>
    rw [hcompile] at h
    cases h
    exact (Code.regClass_eval _ p.code).trans (Predicate.regClass_code hcompile).1

theorem isNull_leaf {op : LeafOp} {options : BitVec 32} {payload : Payload}
    (hnull : (leaf op options payload).ReadsNull memory row)
    (h : Value.ofLeaf memory row op ⟨.leaf op, options, payload⟩ = .ok v) : v.IsNull := by
  obtain ⟨t, ht, h⟩ := exists_of_bind_eq_ok h
  cases op with
  | literal => exact hnull.elim
  | var =>
    obtain ⟨slot, hslot, h⟩ := exists_of_bind_eq_ok h
    obtain ⟨u, hu, hnull⟩ := hnull
    obtain rfl : t = u := Except.ok.inj (ht.symm.trans hu)
    rw [← Operand.slotNumber_eq_ok hslot] at hnull
    cases h
    exact hnull
  | column =>
    obtain ⟨column, hcolumn, h⟩ := exists_of_bind_eq_ok h
    obtain ⟨u, hu, hnull⟩ := hnull
    obtain rfl : t = u := Except.ok.inj (ht.symm.trans hu)
    rw [← Operand.slotNumber_eq_ok hcolumn] at hnull
    -- A type that has a null is read as it is declared.
    cases t
    case i32 | i64 | f32 | f64 =>
      cases h
      exact hnull
    all_goals cases hnull

/-- An arithmetic expression that reads a null is null. -/
theorem isNull_value (harith : e.IsArithmetic) (hnull : e.ReadsNull memory row)
    (h : e.value true memory row = .ok v) : v.IsNull := by
  induction e generalizing v with
  | leaf op options payload => exact isNull_leaf hnull h
  | unary op options payload arg ih =>
    obtain ⟨rfl, harg⟩ := harith
    obtain ⟨a, ha, h⟩ := exists_of_bind_eq_ok h
    unfold Value.unary at h
    split at h
    · cases h
      exact (ih harg hnull ha).neg
    · cases h
  | binary op options payload lhs rhs ihl ihr =>
    obtain ⟨⟨op, rfl⟩, hl, hr⟩ := harith
    obtain ⟨a, ha, h⟩ := exists_of_bind_eq_ok h
    obtain ⟨b, hb, h⟩ := exists_of_bind_eq_ok h
    obtain ⟨⟨a', b'⟩, hunify, h⟩ := exists_of_bind_eq_ok h
    obtain ⟨hca, hcb⟩ := Value.coherent_settle (x := (lhs.inlineLiteral?, a))
      (y := (rhs.inlineLiteral?, b)) (coherent_value ha) (coherent_value hb)
    -- A side that reads a null is no inline literal, so it keeps its value beside the other side.
    have hside : (Value.settle (lhs.inlineLiteral?, a) (rhs.inlineLiteral?, b)).1.IsNull ∨
        (Value.settle (lhs.inlineLiteral?, a) (rhs.inlineLiteral?, b)).2.IsNull := by
      rcases hnull with hnull | hnull
      · rw [hnull.inlineLiteral?, Value.settle_fst]
        exact .inl (ihl hl hnull ha)
      · rw [hnull.inlineLiteral?, Value.settle_snd]
        exact .inr (ihr hr hnull hb)
    obtain ⟨hca', hcb', hrank, hside'⟩ := Value.isNull_unify hca hcb hside hunify
    simp only [Value.binary] at h
    split at h
    · cases h
      exact Value.isNull_arith op hca' hcb' hrank hside'
    · cases h

end Expr

/-- With the null check, an arithmetic expression that compiles is null on every row on which one
of its variables or columns is the null of its declared type: the predicate's value there is the
null of the predicate's type. -/
theorem Predicate.isNull_value_of_readsNull {e : Expr} {p : Predicate} {memory : Memory}
    {row : BitVec 64} (hcompile : compile true e.stream = .ok p) (harith : e.IsArithmetic)
    (hnull : e.ReadsNull memory row) : p.dataType.IsNull (p.value memory row) := by
  have hvalue : e.value true memory row = .ok (p.result memory row) := by
    rw [← map_result_compile_stream, hcompile]
    rfl
  exact Expr.isNull_value harith hnull hvalue

/-- The null of a 32-bit variable, less a 64-bit column, divided by a literal and negated: it
becomes the 64-bit null on the way and ends as a double that is not a number. -/
theorem Predicate.isNull_value_of_readsNull_widened :
    let e : Expr := .unary .neg 0 (.int 0) (.binary (.arith .div) 0 (.int 0)
      (.binary (.arith .sub) 0 (.int 0) (.leaf .var 2 (.int 0)) (.leaf .column 4 (.int 0)))
      (.leaf .literal 3 (.float 0x3FE0000000000000)))
    let memory : Memory := ⟨fun _ _ => 7, fun _ _ => 0, Buffer.ofBytes #[0, 0, 0, 0x80]⟩
    ∃ p, compile true e.stream = .ok p ∧ e.IsArithmetic ∧ e.ReadsNull memory 3 ∧
      p.dataType = .f64 ∧ p.dataType.IsNull (p.value memory 3) := by
  intro e memory
  have harith : e.IsArithmetic := ⟨rfl, ⟨_, rfl⟩, ⟨⟨_, rfl⟩, trivial, trivial⟩, trivial⟩
  have hnull : e.ReadsNull memory 3 := .inl (.inl ⟨.i32, rfl, .i32 (by decide)⟩)
  exact ⟨_, rfl, harith, hnull, rfl, isNull_value_of_readsNull rfl harith hnull⟩

end RowFilter
