import RowFilter.Proofs.Comparison.Conversion
import RowFilter.Proofs.Comparison.Floats

/-!
# Float comparisons partition the rows

Two numeric expressions of which one at least is a float end up in two float registers of one
format. All six comparisons work on these registers, so on each row their results hang together as
those of two floats do. Where both expressions have one type the registers hold their values as they
are.

## Main definitions

- `OperandPair.Floating` — two registers with floats of one format.

## Main statements

- `Value.exists_unify_of_isFloat` — two numeric values brought to a common float type.
- `Expr.exists_loads_of_isFloat` — two expressions in their registers.
- `Expr.float_comparisons_partition` — the comparisons.
-/

namespace RowFilter

variable {nullCheck : Bool} {memory : Memory} {row : BitVec 64}

/-- The float types are the only ones of their ranks. -/
theorem DataType.eq_of_rank {t : DataType} {r : Rank} (h : t.rank = some r)
    (hr : r.isInt = false) : t = r.dataType := by
  cases t <;> cases h <;> first | rfl | cases hr

theorem DataType.isFloat_iff {t : DataType} :
    t.isFloat = true ↔ ∃ r, t.rank = some r ∧ r.isInt = false := by
  cases t <;> simp [isFloat, rank, Rank.isInt]

/-- A float beside a number makes both floats. -/
theorem Rank.isInt_join {l r : Rank} (h : l.isInt = false ∨ r.isInt = false) :
    (l.join r).isInt = false := by
  revert h
  cases l <;> cases r <;> decide

/-- An inline literal that was given a type has the same value at that type. -/
theorem Literal.valueAs_dataType (x : Literal) (t : DataType) :
    x.valueAs (x.valueAs t).dataType = x.valueAs t := by
  cases x with
  | int n =>
    cases t
    case i8 | i16 | i32 => by_cases h : withinInt32 n = true <;> simp [valueAs, h]
    all_goals rfl
  | float bits =>
    by_cases h : t ≠ .i64 ∧ t ≠ .f64 ∧ withinSingle bits = true
    · simp [valueAs, h]
    · simp [valueAs, h]

/-- A literal has a rank at every type that has one. -/
theorem Literal.isSome_rank_valueAs (x : Literal) {t : DataType} (h : t.rank.isSome = true) :
    (x.valueAs t).dataType.rank.isSome = true := by
  cases x with
  | int n =>
    cases t
    case i8 | i16 | i32 => by_cases h : withinInt32 n = true <;> simp [valueAs, h, DataType.rank]
    case i64 | f32 | f64 => rfl
    all_goals cases h
  | float bits =>
    rw [valueAs]
    split <;> rfl

/-- An integer literal is a float at a float type only, a float literal at every type. -/
theorem Literal.isFloat_valueAs (x : Literal) (t : DataType) :
    (x.valueAs t).dataType.isFloat = true ↔ t.isFloat = true ∨ ∃ bits, x = .float bits := by
  cases x with
  | int n =>
    cases t
    case i8 | i16 | i32 =>
      by_cases h : withinInt32 n = true <;> simp [valueAs, h, DataType.isFloat]
    all_goals simp [valueAs, DataType.isFloat]
  | float bits =>
    refine iff_of_true ?_ (.inr ⟨bits, rfl⟩)
    rw [valueAs]
    split <;> rfl

namespace Value

variable {a b : Value}

theorem dataType_promote (v : Value) (nullCheck : Bool) {target : Rank}
    (h : target.isInt = false) : (v.promote nullCheck target).dataType = target.dataType :=
  DataType.eq_of_rank (rank_promote v nullCheck target) h

/-- Two numeric values of which one is a float are both brought to one float type, their own if they
have the same. -/
theorem exists_unify_of_isFloat (ha : a.dataType.rank.isSome = true)
    (hb : b.dataType.rank.isSome = true)
    (hfloat : a.dataType.isFloat = true ∨ b.dataType.isFloat = true) (nullCheck : Bool) :
    ∃ target : Rank, target.isInt = false ∧
      unify nullCheck a b = .ok (a.promote nullCheck target, b.promote nullCheck target) ∧
      (a.dataType = b.dataType → a.dataType.rank = some target) := by
  obtain ⟨l, hl⟩ := Option.isSome_iff_exists.1 ha
  obtain ⟨r, hr⟩ := Option.isSome_iff_exists.1 hb
  refine ⟨l.join r, Rank.isInt_join ?_, unify_of_rank hl hr nullCheck, fun h => ?_⟩
  · refine hfloat.imp (fun h => ?_) fun h => ?_
    · obtain ⟨l', hl', hint⟩ := DataType.isFloat_iff.1 h
      rwa [Option.some.inj (hl.symm.trans hl')]
    · obtain ⟨r', hr', hint⟩ := DataType.isFloat_iff.1 h
      rwa [Option.some.inj (hr.symm.trans hr')]
  · obtain rfl : l = r := by
      rw [h, hr] at hl
      exact (Option.some.inj hl).symm
    rw [hl, l.join_self]

/-- Coherent values of one float type are in registers of one format. -/
theorem Coherent.sameFormat (ha : a.Coherent) (hb : b.Coherent) (h : a.dataType = b.dataType)
    (hfloat : a.dataType.isFloat = true) : Word.SameFormat a.word b.word := by
  obtain ⟨s, p, x⟩ := a
  obtain ⟨t, q, y⟩ := b
  cases h
  cases s
  case f32 | f64 =>
    cases x <;> cases ha
    cases y <;> cases hb
    constructor
  all_goals cases hfloat

end Value

namespace Expr

variable {lhs rhs : Expr} {v w : Value}

/-- An inline literal that is a float remains one at every type. -/
theorem isFloat_valueAs_of_inlineLiteral? {e : Expr} {x : Literal}
    (hx : e.inlineLiteral? = some x) (hv : e.value nullCheck memory row = .ok v)
    (hfloat : v.dataType.isFloat = true) (t : DataType) :
    (x.valueAs t).dataType.isFloat = true := by
  obtain ⟨own, rfl, hown⟩ := exists_valueAs_of_inlineLiteral? hx hv
  exact (x.isFloat_valueAs t).2 (.inr (((x.isFloat_valueAs own).1 hfloat).elim hown.1 id))

theorem valueAs_self_of_inlineLiteral? {e : Expr} {x : Literal}
    (hx : e.inlineLiteral? = some x) (hv : e.value nullCheck memory row = .ok v) :
    x.valueAs v.dataType = v := by
  obtain ⟨own, rfl, -⟩ := exists_valueAs_of_inlineLiteral? hx hv
  exact x.valueAs_dataType own

/-- Two numeric values beside each other of which one is a float. They are numeric, one of them is a
float, and if they had one type before they are what they were. -/
theorem exists_sides_of_isFloat (hlhs : lhs.value nullCheck memory row = .ok v)
    (hrhs : rhs.value nullCheck memory row = .ok w) (hv : v.dataType.rank.isSome = true)
    (hw : w.dataType.rank.isSome = true)
    (hfloat : v.dataType.isFloat = true ∨ w.dataType.isFloat = true) :
    ∃ a b, sides nullCheck memory row lhs rhs = .ok (a, b) ∧ a.dataType.rank.isSome = true ∧
      b.dataType.rank.isSome = true ∧ (a.dataType.isFloat = true ∨ b.dataType.isFloat = true) ∧
      (v.dataType = w.dataType → a = v ∧ b = w) := by
  have hsides : sides nullCheck memory row lhs rhs =
      .ok (Value.settle (lhs.inlineLiteral?, v) (rhs.inlineLiteral?, w)) := by
    rw [sides, hlhs, hrhs]
    rfl
  rw [hsides]
  cases hx : lhs.inlineLiteral? with
  | none =>
    cases hy : rhs.inlineLiteral? with
    | none => exact ⟨v, w, rfl, hv, hw, hfloat, fun _ => ⟨rfl, rfl⟩⟩
    | some y =>
      refine ⟨v, _, rfl, hv, y.isSome_rank_valueAs hv, hfloat.imp_right fun h => ?_,
        fun h => ⟨rfl, ?_⟩⟩
      · exact isFloat_valueAs_of_inlineLiteral? hy hrhs h v.dataType
      · exact h ▸ valueAs_self_of_inlineLiteral? hy hrhs
  | some x =>
    cases hy : rhs.inlineLiteral? with
    | none =>
      refine ⟨_, w, rfl, x.isSome_rank_valueAs hw, hw, hfloat.imp_left fun h => ?_,
        fun h => ⟨?_, rfl⟩⟩
      · exact isFloat_valueAs_of_inlineLiteral? hx hlhs h w.dataType
      · exact h ▸ valueAs_self_of_inlineLiteral? hx hlhs
    | some y => exact ⟨v, w, rfl, hv, hw, hfloat, fun _ => ⟨rfl, rfl⟩⟩

/-- Two numeric values of which one is a float are converted to registers of one float type. -/
theorem exists_converted_of_isFloat (hlhs : lhs.value nullCheck memory row = .ok v)
    (hrhs : rhs.value nullCheck memory row = .ok w) (hv : v.dataType.rank.isSome = true)
    (hw : w.dataType.rank.isSome = true)
    (hfloat : v.dataType.isFloat = true ∨ w.dataType.isFloat = true) :
    ∃ a b, converted nullCheck memory row lhs rhs = .ok (a, b) ∧ a.Coherent ∧ b.Coherent ∧
      a.dataType = b.dataType ∧ a.dataType.isFloat = true ∧
      (v.dataType = w.dataType → a = v ∧ b = w) := by
  obtain ⟨a, b, hsides, ha, hb, hfloat', hsame⟩ :=
    exists_sides_of_isFloat hlhs hrhs hv hw hfloat
  obtain ⟨hca, hcb⟩ := coherent_sides hsides
  obtain ⟨target, htarget, hunify, hown⟩ := Value.exists_unify_of_isFloat ha hb hfloat' nullCheck
  refine ⟨_, _, ?_, hca.promote nullCheck target, hcb.promote nullCheck target, ?_, ?_, ?_⟩
  · rw [converted, hsides]
    exact hunify
  · rw [Value.dataType_promote a nullCheck htarget, Value.dataType_promote b nullCheck htarget]
  · rw [Value.dataType_promote a nullCheck htarget]
    cases target <;> first | rfl | cases htarget
  · intro h
    obtain ⟨rfl, rfl⟩ := hsame h
    have hrank := hown h
    exact ⟨Value.promote_of_rank hrank nullCheck, Value.promote_of_rank (h ▸ hrank) nullCheck⟩

end Expr

namespace OperandPair

/-- Two registers with floats of one format. -/
structure Floating (o : OperandPair) : Prop where
  dataType : o.lhs.dataType = o.rhs.dataType
  isFloat : o.lhs.dataType.isFloat = true
  sameFormat (memory : Memory) (row : BitVec 64) :
    Word.SameFormat (o.left memory row).word (o.right memory row).word

end OperandPair

/-- The comparisons are defined on floats. -/
theorem Comparison.supports_of_isFloat (c : Comparison) {t : DataType} (h : t.isFloat = true) :
    Value.supports t (.binary c.op) = true := by
  cases c with
  | equality => rfl
  | order => exact Bool.or_eq_true_iff.2 (.inr h)

namespace Expr

variable {lhs rhs : Expr} {p q : Predicate}

/-- Two numeric expressions of which one is a float end up in float registers of one format. If the
expressions have one type, the registers hold what the expressions have alone. -/
theorem exists_loads_of_isFloat (hp : Predicate.compile nullCheck lhs.stream = .ok p)
    (hq : Predicate.compile nullCheck rhs.stream = .ok q) (hpn : p.dataType.rank.isSome = true)
    (hqn : q.dataType.rank.isSome = true)
    (hfloat : p.dataType.isFloat = true ∨ q.dataType.isFloat = true) :
    ∃ o, Loads nullCheck lhs rhs o ∧ o.Floating ∧ (p.dataType = q.dataType → ∀ memory row,
      o.left memory row = p.result memory row ∧ o.right memory row = q.result memory row) := by
  have hconverted := fun memory row => exists_converted_of_isFloat
    (Predicate.value_of_compile_stream hp memory row)
    (Predicate.value_of_compile_stream hq memory row) hpn hqn hfloat
  obtain ⟨_, _, hany, -⟩ := hconverted Emission.zeroMemory 0
  obtain ⟨o, ho⟩ := exists_loads hany
  have hregisters : ∀ memory row, (o.left memory row).Coherent ∧ (o.right memory row).Coherent ∧
      o.lhs.dataType = o.rhs.dataType ∧ o.lhs.dataType.isFloat = true ∧
      (p.dataType = q.dataType →
        o.left memory row = p.result memory row ∧ o.right memory row = q.result memory row) := by
    intro memory row
    obtain ⟨a, b, h, hab⟩ := hconverted memory row
    cases (ho.converted memory row).symm.trans h
    exact hab
  obtain ⟨-, -, htype, hisFloat, -⟩ := hregisters Emission.zeroMemory 0
  refine ⟨o, ho, ⟨htype, hisFloat, fun memory row => ?_⟩, fun h memory row => ?_⟩
  · obtain ⟨hl, hr, -⟩ := hregisters memory row
    exact hl.sameFormat hr htype hisFloat
  · exact (hregisters memory row).2.2.2.2 h

/-- The comparisons of two numeric expressions of which one is a float compile to predicates on one
pair of float registers of one format, which hold the values of the expressions if these have one
type.

On every row the six results obey the laws of float comparison for the two registers: equality is
within a tolerance, and what is not a number is null. -/
theorem float_comparisons_partition (hp : Predicate.compile nullCheck lhs.stream = .ok p)
    (hq : Predicate.compile nullCheck rhs.stream = .ok q) (hpn : p.dataType.rank.isSome = true)
    (hqn : q.dataType.rank.isSome = true)
    (hfloat : p.dataType.isFloat = true ∨ q.dataType.isFloat = true) :
    ∃ o : OperandPair,
      (∀ (c : Comparison) options payload,
        Predicate.compile nullCheck (binary c.op options payload lhs rhs).stream =
          .ok (o.predicate nullCheck c.op)) ∧
      o.lhs.dataType = o.rhs.dataType ∧ o.lhs.dataType.isFloat = true ∧
      (p.dataType = q.dataType → ∀ memory row,
        o.left memory row = p.result memory row ∧ o.right memory row = q.result memory row) ∧
      ∀ memory row,
        Word.SameFormat (o.left memory row).word (o.right memory row).word ∧
        (∀ c, (o.predicate nullCheck c.op).result memory row =
          ⟨.i32, (o.left memory row).provenance.join (o.right memory row).provenance,
            .i32 (if Word.compare nullCheck c (o.left memory row).word (o.right memory row).word
              then 1 else 0)⟩) ∧
        Comparison.FloatLaws nullCheck (o.left memory row).word.isNaN
          (o.right memory row).word.isNaN
          (fun c => Word.compare nullCheck c (o.left memory row).word
            (o.right memory row).word) := by
  obtain ⟨o, hloads, ho, hkeeps⟩ := exists_loads_of_isFloat hp hq hpn hqn hfloat
  refine ⟨o, fun c options payload => ?_, ho.dataType, ho.isFloat, hkeeps, fun memory row => ?_⟩
  · exact hloads.compile c.op (c.supports_of_isFloat ho.isFloat) options payload
  · refine ⟨ho.sameFormat memory row, fun c => ?_, (ho.sameFormat memory row).floatLaws nullCheck⟩
    rw [o.result_predicate]
    cases c <;> rfl

/-- With the null check no double is at least the literal that is not a number, a stored null
included. -/
theorem float_comparisons_partition_null :
    let column : Expr := .leaf .column 5 (.int 0)
    let null : Expr := .leaf .literal 5 (.float 0x7FF8000000000000)
    ∃ p q, Predicate.compile true column.stream = .ok p ∧
      Predicate.compile true null.stream = .ok q ∧ p.dataType.rank.isSome = true ∧
      q.dataType.rank.isSome = true ∧ (p.dataType.isFloat = true ∨ q.dataType.isFloat = true) ∧
      ∃ r, Predicate.compile true (binary (.order .ge) 0 (.int 0) column null).stream = .ok r ∧
        ∀ memory row, r.value memory row = .i32 0 := by
  intro column null
  have hcolumn : Predicate.compile true column.stream = .ok _ := rfl
  have hliteral : Predicate.compile true null.stream = .ok _ := rfl
  obtain ⟨o, hcompile, -, -, hkeeps, hlaws⟩ :=
    float_comparisons_partition hcolumn hliteral rfl rfl (.inl rfl)
  refine ⟨_, _, hcolumn, hliteral, rfl, rfl, .inl rfl, _, hcompile (.order .ge) 0 (.int 0), ?_⟩
  intro memory row
  obtain ⟨-, hresult, laws⟩ := hlaws memory row
  have hword := congrArg Value.word (hresult (.order .ge))
  have hnull : (o.right memory row).word.isNaN = true := by
    rw [(hkeeps rfl memory row).2,
      ← Except.ok.inj (Predicate.value_of_compile_stream hliteral memory row)]
    rfl
  have hge : Word.compare true (.order .ge) (o.left memory row).word (o.right memory row).word =
      false := by
    cases hleft : (o.left memory row).word.isNaN with
    | true => exact (laws.bothNaN hleft hnull).2.2.2.2.2
    | false =>
      refine Bool.eq_false_iff.2 fun h => ?_
      cases (laws.oneNaN (by rw [hleft, hnull]; decide) _).1 h
  rw [hge] at hword
  exact hword

end Expr

end RowFilter
