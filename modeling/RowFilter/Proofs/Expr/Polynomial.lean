import Mathlib.Algebra.MvPolynomial.Eval
import RowFilter.Proofs.Comparison.Conversion
import RowFilter.Proofs.Operand.SlotReads
import RowFilter.Proofs.Selector.BooleanAlgebra

/-!
# Integer polynomials

Without the null check, sums, differences, products and negations of integers of one rank are those
of the integers, modulo the range of the register. Every node wraps around. Reduction to a signed
range is a homomorphism of rings, so it makes no difference where it takes place: the value of an
expression is that of the exact integers, reduced once. An expression is then a polynomial in the
slots and columns that it reads, and expressions that are one polynomial select the same rows.

## Main definitions

- `Read` — a slot or a column with the type it is read at.
- `Expr.IsPolynomial` — the expressions.
- `Expr.evalIn` — what an expression is in a ring, given what its reads are there. It yields the
  exact integer `Expr.number` and the polynomial `Expr.polynomial`.
- `Value.Residue` — a value that stands for an integer up to the range of its register.

## Main statements

- `Expr.map_evalIn` — homomorphisms of rings preserve what an expression is.
- `Expr.IsPolynomial.exists_value` — the value of an expression, by induction.
- `Expr.compile_polynomial` — the compiled predicate, and the rows it selects.
-/

namespace RowFilter

open Operand (IsSlot)

/-- A read of an integer: a slot or a column with the type it is read at. -/
structure Read where
  op : ReadOp
  dataType : DataType
  slot : Nat
  deriving DecidableEq, Repr

/-- The integer that is read on a row: the signed integer stored there, of the declared width. -/
def Read.number (memory : Memory) (row : BitVec 64) (x : Read) : ℤ :=
  match x.op with
  | .var => (memory.slots.read x.dataType.size (BitVec.ofNat 64 (8 * x.slot))).toInt
  | .column =>
    ((memory.column x.slot).read x.dataType.size (row * BitVec.ofNat 64 x.dataType.size)).toInt

namespace ArithOp

/-- An operator of arithmetic in a ring. Quotients, of which a ring has none, count as zero. -/
def inRing {R : Type} [Ring R] (op : ArithOp) (a b : R) : R :=
  match op with
  | add => a + b
  | sub => a - b
  | mul => a * b
  | div => 0

theorem map_inRing {R S : Type} [Ring R] [Ring S] (f : R →+* S) (op : ArithOp) (a b : R) :
    f (op.inRing a b) = op.inRing (f a) (f b) := by
  cases op with
  | add => exact map_add f a b
  | sub => exact map_sub f a b
  | mul => exact map_mul f a b
  | div => exact map_zero f

/-- The operands may be reduced beforehand. -/
theorem bmod_inRing (op : ArithOp) (m n : ℤ) (k : ℕ) :
    (op.inRing (m.bmod k) (n.bmod k)).bmod k = (op.inRing m n).bmod k := by
  cases op with
  | add => exact Int.bmod_add_bmod.trans Int.add_bmod_bmod
  | sub => exact Int.bmod_sub_bmod.trans Int.sub_bmod_bmod
  | mul => exact Int.bmod_mul_bmod.trans Int.mul_bmod_bmod
  | div => rfl

end ArithOp

/-- Unchecked arithmetic on words is that of the integers, reduced. -/
theorem Integer.toInt_arith {w : Nat} {op : ArithOp} (hop : op ≠ .div) (a b : BitVec w) :
    (arith op false a b).toInt = (op.inRing a.toInt b.toInt).bmod (2 ^ w) := by
  cases op with
  | add => exact BitVec.toInt_add a b
  | sub => exact BitVec.toInt_sub
  | mul => exact BitVec.toInt_mul a b
  | div => exact absurd rfl hop

namespace Word

theorem toInt_bmod (a : Word) : a.toInt.bmod (2 ^ a.regClass.bits) = a.toInt := by
  cases a with
  | i32 a | i64 a | i128 a => exact BitVec.toInt_bmod_cancel a
  | f32 a | f64 a => exact Int.zero_bmod

theorem toInt_neg (a : Word) : a.neg.toInt = (-a.toInt).bmod (2 ^ a.regClass.bits) := by
  cases a with
  | i32 a | i64 a | i128 a => exact BitVec.toInt_neg
  | f32 a | f64 a => exact Int.zero_bmod.symm

theorem SameWidth.toInt_arith {a b : Word} (h : SameWidth a b) {op : ArithOp} (hop : op ≠ .div) :
    (arith op false a b).toInt = (op.inRing a.toInt b.toInt).bmod (2 ^ a.regClass.bits) := by
  cases h with
  | i32 a b => exact Integer.toInt_arith hop a b
  | i64 a b => exact Integer.toInt_arith hop a b

end Word

namespace Value

variable {r : Rank} {m n : ℤ} {v w : Value}

/-- The value has an integer type of the rank, and its register holds the integer reduced to the
signed range of the register. -/
structure Residue (r : Rank) (n : ℤ) (v : Value) : Prop where
  integral : v.Integral
  rank : v.dataType.rank = some r
  toInt : v.word.toInt = n.bmod (2 ^ r.regClass.bits)

theorem Integral.regClass_of_rank (h : v.Integral) (hrank : v.dataType.rank = some r) :
    v.word.regClass = r.regClass :=
  h.regClass.trans (DataType.regClass_of_rank hrank)

/-- A value stands for its own integer. -/
theorem Integral.residue (h : v.Integral) (hrank : v.dataType.rank = some r) :
    v.Residue r v.word.toInt :=
  ⟨h, hrank, by rw [← h.regClass_of_rank hrank, Word.toInt_bmod]⟩

/-- Values of one rank that stand for one integer are in equal registers. -/
theorem Residue.word_eq (hv : v.Residue r n) (hw : w.Residue r n) : v.word = w.word := by
  have hsame := hv.integral.sameWidth hw.integral (hv.rank.trans hw.rank.symm)
  exact hsame.toInt_inj.1 (hv.toInt.trans hw.toInt.symm)

theorem Residue.neg (h : v.Residue r n) :
    Residue r (-n) ⟨v.dataType, v.provenance, v.word.neg⟩ where
  integral := ⟨h.integral.isInt, (Word.regClass_neg _).trans h.integral.regClass⟩
  rank := h.rank
  toInt := by
    rw [Word.toInt_neg, h.integral.regClass_of_rank h.rank, h.toInt, Int.bmod_neg_bmod]

/-- Arithmetic widens the narrow types of a rank to the widest one, which their values are in
already. -/
theorem Residue.arith (hv : v.Residue r m) (hw : w.Residue r n) {op : ArithOp} (hop : op ≠ .div) :
    (combine (.arith op) false v w).Residue r (op.inRing m n) := by
  have htype : (Operand.arithType v.dataType).rank = v.dataType.rank ∧
      (Operand.arithType v.dataType).regClass = v.dataType.regClass := by
    cases v.dataType <;> exact ⟨rfl, rfl⟩
  have hsame := hv.integral.sameWidth hw.integral (hv.rank.trans hw.rank.symm)
  refine ⟨⟨?_, ?_⟩, htype.1.trans hv.rank, ?_⟩
  · exact (congrArg (Option.any Rank.isInt) htype.1).trans hv.integral.isInt
  · exact (Word.regClass_arith _ _ _ _).trans (hv.integral.regClass.trans htype.2.symm)
  · refine (hsame.toInt_arith hop).trans ?_
    rw [hv.integral.regClass_of_rank hv.rank, hv.toInt, hw.toInt, ArithOp.bmod_inRing]

/-- A value, given with the inline literal it is if it is one, stands for an integer at whichever
type of the rank it is taken. -/
def StandsFor (r : Rank) (n : ℤ) (x : Option Literal × Value) : Prop :=
  x.2.Residue r n ∧ ∀ l, x.1 = some l → ∀ t : DataType, t.rank = some r → (l.valueAs t).Residue r n

/-- Beside each other two values still stand for their integers. -/
theorem StandsFor.settle {x y : Option Literal × Value} (hx : StandsFor r m x)
    (hy : StandsFor r n y) :
    (settle x y).1.Residue r m ∧ (settle x y).2.Residue r n := by
  obtain ⟨_ | x, a⟩ := x <;> obtain ⟨_ | y, b⟩ := y
  · exact ⟨hx.1, hy.1⟩
  · exact ⟨hx.1, hy.2 y rfl _ hx.1.rank⟩
  · exact ⟨hx.2 x rfl _ hy.1.rank, hy.1⟩
  · exact ⟨hx.1, hy.1⟩

end Value

/-- A literal that fits stands for its integer at every type of the rank. -/
theorem Literal.residue_valueAs {r : Rank} {x : BitVec 64} (hr : r.isInt = true)
    (hfits : r = .int32 → withinInt32 x = true) {t : DataType} (ht : t.rank = some r) :
    ((Literal.int x).valueAs t).Residue r x.toInt := by
  obtain ⟨hv, htype, hn⟩ := valueAs_int (DataType.isInt_of_rank ht hr) x
  have hrank : ((Literal.int x).valueAs t).dataType.rank = some r := by
    rw [htype, settledType]
    split
    next => exact ht
    next hx =>
      cases r with
      | int32 => exact absurd (hfits rfl) hx
      | int64 => rfl
      | float32 | float64 => cases hr
  exact hn ▸ hv.residue hrank

namespace Expr

/-- The expressions made of sums, differences, products and negations of integers of one rank. The
integers are read from slots and columns that exist, or they are literals of at most the width of
the register. -/
inductive IsPolynomial (r : Rank) : Expr → Prop
  | read (op : ReadOp) {options : BitVec 32} {payload : Payload} {t : DataType}
    (ht : DataType.ofTag? options.toNat = some t) (hrank : t.rank = some r)
    (hslot : IsSlot (payload.low.setWidth 32).toInt) :
    IsPolynomial r (.leaf op.leafOp options payload)
  | literal {options : BitVec 32} {payload : Payload} {t : DataType}
    (ht : DataType.ofTag? options.toNat = some t) (hrank : t.rank = some r)
    (hfits : r = .int32 → withinInt32 payload.low = true) :
    IsPolynomial r (.leaf .literal options payload)
  | neg (options : BitVec 32) (payload : Payload) {arg : Expr} (h : arg.IsPolynomial r) :
    IsPolynomial r (.unary .neg options payload arg)
  | arith {op : ArithOp} (hop : op ≠ .div) (options : BitVec 32) (payload : Payload)
    {lhs rhs : Expr} (hl : lhs.IsPolynomial r) (hr : rhs.IsPolynomial r) :
    IsPolynomial r (.binary (.arith op) options payload lhs rhs)

/-- What an expression is in a ring, given what its reads are there. A literal is the integer of its
low 64 bits, whatever its type. -/
def evalIn {R : Type} [Ring R] (read : Read → R) : Expr → R
  | leaf .var options payload =>
    match DataType.ofTag? options.toNat with
    | some t => read ⟨.var, t, (payload.low.setWidth 32).toNat⟩
    | none => 0
  | leaf .column options payload =>
    match DataType.ofTag? options.toNat with
    | some t => read ⟨.column, t, (payload.low.setWidth 32).toNat⟩
    | none => 0
  | leaf .literal _ payload => (payload.low.toInt : R)
  | unary _ _ _ arg => -arg.evalIn read
  | binary (.arith op) _ _ lhs rhs => op.inRing (lhs.evalIn read) (rhs.evalIn read)
  | binary _ _ _ _ _ => 0

/-- The exact integer on a row. -/
def number (memory : Memory) (row : BitVec 64) (e : Expr) : ℤ :=
  e.evalIn (Read.number memory row)

/-- The polynomial with integer coefficients, in the reads. -/
noncomputable def polynomial (e : Expr) : MvPolynomial Read ℤ :=
  e.evalIn MvPolynomial.X

/-- A homomorphism takes what an expression is in one ring to what it is in the other. -/
theorem map_evalIn {R S : Type} [Ring R] [Ring S] (f : R →+* S) (read : Read → R) (e : Expr) :
    f (e.evalIn read) = e.evalIn (f ∘ read) := by
  induction e with
  | leaf op options payload =>
    cases op with
    | var | column =>
      simp only [evalIn]
      split
      next => rfl
      next => exact map_zero f
    | literal => exact map_intCast f _
  | unary op options payload arg ih => exact (map_neg f _).trans (congrArg _ ih)
  | binary op options payload lhs rhs ihl ihr =>
    cases op with
    | arith op => rw [evalIn, evalIn, op.map_inRing, ihl, ihr]
    | logic | equality | order => exact map_zero f

/-- The exact integer is the value of the polynomial. -/
theorem number_eq_eval (memory : Memory) (row : BitVec 64) (e : Expr) :
    e.number memory row = MvPolynomial.eval (Read.number memory row) e.polynomial := by
  have hread : MvPolynomial.eval (Read.number memory row) ∘ MvPolynomial.X =
      Read.number memory row :=
    funext fun x => MvPolynomial.eval_X x
  rw [polynomial, map_evalIn, hread, number]

namespace IsPolynomial

variable {r : Rank} {e e' : Expr}

/-- A read yields an integral value of its type, for the integer stored there. -/
theorem exists_value_read {op : ReadOp} {options : BitVec 32} {payload : Payload} {t : DataType}
    (ht : DataType.ofTag? options.toNat = some t) (hint : t.isInt = true)
    (hslot : IsSlot (payload.low.setWidth 32).toInt) (memory : Memory) (row : BitVec 64) :
    ∃ v, (leaf op.leafOp options payload).value false memory row = .ok v ∧ v.Integral ∧
      v.dataType = t ∧ v.word.toInt = (leaf op.leafOp options payload).number memory row := by
  have hnumber : Operand.slotNumber (payload.low.setWidth 32) =
      .ok (payload.low.setWidth 32).toNat := (Operand.slotNumber_eq _).trans (if_pos hslot)
  cases op with
  | var =>
    refine ⟨⟨t, .memory, memory.slotWord t (payload.low.setWidth 32).toNat⟩, ?_,
      ⟨hint, DataType.regClass_wordAt t _ _⟩, rfl, ?_⟩
    · simp only [ReadOp.leafOp, value, Value.ofLeaf, Instruction.dataType, Instruction.index, ht,
        hnumber]
      rfl
    · simp only [ReadOp.leafOp, number, evalIn, ht]
      exact DataType.toInt_wordAt hint _ _
  | column =>
    refine ⟨⟨t, .memory, memory.elementWord t (payload.low.setWidth 32).toNat row⟩, ?_,
      ⟨hint, DataType.regClass_wordAt t _ _⟩, rfl, ?_⟩
    · simp only [ReadOp.leafOp, value, Value.ofLeaf, Instruction.dataType, Instruction.index, ht,
        hnumber]
      cases t
      case i8 | i16 | i32 | i64 => rfl
      all_goals cases hint
    · simp only [ReadOp.leafOp, number, evalIn, ht]
      exact DataType.toInt_wordAt hint _ _

/-- An expression has a value of its rank, which stands for its exact integer. -/
theorem exists_value (h : e.IsPolynomial r) (hr : r.isInt = true) (memory : Memory)
    (row : BitVec 64) :
    ∃ v, e.value false memory row = .ok v ∧
      Value.StandsFor r (e.number memory row) (e.inlineLiteral?, v) := by
  induction h with
  | @read op options payload t ht hrank hslot =>
    obtain ⟨v, hv, hvint, hvt, hn⟩ :=
      exists_value_read ht (DataType.isInt_of_rank hrank hr) hslot memory row
    refine ⟨v, hv, hn ▸ hvint.residue (hvt ▸ hrank), fun l hl => ?_⟩
    cases op <;> cases hl
  | @literal options payload t ht hrank hfits =>
    have hvalue : (leaf .literal options payload).value false memory row =
          .ok ((Literal.int payload.low).valueAs t) ∧
        (leaf .literal options payload).inlineLiteral? = some (.int payload.low) := by
      simp only [value, Value.ofLeaf, Instruction.dataType, inlineLiteral?, ht]
      cases t
      case i8 | i16 | i32 | i64 => exact ⟨rfl, rfl⟩
      all_goals cases hrank <;> cases hr
    refine ⟨_, hvalue.1, Literal.residue_valueAs hr hfits hrank, fun l hl u hu => ?_⟩
    cases hvalue.2.symm.trans hl
    exact Literal.residue_valueAs hr hfits hu
  | neg options payload h ih =>
    obtain ⟨v, hv, hstands, -⟩ := ih
    refine ⟨_, ?_, hstands.neg, fun l hl => by cases hl⟩
    have hsupports : Value.supports v.dataType (.unary .neg) = true :=
      Bool.or_eq_true_iff.2 (.inl hstands.integral.isInt)
    rw [value, hv]
    exact if_pos hsupports
  | @arith op hop options payload lhs rhs hl hr' ihl ihr =>
    obtain ⟨v, hv, hvstands⟩ := ihl
    obtain ⟨w, hw, hwstands⟩ := ihr
    obtain ⟨ha, hb⟩ := hvstands.settle hwstands
    refine ⟨_, ?_, ha.arith hb hop, fun l hl => by cases hl⟩
    have hsupports : Value.supports _ (.binary (.arith op)) = true :=
      BinaryOp.supports_of_isInt (fun _ => BinaryOp.noConfusion) ha.integral.isInt
    rw [value, hv, hw]
    change (Value.unify false _ _ >>= _) = _
    rw [Value.unify_of_same_rank ha.rank hb.rank]
    exact if_pos hsupports

/-- An expression compiles to a predicate whose values stand for the exact integers. -/
theorem exists_predicate (h : e.IsPolynomial r) (hr : r.isInt = true) :
    ∃ p, Predicate.compile false e.stream = .ok p ∧
      ∀ memory row, (p.result memory row).Residue r (e.number memory row) := by
  choose f hf using fun memory row => h.exists_value hr memory row
  obtain ⟨p, hp, hresult⟩ := Predicate.compile_stream_of_value fun memory row => (hf memory row).1
  exact ⟨p, hp, fun memory row => hresult memory row ▸ (hf memory row).2.1⟩

/-- It is a selector. -/
theorem exists_selector (h : e.IsPolynomial r) (hr : r.isInt = true) {config : Config}
    (hconfig : config.nullCheck = false) :
    ∃ s, Selector.compile e.stream config = .ok s ∧
      ∀ memory row, (s.predicate.result memory row).Residue r (e.number memory row) := by
  obtain ⟨p, hp, hresidue⟩ := h.exists_predicate hr
  have hint : p.dataType.isInt = true := (hresidue Emission.zeroMemory 0).integral.isInt
  exact ⟨⟨p, hint⟩, Selector.compile_eq_ok_iff.2 (hconfig ▸ hp), hresidue⟩

end IsPolynomial

/-- Sums, differences, products and negations of integers of 32 bits, or of integers of 64 bits, in
any nesting, without the null check. The expression compiles, its value is in a register of that
width, and the value is the exact integer of the expression modulo two to the width, in the signed
range.

So expressions of one width that are the same polynomial, with the reads for its variables, select
the same rows of any data, and write down the same. -/
theorem compile_polynomial {r : Rank} (hr : r.isInt = true) {e : Expr} (he : e.IsPolynomial r) :
    (∃ p, Predicate.compile false e.stream = .ok p ∧ p.dataType.rank = some r ∧
      p.code.regClass = r.regClass ∧
      ∀ memory row, (p.value memory row).regClass = r.regClass ∧
        (p.value memory row).toInt = (e.number memory row).bmod (2 ^ r.regClass.bits)) ∧
    ∀ e' : Expr, e'.IsPolynomial r → e'.polynomial = e.polynomial →
      ∀ config : Config, config.nullCheck = false →
        ∃ s s', Selector.compile e.stream config = .ok s ∧
          Selector.compile e'.stream config = .ok s' ∧
          ∀ memory start stop, s'.select memory start stop = s.select memory start stop ∧
            ∀ out, s'.execute memory start stop out = s.execute memory start stop out := by
  refine ⟨?_, fun e' he' hpolynomial config hconfig => ?_⟩
  · obtain ⟨p, hp, hresidue⟩ := he.exists_predicate hr
    have hrank : p.dataType.rank = some r := (hresidue Emission.zeroMemory 0).rank
    refine ⟨p, hp, hrank, ?_, fun memory row => ⟨?_, (hresidue memory row).toInt⟩⟩
    · exact (Predicate.regClass_code hp).1.trans (DataType.regClass_of_rank hrank)
    · exact (hresidue memory row).integral.regClass_of_rank hrank
  · obtain ⟨s, hs, hresidue⟩ := he.exists_selector hr hconfig
    obtain ⟨s', hs', hresidue'⟩ := he'.exists_selector hr hconfig
    have hselects : ∀ memory, s'.selects memory = s.selects memory := by
      intro memory
      funext row
      have hnumber : e'.number memory row = e.number memory row := by
        rw [number_eq_eval, number_eq_eval, hpolynomial]
      have hword : s'.predicate.value memory row = s.predicate.value memory row :=
        (hnumber ▸ hresidue' memory row).word_eq (hresidue memory row)
      rw [Selector.selects, Selector.selects, hword]
    have hexecute : ∀ memory start stop out,
        s'.execute memory start stop out = s.execute memory start stop out := by
      intro memory start stop out
      rw [Selector.execute, Selector.execute, hselects]
    refine ⟨s, s', hs, hs', fun memory start stop => ⟨?_, hexecute memory start stop⟩⟩
    rw [Selector.select, Selector.select, hexecute]

/-- The sum of a column of bytes and a 32-bit column times their difference, and the difference of
the squares, on all rows: those on which one of the squares is beyond 32 bits are no exception. -/
theorem compile_polynomial_squares :
    let x : Expr := .leaf .column 0 (.int 0)
    let y : Expr := .leaf .column 2 (.int 1)
    let arith : ArithOp → Expr → Expr → Expr := fun op => .binary (.arith op) 0 (.int 0)
    let e := arith .mul (arith .add x y) (arith .sub x y)
    let e' := arith .sub (arith .mul x x) (arith .mul y y)
    let config : Config := { nullCheck := false }
    Rank.int32.isInt = true ∧ e.IsPolynomial .int32 ∧ e'.IsPolynomial .int32 ∧
      e'.polynomial = e.polynomial ∧ config.nullCheck = false ∧
      ∃ s s', Selector.compile e.stream config = .ok s ∧
        Selector.compile e'.stream config = .ok s' ∧
        ∀ memory start stop, s'.select memory start stop = s.select memory start stop := by
  intro x y arith e e' config
  have hx : x.IsPolynomial .int32 := .read .column rfl rfl (by decide)
  have hy : y.IsPolynomial .int32 := .read .column rfl rfl (by decide)
  have harith {op : ArithOp} (hop : op ≠ .div) {lhs rhs : Expr} (hl : lhs.IsPolynomial .int32)
      (hr : rhs.IsPolynomial .int32) : (arith op lhs rhs).IsPolynomial .int32 :=
    .arith hop 0 (.int 0) hl hr
  have he : e.IsPolynomial .int32 :=
    harith (by decide) (harith (by decide) hx hy) (harith (by decide) hx hy)
  have he' : e'.IsPolynomial .int32 :=
    harith (by decide) (harith (by decide) hx hx) (harith (by decide) hy hy)
  have hpolynomial : e'.polynomial = e.polynomial := by
    change x.polynomial * x.polynomial - y.polynomial * y.polynomial =
      (x.polynomial + y.polynomial) * (x.polynomial - y.polynomial)
    ring
  obtain ⟨s, s', hs, hs', h⟩ :=
    (compile_polynomial (r := .int32) rfl he).2 e' he' hpolynomial config rfl
  exact ⟨rfl, he, he', hpolynomial, rfl, s, s', hs, hs',
    fun memory start stop => (h memory start stop).1⟩

end Expr

end RowFilter
