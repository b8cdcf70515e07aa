import RowFilter.Expr.Meaning
import RowFilter.Proofs.Arith.Division
import RowFilter.Proofs.Comparison.Floats
import RowFilter.Proofs.Comparison.IntLeaf
import RowFilter.Proofs.Expr.NullPropagation

/-!
# The operators meet their contract

The operations on words that compiled code is made of yield what `Meaning` says of exact integers
and of floats, and so the evaluator that is made of them computes the meaning of an expression.

## Main statements

- `Meaning.arith_eq`, `Meaning.order_eq`, `Meaning.equal_eq` — the operations on two words.
- `Meaning.unify_eq` — promotion.
- `Meaning.leaf_eq` — the leaves.
- `Expr.meaning_eq_value` — an expression, by induction.
- `Emission.emit_spelling` — emission of a spelling against the meaning, on any stack.
-/

namespace RowFilter

namespace Meaning

/-! ### Arithmetic -/

section Integers

variable {w : Nat} {a b : BitVec w}

theorem sentinel_eq (hw : 0 < w) : sentinel w = (Integer.null w).toInt :=
  (Integer.toInt_null hw).symm

theorem toInt_eq_sentinel_iff (hw : 0 < w) : a.toInt = sentinel w ↔ a = Integer.null w := by
  rw [sentinel_eq hw, BitVec.toInt_inj]

theorem ofInt_sentinel (hw : 0 < w) : BitVec.ofInt w (sentinel w) = Integer.null w := by
  rw [sentinel_eq hw, BitVec.ofInt_toInt]

theorem toInt_eq_neg_one_iff (hw : 0 < w) : b.toInt = -1 ↔ b = -1 := by
  have hminus : (-1 : BitVec w).toInt = -1 := by
    change (-1#w).toInt = -1
    rw [BitVec.neg_one_eq_allOnes, BitVec.toInt_allOnes, if_pos hw]
  rw [← BitVec.toInt_inj, hminus]

theorem toInt_eq_zero_iff : b.toInt = 0 ↔ b = 0 := by
  rw [← BitVec.toInt_inj]
  exact Iff.of_eq (congrArg (b.toInt = ·) BitVec.toInt_zero.symm)

/-- The exact quotient reduced to the register is the quotient of the registers. -/
theorem ofInt_exact_div (hw : 0 < w) (a b : BitVec w) :
    BitVec.ofInt w (exact .div w a.toInt b.toInt) = Integer.div false a b := by
  have hiff : (b.toInt = 0 ∨ a.toInt = sentinel w ∧ b.toInt = -1) ↔
      Integer.DivisionIsNull false a b := by
    rw [toInt_eq_zero_iff, toInt_eq_sentinel_iff hw, toInt_eq_neg_one_iff hw,
      Integer.DivisionIsNull]
    simp only [Bool.false_eq_true, false_and, or_false]
  by_cases h : Integer.DivisionIsNull false a b
  · rw [exact, if_pos (hiff.2 h), ofInt_sentinel hw, Integer.div_of_divisionIsNull h]
  · rw [exact, if_neg fun h' => h (hiff.1 h'), ← Integer.toInt_div h, BitVec.ofInt_toInt]

theorem ofInt_exact (hw : 0 < w) (op : ArithOp) (a b : BitVec w) :
    BitVec.ofInt w (exact op w a.toInt b.toInt) = Integer.arith op false a b := by
  cases op with
  | add =>
    show BitVec.ofInt w (a.toInt + b.toInt) = a + b
    rw [BitVec.ofInt_add, BitVec.ofInt_toInt, BitVec.ofInt_toInt]
  | sub =>
    show BitVec.ofInt w (a.toInt - b.toInt) = a - b
    rw [Int.sub_eq_add_neg, BitVec.ofInt_add, BitVec.ofInt_neg, BitVec.ofInt_toInt,
      BitVec.ofInt_toInt, BitVec.sub_eq_add_neg]
  | mul =>
    show BitVec.ofInt w (a.toInt * b.toInt) = a * b
    rw [BitVec.ofInt_mul, BitVec.ofInt_toInt, BitVec.ofInt_toInt]
  | div => exact ofInt_exact_div hw a b

theorem meetsNull_iff (hw : 0 < w) (nullCheck : Bool) :
    (nullCheck = true ∧ (a.toInt = sentinel w ∨ b.toInt = sentinel w)) ↔
      (nullCheck && Integer.eitherNull a b) = true := by
  rw [toInt_eq_sentinel_iff hw, toInt_eq_sentinel_iff hw, Bool.and_eq_true, Integer.eitherNull,
    Bool.or_eq_true, Integer.isNull, Integer.isNull, beq_iff_eq, beq_iff_eq]

/-- Where no null is met, the null check changes nothing. -/
theorem arith_of_not_null (op : ArithOp) {nullCheck : Bool}
    (h : (nullCheck && Integer.eitherNull a b) = false) :
    Integer.arith op nullCheck a b = Integer.arith op false a b := by
  cases op with
  | add | sub | mul =>
    show Integer.propagate nullCheck a b _ = Integer.propagate false a b _
    rw [Integer.propagate, h]
    rfl
  | div =>
    show Integer.div nullCheck a b = Integer.div false a b
    have hdivision : Integer.divisionIsNull nullCheck a b = Integer.divisionIsNull false a b := by
      rw [Integer.divisionIsNull, Integer.divisionIsNull, h, Bool.false_and]
    rw [Integer.div, Integer.div, Integer.divisor, Integer.divisor, hdivision]

theorem arithInteger_eq (hw : 0 < w) (op : ArithOp) (nullCheck : Bool) (a b : BitVec w) :
    arithInteger op nullCheck a b = Integer.arith op nullCheck a b := by
  by_cases h : (nullCheck && Integer.eitherNull a b) = true
  · obtain ⟨rfl, heither⟩ := (Bool.and_eq_true _ _).mp h
    have hnull : Integer.isNull (Integer.arith op true a b) = true :=
      Integer.isNull_arith op ((Bool.or_eq_true _ _).mp heither)
    rw [arithInteger, if_pos ((meetsNull_iff hw _).2 h), ofInt_sentinel hw]
    exact (beq_iff_eq.1 hnull).symm
  · rw [arithInteger, if_neg fun h' => h ((meetsNull_iff hw _).1 h'), ofInt_exact hw]
    exact (arith_of_not_null op ((Bool.not_eq_true _).mp h)).symm

end Integers

theorem arithFloat_eq {f : Float.Model.Format} (op : ArithOp) (a b : BinaryFloat.Bits f) :
    arithFloat op a b = Floating.arith op a b := by
  cases op <;> rfl

/-- Arithmetic on words is exact arithmetic, reduced to the register. -/
theorem arith_eq (op : ArithOp) (nullCheck : Bool) (a b : Word) :
    arith op nullCheck a b = Word.arith op nullCheck a b := by
  cases a <;> cases b
  case i32.i32 a b => exact congrArg Word.i32 (arithInteger_eq (by decide) op nullCheck a b)
  case i64.i64 a b => exact congrArg Word.i64 (arithInteger_eq (by decide) op nullCheck a b)
  case f32.f32 a b => exact congrArg Word.f32 (arithFloat_eq op a b)
  case f64.f64 a b => exact congrArg Word.f64 (arithFloat_eq op a b)
  all_goals rfl

theorem neg_eq (a : Word) : neg a = a.neg := by
  cases a with
  | i32 a | i64 a | i128 a =>
    rw [neg, BitVec.ofInt_neg, BitVec.ofInt_toInt]
    rfl
  | f32 a | f64 a => rfl

theorem not_eq (a : Word) : not a = a.not := by
  cases a <;> rfl

theorem logic_eq (op : LogicOp) (a b : Word) : logic op a b = Word.logic op a b := by
  cases op <;> cases a <;> cases b <;> rfl

theorem truth_eq (b : Bool) : truth b = .ofBool b := by
  cases b <;> rfl

/-! ### Comparison -/

theorem accepts_compare (op : OrderOp) (m n : Int) : accepts op (compare m n) = op.holds m n := by
  rcases Int.lt_trichotomy m n with h | rfl | h
  · rw [Int.compare_eq_lt.2 h]
    cases op <;> simp [accepts, OrderOp.holds] <;> omega
  · rw [Int.compare_eq_eq.2 rfl]
    cases op <;> simp [accepts, OrderOp.holds]
  · rw [Int.compare_eq_gt.2 h]
    cases op <;> simp [accepts, OrderOp.holds] <;> omega

theorem isNull_integer (hw : 0 < w) (a : BitVec w) :
    decide (a.toInt = sentinel w) = Integer.isNull a := by
  rw [Bool.eq_iff_iff, decide_eq_true_iff, toInt_eq_sentinel_iff hw, Integer.isNull, beq_iff_eq]

/-- The order comparison of two integer registers. -/
theorem order_integer (hw : 0 < w) (op : OrderOp) (nullCheck : Bool) (a b : BitVec w) :
    (accepts op (compare a.toInt b.toInt) && !(nullCheck &&
      (decide (a.toInt = sentinel w) || decide (b.toInt = sentinel w)))) =
        Integer.order op nullCheck a b := by
  rw [accepts_compare, isNull_integer hw, isNull_integer hw, Integer.order,
    Integer.related_eq_holds, Integer.eitherNull]

section Floats

open BinaryFloat
open Float.Model (Format)

variable {f : Format} {tolerance a b : Bits f}

/-- Of two floats at most one is below the other. -/
theorem lt_asymm (h : lt a b = true) : lt b a = false := by
  have hcompare := beq_iff_eq.1 ((lt_eq_compare a b).symm.trans h)
  rw [lt_eq_compare, ← compare_swap, hcompare]
  rfl

theorem floatPosition?_eq :
    floatPosition? tolerance a b =
      if Floating.near tolerance a b then some .eq
      else if lt a b then some .lt else if lt b a then some .gt else none := by
  rw [floatPosition?, Floating.near]
  simp only [Bool.or_eq_true, Bool.and_eq_true, or_assoc]

/-- The positions that a comparison accepts are those in which it relates the two floats. -/
theorem any_accepts_floatPosition? (op : OrderOp) :
    (floatPosition? tolerance a b).any (accepts op) = Floating.related op tolerance a b := by
  rw [floatPosition?_eq]
  cases hnear : Floating.near tolerance a b with
  | true => cases op <;> simp [accepts, Floating.related, hnear]
  | false =>
    cases hlt : lt a b with
    | true =>
      have hgt := lt_asymm hlt
      cases op <;> simp [accepts, Floating.related, hnear, hlt, hgt]
    | false =>
      cases hgt : lt b a <;> cases op <;> simp [accepts, Floating.related, hnear, hlt, hgt]

theorem floatPosition?_beq_eq :
    (floatPosition? tolerance a b == some .eq) = Floating.near tolerance a b := by
  rw [floatPosition?_eq]
  cases Floating.near tolerance a b with
  | true => rfl
  | false =>
    cases lt a b with
    | true => rfl
    | false => cases lt b a <;> rfl

end Floats

/-- The order comparison of two words reads off their position. -/
theorem order_eq (op : OrderOp) (nullCheck : Bool) (a b : Word) :
    order op nullCheck a b = Word.order op nullCheck a b := by
  cases a <;> cases b
  case i32.i32 a b => exact order_integer (by decide) op nullCheck a b
  case i64.i64 a b => exact order_integer (by decide) op nullCheck a b
  case f32.f32 a b => exact congrArg (· && _) (any_accepts_floatPosition? op)
  case f64.f64 a b => exact congrArg (· && _) (any_accepts_floatPosition? op)
  all_goals rfl

theorem compare_beq_eq (m n : Int) : (some (compare m n) == some .eq) = (m == n) := by
  rw [Bool.eq_iff_iff, beq_iff_eq, beq_iff_eq, Option.some_inj, Int.compare_eq_eq]

theorem toInt_beq {w : Nat} (a b : BitVec w) : (a.toInt == b.toInt) = (a == b) := by
  rw [Bool.eq_iff_iff, beq_iff_eq, beq_iff_eq, BitVec.toInt_inj]

theorem equal_eq (a b : Word) : equal a b = Word.equal a b := by
  cases a <;> cases b
  case i32.i32 a b => exact (compare_beq_eq _ _).trans (toInt_beq a b)
  case i64.i64 a b => exact (compare_beq_eq _ _).trans (toInt_beq a b)
  case i128.i128 a b => exact toInt_beq a b
  case f32.f32 a b => exact floatPosition?_beq_eq
  case f64.f64 a b => exact floatPosition?_beq_eq
  all_goals rfl

/-! ### Conversion -/

/-- The kind of the numbers of a rank. -/
def Kind.ofRank : Rank → Kind
  | .int32 => ⟨false, false⟩
  | .int64 => ⟨false, true⟩
  | .float32 => ⟨true, false⟩
  | .float64 => ⟨true, true⟩

theorem Kind.ofRank_inj {r s : Rank} : ofRank r = ofRank s ↔ r = s := by
  cases r <;> cases s <;> decide

theorem kind?_eq (t : DataType) : kind? t = t.rank.map Kind.ofRank := by
  cases t <;> rfl

/-- The common kind of two numbers is that of the join of their ranks. -/
theorem Kind.ofRank_join (r s : Rank) : ofRank (r.join s) = (ofRank r).common (ofRank s) := by
  cases r <;> cases s <;> rfl

theorem convertInteger_eq {w : Nat} (hw : 0 < w) (checked : Bool) (target : Kind) (a : BitVec w) :
    convertInteger checked target a =
      if checked && Integer.isNull a then null target else wordOf target.dataType a.toInt := by
  rw [convertInteger, ← isNull_integer hw]
  simp only [Bool.and_eq_true, decide_eq_true_iff]

/-- A conversion to a wider register yields the same number there, or its null. -/
theorem convert_eq {source target : Rank} (h : source.convertsTo target = true) (checked : Bool)
    {a : Word} (ha : a.regClass = source.regClass) :
    convert checked (.ofRank target) a = a.widen checked target.regClass := by
  have hnull : BitVec.ofInt 64 (sentinel 64) = Integer.null 64 := ofInt_sentinel (by decide)
  cases source <;> cases target <;> cases h <;> cases a <;> cases ha
  case int32.int64.refl.i32.refl a =>
    refine (convertInteger_eq (by decide) checked _ a).trans ?_
    show (if _ then Word.i64 _ else Word.i64 _) = Word.i64 (if _ then _ else _)
    rw [hnull, apply_ite Word.i64]
    rfl
  case int32.float32.refl.i32.refl a =>
    refine (convertInteger_eq (by decide) checked _ a).trans ?_
    exact (apply_ite Word.f32 _ _ _).symm
  case int32.float64.refl.i32.refl a =>
    refine (convertInteger_eq (by decide) checked _ a).trans ?_
    exact (apply_ite Word.f64 _ _ _).symm
  case int64.float64.refl.i64.refl a =>
    refine (convertInteger_eq (by decide) checked _ a).trans ?_
    exact (apply_ite Word.f64 _ _ _).symm
  case float32.float64.refl.f32.refl a => rfl

theorem promote_eq {v : Value} (hv : v.Coherent) {source target : Rank}
    (hsource : v.dataType.rank = some source)
    (hconverts : source ≠ target → source.convertsTo target = true) (nullCheck : Bool) :
    promote nullCheck (.ofRank target) v = v.promote nullCheck target := by
  have hkind : kind? v.dataType = some (.ofRank source) := by
    rw [kind?_eq, hsource, Option.map_some]
  by_cases h : source = target
  · rw [promote, if_pos (by rw [hkind, h]), Value.promote_of_rank (h ▸ hsource)]
  · have hne : ¬kind? v.dataType = some (.ofRank target) := fun heq => by
      rw [hkind, Option.some_inj, Kind.ofRank_inj] at heq
      exact h heq
    have hchecked : (nullCheck && v.dataType != .i8 && v.dataType != .i16) =
        v.dataType.nullGate nullCheck := by
      cases nullCheck <;> cases v.dataType <;> rfl
    have htype : (Kind.ofRank target).dataType = target.dataType := by cases target <;> rfl
    rw [promote, if_neg hne, hchecked, Value.promote_of_rank_ne hsource h,
      convert_eq (hconverts h) _ (hv.trans (DataType.regClass_of_rank hsource)), htype]

/-- Promotion brings both values to the common kind. -/
theorem unify_eq {a b : Value} (ha : a.Coherent) (hb : b.Coherent) (nullCheck : Bool) :
    unify nullCheck a b = Value.unify nullCheck a b := by
  rw [unify, kind?_eq, kind?_eq]
  cases hl : a.dataType.rank with
  | none => rw [Value.unify, hl]; rfl
  | some l =>
    cases hr : b.dataType.rank with
    | none => rw [Value.unify, hl, hr]; rfl
    | some r =>
      obtain ⟨hconvl, hconvr⟩ := Rank.convertsTo_join l r
      rw [Value.unify_of_rank hl hr, ← promote_eq ha hl hconvl, ← promote_eq hb hr hconvr,
        Kind.ofRank_join]
      rfl

/-! ### Operators -/

theorem derive_eq (a b : Value) : derive a b = a.provenance.join b.provenance := by
  rw [derive]
  cases a.provenance <;> cases b.provenance <;> rfl

theorem unary_eq (op : UnaryOp) (v : Value) : unary op v = Value.unary op v := by
  obtain ⟨t, provenance, word⟩ := v
  simp only [unary, neg_eq, not_eq]
  cases op <;> cases t <;> rfl

theorem binary_eq (op : BinaryOp) (nullCheck : Bool) (a b : Value) :
    binary op nullCheck a b = Value.binary op nullCheck a b := by
  obtain ⟨t, provenance, word⟩ := a
  simp only [binary, derive_eq, logic_eq, equal_eq, order_eq, arith_eq, truth_eq]
  rcases op with op | (_ | _) | op | op <;> cases t <;> rfl

/-! ### Literals -/

/-- An integer taken from a wider register is cut down to the narrower one. -/
theorem ofInt_toInt_of_le {v w : Nat} (h : v ≤ w) (a : BitVec w) :
    BitVec.ofInt v a.toInt = a.setWidth v :=
  a.signExtend_eq_setWidth_of_le h

theorem literal_eq (target : DataType) (x : Literal) : literal target x = x.valueAs target := by
  cases x with
  | int x =>
    have hcut : BitVec.ofInt 32 x.toInt = x.setWidth 32 := ofInt_toInt_of_le (by decide) x
    have hkeep : BitVec.ofInt 64 x.toInt = x := BitVec.ofInt_toInt
    have hwithin : (x.toInt < -0x80000000 ∨ 0x80000000 ≤ x.toInt) ↔ ¬withinInt32 x = true := by
      rw [withinInt32_iff]
      omega
    cases target
    case i8 | i16 | i32 =>
      by_cases h : withinInt32 x = true
      · rw [literal, if_neg fun h' => hwithin.1 h'.2 h, Literal.valueAs, if_pos h]
        simp only [wordOf, hcut]
      · rw [literal, if_pos ⟨rfl, hwithin.2 h⟩, Literal.valueAs, if_neg h, wordOf, hkeep]
    case i64 | binaryHeader | varcharHeader =>
      exact congrArg (fun a => Value.mk _ _ (.i64 a)) hkeep
    case stringHeader => exact congrArg (fun a => Value.mk _ _ (.i32 a)) hcut
    case i128 | f32 | f64 => rfl
  | float x =>
    have hfits : fitsSingle x = withinSingle x := rfl
    rw [literal, Literal.valueAs, hfits]
    cases target <;> cases withinSingle x <;> rfl

/-! ### Stored data -/

theorem digits_eq (buffer : Buffer) (n : Nat) (offset : BitVec 64) :
    digits buffer n offset = (buffer.read n offset).toNat := by
  induction n generalizing offset with
  | zero => rfl
  | succ n ih =>
    exact (congrArg (_ + 256 * ·) (ih _)).trans (LittleEndian.toNat_word_cons n _ _).symm

theorem read_eq (n : Nat) (buffer : Buffer) (offset : BitVec 64) :
    read n buffer offset = buffer.read n offset := by
  rw [read, digits_eq, BitVec.ofNat_toNat, BitVec.setWidth_eq]

theorem stored_eq (t : DataType) (buffer : Buffer) (offset : BitVec 64) :
    stored t buffer offset = t.wordAt buffer offset := by
  simp only [stored, read_eq]
  cases t
  case i8 | i16 | f32 | f64 => rfl
  case i32 | stringHeader => exact congrArg Word.i32 BitVec.ofInt_toInt
  case i64 | binaryHeader | varcharHeader => exact congrArg Word.i64 BitVec.ofInt_toInt
  case i128 => exact congrArg Word.i128 BitVec.ofInt_toInt

theorem width_eq (t : DataType) : width t = t.size := by
  cases t <;> rfl

/-- Reducing an integer to a register and again to a narrower one is one reduction. -/
theorem setWidth_ofInt {v w : Nat} (h : v ≤ w) (n : Int) :
    (BitVec.ofInt w n).setWidth v = BitVec.ofInt v n := by
  rw [← ofInt_toInt_of_le h, BitVec.toInt_ofInt]
  apply BitVec.eq_of_toInt_eq
  rw [BitVec.toInt_ofInt, BitVec.toInt_ofInt]
  exact Int.bmod_bmod_of_dvd (Nat.pow_dvd_pow 2 h)

/-- The distance between two values less the header is zero where the header ends at the next
value. -/
theorem distance_eq_zero_iff (start next header : BitVec 64) :
    next - start - header = 0 ↔ next = start + header := by
  rw [BitVec.sub_eq_iff_eq_add, BitVec.sub_eq_iff_eq_add, BitVec.add_comm start]
  exact Iff.of_eq (congrArg (next = · + start) (BitVec.zero_add header))

/-- The length that the layout gives, in the register of its type. -/
theorem lengthWord_fieldLength (memory : Memory) (kind : FieldKind) (index : Nat)
    (row : BitVec 64) :
    kind.lengthWord (BitVec.ofInt 64
        (fieldLength kind.headerSize (memory.column index) (memory.aux index) row)) =
      memory.fieldLength kind index row := by
  rw [Memory.fieldLength, fieldLength, BitVec.mul_comm 8 row]
  simp only [read_eq]
  refine congrArg kind.lengthWord ?_
  generalize (memory.aux index).read 8 (row * 8) = start
  generalize (memory.aux index).read 8 (row * 8 + 8) = next
  simp only [distance_eq_zero_iff]
  by_cases h : next = start + BitVec.ofNat 64 kind.headerSize
  · rw [if_pos h, if_pos h]
    cases kind with
    | string => rfl
    | binary => exact BitVec.ofInt_toInt
  · rw [if_neg h, if_neg h, Int.sub_eq_add_neg, Int.sub_eq_add_neg, BitVec.ofInt_add,
      BitVec.ofInt_add, BitVec.ofInt_neg, BitVec.ofInt_neg, BitVec.ofInt_toInt, BitVec.ofInt_toInt,
      BitVec.ofInt_natCast, ← BitVec.sub_eq_add_neg, ← BitVec.sub_eq_add_neg]

/-- The value of a column on a row. -/
theorem column_eq (memory : Memory) (row : BitVec 64) (t : DataType) (index : Nat) :
    column memory row t index =
      match t with
      | .stringHeader => ⟨.i32, .memory, memory.fieldLength .string index row⟩
      | .binaryHeader => ⟨.i64, .memory, memory.fieldLength .binary index row⟩
      | .varcharHeader => ⟨t, .memory, memory.headerWord index row⟩
      | _ => ⟨t, .memory, memory.elementWord t index row⟩ := by
  have hoffset : BitVec.ofNat 64 (width t) * row = row * BitVec.ofNat 64 t.size := by
    rw [width_eq, BitVec.mul_comm]
  cases t
  case stringHeader =>
    show Value.mk .i32 .memory (.i32 (BitVec.ofInt 32 _)) = Value.mk .i32 .memory _
    rw [← lengthWord_fieldLength, ← setWidth_ofInt (show 32 ≤ 64 by decide)]
    rfl
  case binaryHeader =>
    show Value.mk .i64 .memory _ = Value.mk .i64 .memory _
    rw [← lengthWord_fieldLength]
    rfl
  all_goals
    simp only [column, hoffset, stored_eq]
    rfl

/-! ### Leaves -/

theorem number_eq (payload : Payload) : number payload = payload.wide.toInt := by
  cases payload with
  | int value => rfl
  | float bits => exact (BitVec.toInt_signExtend_of_le (by decide)).symm

theorem float_eq (payload : Payload) : float payload = payload.double := by
  cases payload <;> rfl

/-- The slot that is named by the low 32 bits of a payload. -/
theorem slot_eq (payload : Payload) :
    slot payload = Operand.slotNumber (payload.low.setWidth 32) := by
  have hindex : BitVec.ofInt 32 (number payload) = payload.low.setWidth 32 := by
    rw [number_eq, ofInt_toInt_of_le (by decide), Payload.low,
      BitVec.setWidth_setWidth_of_le _ (by decide)]
  have hmax : (BitVec.intMax 32).toInt = 0x7FFFFFFF := rfl
  rw [slot, Operand.slotNumber, hindex, hmax]
  generalize payload.low.setWidth 32 = index
  by_cases hneg : index.toInt < 0
  · rw [if_pos hneg, if_pos hneg]
  · have hnat : index.toInt.toNat = index.toNat := by
      rw [BitVec.toInt_eq_toNat_cond] at hneg ⊢
      split at hneg <;> omega
    by_cases hlarge : 0x80000000 ≤ 8 * index.toInt
    · rw [if_neg hneg, if_neg hneg, if_pos hlarge, if_pos (by omega)]
    · rw [if_neg hneg, if_neg hneg, if_neg hlarge, if_neg (by omega), hnat]

theorem literal?_eq (t : DataType) (payload : Payload) :
    literal? t payload =
      match t with
      | .i128 => none
      | .f32 | .f64 => some (.float payload.double)
      | _ => some (.int payload.low) := by
  have hlow : BitVec.ofInt 64 (number payload) = payload.low := by
    rw [number_eq, ofInt_toInt_of_le (by decide), Payload.low]
  cases t <;> simp only [literal?, float_eq, hlow]

theorem ownLiteral_eq (t : DataType) (payload : Payload) :
    ownLiteral t payload =
      match t with
      | .i128 => ⟨t, .const, .i128 payload.wide⟩
      | .f32 | .f64 => (Literal.float payload.double).valueAs t
      | _ => (Literal.int payload.low).valueAs t := by
  have hwide : BitVec.ofInt 128 (number payload) = payload.wide := by
    rw [number_eq, BitVec.ofInt_toInt]
  cases t <;> simp only [ownLiteral, literal?_eq, literal_eq, wordOf, hwide]

theorem leaf_eq (memory : Memory) (row : BitVec 64) (op : LeafOp) (options : BitVec 32)
    (payload : Payload) :
    leaf memory row op options payload =
      Value.ofLeaf memory row op ⟨.leaf op, options, payload⟩ := by
  rw [leaf, leafType, Value.ofLeaf, Instruction.dataType]
  cases DataType.ofTag? options.toNat with
  | none => rfl
  | some t =>
    cases op with
    | var =>
      show slot payload >>= _ = Operand.slotNumber (payload.low.setWidth 32) >>= _
      simp only [slot_eq, stored_eq]
      rfl
    | column =>
      show slot payload >>= _ = Operand.slotNumber (payload.low.setWidth 32) >>= _
      simp only [slot_eq, column_eq]
      cases t <;> rfl
    | literal =>
      show Except.ok (ownLiteral t payload) = _
      rw [ownLiteral_eq]
      cases t <;> rfl

end Meaning

namespace Expr

variable {nullCheck : Bool} {memory : Memory} {row : BitVec 64}

theorem loneLiteral?_eq (e : Expr) : e.loneLiteral? = e.inlineLiteral? := by
  cases e with
  | leaf op options payload =>
    cases op with
    | literal =>
      rw [loneLiteral?, inlineLiteral?]
      cases DataType.ofTag? options.toNat with
      | none => rfl
      | some t =>
        refine (Meaning.literal?_eq t payload).trans ?_
        cases t <;> rfl
    | var | column => rfl
  | unary | binary => rfl

/-- A lone literal is taken at the type of the other side. -/
theorem settle_eq (lhs rhs : Expr) (a b : Value) :
    Meaning.settle lhs.loneLiteral? rhs.loneLiteral? a b =
      Value.settle (lhs.inlineLiteral?, a) (rhs.inlineLiteral?, b) := by
  rw [loneLiteral?_eq, loneLiteral?_eq]
  cases lhs.inlineLiteral? with
  | none =>
    cases rhs.inlineLiteral? with
    | none => rfl
    | some y => rw [Meaning.settle, Meaning.literal_eq, Value.settle]
  | some x =>
    cases rhs.inlineLiteral? with
    | none => rw [Meaning.settle, Meaning.literal_eq, Value.settle]
    | some y => rfl

/-- The evaluator that is made of the operations on words computes the meaning. -/
theorem meaning_eq_value (e : Expr) :
    e.meaning nullCheck memory row = e.value nullCheck memory row := by
  induction e with
  | leaf op options payload => exact Meaning.leaf_eq memory row op options payload
  | unary op options payload arg ih =>
    rw [meaning, value, ih]
    simp only [Meaning.unary_eq]
  | binary op options payload lhs rhs ihl ihr =>
    rw [meaning, value, ihl, ihr]
    cases hl : lhs.value nullCheck memory row with
    | error err => rfl
    | ok a =>
      cases hr : rhs.value nullCheck memory row with
      | error err => rfl
      | ok b =>
        have hsides := Value.coherent_settle (x := (lhs.inlineLiteral?, a))
          (y := (rhs.inlineLiteral?, b)) (coherent_value hl) (coherent_value hr)
        show Meaning.unify nullCheck (Meaning.settle _ _ a b).1 (Meaning.settle _ _ a b).2 >>= _ =
          Value.unify nullCheck _ _ >>= _
        rw [settle_eq, Meaning.unify_eq hsides.1 hsides.2]
        simp only [Meaning.binary_eq]

end Expr

namespace Emission

/-- Emission of a spelling, on any stack and any pool. It fails with the error that the
expression means, or it leaves the stack as it was with one operand more. Loaded into a register,
the operand has the type and the provenance of what the expression means, and on every row its
code yields the word of it, whatever is pooled later. -/
theorem emit_spelling (nullCheck : Bool) (e : Expr) (s : Emitter) :
    match emit nullCheck e.stream s with
    | .error err _ => ∀ memory row, e.meaning nullCheck memory row = .error err
    | .ok top s' => ∃ v, top = some v ∧ s'.stack = v :: s.stack ∧
        ∃ code, (v.load s'.pool).1.location = .register code ∧
          ∀ memory row pool, (v.load s'.pool).2.Extends pool →
            e.meaning nullCheck memory row = .ok ⟨(v.load s'.pool).1.dataType,
              (v.load s'.pool).1.provenance, code.eval ⟨memory, pool, row⟩⟩ := by
  have hagrees := fun memory row => @emit_stream_agrees memory row nullCheck e s
  simp only [← Expr.meaning_eq_value] at hagrees
  cases hemit : emit nullCheck e.stream s with
  | error err s' =>
    intro memory row
    have h := hagrees memory row
    rw [hemit] at h
    exact h.of_error
  | ok top s' =>
    simp only [hemit] at hagrees
    -- The operand and its code are the same on all data, so any data will do to find them.
    obtain ⟨_, _, v, htop, hs, hv⟩ := (hagrees zeroMemory 0).of_ok
    obtain ⟨code, hcode, -⟩ := hv.load.2.eval
    refine ⟨v, htop, hs, code, hcode, fun memory row pool hpool => ?_⟩
    obtain ⟨a, ha, v', -, hs', hv'⟩ := (hagrees memory row).of_ok
    obtain rfl : v = v' := (List.cons.inj (hs.symm.trans hs')).1
    obtain ⟨-, ht, hp, code', hcode', heval⟩ := hv'.load
    obtain rfl : code = code' := Location.register.inj (hcode.symm.trans hcode')
    rw [ha, ht, hp, heval pool hpool]

end Emission

end RowFilter
