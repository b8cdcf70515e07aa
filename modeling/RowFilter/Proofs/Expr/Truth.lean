import RowFilter.Proofs.Emission.Postfix
import RowFilter.Proofs.Expr.NullPropagation

/-!
# Truth values

Which operators yield a 32-bit integer that is zero or one.

A comparison always does. The logic operators are bitwise and take any operand of the 32-bit integer
family, a narrow column or an arithmetic result as well as a comparison, and the result has the type
of the left operand. So they yield a truth value of truth values, but not only of those: it takes
the type from the left, and the bits above the lowest have to cancel.

## Main definitions

- `Integer.IsTruth`, `Value.IsTruth` — zero or one, in a word and as a value.
- `LogicOp.YieldsTruth` — the words that a logic operator makes zero or one of.
- `Expr.sides` — the values of two operands beside each other.

## Main statements

- `Integer.isTruth_not`, `Integer.isTruth_logic` — the bits of the logic operators.
- `Expr.isTruth_of_comparison`, `Expr.exists_of_value_not`, `Expr.exists_of_value_logic` — one node
  of an expression.
- `Predicate.isTruth_result_iff` — the predicates of comparisons and logic operators.
-/

namespace RowFilter

namespace Integer

variable {w : Nat} {a b : BitVec w}

/-- The word is zero or one. -/
def IsTruth (a : BitVec w) : Prop :=
  a = 0 ∨ a = 1

theorem getLsbD_one_of_pos {n : Nat} (h : 1 ≤ n) : (1 : BitVec w).getLsbD n = false := by
  change (1#w).getLsbD n = false
  rw [BitVec.getLsbD_one, decide_eq_false (Nat.one_le_iff_ne_zero.1 h), Bool.and_false]

/-- In a word that is zero or one no bit but the lowest is set. -/
theorem isTruth_iff : IsTruth a ↔ ∀ n, 1 ≤ n → a.getLsbD n = false := by
  constructor
  · rintro (rfl | rfl) n hn
    · exact BitVec.getLsbD_zero
    · exact getLsbD_one_of_pos hn
  · intro h
    cases hbit : a.getLsbD 0 with
    | false =>
      refine .inl (BitVec.eq_of_getLsbD_eq fun n _ => Eq.trans ?_ BitVec.getLsbD_zero.symm)
      rcases Nat.eq_zero_or_pos n with rfl | hpos
      · exact hbit
      · exact h n hpos
    | true =>
      refine .inr (BitVec.eq_of_getLsbD_eq fun n hn => ?_)
      rcases Nat.eq_zero_or_pos n with rfl | hpos
      · rw [hbit]
        simp [hn]
      · rw [h n hpos, getLsbD_one_of_pos hpos]

/-- The complement changes the lowest bit alone. -/
theorem isTruth_not : IsTruth (not a) ↔ IsTruth a := by
  rw [isTruth_iff, isTruth_iff]
  refine forall_congr' fun n => forall_congr' fun hn => ?_
  rw [not, BitVec.getLsbD_xor, getLsbD_one_of_pos hn, Bool.xor_false]

end Integer

/-- Whether an instruction compares. -/
def Opcode.isComparison : Opcode → Bool
  | binary (.equality _) | binary (.order _) => true
  | _ => false

/-- The words that the operator makes zero or one of. -/
def LogicOp.YieldsTruth {w : Nat} (op : LogicOp) (a b : BitVec w) : Prop :=
  match op with
  | .and => ∀ n, 1 ≤ n → a.getLsbD n = false ∨ b.getLsbD n = false
  | .or => Integer.IsTruth a ∧ Integer.IsTruth b

/-- A conjunction is zero or one if its operands share no bit but the lowest, a disjunction only if
both operands are. -/
theorem Integer.isTruth_logic {w : Nat} (op : LogicOp) (a b : BitVec w) :
    IsTruth (logic op a b) ↔ op.YieldsTruth a b := by
  cases op with
  | and =>
    rw [isTruth_iff]
    refine forall_congr' fun n => forall_congr' fun _ => ?_
    rw [logic, BitVec.getLsbD_and, Bool.and_eq_false_iff]
  | or =>
    change _ ↔ IsTruth a ∧ IsTruth b
    rw [isTruth_iff, isTruth_iff, isTruth_iff, ← forall_and]
    refine forall_congr' fun n => ?_
    rw [← imp_and, logic, BitVec.getLsbD_or, Bool.or_eq_false_iff]

/-- The join of two ranks that differ is above the least rank. -/
theorem Rank.eq_of_join_eq_int32 {l r : Rank} (h : l.join r = .int32) : l = r := by
  revert h
  cases l <;> cases r <;> decide

namespace Value

variable {nullCheck : Bool} {v a b a' b' : Value}

/-- The value is a 32-bit integer that is zero or one. -/
def IsTruth (v : Value) : Prop :=
  v.dataType = .i32 ∧ (v.word = .i32 0 ∨ v.word = .i32 1)

theorem isTruth_iff {x : BitVec 32} (h : v.word = .i32 x) :
    v.IsTruth ↔ v.dataType = .i32 ∧ Integer.IsTruth x := by
  rw [IsTruth, h, Word.i32.injEq, Word.i32.injEq]
  exact Iff.rfl

theorem isTruth_iff_exists : v.IsTruth ↔ v.dataType = .i32 ∧ ∃ b, v.word = .ofBool b := by
  rw [IsTruth, Bool.exists_bool]
  exact Iff.rfl

/-- A value of the 32-bit integer family is in a 32-bit register. -/
theorem Coherent.exists_bits (h : v.Coherent) (ht : v.dataType.isInt32 = true) :
    ∃ x, v.word = .i32 x := by
  obtain ⟨t, provenance, word⟩ := v
  cases t
  case i8 | i16 | i32 =>
    cases word with
    | i32 x => exact ⟨x, rfl⟩
    | i64 | i128 | f32 | f64 => cases h
  all_goals cases ht

/-- Two values brought to a common type of the 32-bit integer family were of the family before, and
are what they were. -/
theorem unify_of_isInt32 (h : unify nullCheck a b = .ok (a', b'))
    (ha : a'.dataType.isInt32 = true) : a' = a ∧ b' = b ∧ b.dataType.isInt32 = true := by
  have hrank : a'.dataType.rank = some .int32 := eq_of_beq ha
  unfold unify at h
  split at h
  next l r hl hr =>
    split at h
    next heq =>
      cases h
      exact ⟨rfl, rfl, by rw [DataType.isInt32, hr, ← heq, ← hl, hrank]; rfl⟩
    next hne =>
      cases h
      rw [rank_promote] at hrank
      exact absurd (Rank.eq_of_join_eq_int32 (Option.some.inj hrank)) hne
  next hnone =>
    split at h
    next ht =>
      cases h
      exact (hnone _ _ hrank (ht ▸ hrank)).elim
    next => cases h

end Value

namespace Expr

variable {nullCheck : Bool} {memory : Memory} {row : BitVec 64} {options : BitVec 32}
  {payload : Payload} {arg lhs rhs : Expr} {v : Value}

/-- The instruction of the topmost node. -/
def root : Expr → Instruction
  | leaf op options payload => ⟨.leaf op, options, payload⟩
  | unary op options payload _ => ⟨.unary op, options, payload⟩
  | binary op options payload _ _ => ⟨.binary op, options, payload⟩

theorem getLast?_stream (e : Expr) : e.stream.getLast? = some e.root := by
  cases e with
  | leaf => rfl
  | unary => exact List.getLast?_concat
  | binary => exact List.getLast?_concat

/-- The values of two operands beside each other, where a lone literal has the type of the other
operand. -/
def sides (nullCheck : Bool) (memory : Memory) (row : BitVec 64) (lhs rhs : Expr) :
    Except CompileError (Value × Value) := do
  let a ← lhs.value nullCheck memory row
  let b ← rhs.value nullCheck memory row
  return Value.settle (lhs.inlineLiteral?, a) (rhs.inlineLiteral?, b)

/-- A binary operator is applied to its sides, brought to a common type. -/
theorem value_binary (op : BinaryOp) (options : BitVec 32) (payload : Payload) (lhs rhs : Expr) :
    (binary op options payload lhs rhs).value nullCheck memory row = (do
      let (a, b) ← sides nullCheck memory row lhs rhs
      let (a, b) ← Value.unify nullCheck a b
      Value.binary op nullCheck a b) := by
  simp only [value, sides, bind_assoc, pure_bind]

theorem coherent_sides {a b : Value} (h : sides nullCheck memory row lhs rhs = .ok (a, b)) :
    a.Coherent ∧ b.Coherent := by
  obtain ⟨a', ha, h⟩ := exists_of_bind_eq_ok h
  obtain ⟨b', hb, h⟩ := exists_of_bind_eq_ok h
  have hsettle := Value.coherent_settle (x := (lhs.inlineLiteral?, a'))
    (y := (rhs.inlineLiteral?, b')) (coherent_value ha) (coherent_value hb)
  rw [Except.ok.inj h] at hsettle
  exact hsettle

/-- The value of a binary operator is what the operator makes of its sides. -/
theorem exists_of_value_binary {op : BinaryOp}
    (h : (binary op options payload lhs rhs).value nullCheck memory row = .ok v) :
    ∃ a b a' b', sides nullCheck memory row lhs rhs = .ok (a, b) ∧
      Value.unify nullCheck a b = .ok (a', b') ∧
      Value.supports a'.dataType (.binary op) = true ∧ v = Value.combine op nullCheck a' b' := by
  rw [value_binary] at h
  obtain ⟨⟨a, b⟩, hsides, h⟩ := exists_of_bind_eq_ok h
  obtain ⟨⟨a', b'⟩, hunify, h⟩ := exists_of_bind_eq_ok h
  simp only [Value.binary] at h
  split at h
  next hsupports =>
    cases h
    exact ⟨a, b, a', b', hsides, hunify, hsupports, rfl⟩
  next => cases h

/-- A comparison yields a truth value, whatever it compares. -/
theorem isTruth_of_comparison {op : BinaryOp} (hop : (Opcode.binary op).isComparison = true)
    (h : (binary op options payload lhs rhs).value nullCheck memory row = .ok v) : v.IsTruth := by
  obtain ⟨-, -, a, b, -, -, -, rfl⟩ := exists_of_value_binary h
  cases op with
  | equality | order => exact Value.isTruth_iff_exists.2 ⟨rfl, _, rfl⟩
  | logic | arith => cases hop

/-- The complement keeps the type of its operand, which is one of the 32-bit integer family, and
flips the lowest bit. -/
theorem exists_of_value_not
    (h : (unary .not options payload arg).value nullCheck memory row = .ok v) :
    ∃ a x, arg.value nullCheck memory row = .ok a ∧ a.dataType.isInt32 = true ∧
      a.word = .i32 x ∧ v = ⟨a.dataType, a.provenance, .i32 (Integer.not x)⟩ := by
  obtain ⟨a, ha, h⟩ := exists_of_bind_eq_ok h
  simp only [Value.unary] at h
  split at h
  next ht =>
    obtain ⟨x, hx⟩ := (coherent_value ha).exists_bits ht
    cases h
    exact ⟨a, x, ha, ht, hx, by rw [hx, Word.not]⟩
  next => cases h

/-- A logic operator takes its sides as they are. They are of the 32-bit integer family, and the
result has the type of the left one and the bits of both. -/
theorem exists_of_value_logic {op : LogicOp}
    (h : (binary (.logic op) options payload lhs rhs).value nullCheck memory row = .ok v) :
    ∃ a b x y, sides nullCheck memory row lhs rhs = .ok (a, b) ∧
      a.dataType.isInt32 = true ∧ b.dataType.isInt32 = true ∧ a.word = .i32 x ∧ b.word = .i32 y ∧
      v = ⟨a.dataType, a.provenance.join b.provenance, .i32 (Integer.logic op x y)⟩ := by
  obtain ⟨a, b, a', b', hsides, hunify, ht, rfl⟩ := exists_of_value_binary h
  obtain ⟨rfl, rfl, hb⟩ := Value.unify_of_isInt32 hunify ht
  obtain ⟨hcoherent, hcoherent'⟩ := coherent_sides hsides
  obtain ⟨x, hx⟩ := hcoherent.exists_bits ht
  obtain ⟨y, hy⟩ := hcoherent'.exists_bits hb
  exact ⟨a', b', x, y, hsides, ht, hb, hx, hy, by rw [Value.combine, hx, hy, Word.logic]⟩

end Expr

namespace Predicate

variable {nullCheck : Bool} {stream : List Instruction} {p : Predicate}

/-- Which results are truth values. Those of comparisons all are. A complement is one just in
case its operand is. A conjunction or a disjunction has the type of its left side and the bits of
both: it is a truth value just in case the left side is a 32-bit integer, no wider or narrower
one, and the two sides share no bit but the lowest, or have no other bit at all. -/
theorem isTruth_result_iff {i : Instruction} (h : compile nullCheck stream = .ok p)
    (hi : (beforeRet stream).getLast? = some i) :
    (i.opcode.isComparison = true → ∀ memory row, (p.result memory row).IsTruth) ∧
    (i.opcode = .unary .not →
      ∃ (below : List Instruction) (arg : Expr), beforeRet stream = below ++ arg.stream ++ [i] ∧
        ∀ memory row, ∃ a x, arg.value nullCheck memory row = .ok a ∧
          a.dataType.isInt32 = true ∧ a.word = .i32 x ∧
          p.result memory row = ⟨a.dataType, a.provenance, .i32 (x ^^^ 1)⟩ ∧
          ((p.result memory row).IsTruth ↔ a.IsTruth)) ∧
    ∀ op, i.opcode = .binary (.logic op) →
      ∃ (below : List Instruction) (lhs rhs : Expr),
        beforeRet stream = below ++ lhs.stream ++ rhs.stream ++ [i] ∧
        ∀ memory row, ∃ a b x y, Expr.sides nullCheck memory row lhs rhs = .ok (a, b) ∧
          a.dataType.isInt32 = true ∧ b.dataType.isInt32 = true ∧
          a.word = .i32 x ∧ b.word = .i32 y ∧
          p.result memory row =
            ⟨a.dataType, a.provenance.join b.provenance, .i32 (Integer.logic op x y)⟩ ∧
          ((p.result memory row).IsTruth ↔ a.dataType = .i32 ∧ op.YieldsTruth x y) := by
  obtain ⟨forest, e, hspells, hvalue⟩ := exists_expr_of_compile h
  obtain rfl : e.root = i := by
    rw [hspells, List.getLast?_append, Expr.getLast?_stream] at hi
    exact Option.some.inj hi
  refine ⟨fun hop memory row => ?_, fun hop => ?_, fun op hop => ?_⟩
  · cases e with
    | leaf | unary => cases hop
    | binary => exact Expr.isTruth_of_comparison hop (hvalue memory row)
  · cases e with
    | leaf | binary => cases hop
    | unary op options payload arg =>
      cases hop
      refine ⟨_, arg, hspells.trans (List.append_assoc ..).symm, fun memory row => ?_⟩
      obtain ⟨a, x, ha, ht, hx, hresult⟩ := Expr.exists_of_value_not (hvalue memory row)
      refine ⟨a, x, ha, ht, hx, hresult, ?_⟩
      rw [hresult, Value.isTruth_iff rfl, Value.isTruth_iff hx, Integer.isTruth_not]
  · cases e with
    | leaf | unary => cases hop
    | binary op options payload lhs rhs =>
      cases hop
      refine ⟨Expr.spelling forest, lhs, rhs, ?_, fun memory row => ?_⟩
      · rw [hspells, Expr.stream, List.append_assoc, List.append_assoc, List.append_assoc]
        rfl
      · obtain ⟨a, b, x, y, hsides, hta, htb, hx, hy, hresult⟩ :=
          Expr.exists_of_value_logic (hvalue memory row)
        refine ⟨a, b, x, y, hsides, hta, htb, hx, hy, hresult, ?_⟩
        rw [hresult, Value.isTruth_iff rfl, Integer.isTruth_logic]

/-- The disjunction of a 32-bit column with a comparison is a truth value on the rows on which the
column is zero or one. -/
theorem isTruth_result_iff_or :
    let column : Expr := .leaf .column 2 (.int 0)
    let e : Expr := .binary (.logic .or) 0 (.int 0) column
      (.binary (.order .gt) 0 (.int 0) column (.leaf .literal 2 (.int 0)))
    ∃ p, compile true e.stream = .ok p ∧ (beforeRet e.stream).getLast? = some e.root ∧
      ∃ (below : List Instruction) (lhs rhs : Expr),
        beforeRet e.stream = below ++ lhs.stream ++ rhs.stream ++ [e.root] ∧
        ∀ memory row, ∃ a b x y, Expr.sides true memory row lhs rhs = .ok (a, b) ∧
          a.dataType.isInt32 = true ∧ b.dataType.isInt32 = true ∧
          a.word = .i32 x ∧ b.word = .i32 y ∧
          p.result memory row = ⟨a.dataType, a.provenance.join b.provenance, .i32 (x ||| y)⟩ ∧
          ((p.result memory row).IsTruth ↔
            a.dataType = .i32 ∧ Integer.IsTruth x ∧ Integer.IsTruth y) := by
  intro column e
  exact ⟨_, rfl, rfl, (isTruth_result_iff rfl rfl).2.2 .or rfl⟩

/-- The complement of a narrow column is no truth value: the complement of five is four, an 8-bit
integer. -/
theorem not_isTruth_complement :
    let memory : Memory := ⟨fun _ offset => if offset = 0 then 5 else 0, fun _ _ => 0, fun _ => 0⟩
    let stream : List Instruction := [⟨.leaf .column, 0, .int 0⟩, ⟨.unary .not, 0, .int 0⟩]
    ∃ p, compile true stream = .ok p ∧ p.dataType = .i8 ∧ p.value memory 0 = .i32 4 ∧
      ¬ (p.result memory 0).IsTruth := by
  intro memory stream
  refine ⟨_, rfl, rfl, by decide, fun h => ?_⟩
  cases h.1

end Predicate

end RowFilter
